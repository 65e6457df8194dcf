import SolidityInterface.Proofs.Projection.Uses

/-
  The names that a projection adds to the uses. A projection that has a result has met all the
  names in the types it is for, and it adds just what these register (`AddsJust`).
-/

namespace SolidityInterface

/-- The dotted names that a type brings into the signature of a function. The keys of a mapping
are not among them, since a mapping stands for its values there. -/
def TypeName.signaturePaths : TypeName → List DottedName
  | elementary _ => []
  | named path => [path]
  | array base _ => base.paths
  | mapping _ value => value.signaturePaths

/-- The dotted names in the keys of nested mappings. -/
def TypeName.keyPaths : TypeName → List DottedName
  | mapping key value => key.signaturePaths ++ value.keyPaths
  | _ => []

/-- The dotted names that some parameters bring into a signature. -/
def Variable.signaturePaths (vs : List Variable) : List DottedName :=
  vs.flatMap (·.type.signaturePaths)

namespace Scope

variable {s : Scope} {u : Uses} {n m : DottedName} {α β : Type}

/-- Whether a projection, if it has a result, adds just what some names register. -/
def AddsJust (s : Scope) (p : StateM Uses (Option α)) (names : List DottedName) : Prop :=
  ∀ u, (p u).1.isSome = true → ∀ m, m ∈ (p u).2 ↔ m ∈ u ∨ ∃ n ∈ names, s.Registers n m

theorem AddsJust.pure (o : Option α) : s.AddsJust (Pure.pure o) [] := by
  intro u _ m
  show m ∈ u ↔ _
  simp

theorem AddsJust.none {p : StateM Uses (Option α)} (h : ∀ u, (p u).1 = none) (names : List DottedName) :
    s.AddsJust p names := by
  intro u hsome
  rw [h u] at hsome
  cases hsome

theorem AddsJust.bind {p : StateM Uses (Option α)} {f : Option α → StateM Uses (Option β)}
    {names names' : List DottedName} (hp : s.AddsJust p names)
    (hf : ∀ a, s.AddsJust (f (some a)) names') (hnone : ∀ u, (f Option.none u).1 = Option.none) :
    s.AddsJust (p >>= f) (names ++ names') := by
  intro u hsome m
  rw [bind_fst] at hsome
  rw [bind_snd]
  -- Without a first result there is none at all.
  cases ha : (p u).1 with
  | none =>
    rw [ha, hnone] at hsome
    cases hsome
  | some a =>
    rw [ha] at hsome
    have hfirst := hp u (by rw [ha]; rfl) m
    rw [hf a _ hsome m, hfirst]
    simp only [List.mem_append, or_and_right, exists_or, or_assoc]

theorem AddsJust.map {p : StateM Uses (Option α)} {names : List DottedName} (hp : s.AddsJust p names)
    (g : α → β) : s.AddsJust (p >>= fun o => Pure.pure (o.map g)) names := by
  have h := hp.bind (f := fun o => Pure.pure (o.map g)) (fun _ => .pure _) (fun _ => rfl)
  rwa [List.append_nil] at h

/-- Two projections in a row that are both tried have a result only together. -/
theorem AddsJust.both {γ : Type} {p : StateM Uses (Option α)} {q : StateM Uses (Option β)}
    {f : Option α → Option β → Option γ} {names names' : List DottedName} (hp : s.AddsJust p names)
    (hq : s.AddsJust q names') (hleft : ∀ b, f Option.none b = Option.none)
    (hright : ∀ a, f (some a) Option.none = Option.none) :
    s.AddsJust (p >>= fun a => q >>= fun b => Pure.pure (f a b)) (names ++ names') := by
  refine hp.bind (fun a => ?_) fun u => hleft _
  have h := hq.bind (f := fun b => Pure.pure (f (some a) b)) (fun _ => .pure _) fun _ => hright a
  rwa [List.append_nil] at h

theorem memberText_adds (s : Scope) (t : TypeName) : s.AddsJust (s.memberText t) t.paths := by
  induction t with
  | elementary name => exact .pure _
  | named n =>
    cases hraw : s.rawOnly with
    | true => exact .none (fun u => by simp only [memberText, hraw, if_true]; rfl) _
    | false =>
      cases hblocked : s.isBlocked n with
      | true => exact .none (fun u => by simp only [memberText, hraw, hblocked]; rfl) _
      | false =>
        intro u _ m
        have hstate : (s.memberText (.named n) u).2 = (s.use n u).2 := by
          simp only [memberText, hraw, hblocked, Bool.false_eq_true, if_false]
          rfl
        rw [hstate, mem_use]
        simp [TypeName.paths]
  | array base length ih => exact ih.map _
  | mapping key value => exact .none (fun _ => rfl) _

theorem locatedText_adds (location : Option DataLocation) (t : TypeName) :
    s.AddsJust (s.locatedText location t) t.signaturePaths := by
  induction t with
  | elementary name => exact (memberText_adds s (.elementary name)).map _
  | named n =>
    refine (memberText_adds s (.named n)).bind (?_ : ∀ text, s.AddsJust _ []) fun _ => rfl
    intro text
    cases location with
    | some l => exact .pure _
    | none =>
      dsimp only
      split <;> exact .pure _
  | array base length => exact (memberText_adds s (.array base length)).map _
  | mapping key value _ ih => exact ih

theorem typeText_adds (t : TypeName) (location : Option DataLocation) :
    s.AddsJust (s.typeText t location) t.signaturePaths := locatedText_adds _ t

theorem keyTexts_adds (t : TypeName) : s.AddsJust (s.keyTexts t) t.keyPaths := by
  induction t with
  | mapping key value _ ih =>
    rw [keyTexts]
    exact (typeText_adds key none).both ih (fun _ => rfl) fun _ => rfl
  | _ => exact .pure _

theorem parameterTexts_adds (vs : List Variable) :
    s.AddsJust (s.parameterTexts vs) (Variable.signaturePaths vs) := by
  induction vs with
  | nil => exact .pure _
  | cons v vs ih => exact (typeText_adds _ _).bind (fun _ => ih.map _) fun _ => rfl

theorem memberLines_adds (vs : List Variable) : s.AddsJust (s.memberLines vs) (Variable.paths vs) := by
  induction vs with
  | nil => exact .pure _
  | cons v vs ih => exact (memberText_adds s _).bind (fun _ => ih.map _) fun _ => rfl

/-! ## Texts of stubs -/

/-- The text of the stub of a function, with the names that it records on the side. -/
def functionText (s : Scope) (f : FunctionDecl) : StateM Uses (Option String) := do
  let parameters ← s.parameterTexts f.parameters
  let returns ← s.parameterTexts f.returns
  return match parameters, returns with
    | some ps, some rs => some (functionHeader f ps rs)
    | _, _ => none

/-- The text of the stub of a getter, with the names that it records on the side. -/
def getterText (s : Scope) (v : Variable) : StateM Uses (Option String) := do
  let keys ← s.keyTexts v.type
  let value ← s.typeText v.type v.location
  return match keys, value with
    | some ks, some t =>
      some ("function " ++ v.name.getD "" ++ "(" ++ ", ".intercalate ks
        ++ ") external view returns (" ++ t ++ ");")
    | _, _ => none

theorem functionText_records (s : Scope) (f : FunctionDecl) : Records (s.functionText f) :=
  .bind (parameterTexts_records _) fun _ => .bind (parameterTexts_records _) fun _ => .pure _

theorem getterText_records (s : Scope) (v : Variable) : Records (s.getterText v) :=
  .bind (keyTexts_records _) fun _ => .bind (typeText_records _ _) fun _ => .pure _

theorem functionText_adds (s : Scope) (f : FunctionDecl) : s.AddsJust (s.functionText f)
    (Variable.signaturePaths f.parameters ++ Variable.signaturePaths f.returns) :=
  (parameterTexts_adds _).both (parameterTexts_adds _) (fun _ => rfl) fun _ => rfl

theorem getterText_adds (s : Scope) (v : Variable) :
    s.AddsJust (s.getterText v) (v.type.keyPaths ++ v.type.signaturePaths) :=
  (keyTexts_adds _).both (typeText_adds _ _) (fun _ => rfl) fun _ => rfl

end Scope

end SolidityInterface
