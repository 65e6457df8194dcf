import SolidityInterface.Projection.Outline
import SolidityInterface.Proofs.Declaration.Printed
import SolidityInterface.Proofs.Traverse

/-
  Projected declarations. A stub is the text of a declaration, and this module says of
  which: `function?`, `getter?` and `struct?` give the declaration that a function, a
  public variable and a struct become in an interface, if they can stand there.
  The stubs of a scope are the texts of these (`functionStubs_eq`, `getterStubs_eq`,
  `structStub_eq`). Only which structs and enums are needed depends on the uses.
-/

namespace SolidityInterface

namespace Scope

variable (s : Scope)

/-- What a type becomes as that of a member of a struct or of an array. -/
def memberType? : TypeName → Option TypeName
  | .named n => if s.rawOnly || s.isBlocked n then none else some (.named (s.localName n))
  | .array base length => (memberType? base).map (.array · length)
  | .mapping _ _ => none
  | .elementary name => if name = "function" then none else some (.elementary name)

/-- What a type and a location become in the signature of an external function. -/
def signature? (location : Option DataLocation) : TypeName → Option (TypeName × Option DataLocation)
  | .named n => (s.memberType? (.named n)).map fun t =>
    (t, location.or (if s.isLocalStruct (s.localName n) then some .fallback else none))
  | .array base length => (s.memberType? (.array base length)).map fun t =>
    (t, some (location.getD .fallback))
  | .mapping _ value => signature? location value
  | .elementary name => (s.memberType? (.elementary name)).map fun t =>
    (t, if name = "string" || name = "bytes" then some (location.getD .fallback) else none)

/-- What a parameter becomes in the signature of an external function. -/
def parameter? (v : Variable) : Option Variable :=
  (s.signature? (v.location.map (·.external)) v.type).map fun (type, location) =>
    { type, location, name := v.name }

/-- The parameters of the getter of a type. -/
def keys? : TypeName → Option (List Variable)
  | .mapping key value =>
    match s.parameter? { type := key }, keys? value with
    | some k, some ks => some (k :: ks)
    | _, _ => none
  | _ => some []

/-- What a function becomes in an interface. -/
def function? (f : FunctionDecl) : Option FunctionDecl :=
  match f.parameters.mapM s.parameter?, f.returns.mapM s.parameter? with
  | some parameters, some returns =>
    some { name := f.name, parameters, returns, visibility := .external, mutability := f.mutability }
  | _, _ => none

/-- The getter of a variable in an interface. -/
def getter? (v : Variable) : Option FunctionDecl :=
  match s.keys? v.type, s.parameter? { type := v.type, location := v.location } with
  | some parameters, some value =>
    some { name := v.name, parameters, returns := [value], visibility := .external,
           mutability := some .view }
  | _, _ => none

/-- What a member of a struct becomes. -/
def member? (v : Variable) : Option Variable :=
  (s.memberType? v.type).map fun type => { type, name := v.name }

/-- What a struct becomes in an interface: all its members, or nothing. -/
def struct? (d : StructDecl) : Option StructDecl := (d.members.mapM s.member?).map (⟨d.name, ·⟩)

/-! ## Types -/

variable {s}

theorem bind_fst {α β : Type} (p : StateM Uses α) (f : α → StateM Uses β) (u : Uses) :
    ((p >>= f) u).1 = (f (p u).1 (p u).2).1 := rfl

theorem memberText_eq (t : TypeName) (u : Uses) :
    (s.memberText t u).1 = (s.memberType? t).map TypeName.render := by
  induction t generalizing u with
  | elementary name =>
    simp only [memberText, memberType?]
    split <;> rfl
  | named n =>
    rw [memberText, memberType?]
    cases s.rawOnly with
    | true => rfl
    | false =>
      cases s.isBlocked n with
      | true => rfl
      | false =>
        show some (s.use n u).1.render = some (s.localName n).render
        rw [use]
        split <;> simp [*]
  | array base length ih =>
    have hbase := ih u
    rw [memberText, memberType?]
    show Option.map _ (s.memberText base u).1 = _
    rw [hbase, Option.map_map, Option.map_map]
    rfl
  | mapping key value => rfl

theorem render_located (t : TypeName) (l : Option DataLocation) :
    ({ type := t, location := l } : Variable).render
      = match l with
        | some l => located t.render l
        | none => t.render := by
  cases l <;> simp [Variable.render, Variable.words, located]

theorem locatedText_eq (location : Option DataLocation) (t : TypeName) (u : Uses) :
    (s.locatedText location t u).1
      = (s.signature? location t).map fun e => ({ type := e.1, location := e.2 } : Variable).render := by
  induction t generalizing u with
  | elementary name =>
    have htext := memberText_eq (s := s) (.elementary name) u
    rw [locatedText, signature?]
    show Option.map _ (s.memberText (.elementary name) u).1 = _
    rw [htext, Option.map_map, Option.map_map]
    cases s.memberType? (.elementary name) with
    | none => rfl
    | some t =>
      simp only [Option.map_some, Function.comp_apply, render_located]
      split <;> simp [*]
  | named n =>
    have htext := memberText_eq (s := s) (.named n) u
    rw [locatedText, signature?, Option.map_map, bind_fst, htext]
    cases s.memberType? (.named n) with
    | none => rfl
    | some t =>
      cases location with
      | some l => simp [render_located]; rfl
      | none =>
        -- The default depends on whether the name is that of a struct.
        simp only [Option.map_some, Function.comp_apply, render_located, Option.none_or]
        split <;> rfl
  | array base length ih =>
    have htext := memberText_eq (s := s) (.array base length) u
    rw [locatedText, signature?]
    show Option.map _ (s.memberText (.array base length) u).1 = _
    rw [htext, Option.map_map, Option.map_map]
    cases s.memberType? (.array base length) with
    | none => rfl
    | some t => simp [render_located]
  | mapping key value _ ih => exact ih u

theorem render_named (t : TypeName) (l : Option DataLocation) (n : String) :
    ({ type := t, location := l, name := some n } : Variable).render
      = ({ type := t, location := l } : Variable).render ++ " " ++ n := by
  cases l <;> simp [Variable.render, Variable.words, String.append_assoc]

theorem typeText_eq (t : TypeName) (location : Option DataLocation) (u : Uses) :
    (s.typeText t location u).1 = (s.parameter? { type := t, location }).map Variable.render := by
  rw [typeText, locatedText_eq, parameter?, Option.map_map]
  rfl

theorem keyTexts_eq (t : TypeName) (u : Uses) :
    (s.keyTexts t u).1 = (s.keys? t).map fun vs => vs.map Variable.render := by
  induction t generalizing u with
  | elementary name => rfl
  | named n => rfl
  | array base length => rfl
  | mapping key value _ ih =>
    rw [keyTexts, keys?, bind_fst, bind_fst, typeText_eq, ih]
    cases s.parameter? { type := key } with
    | none => rfl
    | some k => cases s.keys? value <;> rfl

theorem parameterTexts_eq {vs : List Variable} (hvs : ∀ v ∈ vs, v.name ≠ some "") (u : Uses) :
    (s.parameterTexts vs u).1 = (vs.mapM s.parameter?).map fun vs => vs.map Variable.render := by
  induction vs generalizing u with
  | nil => rfl
  | cons v vs ih =>
    have hname := hvs v (by simp)
    rw [parameterTexts, bind_fst, typeText_eq, List.mapM_cons, parameter?, parameter?]
    dsimp only
    cases s.signature? (v.location.map (·.external)) v.type with
    | none => rfl
    | some e =>
      have hrest := ih (fun w hw => hvs w (by simp [hw])) (s.typeText v.type v.location u).2
      show Option.map _ (s.parameterTexts vs _).1 = _
      rw [hrest]
      cases vs.mapM s.parameter? with
      | none => rfl
      | some ws =>
        cases hn : v.name with
        | none => rfl
        | some n =>
          have hempty : n.isEmpty = false := by simpa [hn] using hname
          simp [hempty, render_named]

/-- Whether parameters have texts does not depend on their names. -/
theorem parameterTexts_isSome (vs : List Variable) (u : Uses) :
    (s.parameterTexts vs u).1.isSome = (vs.mapM s.parameter?).isSome := by
  induction vs generalizing u with
  | nil => rfl
  | cons v vs ih =>
    rw [parameterTexts, bind_fst, typeText_eq, List.mapM_cons, parameter?, parameter?]
    dsimp only
    cases s.signature? (v.location.map (·.external)) v.type with
    | none => rfl
    | some e =>
      show (Option.map _ (s.parameterTexts vs _).1).isSome = _
      rw [Option.isSome_map, ih]
      cases vs.mapM s.parameter? <;> rfl

/-! ## Stubs -/

theorem each_eq {α β : Type} {p : α → StateM Uses (Option β)} {g : α → Option β} {l : List α}
    (h : ∀ a ∈ l, ∀ u, (p a u).1 = g a) (u : Uses) : (each p l u).1 = l.filterMap g := by
  induction l generalizing u with
  | nil => rfl
  | cons a l ih =>
    rw [each, bind_fst, h a (by simp)]
    show (g a).toList ++ (each p l _).1 = _
    rw [ih fun b hb => h b (by simp [hb])]
    cases hg : g a <;> simp [hg]

theorem tentatively_fst {α : Type} (p : StateM Uses (Option α)) (u : Uses) :
    (s.tentatively p u).1 = (p s.baseUses).1 := by
  rw [tentatively]
  split <;> simp [*]

theorem functionStub_eq {f : FunctionDecl} (hparameters : ∀ v ∈ f.parameters, v.name ≠ some "")
    (hreturns : ∀ v ∈ f.returns, v.name ≠ some "") (u : Uses) :
    (s.functionStub f u).1 = (s.function? f).map FunctionDecl.render := by
  rw [functionStub, tentatively_fst, bind_fst, bind_fst, parameterTexts_eq hparameters,
    parameterTexts_eq hreturns, function?]
  cases f.parameters.mapM s.parameter? with
  | none => rfl
  | some ps =>
    cases hrs : f.returns.mapM s.parameter? with
    | none => rfl
    | some rs =>
      have hempty : f.returns.isEmpty = rs.isEmpty := by
        have hlength := (forall₂_of_mapM hrs).length_eq
        rw [Bool.eq_iff_iff, List.isEmpty_iff_length_eq_zero, List.isEmpty_iff_length_eq_zero, hlength]
      have hheader : functionHeader f (ps.map Variable.render) (rs.map Variable.render)
          = FunctionDecl.render
              { name := f.name, parameters := ps, returns := rs, visibility := .external
                mutability := f.mutability } := by
        cases hmutability : f.mutability <;>
          simp only [functionHeader, FunctionDecl.render, hempty, hmutability]
      exact congrArg some hheader

/-- A function has a stub just if it can stand in an interface. -/
theorem functionStub_isSome (f : FunctionDecl) (u : Uses) :
    (s.functionStub f u).1.isSome = (s.function? f).isSome := by
  have hfunction : (s.function? f).isSome
      = ((f.parameters.mapM s.parameter?).isSome && (f.returns.mapM s.parameter?).isSome) := by
    rw [function?]
    cases f.parameters.mapM s.parameter? <;> cases f.returns.mapM s.parameter? <;> rfl
  rw [functionStub, tentatively_fst, bind_fst, bind_fst, hfunction,
    ← parameterTexts_isSome f.parameters s.baseUses,
    ← parameterTexts_isSome f.returns (s.parameterTexts f.parameters s.baseUses).2]
  cases (s.parameterTexts f.parameters s.baseUses).1 <;>
    cases (s.parameterTexts f.returns (s.parameterTexts f.parameters s.baseUses).2).1 <;> rfl

theorem getterStub_eq (v : Variable) (u : Uses) :
    (s.getterStub v u).1 = (s.getter? v).map FunctionDecl.render := by
  rw [getterStub, tentatively_fst, bind_fst, bind_fst, keyTexts_eq, typeText_eq, getter?]
  cases s.keys? v.type with
  | none => rfl
  | some ks =>
    cases s.parameter? { type := v.type, location := v.location } with
    | none => rfl
    | some value =>
      show some _ = some _
      simp [FunctionDecl.render, StateMutability.word, ← String.toList_inj]

/-- The stubs of the functions are the texts of what the exposed functions become. -/
theorem functionStubs_eq (hs : ∀ f ∈ s.record.exposedFunctions,
      (∀ v ∈ f.parameters, v.name ≠ some "") ∧ ∀ v ∈ f.returns, v.name ≠ some "") (u : Uses) :
    (s.functionStubs u).1 = (s.record.exposedFunctions.filterMap s.function?).map FunctionDecl.render := by
  rw [functionStubs, each_eq fun f hf u => functionStub_eq (hs f hf).1 (hs f hf).2 u]
  exact (List.map_filterMap ..).symm

/-- The stubs of the getters are the texts of what the public variables become. -/
theorem getterStubs_eq (u : Uses) :
    (s.getterStubs u).1 = (s.record.publicVariables.filterMap s.getter?).map FunctionDecl.render := by
  rw [getterStubs, each_eq fun v _ u => getterStub_eq v u]
  exact (List.map_filterMap ..).symm

theorem memberLines_eq {vs : List Variable} (hvs : ∀ v ∈ vs, v.name.isSome = true) (u : Uses) :
    (s.memberLines vs u).1
      = (vs.mapM s.member?).map fun vs => vs.map fun v => "    " ++ v.render ++ ";" := by
  induction vs generalizing u with
  | nil => rfl
  | cons v vs ih =>
    obtain ⟨n, hn⟩ := Option.isSome_iff_exists.mp (hvs v (by simp))
    rw [memberLines, bind_fst, memberText_eq, List.mapM_cons, member?]
    cases s.memberType? v.type with
    | none => rfl
    | some t =>
      have hrest := ih (fun w hw => hvs w (by simp [hw])) (s.memberText v.type u).2
      show Option.map _ (s.memberLines vs _).1 = _
      rw [hrest]
      cases vs.mapM s.member? with
      | none => rfl
      | some ws => simp [hn, Variable.render, Variable.words, String.append_assoc]

theorem structStub_eq {d : StructDecl} (hd : ∀ v ∈ d.members, v.name.isSome = true) (u : Uses) :
    (s.structStub d u).1 = (s.struct? d).map StructDecl.render := by
  rw [structStub, tentatively_fst, bind_fst, memberLines_eq hd, struct?]
  cases d.members.mapM s.member? <;> rfl

theorem struct?_name {d d' : StructDecl} (h : s.struct? d = some d') : d'.name = d.name := by
  obtain ⟨members, -, rfl⟩ := Option.map_eq_some_iff.mp h
  rfl

end Scope

end SolidityInterface
