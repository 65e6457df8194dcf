import SolidityInterface.Proofs.Projection.Recording

/-
  The uses of a projection. A projection only adds to them (`Grows`), and it adds the head
  of every name in a stub that is kept. So whatever a stub mentions is covered by the
  uses at the end (`Covers`), which decide what is imported and declared again.
-/

namespace SolidityInterface

/-- The dotted names in a type. -/
def TypeName.paths : TypeName → List DottedName
  | elementary _ => []
  | named path => [path]
  | array base _ => base.paths
  | mapping key value => key.paths ++ value.paths

/-- The dotted names in the types of some variables. -/
def Variable.paths (vs : List Variable) : List DottedName := vs.flatMap (·.type.paths)

/-- The dotted names in the types of a member. -/
def Member.paths : Member → List DottedName
  | function f => Variable.paths (f.parameters ++ f.returns)
  | state vs => Variable.paths vs
  | struct d => Variable.paths d.members
  | enum _ => []

namespace Variable

@[simp] theorem paths_nil : paths [] = [] := rfl

@[simp] theorem paths_cons (v : Variable) (vs : List Variable) :
    paths (v :: vs) = v.type.paths ++ paths vs := List.flatMap_cons ..

@[simp] theorem paths_append (vs ws : List Variable) : paths (vs ++ ws) = paths vs ++ paths ws :=
  List.flatMap_append ..

end Variable

namespace Scope

variable {s : Scope} {u u' : Uses} {n : DottedName}

/-- Whether a name may stand in an interface with the given uses: its head is used, and a
plain name is not that of a struct which cannot be declared again. -/
structure Covers (s : Scope) (u : Uses) (n : DottedName) : Prop where
  raw : s.rawOnly = false
  head : ∀ {h : String}, n.head? = some h → [h] ∈ u
  plain : ∀ {h : String}, n = [h] → h ∉ s.blocked

theorem Covers.mono (h : s.Covers u n) (hu : u ⊆ u') : s.Covers u' n :=
  ⟨h.raw, fun hn => hu (h.head hn), h.plain⟩

/-! ## What is kept is covered -/

theorem covers_use (hraw : s.rawOnly = false) (hfree : s.isBlocked n = false) (u : Uses) :
    s.Covers (s.use n u).2 (s.localName n) := by
  refine ⟨hraw, fun hn => mem_use.mpr (.inr (.inr ⟨_, hn, rfl⟩)), ?_⟩
  intro h hn hblocked
  rw [isBlocked, Record.isAmong] at hfree
  have hlocal : s.record.localName n = [h] := hn
  simp [hlocal, hblocked] at hfree

theorem covers_memberText {t t' : TypeName} (h : s.memberType? t = some t') (u : Uses) :
    ∀ n ∈ t'.paths, s.Covers (s.memberText t u).2 n := by
  induction t generalizing t' with
  | elementary name =>
    rw [memberType?] at h
    split at h
    · simp at h
    · cases h
      simp [TypeName.paths]
  | named n =>
    rw [memberType?] at h
    split at h
    · simp at h
    · rename_i hkept
      cases h
      simp only [Bool.or_eq_true, not_or, Bool.not_eq_true] at hkept
      obtain ⟨hraw, hfree⟩ := hkept
      have hstate : (s.memberText (.named n) u).2 = (s.use n u).2 := by
        simp only [memberText, hraw, hfree, Bool.false_eq_true, if_false]
        rfl
      rw [hstate]
      intro m hm
      obtain rfl := List.mem_singleton.mp hm
      exact covers_use hraw hfree u
  | array base length ih =>
    rw [memberType?] at h
    obtain ⟨base', hbase, rfl⟩ := Option.map_eq_some_iff.mp h
    exact fun n hn => ih hbase n hn
  | mapping key value => simp [memberType?] at h

/-- The location of a type adds nothing to the uses. -/
theorem locatedText_snd (location : Option DataLocation) (n : DottedName) (u : Uses) :
    (s.locatedText location (.named n) u).2 = (s.memberText (.named n) u).2 := by
  rw [locatedText, bind_snd]
  cases (s.memberText (.named n) u).1 with
  | none => rfl
  | some text =>
    cases location with
    | some l => rfl
    | none =>
      dsimp only
      split <;> rfl

theorem covers_locatedText {location : Option DataLocation} {t : TypeName}
    {e : TypeName × Option DataLocation} (h : s.signature? location t = some e) (u : Uses) :
    ∀ n ∈ e.1.paths, s.Covers (s.locatedText location t u).2 n := by
  induction t with
  | elementary name =>
    obtain ⟨t', ht, rfl⟩ := Option.map_eq_some_iff.mp h
    exact covers_memberText ht u
  | named n =>
    obtain ⟨t', ht, rfl⟩ := Option.map_eq_some_iff.mp h
    rw [locatedText_snd]
    exact covers_memberText ht u
  | array base length =>
    obtain ⟨t', ht, rfl⟩ := Option.map_eq_some_iff.mp h
    exact covers_memberText ht u
  | mapping key value _ ih => exact ih h

theorem covers_typeText {v w : Variable} (h : s.parameter? v = some w) (u : Uses) :
    ∀ n ∈ w.type.paths, s.Covers (s.typeText v.type v.location u).2 n := by
  obtain ⟨e, he, rfl⟩ := Option.map_eq_some_iff.mp h
  exact covers_locatedText he u

theorem covers_keyTexts {t : TypeName} {ws : List Variable} (h : s.keys? t = some ws) (u : Uses) :
    ∀ n ∈ Variable.paths ws, s.Covers (s.keyTexts t u).2 n := by
  induction t generalizing ws u with
  | mapping key value _ ih =>
    rw [keys?] at h
    split at h
    · rename_i k ks hk hks
      cases h
      intro n hn
      rw [Variable.paths_cons, List.mem_append] at hn
      rcases hn with hn | hn
      · exact (covers_typeText hk u n hn).mono ((keyTexts_records value).grows _)
      · exact ih hks _ n hn
    · simp at h
  | _ =>
    obtain rfl : [] = ws := by simpa [keys?] using h
    simp

theorem covers_parameterTexts {vs ws : List Variable} (h : vs.mapM s.parameter? = some ws)
    (u : Uses) : ∀ n ∈ Variable.paths ws, s.Covers (s.parameterTexts vs u).2 n := by
  have hall := forall₂_of_mapM h
  clear h
  induction hall generalizing u with
  | nil => simp
  | @cons v w vs ws hv hvs ih =>
    -- The first type has a text, so the projection goes on to the others with its uses.
    have htext : (s.typeText v.type v.location u).1.isSome = true := by
      have hplain : (s.parameter? { type := v.type, location := v.location }).isSome = true := by
        obtain ⟨e, he, -⟩ := Option.map_eq_some_iff.mp hv
        simp [parameter?, he]
      rw [typeText_eq, Option.isSome_map, hplain]
    obtain ⟨text, htext⟩ := Option.isSome_iff_exists.mp htext
    have hstate : (s.parameterTexts (v :: vs) u).2
        = (s.parameterTexts vs (s.typeText v.type v.location u).2).2 := by
      rw [parameterTexts, bind_snd, htext]
      rfl
    intro n hn
    rw [hstate]
    rw [Variable.paths_cons, List.mem_append] at hn
    rcases hn with hn | hn
    · exact (covers_typeText hv u n hn).mono ((parameterTexts_records vs).grows _)
    · exact ih _ n hn

theorem covers_memberLines {vs ws : List Variable} (h : vs.mapM s.member? = some ws) (u : Uses) :
    ∀ n ∈ Variable.paths ws, s.Covers (s.memberLines vs u).2 n := by
  have hall := forall₂_of_mapM h
  clear h
  induction hall generalizing u with
  | nil => simp
  | @cons v w vs ws hv hvs ih =>
    obtain ⟨t, ht, rfl⟩ := Option.map_eq_some_iff.mp hv
    have hstate : (s.memberLines (v :: vs) u).2
        = (s.memberLines vs (s.memberText v.type u).2).2 := by
      rw [memberLines, bind_snd, memberText_eq, ht]
      rfl
    intro n hn
    rw [hstate]
    rw [Variable.paths_cons, List.mem_append] at hn
    rcases hn with hn | hn
    · exact (covers_memberText ht u n hn).mono ((memberLines_records vs).grows _)
    · exact ih _ n hn

/-- What is used on the side stays used if the stub is kept. -/
theorem subset_tentatively {α : Type} {p : StateM Uses (Option α)}
    (h : (s.tentatively p u).1.isSome = true) : (p s.baseUses).2 ⊆ (s.tentatively p u).2 := by
  intro m hm
  rw [tentatively] at h ⊢
  split at h
  · rename_i a scratch hp
    rw [hp] at hm
    exact Distinct.mem_addAll.mpr (.inr hm)
  · simp at h

theorem covers_functionStub {f f' : FunctionDecl} (h : s.function? f = some f') (u : Uses) :
    ∀ n ∈ (Member.function f').paths, s.Covers (s.functionStub f u).2 n := by
  -- The uses on the side are added only if there is a stub.
  have hkept : (s.functionStub f u).1.isSome = true := by
    rw [functionStub_isSome, h]
    rfl
  intro n hn
  refine Covers.mono ?_ (subset_tentatively hkept)
  rw [function?] at h
  split at h
  · rename_i ps rs hps hrs
    cases h
    rw [Member.paths, Variable.paths_append, List.mem_append] at hn
    rcases hn with hn | hn
    · exact (covers_parameterTexts hps _ n hn).mono ((parameterTexts_records f.returns).grows _)
    · exact covers_parameterTexts hrs _ n hn
  · simp at h

theorem covers_getterStub {v : Variable} {f : FunctionDecl} (h : s.getter? v = some f) (u : Uses) :
    ∀ n ∈ (Member.function f).paths, s.Covers (s.getterStub v u).2 n := by
  have hkept : (s.getterStub v u).1.isSome = true := by
    rw [getterStub_eq, h]
    rfl
  intro n hn
  refine Covers.mono ?_ (subset_tentatively hkept)
  rw [getter?] at h
  split at h
  · rename_i ks value hks hvalue
    cases h
    rw [Member.paths, Variable.paths_append, List.mem_append] at hn
    rcases hn with hn | hn
    · exact (covers_keyTexts hks _ n hn).mono ((typeText_records v.type v.location).grows _)
    · rw [Variable.paths_cons, Variable.paths_nil, List.append_nil] at hn
      exact covers_typeText hvalue _ n hn
  · simp at h

theorem covers_structStub {d d' : StructDecl} (hd : ∀ v ∈ d.members, v.name.isSome = true)
    (h : s.struct? d = some d') (u : Uses) :
    ∀ n ∈ (Member.struct d').paths, s.Covers (s.structStub d u).2 n := by
  have hkept : (s.structStub d u).1.isSome = true := by
    rw [structStub_eq hd, h]
    rfl
  obtain ⟨members, hmembers, rfl⟩ := Option.map_eq_some_iff.mp h
  intro n hn
  exact (covers_memberLines hmembers _ n hn).mono (subset_tentatively hkept)

/-- What the stubs of some items mention is covered once all have been projected. -/
theorem covers_each {α β γ : Type} {p : α → StateM Uses (Option β)} {g : α → Option γ}
    {paths : γ → List DottedName} {l : List α} (hrecords : ∀ a, Records (p a))
    (hp : ∀ a ∈ l, ∀ b, g a = some b → ∀ u, ∀ n ∈ paths b, s.Covers (p a u).2 n) (u : Uses) :
    ∀ b ∈ l.filterMap g, ∀ n ∈ paths b, s.Covers (each p l u).2 n := by
  induction l generalizing u with
  | nil => simp
  | cons a l ih =>
    intro b hb n hn
    obtain ⟨c, hc, hcb⟩ := List.mem_filterMap.mp hb
    rcases List.mem_cons.mp hc with rfl | hc
    · exact (hp c (by simp) b hcb u n hn).mono ((each_records hrecords l).grows _)
    · exact ih (fun e he => hp e (by simp [he])) _ b (List.mem_filterMap.mpr ⟨c, hc, hcb⟩) n hn

theorem covers_getterStubs (s : Scope) (u : Uses) :
    ∀ f ∈ s.record.publicVariables.filterMap s.getter?, ∀ n ∈ (Member.function f).paths,
      s.Covers (s.getterStubs u).2 n :=
  covers_each (fun _ => tentatively_records _) (fun _ _ _ hv u => covers_getterStub hv u) u

theorem covers_functionStubs (s : Scope) (u : Uses) :
    ∀ f ∈ s.record.exposedFunctions.filterMap s.function?, ∀ n ∈ (Member.function f).paths,
      s.Covers (s.functionStubs u).2 n :=
  covers_each (fun _ => tentatively_records _) (fun _ _ _ hf u => covers_functionStub hf u) u

end Scope

end SolidityInterface
