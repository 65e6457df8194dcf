import SolidityInterface.Proofs.Declaration.Sound
import SolidityInterface.Source.Record

/-
  What the declarations of a source are made of. Names are words that can be names,
  built-in types are words of their class, locations are keywords, and the length of an
  array is never the empty text. `Record.wellFormed_of_ofSource` gives this for a record.
-/

namespace SolidityInterface

open Token (Kind)

/-! ## Well-formed declarations -/

/-- Whether the names in a type are names. -/
def TypeName.WellFormed : TypeName → Prop
  | elementary name =>
    name = "function" ∨ name = "address payable" ∨
      (IsWord name.toList ∧ Word.kind name = .elementary)
  | named path => path ≠ [] ∧ ∀ n ∈ path, IsName n
  | array base length => base.WellFormed ∧ length ≠ some ""
  | mapping key value => key.WellFormed ∧ value.WellFormed

/-- Whether the names in a variable are names and its location is a keyword. -/
structure Variable.WellFormed (v : Variable) : Prop where
  type : v.type.WellFormed
  name : ∀ n ∈ v.name, IsName n
  location : ∀ w, v.location ≠ some (.other w)

/-- Whether a variable is well-formed and has a name. -/
def Variable.Named (v : Variable) : Prop := v.WellFormed ∧ v.name.isSome = true

/-- Whether the names in a function are names. -/
structure FunctionDecl.WellFormed (f : FunctionDecl) : Prop where
  name : ∀ n ∈ f.name, IsName n
  parameters : ∀ v ∈ f.parameters, v.WellFormed
  returns : ∀ v ∈ f.returns, v.WellFormed

/-- Whether the names in a struct are names. -/
structure StructDecl.WellFormed (d : StructDecl) : Prop where
  name : IsName d.name
  members : ∀ v ∈ d.members, v.Named

/-- Whether the names in an enum are names. -/
structure EnumDecl.WellFormed (d : EnumDecl) : Prop where
  name : IsName d.name
  members : ∀ n ∈ d.members, IsName n

/-- Whether a member of a contract is well-formed. -/
def Member.WellFormed : Member → Prop
  | function f => f.WellFormed
  | state vs => ∀ v ∈ vs, v.Named
  | struct d => d.WellFormed
  | enum d => d.WellFormed

/-- Whether a contract is well-formed. -/
structure Contract.WellFormed (c : Contract) : Prop where
  name : IsName c.name
  members : ∀ m ∈ c.members, m.WellFormed

/-- Whether a pragma is one that the scanner can find. -/
def PragmaDirective.WellFormed (p : PragmaDirective) : Prop :=
  Spells.IsPragma p.name.toList p.value.toList

/-- Whether the declarations of a file are well-formed. -/
structure SourceUnit.WellFormed (u : SourceUnit) : Prop where
  pragmas : ∀ p ∈ u.pragmas, p.WellFormed
  contracts : ∀ c ∈ u.contracts, c.WellFormed
  structs : ∀ d ∈ u.structs, d.WellFormed
  enums : ∀ d ∈ u.enums, d.WellFormed

/-! ## What the grammar gives -/

namespace Sound

variable {P : Token → Prop}

theorem dottedName : Sound P Parser.dottedName fun path => path ≠ [] ∧ ∀ n ∈ path, IsName n := by
  refine name.bind fun n hn => iterate ⟨by simp, by simpa using hn⟩ ?_
  rintro path ⟨hne, hpath⟩
  refine kind_bind fun k => ite (fun hk => ?_) fun _ => pure' (by simp)
  refine (skip (by rw [hk]; decide)).bind fun _ _ => name.bind fun m hm => pure' (of_some ?_)
  refine ⟨by simp, fun n hn => ?_⟩
  rcases List.mem_append.mp hn with hn | hn
  · exact hpath n hn
  · exact (List.mem_singleton.mp hn) ▸ hm

theorem functionType : Sound P Parser.functionType TypeName.WellFormed := by
  refine (expect (by decide)).discard.bind fun _ _ => skipGroup.bind fun _ _ => ?_
  have hround : ∀ s, True → Sound (fun _ => True) (Parser.typeAttributeRound s)
      fun o => ∀ t ∈ o, True := by
    intro s _
    refine kind_bind fun k => ite (fun hk => ?_) fun _ => pure' (by simp)
    refine (skip ?_).bind fun _ _ => pure' (by simp)
    rintro rfl
    simp [Parser.visibility?, Parser.stateMutability?] at hk
  refine (iterate trivial hround).bind fun _ _ => kind_bind fun k => ?_
  have hresult : Sound (fun _ => True) (pure (TypeName.elementary "function")) TypeName.WellFormed :=
    pure' (.inl rfl)
  refine ite (fun hk => ?_) fun _ => hresult.weaken fun _ _ => trivial
  exact (skip (by rw [hk]; decide)).bind fun _ _ => skipGroup.bind fun _ _ => hresult

theorem mappingType {inner : Parser TypeName} (h : Sound (fun _ => True) inner TypeName.WellFormed) :
    Sound P (Parser.mappingType inner) TypeName.WellFormed := by
  refine (expect (by decide)).discard.bind fun _ _ => (expect (by decide)).discard.bind fun _ _ => ?_
  refine h.bind fun key hkey => skipName.bind fun _ _ => ?_
  refine (expect (by decide)).discard.bind fun _ _ => ?_
  refine h.bind fun value hvalue => skipName.bind fun _ _ => ?_
  exact (expect (by decide)).discard.bind fun _ _ => pure' ⟨hkey, hvalue⟩

theorem bracketRound {t : TypeName} (ht : t.WellFormed) :
    Sound P (Parser.bracketRound t) fun o => ∀ u ∈ o, u.WellFormed := by
  refine kind_bind fun k => ite (fun hk => ?_) fun _ => pure' (by simp)
  refine (skip (by rw [hk]; decide)).bind fun _ _ => lengthText.bind fun length _ => ?_
  refine (expect (by decide)).discard.bind fun _ _ => pure' (of_some ⟨ht, ?_⟩)
  split
  · simp
  · rename_i hempty
    simpa using hempty

theorem baseType {inner : Parser TypeName} (h : Sound (fun _ => True) inner TypeName.WellFormed) :
    Sound P (Parser.baseType inner) TypeName.WellFormed := by
  refine current_bind fun token _ hcases => ?_
  split
  · exact mappingType h
  · exact functionType
  · rename_i hkind
    have hname : (TypeName.elementary token.text).WellFormed := by
      rcases hcases with hsolid | hpragma
      · obtain ⟨hword, hk⟩ := hsolid.2 (.inr hkind)
        exact .inr (.inr ⟨hword, hk.trans hkind⟩)
      · have hk := (Prod.mk.inj hpragma).1
        simp [hkind] at hk
    have hadvance : Sound (· = token) (Functor.discard Parser.advance) fun _ => True := by
      refine discard (advance ?_)
      rintro t rfl
      rw [hkind]
      decide
    refine hadvance.bind fun _ _ => kind_bind fun k => ite (fun hk => ?_) fun _ => pure' hname
    simp only [Bool.and_eq_true, decide_eq_true_eq] at hk
    exact (skip (by rw [hk.2]; decide)).bind fun _ _ => pure' (.inr (.inl rfl))
  · refine ite (fun _ => ?_) fun _ => throw _
    exact dottedName.bind fun path hpath => pure' hpath

theorem typeNameWithin (n : Nat) : Sound P (Parser.typeNameWithin n) TypeName.WellFormed := by
  induction n generalizing P with
  | zero => exact throw _
  | succ n ih =>
    exact (baseType ih).bind fun base hbase => iterate hbase fun t ht => bracketRound ht

theorem typeName : Sound P Parser.typeName TypeName.WellFormed :=
  fun r t r' hr hP h => typeNameWithin (r.left + 1) r t r' hr hP h

/-! ### Variables -/

theorem isSome_location? {k : Kind} {l : DataLocation} (h : Parser.location? k = some l) :
    k ≠ .kwPragma ∧ ∀ w, l ≠ .other w := by
  cases k <;> simp [Parser.location?] at h <;> subst h <;> simp

theorem parameterWordRound {v : Variable} (hv : v.WellFormed) :
    Sound P (Parser.parameterWordRound v) fun o => ∀ u ∈ o, u.WellFormed := by
  refine kind_bind fun k => ?_
  split
  · rename_i l hl
    obtain ⟨hk, hlocation⟩ := isSome_location? hl
    refine (skip hk).bind fun _ _ => pure' (of_some ⟨hv.type, hv.name, ?_⟩)
    intro w hw
    exact hlocation w (by simpa using hw)
  · refine ite (fun hk => ?_) fun _ => pure' (by simp)
    exact (skip (by rw [hk]; decide)).bind fun _ _ => pure' (of_some ⟨hv.type, hv.name, hv.location⟩)

theorem parameter : Sound P Parser.parameter Variable.WellFormed := by
  refine typeName.bind fun t ht => ?_
  have hstart : Variable.WellFormed { type := t } := ⟨ht, by simp, by simp⟩
  refine (iterate hstart fun v hv => parameterWordRound hv).bind fun v hv => kind_bind fun k => ?_
  refine ite (fun hk => ?_) fun _ => pure' hv
  have hne : ∀ t : Token, t.kind = k → t.kind ≠ .kwPragma := by
    rintro t rfl hp
    simp [hp, Kind.isName] at hk
  refine (advance hne).bind fun token htoken => pure' ⟨hv.type, ?_, hv.location⟩
  obtain ⟨rfl, hsolid⟩ := htoken
  obtain ⟨hword, hkind⟩ := hsolid.2 (.inl hk)
  exact of_some ⟨hword, hkind ▸ hk⟩

theorem forall_append {α : Type} {Q : α → Prop} {l : List α} {a : α} (hl : ∀ b ∈ l, Q b) (ha : Q a) :
    ∀ b ∈ l ++ [a], Q b := by
  intro b hb
  rcases List.mem_append.mp hb with hb | hb
  · exact hl b hb
  · exact (List.mem_singleton.mp hb) ▸ ha

theorem parameterList : Sound P Parser.parameterList fun vs => ∀ v ∈ vs, v.WellFormed := by
  refine (expect (by decide)).discard.bind fun _ _ => ?_
  have hround : ∀ vs : List Variable, (∀ v ∈ vs, v.WellFormed) → Sound (fun _ => True)
      (Parser.parameterRound vs) fun o => ∀ us ∈ o, ∀ u ∈ us, u.WellFormed := by
    intro vs hvs
    refine kind_bind fun k => ?_
    split
    · exact pure' (by simp)
    · exact pure' (by simp)
    · exact parameter.bind fun v hv => skipComma.bind fun _ _ => pure' (of_some (forall_append hvs hv))
  exact (iterate (by simp) hround).bind fun vs hvs =>
    (expect (by decide)).discard.bind fun _ _ => pure' hvs

theorem mode?_ne {k : Kind} {m : StorageMode} (h : Parser.mode? k = some m) : k ≠ .kwPragma := by
  rintro rfl
  simp [Parser.mode?] at h

theorem visibility?_ne {k : Kind} {v : Visibility} (h : Parser.visibility? k = some v) :
    k ≠ .kwPragma := by
  rintro rfl
  simp [Parser.visibility?] at h

theorem stateMutability?_ne {k : Kind} {m : StateMutability}
    (h : Parser.stateMutability? k = some m) : k ≠ .kwPragma := by
  rintro rfl
  simp [Parser.stateMutability?] at h

theorem variableWordRound {v : Variable} (hv : v.WellFormed) :
    Sound P (Parser.variableWordRound v) fun o => ∀ u ∈ o, u.WellFormed := by
  have hsame : ∀ u : Variable, u.type = v.type → u.name = v.name → u.location = v.location →
      u.WellFormed := by
    intro u htype hname hlocation
    exact ⟨htype ▸ hv.type, hname ▸ hv.name, hlocation ▸ hv.location⟩
  refine kind_bind fun k => ite (fun hk => ?_) fun _ => ?_
  · exact (skip (by rw [hk]; decide)).bind fun _ _ => skipArguments.bind fun _ _ => pure' (of_some hv)
  split
  · rename_i m hm
    exact (skip (mode?_ne hm)).bind fun _ _ => pure' (of_some (hsame _ rfl rfl rfl))
  split
  · exact pure' (by simp)
  · rename_i visibility hvisibility
    exact (skip (visibility?_ne hvisibility)).bind fun _ _ => pure' (of_some (hsame _ rfl rfl rfl))
  · exact pure' (by simp)

theorem stateVariable : Sound P Parser.stateVariable Variable.Named := by
  refine current_bind fun start _ _ => typeName.bind fun t ht => ?_
  have hstart : Variable.WellFormed { type := t } := ⟨ht, by simp, by simp⟩
  refine (iterate hstart fun v hv => variableWordRound hv).bind fun v hv => name.bind fun n hn => ?_
  have hresult : Variable.Named { v with name := some n } :=
    ⟨⟨hv.type, of_some hn, hv.location⟩, rfl⟩
  refine kind_bind fun k => ite (fun _ => ?_) fun _ => ?_
  · exact skipStatement.bind fun _ _ => pure' hresult
  · exact (expect (by decide)).discard.bind fun _ _ => pure' hresult

/-! ### Structs, enums and functions -/

theorem struct : Sound P Parser.struct StructDecl.WellFormed := by
  have hround : ∀ vs : List Variable, (∀ v ∈ vs, v.Named) → Sound (fun _ => True)
      (Parser.structMemberRound vs) fun o => ∀ us ∈ o, ∀ u ∈ us, u.Named := by
    intro vs hvs
    refine kind_bind fun k => ?_
    split
    · exact pure' (by simp)
    · exact pure' (by simp)
    · refine typeName.bind fun t ht => name.bind fun n hn => (expect (by decide)).discard.bind fun _ _ => ?_
      have hmember : Variable.Named { type := t, name := some n } :=
        ⟨⟨ht, of_some hn, by simp⟩, rfl⟩
      exact pure' (of_some (forall_append hvs hmember))
  refine (expect (by decide)).discard.bind fun _ _ => name.bind fun n hn => ?_
  refine (expect (by decide)).discard.bind fun _ _ => (iterate (by simp) hround).bind fun vs hvs => ?_
  exact (expect (by decide)).discard.bind fun _ _ => pure' ⟨hn, hvs⟩

theorem enum : Sound P Parser.enum EnumDecl.WellFormed := by
  have hround : ∀ ns : List String, (∀ n ∈ ns, IsName n) → Sound (fun _ => True)
      (Parser.enumMemberRound ns) fun o => ∀ ms ∈ o, ∀ m ∈ ms, IsName m := by
    intro ns hns
    refine kind_bind fun k => ?_
    split
    · exact pure' (by simp)
    · exact pure' (by simp)
    · exact name.bind fun n hn => skipComma.bind fun _ _ => pure' (of_some (forall_append hns hn))
  refine (expect (by decide)).discard.bind fun _ _ => name.bind fun n hn => ?_
  refine (expect (by decide)).discard.bind fun _ _ => (iterate (by simp) hround).bind fun ns hns => ?_
  exact (expect (by decide)).discard.bind fun _ _ => pure' ⟨hn, hns⟩

theorem functionAttributeRound {f : FunctionDecl} (hf : f.WellFormed) :
    Sound P (Parser.functionAttributeRound f) fun o => ∀ g ∈ o, g.WellFormed := by
  have hsame : ∀ g : FunctionDecl, g.name = f.name → g.parameters = f.parameters →
      g.returns = f.returns → g.WellFormed := by
    intro g hname hparameters hreturns
    exact ⟨hname ▸ hf.name, hparameters ▸ hf.parameters, hreturns ▸ hf.returns⟩
  refine kind_bind fun k => ?_
  split
  · rename_i hvisibility
    exact (skip (visibility?_ne hvisibility)).bind fun _ _ => pure' (of_some (hsame _ rfl rfl rfl))
  · rename_i hmutability
    exact (skip (stateMutability?_ne hmutability)).bind fun _ _ => pure' (of_some (hsame _ rfl rfl rfl))
  · refine ite (fun hk => ?_) fun _ => ite (fun hk => ?_) fun _ => ite (fun hk => ?_) fun _ =>
      ite (fun _ => ?_) fun _ => pure' (by simp)
    · exact (skip (by rw [hk]; decide)).bind fun _ _ => pure' (of_some (hsame _ rfl rfl rfl))
    · exact (skip (by rw [hk]; decide)).bind fun _ _ => skipArguments.bind fun _ _ =>
        pure' (of_some (hsame _ rfl rfl rfl))
    · exact (skip (by rw [hk]; decide)).bind fun _ _ => parameterList.bind fun vs hvs =>
        pure' (of_some ⟨hf.name, hf.parameters, hvs⟩)
    · exact dottedName.bind fun _ _ => skipArguments.bind fun _ _ =>
        pure' (of_some (hsame _ rfl rfl rfl))

theorem functionTail {f : FunctionDecl} (hf : f.WellFormed) :
    Sound P (Parser.functionTail f) FunctionDecl.WellFormed := by
  refine parameterList.bind fun vs hvs => ?_
  have hstart : FunctionDecl.WellFormed { f with parameters := vs } := ⟨hf.name, hvs, hf.returns⟩
  refine (iterate hstart fun g hg => functionAttributeRound hg).bind fun g hg => kind_bind fun k => ?_
  refine ite (fun _ => skipGroup.bind fun _ _ => pure' hg) fun _ => ?_
  exact (expect (by decide)).discard.bind fun _ _ => pure' hg

theorem function : Sound P Parser.function FunctionDecl.WellFormed := by
  refine (expect (by decide)).discard.bind fun _ _ => kind_bind fun k => ite (fun _ => ?_) fun _ => ?_
  · exact functionTail (f := { name := none, kind := .special "fallback" })
      ⟨by simp, by simp, by simp⟩ |>.weaken fun _ _ => trivial
  · refine name.bind fun n hn => functionTail ⟨of_some hn, by simp, by simp⟩

theorem specialFunction (hP : ∀ t, P t → t.kind ≠ .kwPragma) :
    Sound P Parser.specialFunction FunctionDecl.WellFormed :=
  (advance hP).bind fun _ _ => functionTail ⟨by simp, by simp, by simp⟩

/-! ### Contracts and files -/

theorem baseRound (state : List DottedName × Bool) :
    Sound P (Parser.baseRound state) fun _ => True := by
  refine ite (fun _ => ?_) fun _ => pure' trivial
  refine dottedName.bind fun base _ => skipArguments.bind fun _ _ => kind_bind fun k => ?_
  refine ite (fun hk => ?_) fun _ => pure' trivial
  exact (skip (by rw [hk]; decide)).bind fun _ _ => pure' trivial

theorem baseList : Sound P Parser.baseList fun _ => True := by
  refine kind_bind fun k => ite (fun hk => ?_) fun _ => pure' trivial
  refine (skip (by rw [hk]; decide)).bind fun _ _ => ?_
  have hloop : Sound (fun _ => True) (Parser.iterate Parser.baseRound ([], true)) fun _ => True :=
    iterate trivial fun s _ => (baseRound s).imp fun _ _ => by simp
  exact hloop.bind fun _ _ => pure' trivial

theorem member : Sound P Parser.member fun o => ∀ m ∈ o, m.WellFormed := by
  refine kind_bind fun k => ?_
  split
  · exact function.bind fun f hf => pure' (of_some hf)
  · exact struct.bind fun d hd => pure' (of_some hd)
  · exact enum.bind fun d hd => pure' (of_some hd)
  · exact (skip (by decide)).bind fun _ _ => skipBody.bind fun _ _ => pure' (by simp)
  · exact skipStatement.bind fun _ _ => pure' (by simp)
  · exact skipStatement.bind fun _ _ => pure' (by simp)
  · exact skipStatement.bind fun _ _ => pure' (by simp)
  · exact skipStatement.bind fun _ _ => pure' (by simp)
  · refine get_bind fun s => ite (fun hk => ?_) fun _ => ?_
    · simp only [Bool.and_eq_true, Bool.or_eq_true, decide_eq_true_eq] at hk
      refine (specialFunction ?_).bind fun f hf => pure' (of_some hf)
      rintro t rfl hp
      simp [hp] at hk
    · refine (recovering stateVariable).bind fun o ho => pure' ?_
      cases o with
      | none => simp
      | some v =>
        refine of_some fun w hw => ?_
        exact (List.mem_singleton.mp hw) ▸ ho v rfl

theorem contractKind : Sound P Parser.contractKind fun _ => True := by
  refine kind_bind fun k => ?_
  split
  · exact (skip (by decide)).bind fun _ _ => pure' trivial
  · exact (skip (by decide)).bind fun _ _ => pure' trivial
  · exact (expect (by decide)).discard.bind fun _ _ => pure' trivial

theorem contract : Sound P Parser.contract Contract.WellFormed := by
  have hround : ∀ ms : List Member, (∀ m ∈ ms, m.WellFormed) → Sound (fun _ => True)
      (Parser.memberRound ms) fun o => ∀ ns ∈ o, ∀ n ∈ ns, n.WellFormed := by
    intro ms hms
    refine kind_bind fun k => ?_
    split
    · exact pure' (by simp)
    · exact pure' (by simp)
    · refine member.bind fun o ho => pure' (of_some ?_)
      cases o with
      | none => simpa using hms
      | some m => exact forall_append hms (ho m rfl)
  have htail : ∀ isAbstract : Prop, ∀ _ : Decidable isAbstract, Sound (fun _ => True) (do
      let k ← Parser.contractKind
      let n ← Parser.name
      let bases ← Parser.baseList
      Functor.discard (Parser.expect .lbrace)
      let members ← Parser.iterate Parser.memberRound []
      Functor.discard (Parser.expect .rbrace)
      return { name := n, kind := k, isAbstract := decide isAbstract, bases, members })
      Contract.WellFormed := by
    intro isAbstract _
    refine contractKind.bind fun k _ => name.bind fun n hn => baseList.bind fun bases _ => ?_
    refine (expect (by decide)).discard.bind fun _ _ => (iterate (by simp) hround).bind fun ms hms => ?_
    exact (expect (by decide)).discard.bind fun _ _ => pure' ⟨hn, hms⟩
  refine kind_bind fun k => ite (fun hk => ?_) fun _ => (htail _ _).weaken fun _ _ => trivial
  exact (skip (by rw [hk]; decide)).bind fun _ _ => htail _ _

theorem pragma : Sound P Parser.pragma PragmaDirective.WellFormed := by
  intro r p r' hr _ h
  obtain ⟨_, r₁, h₁, h⟩ := bind_ok h
  obtain ⟨_, h₁⟩ := discard_ok h₁
  obtain ⟨hk₁, -, rfl⟩ := expect_ok h₁
  obtain ⟨n, r₂, h₂, h⟩ := bind_ok h
  obtain ⟨hk₂, rfl, rfl⟩ := expect_ok h₂
  obtain ⟨value, r₃, h₃, h⟩ := bind_ok h
  obtain ⟨hk₃, rfl, rfl⟩ := expect_ok h₃
  have hend : Sound (fun _ => True) (do
      Functor.discard (Parser.expect .semicolon)
      return PragmaDirective.mk (r.drop 1).current.text ((r.drop 1).drop 1).current.text)
      fun p => p = ⟨(r.drop 1).current.text, ((r.drop 1).drop 1).current.text⟩ :=
    (expect (by decide)).discard.bind fun _ _ => pure' rfl
  -- The first token starts a pragma, so the next two belong to it.
  obtain ⟨ahead, left, left_eq, stop, index⟩ := r
  cases hr with
  | nil => simp [Reader.current, Token.eof] at hk₁
  | solid ht _ => exact absurd hk₁ ht.1
  | @pragma word name value rest hword hname hvalue hp hrest =>
    obtain ⟨hr', rfl⟩ := hend _ p r' hrest trivial h
    exact ⟨hr', hp⟩

/-- Takes a word that is not `pragma`. -/
theorem skipWord {t : Token} (ht : t.text ≠ "pragma")
    (hcases : t.Solid ∨ t.symbol = (.kwPragma, "pragma")) :
    Sound (· = t) (Functor.discard Parser.advance) fun _ => True := by
  refine discard (advance ?_)
  rintro u rfl hk
  rcases hcases with hsolid | hpragma
  · exact hsolid.1 hk
  · exact ht (Prod.mk.inj hpragma).2

theorem alias? : Sound P Parser.alias? fun _ => True := by
  refine current_bind fun t _ hcases => ite (fun ht => ?_) fun _ => pure' trivial
  exact (skipWord (by rw [ht]; decide) hcases).bind fun _ _ => name.bind fun n _ => pure' trivial

theorem importedFile : Sound P Parser.importedFile fun _ => True := by
  refine current_bind fun t _ hcases => ?_
  refine ite (fun _ => (throw _).bind fun u hu => hu) fun ht => ?_
  have hfrom : t.text ≠ "pragma" := by
    rw [not_not.mp ht]
    decide
  exact (skipWord hfrom hcases).bind fun _ _ => (expect (by decide)).bind fun _ _ => pure' trivial

theorem importDirective : Sound P Parser.importDirective fun _ => True := by
  refine (expect (by decide)).discard.bind fun _ _ => kind_bind fun k => ?_
  split
  · refine (advance ?_).bind fun _ _ => alias?.bind fun _ _ => ?_
    · rintro t ht hp
      simp [hp] at ht
    · exact (expect (by decide)).discard.bind fun _ _ => pure' trivial
  · refine (skip (by decide)).bind fun _ _ => alias?.bind fun _ _ => importedFile.bind fun _ _ => ?_
    exact (expect (by decide)).discard.bind fun _ _ => pure' trivial
  · have hround : ∀ s : List (String × Option String), True → Sound (fun _ => True)
        (Parser.symbolRound s) fun o => ∀ t ∈ o, True := by
      intro s _
      refine kind_bind fun k => ?_
      split
      · exact pure' (by simp)
      · exact pure' (by simp)
      · exact name.bind fun n _ => alias?.bind fun a _ => skipComma.bind fun _ _ => pure' (by simp)
    refine (expect (by decide)).discard.bind fun _ _ => (iterate trivial hround).bind fun _ _ => ?_
    refine (expect (by decide)).discard.bind fun _ _ => importedFile.bind fun _ _ => ?_
    exact (expect (by decide)).discard.bind fun _ _ => pure' trivial

theorem unitRound {u : SourceUnit} (hu : u.WellFormed) :
    Sound P (Parser.unitRound u) fun o => ∀ v ∈ o, v.WellFormed := by
  obtain ⟨hpragmas, hcontracts, hstructs, henums⟩ := hu
  have hunit : ∀ c, c.WellFormed →
      SourceUnit.WellFormed { u with contracts := u.contracts ++ [c] } :=
    fun c hc => ⟨hpragmas, forall_append hcontracts hc, hstructs, henums⟩
  refine kind_bind fun k => ?_
  split
  · exact pure' (by simp)
  · exact pragma.bind fun p hp =>
      pure' (of_some ⟨forall_append hpragmas hp, hcontracts, hstructs, henums⟩)
  · exact importDirective.bind fun i _ => pure' (of_some ⟨hpragmas, hcontracts, hstructs, henums⟩)
  · exact contract.bind fun c hc => pure' (of_some (hunit c hc))
  · exact contract.bind fun c hc => pure' (of_some (hunit c hc))
  · exact contract.bind fun c hc => pure' (of_some (hunit c hc))
  · exact contract.bind fun c hc => pure' (of_some (hunit c hc))
  · exact struct.bind fun d hd =>
      pure' (of_some ⟨hpragmas, hcontracts, forall_append hstructs hd, henums⟩)
  · exact enum.bind fun d hd =>
      pure' (of_some ⟨hpragmas, hcontracts, hstructs, forall_append henums hd⟩)
  · exact function.discard.bind fun _ _ => pure' (of_some ⟨hpragmas, hcontracts, hstructs, henums⟩)
  · have hskip : Sound (fun _ => True) (pure (some u)) fun o => ∀ v ∈ o, SourceUnit.WellFormed v :=
      pure' (of_some ⟨hpragmas, hcontracts, hstructs, henums⟩)
    refine ite (fun hk => ?_) fun _ => skipStatement.bind fun _ _ => hskip
    refine (skip ?_).bind fun _ _ => hskip
    rintro rfl
    simp [Kind.isCloser] at hk

theorem sourceUnit : Sound P Parser.sourceUnit SourceUnit.WellFormed :=
  iterate ⟨by simp, by simp, by simp, by simp⟩ fun _ hu => unitRound hu

end Sound

/-- The declarations of a source are well-formed. -/
theorem SourceUnit.wellFormed_of_ofSource {source : String} {u : SourceUnit}
    (h : ofSource source = .ok u) : u.WellFormed := by
  unfold ofSource at h
  split at h
  · simp at h
  · rename_i s hs
    unfold ofTokens at h
    split at h
    · rename_i v r hv
      obtain rfl : v = u := by simpa [Except.mapError] using h
      have htidy : Tidy (Reader.ofStream s).ahead := Tidy.of_ofSource? hs
      exact (Sound.sourceUnit (P := fun _ => True) (Reader.ofStream s) v r htidy trivial hv).2
    · simp [Except.mapError] at h

/-- What a record of a present file is made of. -/
structure Record.WellFormed (r : Record) : Prop where
  pragma : ∃ p, r.pragma = some p ∧ p.WellFormed
  name : ∃ n, r.name = some n ∧ IsName n
  members : ∀ m ∈ r.members, m.WellFormed
  structs : ∀ d ∈ r.structs, d.WellFormed
  enums : ∀ d ∈ r.enums, d.WellFormed

theorem mem_of_find_or_head {α : Type} {p : α → Bool} {l : List α} {a : α}
    (h : (l.find? p).or l.head? = some a) : a ∈ l := by
  rcases Option.or_eq_some_iff.mp h with h | ⟨-, h⟩
  · exact List.mem_of_find?_eq_some h
  · exact List.mem_of_head? h

theorem mem_of_mem_structs {c : Contract} {d : StructDecl} (h : d ∈ c.structs) :
    .struct d ∈ c.members := by
  obtain ⟨m, hm, hd⟩ := List.mem_filterMap.mp h
  cases m <;> simp at hd
  exact hd ▸ hm

theorem mem_of_mem_enums {c : Contract} {d : EnumDecl} (h : d ∈ c.enums) : .enum d ∈ c.members := by
  obtain ⟨m, hm, hd⟩ := List.mem_filterMap.mp h
  cases m <;> simp at hd
  exact hd ▸ hm

theorem Record.wellFormed_of_ofUnit {path : Path} {u : SourceUnit} {license : Json} {r : Record}
    (hu : u.WellFormed) (h : ofUnit path u license = .ok r) : r.WellFormed := by
  unfold ofUnit at h
  split at h
  · simp at h
  rename_i p hp
  split at h
  · simp at h
  rename_i c hc
  cases h
  have hwell := hu.contracts c (mem_of_find_or_head hc)
  refine ⟨⟨p, rfl, hu.pragmas p (mem_of_find_or_head hp)⟩, ⟨c.name, rfl, hwell.name⟩,
    hwell.members, fun d hd => ?_, fun d hd => ?_⟩
  · rcases List.mem_append.mp hd with hd | hd
    · exact hwell.members (.struct d) (mem_of_mem_structs hd)
    · exact hu.structs d hd
  · rcases List.mem_append.mp hd with hd | hd
    · exact hwell.members (.enum d) (mem_of_mem_enums hd)
    · exact hu.enums d hd

/-- The record of a source is well-formed. -/
theorem Record.wellFormed_of_ofSource {path : Path} {source : String} {fallback : Json} {r : Record}
    (h : ofSource path source fallback = .ok r) : r.WellFormed := by
  unfold ofSource at h
  split at h
  · simp at h
  · simp at h
  · rename_i u hu
    exact wellFormed_of_ofUnit (SourceUnit.wellFormed_of_ofSource hu) h

end SolidityInterface
