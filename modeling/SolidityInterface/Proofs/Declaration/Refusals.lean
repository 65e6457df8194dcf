import SolidityInterface.Proofs.Declaration.Bounds
import SolidityInterface.Source.Record

/-
  The one fault of a text that is not reported as a breach of the grammar: a function type
  without the list of its parameters, or of its results (`LacksList`). The parser takes for
  granted that a group stands there.

  `Refuses p k r`: the parser `p` is stopped on the reader `r` by a token of class `k` in the
  place of such a group. Each parser in which types stand is stopped just if one of the types
  to which it comes is, and the others never are, by `Stays`. So a stream is refused in this
  way just if the parser comes to such a type (`AtType`, `refuses_sourceUnit_iff`).
-/

namespace SolidityInterface

open Token (Kind)

/-- Whether a parser is stopped since a group is missing, with a token of some class in its
place. -/
def Refuses {α : Type} (p : Parser α) (k : Kind) (r : Reader) : Prop :=
  ∃ s, p r = .error (.groupMissing k) s

namespace Refuses

variable {α β σ : Type} {p : Parser α} {f : α → Parser β} {k : Kind} {r : Reader} {P : Token → Prop}

theorem congr {p q : Parser α} (h : p r = q r) : Refuses p k r ↔ Refuses q k r := by
  unfold Refuses
  rw [h]

theorem bind_iff :
    Refuses (p >>= f) k r ↔ Refuses p k r ∨ ∃ a s, p r = .ok a s ∧ Refuses (f a) k s := by
  unfold Refuses
  cases h : p r with
  | ok a s =>
    rw [Parser.bind_of_ok h]
    constructor
    · exact fun hf => .inr ⟨a, s, rfl, hf⟩
    · rintro (⟨s', hs'⟩ | ⟨a', s', heq, hf⟩)
      · cases hs'
      · cases heq
        exact hf
  | error e s =>
    rw [Parser.bind_of_error h]
    constructor
    · rintro ⟨s', hs'⟩
      cases hs'
      exact .inl ⟨_, rfl⟩
    · rintro (⟨s', hs'⟩ | ⟨a, s', heq, -⟩)
      · cases hs'
        exact ⟨_, rfl⟩
      · cases heq

/-- What reads no types is stopped by breaches of the grammar only. -/
theorem not_of_stays (h : ∀ n, Stays false n P p) (hr : P r.current) : ¬ Refuses p k r := by
  rintro ⟨s, hs⟩
  obtain ⟨m, -, ⟨a, ha⟩ | ⟨e, he, hwithin⟩⟩ := h _ r (Nat.lt_succ_self _) hr
  · cases hs.symm.trans ha
  · obtain ⟨rfl, -⟩ := EStateM.Result.error.inj (hs.symm.trans he)
    rcases hwithin with h | ⟨h, -⟩ <;> cases h

theorem bind_left_iff (hf : ∀ a n, Stays false n (fun _ => True) (f a)) :
    Refuses (p >>= f) k r ↔ Refuses p k r := by
  rw [bind_iff, or_iff_left]
  rintro ⟨a, s, -, hs⟩
  exact not_of_stays (hf a) trivial hs

theorem bind_right_iff (hp : ∀ n, Stays false n P p) (hr : P r.current) :
    Refuses (p >>= f) k r ↔ ∃ a s, p r = .ok a s ∧ Refuses (f a) k s := by
  rw [bind_iff, or_iff_right (not_of_stays hp hr)]

theorem expect_bind_iff {c : Kind} {note : String} {f : Unit → Parser β} :
    Refuses (Functor.discard (Parser.expect c note) >>= f) k r
      ↔ r.current.kind = c ∧ Refuses (f ()) k (r.drop 1) := by
  unfold Refuses
  by_cases hr : r.current.kind = c
  · rw [Parser.bind_of_ok (Parser.discard_expect_of_eq hr)]
    exact (and_iff_right hr).symm
  · rw [Parser.bind_of_error (Parser.discard_expect_of_ne hr)]
    refine ⟨?_, fun h => absurd h.1 hr⟩
    rintro ⟨s, hs⟩
    cases hs

theorem not_pure {a : α} : ¬ Refuses (pure a) k r := by
  rintro ⟨s, hs⟩
  cases hs

theorem current_bind_iff {f : Token → Parser β} :
    Refuses (Parser.current >>= f) k r ↔ Refuses (f r.current) k r := Iff.rfl

theorem kind_bind_iff {f : Kind → Parser β} :
    Refuses (Parser.kind >>= f) k r ↔ Refuses (f r.current.kind) k r := Iff.rfl

theorem skip_bind_iff {f : Unit → Parser β} :
    Refuses (Functor.discard Parser.advance >>= f) k r ↔ Refuses (f ()) k (r.drop 1) := Iff.rfl

/-- A loop is stopped in one of its rounds. -/
theorem iterate_iff {v : Sight} {round : σ → Parser (Option σ)} {x : σ}
    (htakes : ∀ s, Agrees v (fun _ => True) (round s) (round s) (·.isSome = true)) :
    Refuses (Parser.iterate round x) k r
      ↔ ∃ y s, Rounds round x r y s ∧ Refuses (round y) k s := by
  constructor
  · intro h
    induction hl : r.left using Nat.strong_induction_on generalizing x r with
    | _ l ih =>
      rw [congr (Rounds.iterate_eq_bind htakes x r), bind_iff] at h
      obtain hround | ⟨o, s, ho, hrest⟩ := h
      · exact ⟨x, r, .refl, hround⟩
      · cases o with
        | none =>
          obtain ⟨s', hs'⟩ := hrest
          cases hs'
        | some y =>
          have hlt := (htakes x).left_lt ho rfl
          obtain ⟨z, s', hrounds, hz⟩ := ih s.left (by omega) hrest rfl
          exact ⟨z, s', .cons ho hrounds, hz⟩
  · rintro ⟨y, s, hrounds, hy⟩
    have hlast : Refuses (Parser.iterate round y) k s := by
      rw [congr (Rounds.iterate_eq_bind htakes y s), bind_iff]
      exact .inl hy
    unfold Refuses at hlast ⊢
    rwa [hrounds.iterate_eq htakes]

end Refuses

/-! ## Types -/

namespace Parser

/-- A function type up to its results. -/
def functionTypeHead : Parser Unit := do
  discard (expect .kwFunction)
  skipGroup
  iterate typeAttributeRound ()

/-- The results of a function type, if it has some. -/
def functionTypeResults : Parser TypeName := do
  if (← kind) = .kwReturns then
    discard advance
    skipGroup
  return .elementary "function"

theorem functionType_eq : functionType = functionTypeHead >>= fun _ => functionTypeResults := by
  simp only [functionType, functionTypeHead, bind_assoc]
  rfl

/-- A mapping type up to its value. -/
def mappingKey : Parser TypeName := do
  discard (expect .kwMapping)
  discard (expect .lparen)
  let key ← typeName
  skipName
  discard (expect .arrow)
  return key

/-- The value of a mapping type with a given key, and what stands behind it. -/
def mappingValue (key : TypeName) : Parser TypeName := do
  let value ← typeName
  skipName
  discard (expect .rparen)
  return .mapping key value

theorem mappingType_eq : mappingType typeName = mappingKey >>= mappingValue := by
  simp only [mappingType, mappingKey, bind_assoc, pure_bind]
  rfl

/-- A type is read in terms of the types in it. -/
theorem typeName_eq (r : Reader) : typeName r = (baseType typeName >>= iterate bracketRound) r := by
  rw [typeName, typeNameWithin]
  refine bind_congr (baseType_congr (mappingType_congr ?_ ?_)) fun _ _ _ => rfl
  · intro s a s' hs
    exact Nat.le_of_lt ((Agrees.typeNameWithin (v := .whole) r.left).left_lt hs trivial)
  · exact fun s hs => typeNameWithin_eq hs (Nat.lt_succ_self _)

end Parser

/-- Whether a function type starts at a reader that lacks the list of its parameters or, behind
`returns`, that of its results, with a token of some class in its place. -/
inductive LacksList (k : Kind) (r : Reader) : Prop
  | parameters (hfunction : r.current.kind = .kwFunction) (hnext : (r.drop 1).current.kind = k)
      (hk : k.isOpener = false)
  | results {s : Reader} (hhead : Parser.functionTypeHead r = .ok () s)
      (hreturns : s.current.kind = .kwReturns) (hnext : (s.drop 1).current.kind = k)
      (hk : k.isOpener = false)

theorem Agrees.mappingKey {v : Sight} {P : Kind → Prop} :
    Agrees v P Parser.mappingKey Parser.mappingKey fun _ => True := by
  refine (expect (by decide)).bind_taken fun _ => (expect (by decide)).seq fun _ => ?_
  refine typeName.seq fun _ => skipName.seq fun _ => ?_
  exact (expect (by decide)).seq fun _ => pure' id

namespace Refuses

variable {k : Kind} {r : Reader}

theorem skipGroup_iff : Refuses Parser.skipGroup k r ↔ r.current.kind = k ∧ k.isOpener = false := by
  cases hcloser : r.current.kind.closer? with
  | none =>
    have hrefuses : Parser.skipGroup r = .error (.groupMissing r.current.kind) r := by
      simp only [Parser.skipGroup, hcloser]
    constructor
    · rintro ⟨s, hs⟩
      cases hrefuses.symm.trans hs
      exact ⟨rfl, by rw [Kind.isOpener, hcloser]; rfl⟩
    · rintro ⟨rfl, -⟩
      exact ⟨r, hrefuses⟩
  | some closer =>
    have hopener : r.current.kind.isOpener = true := by rw [Kind.isOpener, hcloser]; rfl
    constructor
    · exact fun h => absurd h (not_of_stays (fun _ => .skipGroup_of hopener) rfl)
    · rintro ⟨rfl, hk⟩
      rw [hopener] at hk
      cases hk

theorem functionType_iff : Refuses Parser.functionType k r ↔ LacksList k r := by
  have hhead : Refuses Parser.functionTypeHead k r
      ↔ r.current.kind = .kwFunction ∧ (r.drop 1).current.kind = k ∧ k.isOpener = false := by
    rw [Parser.functionTypeHead, expect_bind_iff, ← skipGroup_iff, bind_left_iff]
    exact fun _ _ => .iterate .typeAttributeRound (Agrees.typeAttributeRound (v := .near)) _
  have hresults : ∀ s, Refuses Parser.functionTypeResults k s
      ↔ s.current.kind = .kwReturns ∧ (s.drop 1).current.kind = k ∧ k.isOpener = false := by
    intro s
    rw [Parser.functionTypeResults, kind_bind_iff, ← skipGroup_iff]
    split
    · rename_i hreturns
      rw [skip_bind_iff, bind_left_iff fun _ _ => .pure', and_iff_right hreturns]
    · rename_i hreturns
      refine ⟨fun h => absurd h ?_, fun h => absurd h.1 hreturns⟩
      exact not_of_stays (P := fun _ => True) (fun _ => .bind .pure' fun _ => .pure') trivial
  rw [Parser.functionType_eq, bind_iff, hhead]
  simp only [hresults]
  constructor
  · rintro (⟨hfunction, hnext, hk⟩ | ⟨_, s, hs, hreturns, hnext, hk⟩)
    · exact .parameters hfunction hnext hk
    · exact .results hs hreturns hnext hk
  · intro h
    cases h with
    | parameters hfunction hnext hk => exact .inl ⟨hfunction, hnext, hk⟩
    | results hs hreturns hnext hk => exact .inr ⟨(), _, hs, hreturns, hnext, hk⟩

theorem mappingKey_iff : Refuses Parser.mappingKey k r ↔ r.current.kind = .kwMapping ∧
    (r.drop 1).current.kind = .lparen ∧ Refuses Parser.typeName k (r.drop 2) := by
  rw [Parser.mappingKey, expect_bind_iff, expect_bind_iff, Reader.drop_drop, bind_left_iff]
  intro _ _
  exact .bind .skipName fun _ => .bind (.discard (.expect (by decide))) fun _ => .pure'

theorem mappingType_iff : Refuses (Parser.mappingType Parser.typeName) k r ↔
    (r.current.kind = .kwMapping ∧ (r.drop 1).current.kind = .lparen ∧
      Refuses Parser.typeName k (r.drop 2)) ∨
    ∃ key s, Parser.mappingKey r = .ok key s ∧ Refuses Parser.typeName k s := by
  have hvalue : ∀ key s, Refuses (Parser.mappingValue key) k s ↔ Refuses Parser.typeName k s := by
    intro key s
    refine bind_left_iff fun _ _ => ?_
    exact .bind .skipName fun _ => .bind (.discard (.expect (by decide))) fun _ => .pure'
  rw [Parser.mappingType_eq, bind_iff, mappingKey_iff]
  simp only [hvalue]

theorem baseType_iff {inner : Parser TypeName} : Refuses (Parser.baseType inner) k r
    ↔ Refuses Parser.functionType k r ∨ Refuses (Parser.mappingType inner) k r := by
  have hfunction : Refuses Parser.functionType k r → r.current.kind = .kwFunction :=
    fun h => (expect_bind_iff.mp h).1
  have hmapping : Refuses (Parser.mappingType inner) k r → r.current.kind = .kwMapping :=
    fun h => (expect_bind_iff.mp h).1
  by_cases hk : r.current.kind = .kwFunction ∨ r.current.kind = .kwMapping
  · rcases hk with hk | hk
    · have hbase : Parser.baseType inner r = Parser.functionType r := by
        show (Parser.current >>= _) r = _
        rw [Parser.bind_of_ok (p := Parser.current) (a := r.current) rfl, hk]
      rw [congr hbase, or_iff_left]
      exact fun h => absurd (hk.symm.trans (hmapping h)) (by decide)
    · have hbase : Parser.baseType inner r = Parser.mappingType inner r := by
        show (Parser.current >>= _) r = _
        rw [Parser.bind_of_ok (p := Parser.current) (a := r.current) rfl, hk]
      rw [congr hbase, or_iff_right]
      exact fun h => absurd (hk.symm.trans (hfunction h)) (by decide)
  · have hno : ¬ (Refuses Parser.functionType k r ∨ Refuses (Parser.mappingType inner) k r) :=
      fun h => hk (h.imp hfunction hmapping)
    have hother : ∀ n, Stays false n (fun t => ¬ (t.kind = .kwFunction ∨ t.kind = .kwMapping))
        (Parser.baseType inner) := by
      intro n
      refine .baseType_of ?_ ?_
      · rintro _ - ⟨hnot, hmapping⟩
        exact absurd (.inr hmapping) hnot
      · rintro _ - ⟨hnot, hfunction⟩
        exact absurd (.inl hfunction) hnot
    exact iff_of_false (not_of_stays hother hk) hno

/-- A type is refused if it is a function type that lacks a list, or a mapping whose key or value
is refused. -/
theorem typeName_iff : Refuses Parser.typeName k r ↔ LacksList k r ∨
    (r.current.kind = .kwMapping ∧ (r.drop 1).current.kind = .lparen ∧
      Refuses Parser.typeName k (r.drop 2)) ∨
    ∃ key s, Parser.mappingKey r = .ok key s ∧ Refuses Parser.typeName k s := by
  rw [congr (Parser.typeName_eq r), bind_left_iff fun _ _ => .iterate .bracketRound
    (Agrees.bracketRound (v := .near)) _, ← mappingType_iff, ← functionType_iff, baseType_iff]

end Refuses

/-! ## Variables, structs and functions -/

namespace Parser

/-- A struct up to its members. -/
def structHead : Parser String := do
  discard (expect .kwStruct)
  let n ← name
  discard (expect .lbrace)
  return n

/-- The members of a struct. -/
def structMembers (n : String) : Parser StructDecl := do
  let members ← iterate structMemberRound []
  discard (expect .rbrace)
  return ⟨n, members⟩

theorem struct_eq : struct = structHead >>= structMembers := by
  simp only [struct, structHead, bind_assoc, pure_bind]
  rfl

/-- A function up to its parameters. -/
def functionName : Parser FunctionDecl := do
  discard (expect .kwFunction)
  if (← kind) = .lparen then return { name := none, kind := .special "fallback" }
  else
    let n ← name
    return { name := some n, kind := if n.isEmpty then .special "fallback" else .ordinary }

theorem functionHead_eq : functionHead = functionName >>= signature := by
  simp only [functionHead, functionName, bind_assoc, pure_bind, ite_bind]

/-- A function that a keyword introduces, up to its parameters. -/
def specialName : Parser FunctionDecl := do
  let token ← advance
  return { name := none, kind := .special token.text }

theorem specialHead_eq : specialHead = specialName >>= signature := by
  simp only [specialHead, specialName, bind_assoc, pure_bind]

end Parser

namespace Refuses

variable {k : Kind} {r : Reader}

theorem parameter_iff : Refuses Parser.parameter k r ↔ Refuses Parser.typeName k r := by
  refine bind_left_iff fun _ _ => ?_
  refine .bind (.iterate .parameterWordRound (Agrees.parameterWordRound (v := .near)) _) fun _ => ?_
  refine .kind_bind fun k => .ite (fun hk => .bind (.advance_of ?_) fun _ => .pure') fun _ => .pure'
  rintro rfl
  cases hk

theorem parameterRound_iff {vs : List Variable} : Refuses (Parser.parameterRound vs) k r ↔
    (r.current.kind ≠ .rparen ∧ r.current.kind ≠ .eof) ∧ Refuses Parser.typeName k r := by
  rw [Parser.parameterRound, kind_bind_iff]
  cases r.current.kind with
  | rparen | eof => exact iff_of_false not_pure (by simp)
  | _ =>
    rw [bind_left_iff fun _ _ => .bind .skipComma fun _ => .pure', parameter_iff]
    exact (and_iff_right ⟨by decide, by decide⟩).symm

/-- A list is refused if one of the types to which it comes is. -/
theorem parameterList_iff : Refuses Parser.parameterList k r ↔ r.current.kind = .lparen ∧
    ∃ vs s, Rounds Parser.parameterRound [] (r.drop 1) vs s ∧
      (s.current.kind ≠ .rparen ∧ s.current.kind ≠ .eof) ∧ Refuses Parser.typeName k s := by
  rw [Parser.parameterList, expect_bind_iff, bind_left_iff fun _ _ =>
    .bind (.discard (.expect (by decide))) fun _ => .pure',
    iterate_iff (Agrees.parameterRound (v := .near))]
  simp only [parameterRound_iff]

theorem stateVariable_iff : Refuses Parser.stateVariable k r ↔ Refuses Parser.typeName k r := by
  refine current_bind_iff.trans (bind_left_iff fun _ _ => ?_)
  refine .bind (.iterate .variableWordRound (Agrees.variableWordRound (v := .near)) _) fun _ => ?_
  refine .bind .name fun _ => .kind_bind fun k => .ite (fun _ => ?_) fun _ => ?_
  · exact .bind .skipStatement fun _ => .pure'
  · exact .bind (.discard (.expect (by decide))) fun _ => .pure'

theorem recovering_iff {α : Type} {p : Parser α} :
    Refuses (Parser.recovering p) k r ↔ Refuses p k r := by
  unfold Refuses
  cases h : p r with
  | ok a s =>
    rw [Parser.recovering_of_ok h]
    refine iff_of_false ?_ ?_ <;> rintro ⟨s, hs⟩ <;> cases hs
  | error e s =>
    cases hsyntax : e.isSyntax with
    | true =>
      rw [Parser.recovering_of_syntax h hsyntax]
      refine iff_of_false ?_ ?_ <;> rintro ⟨s, hs⟩ <;> cases hs
      cases hsyntax
    | false =>
      rw [Parser.recovering_of_error h hsyntax]
      constructor <;> rintro ⟨s, hs⟩ <;> cases hs <;> exact ⟨_, rfl⟩

theorem structMemberRound_iff {vs : List Variable} : Refuses (Parser.structMemberRound vs) k r ↔
    (r.current.kind ≠ .rbrace ∧ r.current.kind ≠ .eof) ∧ Refuses Parser.typeName k r := by
  rw [Parser.structMemberRound, kind_bind_iff]
  cases r.current.kind with
  | rbrace | eof => exact iff_of_false not_pure (by simp)
  | _ =>
    rw [bind_left_iff fun _ _ => .bind .name fun _ => .bind (.discard (.expect (by decide))) fun _ => .pure']
    exact (and_iff_right ⟨by decide, by decide⟩).symm

theorem struct_iff : Refuses Parser.struct k r ↔ ∃ n s, Parser.structHead r = .ok n s ∧
    ∃ vs s', Rounds Parser.structMemberRound [] s vs s' ∧
      (s'.current.kind ≠ .rbrace ∧ s'.current.kind ≠ .eof) ∧ Refuses Parser.typeName k s' := by
  have hhead : ∀ n, Stays false n (fun _ => True) Parser.structHead := by
    intro n
    refine .bind (.discard (.expect (by decide))) fun _ => .bind .name fun _ => ?_
    exact .bind (.discard (.expect (by decide))) fun _ => .pure'
  have hmembers : ∀ n s, Refuses (Parser.structMembers n) k s ↔ ∃ vs s',
      Rounds Parser.structMemberRound [] s vs s' ∧
        (s'.current.kind ≠ .rbrace ∧ s'.current.kind ≠ .eof) ∧ Refuses Parser.typeName k s' := by
    intro n s
    rw [Parser.structMembers, bind_left_iff fun _ _ =>
      .bind (.discard (.expect (by decide))) fun _ => .pure',
      iterate_iff (Agrees.structMemberRound (v := .near))]
    simp only [structMemberRound_iff]
  rw [Parser.struct_eq, bind_right_iff hhead trivial]
  simp only [hmembers]

theorem functionAttributeRound_iff {f : FunctionDecl} : Refuses (Parser.functionAttributeRound f) k r
    ↔ r.current.kind = .kwReturns ∧ Refuses Parser.parameterList k (r.drop 1) := by
  by_cases hk : r.current.kind = .kwReturns
  · rw [Parser.functionAttributeRound, kind_bind_iff, hk, and_iff_right rfl]
    exact skip_bind_iff.trans (bind_left_iff fun _ _ => .pure')
  · exact iff_of_false (not_of_stays (fun _ => .functionAttributeRound_of f) fun _ => hk) fun h => hk h.1

/-- A signature is refused if its parameters are, or one of its lists of results. -/
theorem signature_iff {f : FunctionDecl} : Refuses (Parser.signature f) k r ↔
    Refuses Parser.parameterList k r ∨ ∃ parameters s, Parser.parameterList r = .ok parameters s ∧
      ∃ f' s', Rounds Parser.functionAttributeRound { f with parameters } s f' s' ∧
        s'.current.kind = .kwReturns ∧ Refuses Parser.parameterList k (s'.drop 1) := by
  rw [Parser.signature, bind_iff]
  simp only [iterate_iff (Agrees.functionAttributeRound (v := .near)), functionAttributeRound_iff]

theorem function_iff : Refuses Parser.function k r ↔
    ∃ f s, Parser.functionName r = .ok f s ∧ Refuses (Parser.signature f) k s := by
  have hname : ∀ n, Stays false n (fun _ => True) Parser.functionName := by
    intro n
    refine .bind (.discard (.expect (by decide))) fun _ => .kind_bind fun k => ?_
    exact .ite (fun _ => .pure') fun _ => .bind .name fun _ => .pure'
  rw [Parser.function_eq, bind_left_iff fun f _ => .functionBody f, Parser.functionHead_eq,
    bind_right_iff hname trivial]

theorem specialFunction_iff : Refuses Parser.specialFunction k r ↔
    ∃ f s, Parser.specialName r = .ok f s ∧ Refuses (Parser.signature f) k s := by
  rw [Parser.specialFunction_eq, bind_left_iff fun f _ => .functionBody f, Parser.specialHead_eq, bind_iff,
    or_iff_right]
  rintro ⟨s, hs⟩
  cases hs

end Refuses

/-! ## Contracts and files -/

namespace Parser

theorem member_struct {r : Reader} (hk : r.current.kind = .kwStruct) :
    member r = (struct >>= fun d => pure (some (.struct d))) r := by
  rw [member, kind_bind, hk]

theorem unitRound_struct (u : SourceUnit) {r : Reader} (hk : r.current.kind = .kwStruct) :
    unitRound u r = (struct >>= fun d => pure (some { u with structs := u.structs ++ [d] })) r := by
  rw [unitRound, kind_bind, hk]

end Parser

/-- Whether the member at a reader is one of the functions that a keyword introduces. -/
def Reader.StartsSpecial (r : Reader) : Prop :=
  (r.current.kind = .kwConstructor ∨ r.current.kind = .kwReceive ∨ r.current.kind = .kwFallback) ∧
    (r.peek 1).kind = .lparen

namespace Refuses

variable {k : Kind} {r : Reader}

theorem member_of_variable (h : r.startsVariable = true) :
    Refuses Parser.member k r ↔ Refuses Parser.typeName k r := by
  have hmember : Parser.member r = Parser.variableMember r := by rw [Parser.member_eq, h, if_pos rfl]
  rw [congr hmember, Parser.variableMember, bind_left_iff fun _ _ => .pure', recovering_iff,
    stateVariable_iff]

theorem member_of_struct (h : r.current.kind = .kwStruct) :
    Refuses Parser.member k r ↔ Refuses Parser.struct k r := by
  rw [congr (Parser.member_struct h), bind_left_iff fun _ _ => .pure']

theorem member_of_function (h : r.current.kind = .kwFunction) :
    Refuses Parser.member k r ↔ Refuses Parser.function k r := by
  rw [congr (Parser.member_function h), bind_left_iff fun _ _ => .pure']

theorem member_of_special (h : r.StartsSpecial) :
    Refuses Parser.member k r ↔ Refuses Parser.specialFunction k r := by
  rw [congr (Parser.member_special h.1 h.2), bind_left_iff fun _ _ => .pure']

/-- Types stand in state variables, structs and functions only. -/
theorem member_cases (h : Refuses Parser.member k r) : r.startsVariable = true ∨
    r.current.kind = .kwStruct ∨ r.current.kind = .kwFunction ∨ r.StartsSpecial := by
  by_contra hother
  simp only [not_or, Bool.not_eq_true] at hother
  obtain ⟨hstarts, hstruct, hfunction, hspecial⟩ := hother
  have hmember : Parser.member r = Parser.announcedMember r := by
    rw [Parser.member_eq, hstarts, if_neg (by decide)]
  rw [congr hmember, Parser.announcedMember, kind_bind_iff] at h
  unfold Reader.startsVariable at hstarts
  unfold Reader.StartsSpecial at hspecial
  generalize r.current.kind = c at h hstarts hstruct hfunction hspecial
  cases c with
  | kwStruct => exact hstruct rfl
  | kwFunction => exact hfunction rfl
  | kwEnum =>
    exact not_of_stays (P := fun _ => True) (fun _ => .bind .enum fun _ => .pure') trivial h
  | kwModifier =>
    rw [← Parser.modifier_eq, skip_bind_iff] at h
    exact not_of_stays (P := fun _ => True) (fun _ => .bind .skipBody fun _ => .pure') trivial h
  | kwEvent | kwError | kwUsing | kwType =>
    exact not_of_stays (P := fun _ => True) (fun _ => .bind .skipStatement fun _ => .pure') trivial h
  | kwConstructor | kwReceive | kwFallback => exact hspecial ⟨by simp, by simpa using hstarts⟩
  | _ => cases hstarts

theorem memberRound_iff {members : List Member} : Refuses (Parser.memberRound members) k r ↔
    (r.current.kind ≠ .rbrace ∧ r.current.kind ≠ .eof) ∧ Refuses Parser.member k r := by
  by_cases hk : r.current.kind ≠ .rbrace ∧ r.current.kind ≠ .eof
  · rw [congr (Parser.memberRound_eq members hk), bind_left_iff fun _ _ => .pure', and_iff_right hk]
  · refine iff_of_false ?_ fun h => hk h.1
    rintro ⟨s, hs⟩
    rw [Parser.memberRound_stop members hk] at hs
    cases hs

theorem contract_iff : Refuses Parser.contract k r ↔ ∃ c s, Parser.contractHead r = .ok c s ∧
    ∃ members s', Rounds Parser.memberRound [] s members s' ∧
      (s'.current.kind ≠ .rbrace ∧ s'.current.kind ≠ .eof) ∧ Refuses Parser.member k s' := by
  have hmembers : ∀ c s, Refuses (Parser.contractMembers c) k s ↔ ∃ members s',
      Rounds Parser.memberRound [] s members s' ∧
        (s'.current.kind ≠ .rbrace ∧ s'.current.kind ≠ .eof) ∧ Refuses Parser.member k s' := by
    intro c s
    rw [Parser.contractMembers, bind_left_iff fun _ _ =>
      .bind (.discard (.expect (by decide))) fun _ => .pure', iterate_iff Agrees.memberRound]
    simp only [memberRound_iff]
  rw [Parser.contract_eq, bind_right_iff (P := fun _ => True) (fun _ => .contractHead) trivial]
  simp only [hmembers]

theorem unitRound_of_contract {u : SourceUnit} (h : startsContract r.current.kind = true) :
    Refuses (Parser.unitRound u) k r ↔ Refuses Parser.contract k r := by
  rw [congr (Parser.unitRound_contract u h), bind_left_iff fun _ _ => .pure']

theorem unitRound_of_struct {u : SourceUnit} (h : r.current.kind = .kwStruct) :
    Refuses (Parser.unitRound u) k r ↔ Refuses Parser.struct k r := by
  rw [congr (Parser.unitRound_struct u h), bind_left_iff fun _ _ => .pure']

theorem unitRound_of_function {u : SourceUnit} (h : r.current.kind = .kwFunction) :
    Refuses (Parser.unitRound u) k r ↔ Refuses Parser.function k r := by
  rw [congr (Parser.unitRound_function u h), bind_left_iff fun _ _ => .pure']

theorem unitRound_cases {u : SourceUnit} (h : Refuses (Parser.unitRound u) k r) :
    startsContract r.current.kind = true ∨ r.current.kind = .kwStruct ∨ r.current.kind = .kwFunction := by
  by_contra hother
  simp only [not_or, Bool.not_eq_true] at hother
  exact not_of_stays (fun _ => .unitRound_of u) (fun _ => hother) h

end Refuses

/-! ## Types of a stream -/

/-- Whether the parser comes to a struct, of a file or of a contract. -/
def AtStruct (t : TokenStream) (r : Reader) : Prop :=
  r.current.kind = .kwStruct ∧ ((∃ u, AtDeclaration t u r) ∨ AtMember t r)

/-- Whether the parser comes to the parameters of a function, and what it knows of the function
before. -/
inductive AtSignature (t : TokenStream) (f : FunctionDecl) (r : Reader) : Prop
  | free {u : SourceUnit} {r₁ : Reader} (h : AtDeclaration t u r₁)
      (hk : r₁.current.kind = .kwFunction) (hname : Parser.functionName r₁ = .ok f r)
  | function {r₁ : Reader} (h : AtMember t r₁) (hk : r₁.current.kind = .kwFunction)
      (hname : Parser.functionName r₁ = .ok f r)
  | special {r₁ : Reader} (h : AtMember t r₁) (hk : r₁.StartsSpecial)
      (hname : Parser.specialName r₁ = .ok f r)

/-- Whether the parser comes to the parameters or the results of a function. -/
inductive AtList (t : TokenStream) : Reader → Prop
  | parameters {f : FunctionDecl} {r : Reader} (h : AtSignature t f r) : AtList t r
  | results {f f' : FunctionDecl} {parameters : List Variable} {r r₁ r₂ : Reader}
      (h : AtSignature t f r₁) (hlist : Parser.parameterList r₁ = .ok parameters r₂)
      (hrounds : Rounds Parser.functionAttributeRound { f with parameters } r₂ f' r)
      (hk : r.current.kind = .kwReturns) : AtList t (r.drop 1)

/-- Whether the parser comes to a type: that of a state variable, of a member of a struct or of a
parameter, or the key or the value of a mapping. -/
inductive AtType (t : TokenStream) : Reader → Prop
  | state {r : Reader} (h : AtMember t r) (hmore : r.current.kind ≠ .rbrace ∧ r.current.kind ≠ .eof)
      (hstarts : r.startsVariable = true) : AtType t r
  | field {n : String} {vs : List Variable} {r r₁ r₂ : Reader} (h : AtStruct t r₁)
      (hhead : Parser.structHead r₁ = .ok n r₂) (hrounds : Rounds Parser.structMemberRound [] r₂ vs r)
      (hmore : r.current.kind ≠ .rbrace ∧ r.current.kind ≠ .eof) : AtType t r
  | parameter {vs : List Variable} {r r₁ : Reader} (h : AtList t r₁) (hparen : r₁.current.kind = .lparen)
      (hrounds : Rounds Parser.parameterRound [] (r₁.drop 1) vs r)
      (hmore : r.current.kind ≠ .rparen ∧ r.current.kind ≠ .eof) : AtType t r
  | key {r : Reader} (h : AtType t r) (hmapping : r.current.kind = .kwMapping)
      (hparen : (r.drop 1).current.kind = .lparen) : AtType t (r.drop 2)
  | value {key : TypeName} {r s : Reader} (h : AtType t r) (hkey : Parser.mappingKey r = .ok key s) :
      AtType t s

section Stream

variable {t : TokenStream} {k : Kind} {r : Reader}

/-- A declaration that is refused stops the run. -/
theorem AtDeclaration.refuses {u : SourceUnit} (h : AtDeclaration t u r)
    (hr : Refuses (Parser.unitRound u) k r) : Refuses Parser.sourceUnit k (t.readerAt 0) :=
  (Refuses.iterate_iff Agrees.unitRound).mpr ⟨u, r, h, hr⟩

theorem AtMember.refuses (h : AtMember t r) (hmore : r.current.kind ≠ .rbrace ∧ r.current.kind ≠ .eof)
    (hr : Refuses Parser.member k r) : Refuses Parser.sourceUnit k (t.readerAt 0) := by
  obtain ⟨u, r₁, c, r₂, members, hat, hk, hhead, hrounds⟩ := h
  refine hat.refuses ((Refuses.unitRound_of_contract hk).mpr (Refuses.contract_iff.mpr ?_))
  exact ⟨c, r₂, hhead, members, r, hrounds, hmore, hr⟩

theorem AtStruct.refuses (h : AtStruct t r) (hr : Refuses Parser.struct k r) :
    Refuses Parser.sourceUnit k (t.readerAt 0) := by
  obtain ⟨hk, ⟨u, hat⟩ | hat⟩ := h
  · exact hat.refuses ((Refuses.unitRound_of_struct hk).mpr hr)
  · exact hat.refuses (by rw [hk]; decide) ((Refuses.member_of_struct hk).mpr hr)

theorem AtSignature.refuses {f : FunctionDecl} (h : AtSignature t f r)
    (hr : Refuses (Parser.signature f) k r) : Refuses Parser.sourceUnit k (t.readerAt 0) := by
  cases h with
  | free h hk hname =>
    exact h.refuses ((Refuses.unitRound_of_function hk).mpr (Refuses.function_iff.mpr ⟨f, r, hname, hr⟩))
  | function h hk hname =>
    refine h.refuses (by rw [hk]; decide) ((Refuses.member_of_function hk).mpr ?_)
    exact Refuses.function_iff.mpr ⟨f, r, hname, hr⟩
  | special h hk hname =>
    have hspecial := Refuses.specialFunction_iff.mpr ⟨f, r, hname, hr⟩
    refine h.refuses ?_ ((Refuses.member_of_special hk).mpr hspecial)
    rcases hk.1 with hk | hk | hk <;> rw [hk] <;> decide

theorem AtList.refuses (h : AtList t r) (hr : Refuses Parser.parameterList k r) :
    Refuses Parser.sourceUnit k (t.readerAt 0) := by
  cases h with
  | parameters h => exact h.refuses (Refuses.signature_iff.mpr (.inl hr))
  | results h hlist hrounds hk =>
    exact h.refuses (Refuses.signature_iff.mpr (.inr ⟨_, _, hlist, _, _, hrounds, hk, hr⟩))

/-- A type that is refused stops the run. -/
theorem AtType.refuses (h : AtType t r) (hr : Refuses Parser.typeName k r) :
    Refuses Parser.sourceUnit k (t.readerAt 0) := by
  induction h with
  | state h hmore hstarts => exact h.refuses hmore ((Refuses.member_of_variable hstarts).mpr hr)
  | field h hhead hrounds hmore =>
    exact h.refuses (Refuses.struct_iff.mpr ⟨_, _, hhead, _, _, hrounds, hmore, hr⟩)
  | parameter h hparen hrounds hmore =>
    exact h.refuses (Refuses.parameterList_iff.mpr ⟨hparen, _, _, hrounds, hmore, hr⟩)
  | key h hmapping hparen ih =>
    exact ih (Refuses.typeName_iff.mpr (.inr (.inl ⟨hmapping, hparen, hr⟩)))
  | value h hkey ih => exact ih (Refuses.typeName_iff.mpr (.inr (.inr ⟨_, _, hkey, hr⟩)))

/-- A type that is refused is a function type that lacks a list, or has one in it. -/
theorem AtType.exists_lacksList (h : AtType t r) (hr : Refuses Parser.typeName k r) :
    ∃ s, AtType t s ∧ LacksList k s := by
  -- By induction on the tokens ahead: a mapping takes some before its key and before its value.
  induction hl : r.left using Nat.strong_induction_on generalizing r with
  | _ l ih =>
    obtain hlacks | ⟨hmapping, hparen, hkey⟩ | ⟨key, s, hkey, hvalue⟩ := Refuses.typeName_iff.mp hr
    · exact ⟨r, h, hlacks⟩
    · have hpos := Reader.left_pos (r := r) (by rw [hmapping]; decide)
      refine ih (r.drop 2).left ?_ (h.key hmapping hparen) hkey rfl
      rw [Reader.drop_left]
      omega
    · have hlt := (Agrees.mappingKey (v := .near)).left_lt hkey trivial
      exact ih s.left (by omega) (h.value hkey) hvalue rfl

theorem AtList.exists_type (h : AtList t r) (hr : Refuses Parser.parameterList k r) :
    ∃ s, AtType t s ∧ Refuses Parser.typeName k s := by
  obtain ⟨hparen, vs, s, hrounds, hmore, hs⟩ := Refuses.parameterList_iff.mp hr
  exact ⟨s, .parameter h hparen hrounds hmore, hs⟩

theorem AtSignature.exists_type {f : FunctionDecl} (h : AtSignature t f r)
    (hr : Refuses (Parser.signature f) k r) : ∃ s, AtType t s ∧ Refuses Parser.typeName k s := by
  obtain hlist | ⟨parameters, s, hlist, f', s', hrounds, hk, hresults⟩ := Refuses.signature_iff.mp hr
  · exact (AtList.parameters h).exists_type hlist
  · exact (AtList.results h hlist hrounds hk).exists_type hresults

theorem AtStruct.exists_type (h : AtStruct t r) (hr : Refuses Parser.struct k r) :
    ∃ s, AtType t s ∧ Refuses Parser.typeName k s := by
  obtain ⟨n, s, hhead, vs, s', hrounds, hmore, hs'⟩ := Refuses.struct_iff.mp hr
  exact ⟨s', .field h hhead hrounds hmore, hs'⟩

theorem AtMember.exists_type (h : AtMember t r)
    (hmore : r.current.kind ≠ .rbrace ∧ r.current.kind ≠ .eof) (hr : Refuses Parser.member k r) :
    ∃ s, AtType t s ∧ Refuses Parser.typeName k s := by
  obtain hk | hk | hk | hk := Refuses.member_cases hr
  · exact ⟨r, .state h hmore hk, (Refuses.member_of_variable hk).mp hr⟩
  · exact AtStruct.exists_type ⟨hk, .inr h⟩ ((Refuses.member_of_struct hk).mp hr)
  · obtain ⟨f, s, hname, hs⟩ := Refuses.function_iff.mp ((Refuses.member_of_function hk).mp hr)
    exact (AtSignature.function h hk hname).exists_type hs
  · obtain ⟨f, s, hname, hs⟩ := Refuses.specialFunction_iff.mp ((Refuses.member_of_special hk).mp hr)
    exact (AtSignature.special h hk hname).exists_type hs

theorem AtDeclaration.exists_type {u : SourceUnit} (h : AtDeclaration t u r)
    (hr : Refuses (Parser.unitRound u) k r) : ∃ s, AtType t s ∧ Refuses Parser.typeName k s := by
  obtain hk | hk | hk := Refuses.unitRound_cases hr
  · obtain ⟨c, s, hhead, members, s', hrounds, hmore, hs'⟩ :=
      Refuses.contract_iff.mp ((Refuses.unitRound_of_contract hk).mp hr)
    exact AtMember.exists_type ⟨u, r, c, s, members, h, hk, hhead, hrounds⟩ hmore hs'
  · exact AtStruct.exists_type ⟨hk, .inl ⟨u, h⟩⟩ ((Refuses.unitRound_of_struct hk).mp hr)
  · obtain ⟨f, s, hname, hs⟩ := Refuses.function_iff.mp ((Refuses.unitRound_of_function hk).mp hr)
    exact (AtSignature.free h hk hname).exists_type hs

/-- A stream is refused for a missing group just if the parser comes to a function type that lacks
a list. -/
theorem refuses_sourceUnit_iff :
    Refuses Parser.sourceUnit k (t.readerAt 0) ↔ ∃ r, AtType t r ∧ LacksList k r := by
  constructor
  · intro h
    obtain ⟨u, r, hrounds, hr⟩ := (Refuses.iterate_iff Agrees.unitRound).mp h
    obtain ⟨s, hs, hrefuses⟩ := AtDeclaration.exists_type hrounds hr
    exact hs.exists_lacksList hrefuses
  · rintro ⟨r, hat, hlacks⟩
    exact hat.refuses (Refuses.typeName_iff.mpr (.inl hlacks))

end Stream

/-! ## Sources -/

section Source

variable {source : String} {t : TokenStream} (ht : TokenStream.ofSource? source = some t)
include ht

theorem SourceUnit.ofSource_of_ok {u : SourceUnit} {s : Reader}
    (h : Parser.sourceUnit (t.readerAt 0) = .ok u s) : ofSource source = .ok u := by
  simp only [ofSource, ht, ofTokens, show Parser.sourceUnit (Reader.ofStream t) = _ from h]
  rfl

theorem SourceUnit.ofSource_of_error {e : ParseError} {s : Reader}
    (h : Parser.sourceUnit (t.readerAt 0) = .error e s) : ofSource source = .error (.refused e) := by
  simp only [ofSource, ht, ofTokens, show Parser.sourceUnit (Reader.ofStream t) = _ from h]
  rfl

/-- A text has declarations, or breaks the grammar, or lacks a group. -/
theorem SourceUnit.ofSource_cases : (∃ u, ofSource source = .ok u) ∨
    (∃ e, ofSource source = .error (.refused e) ∧ e.isSyntax = true) ∨
    ∃ k, ofSource source = .error (.refused (.groupMissing k)) := by
  obtain ⟨m, -, ⟨u, hu⟩ | ⟨e, he, hwithin⟩⟩ :=
    Stays.sourceUnit (P := fun _ => True) (t.readerAt 0) (Nat.lt_succ_self _) trivial
  · exact .inl ⟨u, ofSource_of_ok ht hu⟩
  · rcases hwithin with hsyntax | ⟨-, k, rfl⟩
    · exact .inr (.inl ⟨e, ofSource_of_error ht he, hsyntax⟩)
    · exact .inr (.inr ⟨k, ofSource_of_error ht he⟩)

theorem SourceUnit.ofSource_groupMissing_iff (k : Kind) :
    ofSource source = .error (.refused (.groupMissing k)) ↔ ∃ r, AtType t r ∧ LacksList k r := by
  rw [← refuses_sourceUnit_iff, Refuses]
  cases h : Parser.sourceUnit (t.readerAt 0) with
  | ok u s => simp [ofSource_of_ok ht h]
  | error e s => simp [ofSource_of_error ht h]

end Source

namespace Record

variable {path : Path} {source : String} {fallback : Json}

theorem ofUnit_cases (path : Path) (u : SourceUnit) (license : Json) :
    (∃ d, ofUnit path u license = .ok d ∧ d.path = path) ∨
      ∃ e, ofUnit path u license = .error e ∧ (e = .noPragma ∨ e = .noContract) := by
  unfold ofUnit
  split
  · exact .inr ⟨_, rfl, .inl rfl⟩
  split
  · exact .inr ⟨_, rfl, .inr rfl⟩
  · exact .inl ⟨_, rfl, rfl⟩

theorem ofSource_refused_iff {e : ParseError} :
    ofSource path source fallback = .error (.refused e)
      ↔ SourceUnit.ofSource source = .error (.refused e) := by
  unfold ofSource
  cases h : SourceUnit.ofSource source with
  | error e' => cases e' <;> simp
  | ok u =>
    obtain ⟨d, hd, -⟩ | ⟨e', he', rfl | rfl⟩ := ofUnit_cases path u (licenseOf source fallback) <;> simp [*]

/-- A text that has tokens is refused for want of a group just if the parser comes to a function
type that lacks the list of its parameters or of its results. All other texts have declarations or
break the grammar, so that they have a record or the message names their file. -/
theorem faults_are_reported_but_for_bare_function_types {t : TokenStream}
    (ht : TokenStream.ofSource? source = some t) (path : Path) (fallback : Json) :
    (∀ k, SourceUnit.ofSource source = .error (.refused (.groupMissing k))
      ↔ ∃ r, AtType t r ∧ LacksList k r) ∧
    (∀ k, ofSource path source fallback = .error (.refused (.groupMissing k))
      ↔ ∃ r, AtType t r ∧ LacksList k r) ∧
    ((∀ r k, AtType t r → ¬ LacksList k r) →
      ((∃ u, SourceUnit.ofSource source = .ok u) ∨
        ∃ e, SourceUnit.ofSource source = .error (.refused e) ∧ e.isSyntax = true) ∧
      ((∃ d, ofSource path source fallback = .ok d ∧ d.path = path) ∨
        ∃ e, ofSource path source fallback = .error e ∧ e.isMalformed = true ∧
          e.message path = path.render ++ ": " ++ e.reason)) := by
  have hmissing := SourceUnit.ofSource_groupMissing_iff ht
  refine ⟨hmissing, fun k => ofSource_refused_iff.trans (hmissing k), fun hnone => ?_⟩
  obtain ⟨u, hu⟩ | ⟨e, he, hsyntax⟩ | ⟨k, hk⟩ := SourceUnit.ofSource_cases ht
  · refine ⟨.inl ⟨u, hu⟩, ?_⟩
    obtain ⟨d, hd, hpath⟩ | ⟨e, he, hkind⟩ := ofUnit_cases path u (licenseOf source fallback)
    · exact .inl ⟨d, by simp only [ofSource, hu, hd], hpath⟩
    · refine .inr ⟨e, by simp only [ofSource, hu, he], ?_, rfl⟩
      rcases hkind with rfl | rfl <;> rfl
  · exact ⟨.inr ⟨e, he, hsyntax⟩, .inr ⟨.refused e, ofSource_refused_iff.mpr he, hsyntax, rfl⟩⟩
  · obtain ⟨r, hat, hlacks⟩ := (hmissing k).mp hk
    exact absurd hlacks (hnone r k hat)

/-- A struct with a member of a bare function type. -/
def bareMember : String := "pragma solidity 1;contract A\x7bstruct S\x7bfunction x;\x7d\x7d"

/-- It is refused, but not as a fault of the file. -/
theorem bare_function_type_is_not_reported :
    (TokenStream.ofSource? bareMember).isSome = true ∧
    ¬ ((∃ u, SourceUnit.ofSource bareMember = .ok u) ∨
      ∃ e, SourceUnit.ofSource bareMember = .error (.refused e) ∧ e.isSyntax = true) ∧
    ¬ ((∃ d, ofSource ⟨.slash, ["A.sol"]⟩ bareMember .null = .ok d) ∨
      ∃ e, ofSource ⟨.slash, ["A.sol"]⟩ bareMember .null = .error e ∧ e.isMalformed = true) := by
  have hunit : SourceUnit.ofSource bareMember = .error (.refused (.groupMissing .identifier)) := by
    decide +kernel
  refine ⟨by decide +kernel, ?_, ?_⟩
  · rw [hunit]
    rintro (⟨u, hu⟩ | ⟨e, he, hsyntax⟩)
    · cases hu
    · cases he
      cases hsyntax
  · rw [ofSource_refused_iff.mpr hunit]
    rintro (⟨d, hd⟩ | ⟨e, he, hmalformed⟩)
    · cases hd
    · cases he
      cases hmalformed

/-- A struct with a member of a function type that has its lists. -/
def listedMember : String := "struct S\x7bfunction(uint)external returns(bool)f;\x7d"

/-- The value of a mapping may be a bare function type, to which the parser comes. -/
theorem bare_function_type_stands_in_a_mapping :
    ∃ t, TokenStream.ofSource? "contract A\x7bmapping(uint=>function)m;\x7d" = some t ∧
      (∃ r, AtType t r ∧ LacksList .rparen r) ∧
      ∃ s, TokenStream.ofSource? listedMember = some s ∧
        (∀ r k, AtType s r → ¬ LacksList k r) ∧
        ∃ e, ofSource ⟨.slash, ["S.sol"]⟩ listedMember .null = .error e ∧
          e.message ⟨.slash, ["S.sol"]⟩ = "/S.sol: No pragma found!" := by
  have hscan : ∀ source, (TokenStream.ofSource? source).isSome = true →
      ∃ t, TokenStream.ofSource? source = some t := fun _ => Option.isSome_iff_exists.mp
  obtain ⟨t, ht⟩ := hscan "contract A\x7bmapping(uint=>function)m;\x7d" (by decide +kernel)
  obtain ⟨s, hs⟩ := hscan listedMember (by decide +kernel)
  obtain ⟨hbare, -, -⟩ := faults_are_reported_but_for_bare_function_types ht ⟨.slash, ["A.sol"]⟩ .null
  obtain ⟨hnone, -, -⟩ := faults_are_reported_but_for_bare_function_types hs ⟨.slash, ["S.sol"]⟩ .null
  have hunit : SourceUnit.ofSource listedMember
      = .ok { structs := [⟨"S", [{ type := .elementary "function", name := some "f" }]⟩] } := by
    decide +kernel
  refine ⟨t, ht, (hbare .rparen).mp (by decide +kernel), s, hs, ?_, .noPragma, ?_, by decide +kernel⟩
  · intro r k hat hlacks
    cases hunit.symm.trans ((hnone k).mpr ⟨r, hat, hlacks⟩)
  · simp only [ofSource, hunit]
    rfl

end Record

end SolidityInterface
