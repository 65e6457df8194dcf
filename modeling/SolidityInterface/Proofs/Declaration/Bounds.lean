import SolidityInterface.Proofs.Declaration.Course

/-
  The parser ends, and stays within its stream. `Stays typed n P p`: on a reader with less
  than `n` tokens ahead, whose current token has the property `P`, the parser `p` takes no
  more tokens than there are and ends in a value or an error. The error says that the text
  breaks the grammar, or, where a type may stand (`typed`), that a group is missing; no loop
  has run for want of progress.

  A reader only moves on, and its index does so even behind the last token. So a parser that
  stops within the stream has not left it before, but for an attempt that was given up
  (`Rewinds`).

  There is one lemma for each parser, along its definition. The bound `n` counts the levels of
  a type, which are enough since a mapping takes a token before it goes a level down
  (`Stays.typeNameWithin`).
-/

namespace SolidityInterface

open Token (Kind)

/-- Whether an error is a breach of the grammar, or where a type may stand a missing group. -/
def ParseError.Within (typed : Bool) (e : ParseError) : Prop :=
  e.isSyntax = true ∨ typed = true ∧ ∃ k, e = .groupMissing k

theorem ParseError.Within.ne_stalled {typed : Bool} {e : ParseError} (h : e.Within typed) :
    e ≠ .stalled := by
  rintro rfl
  rcases h with h | ⟨-, k, h⟩ <;> cases h

/-- Whether a parser ends on a reader without leaving the tokens ahead. -/
def EndsWithin {α : Type} (typed : Bool) (p : Parser α) (r : Reader) : Prop :=
  ∃ m ≤ r.left, (∃ a, p r = .ok a (r.drop m)) ∨ ∃ e, p r = .error e (r.drop m) ∧ e.Within typed

/-- Whether a parser does so on every reader with less than `n` tokens ahead and a current
token of some kind. -/
def Stays {α : Type} (typed : Bool) (n : Nat) (P : Token → Prop) (p : Parser α) : Prop :=
  ∀ r : Reader, r.left < n → P r.current → EndsWithin typed p r

theorem Parser.bind_of_error {α β : Type} {p : Parser α} {f : α → Parser β} {r r' : Reader}
    {e : ParseError} (h : p r = .error e r') : (p >>= f) r = .error e r' := by
  show EStateM.bind p f r = _
  rw [EStateM.bind, h]

theorem Parser.discard_expect_of_eq {k : Kind} {note : String} {r : Reader} (h : r.current.kind = k) :
    Functor.discard (expect k note) r = .ok () (r.drop 1) := by
  rw [Agrees.discard_eq, bind_of_ok (if_pos h)]
  rfl

theorem Parser.discard_expect_of_ne {k : Kind} {note : String} {r : Reader} (h : r.current.kind ≠ k) :
    Functor.discard (expect k note) r
      = .error (.unexpected k r.current.kind r.current.place note) r := by
  rw [Agrees.discard_eq]
  exact bind_of_error (if_neg h)

namespace EndsWithin

variable {α β : Type} {typed : Bool} {p : Parser α} {q : Parser β} {r : Reader}

theorem congr {p q : Parser α} (h : EndsWithin typed q r) (heq : p r = q r) : EndsWithin typed p r := by
  unfold EndsWithin at h ⊢
  rwa [heq]

theorem of_isSyntax {e : ParseError} (he : e.isSyntax = true) (h : p r = .error e r) :
    EndsWithin typed p r :=
  ⟨0, Nat.zero_le _, .inr ⟨e, h, .inl he⟩⟩

/-- A parser that goes on behind some tokens ends where the rest of it does. -/
theorem of_drop {p q : Parser α} {m : Nat} (h : EndsWithin typed q (r.drop m)) (hm : m ≤ r.left)
    (heq : p r = q (r.drop m)) : EndsWithin typed p r := by
  obtain ⟨m', hm', hend⟩ := h
  rw [Reader.drop_left] at hm'
  rw [Reader.drop_drop, ← heq] at hend
  exact ⟨m + m', by omega, hend⟩

end EndsWithin

theorem Reader.left_pos_of_symbol {r : Reader} (h : r.current.symbol ≠ (.eof, "")) : 0 < r.left := by
  rw [r.left_eq, List.length_pos_iff]
  intro hnil
  rw [current, hnil] at h
  exact h rfl

namespace Stays

variable {α β σ : Type} {typed : Bool} {n : Nat} {P : Token → Prop}

theorem weaken {P' : Token → Prop} {p : Parser α} (h : Stays typed n P' p) (hP : ∀ t, P t → P' t) :
    Stays typed n P p := fun r hn hr => h r hn (hP _ hr)

theorem pure' {a : α} : Stays typed n P (pure a) :=
  fun _ _ _ => ⟨0, Nat.zero_le _, .inl ⟨a, rfl⟩⟩

theorem throw {e : ParseError} (he : e.isSyntax = true) :
    Stays typed n P (MonadExcept.throw e : Parser α) :=
  fun _ _ _ => .of_isSyntax he rfl

theorem throw_bind {e : ParseError} {f : α → Parser β} (he : e.isSyntax = true) :
    Stays typed n P ((MonadExcept.throw e : Parser α) >>= f) :=
  fun _ _ _ => .of_isSyntax he rfl

theorem bind {p : Parser α} {f : α → Parser β} (hp : Stays typed n P p)
    (hf : ∀ a, Stays typed n (fun _ => True) (f a)) : Stays typed n P (p >>= f) := by
  intro r hn hr
  obtain ⟨m, hm, ⟨a, ha⟩ | ⟨e, he, hwithin⟩⟩ := hp r hn hr
  · have hrest := hf a (r.drop m) (by rw [Reader.drop_left]; omega) trivial
    exact hrest.of_drop hm (Parser.bind_of_ok ha)
  · exact ⟨m, hm, .inr ⟨e, Parser.bind_of_error he, hwithin⟩⟩

theorem ite {p q : Parser α} {c : Prop} [Decidable c] (hp : c → Stays typed n P p)
    (hq : ¬ c → Stays typed n P q) : Stays typed n P (if c then p else q) := by
  split
  · exact hp ‹_›
  · exact hq ‹_›

theorem discard {p : Parser α} (hp : Stays typed n P p) : Stays typed n P (Functor.discard p) := by
  rw [Agrees.discard_eq]
  exact hp.bind fun _ => pure'

/-! ## Single tokens -/

theorem kind_bind_of {P : Kind → Prop} {f : Kind → Parser β}
    (hf : ∀ k, P k → Stays typed n (fun t => t.kind = k) (f k)) :
    Stays typed n (fun t => P t.kind) (Parser.kind >>= f) :=
  fun r hn hr => hf r.current.kind hr r hn rfl

theorem kind_bind {f : Kind → Parser β} (hf : ∀ k, Stays typed n (fun t => t.kind = k) (f k)) :
    Stays typed n P (Parser.kind >>= f) :=
  fun r hn _ => hf r.current.kind r hn rfl

theorem current_bind {f : Token → Parser β} (hf : ∀ t, P t → Stays typed n (· = t) (f t)) :
    Stays typed n P (Parser.current >>= f) :=
  fun r hn hr => hf r.current hr r hn rfl

theorem advance (hP : ∀ t, P t → t.symbol ≠ (.eof, "")) : Stays typed n P Parser.advance :=
  fun r _ hr => ⟨1, Reader.left_pos_of_symbol (hP _ hr), .inl ⟨r.current, rfl⟩⟩

theorem advance_of {k : Kind} (hk : k ≠ .eof) : Stays typed n (fun t => t.kind = k) Parser.advance := by
  refine advance ?_
  rintro t rfl hsymbol
  exact hk (Prod.mk.inj hsymbol).1

/-- Takes a token of a class that is not that of the end. -/
theorem skip {k : Kind} (hk : k ≠ .eof) :
    Stays typed n (fun t => t.kind = k) (Functor.discard Parser.advance) :=
  discard (advance_of hk)

theorem expect {k : Kind} {note : String} (hk : k ≠ .eof) :
    Stays typed n P (Parser.expect k note) := by
  intro r _ _
  by_cases hr : r.current.kind = k
  · exact ⟨1, Reader.left_pos (hr ▸ hk), .inl ⟨r.current, if_pos hr⟩⟩
  · exact .of_isSyntax (e := .unexpected _ _ _ _) rfl (if_neg hr)

/-- Behind a token that was taken there are less ahead. -/
theorem expect_bind {k : Kind} {note : String} {f : Unit → Parser β} (hk : k ≠ .eof)
    (hf : Stays typed n (fun _ => True) (f ())) :
    Stays typed (n + 1) P (Functor.discard (Parser.expect k note) >>= f) := by
  intro r hn _
  by_cases hr : r.current.kind = k
  · have hpos := Reader.left_pos (hr ▸ hk)
    have hrest := hf (r.drop 1) (by rw [Reader.drop_left]; omega) trivial
    exact hrest.of_drop hpos (Parser.bind_of_ok (Parser.discard_expect_of_eq hr))
  · exact .of_isSyntax rfl (Parser.bind_of_error (Parser.discard_expect_of_ne hr))

theorem name {note : String} : Stays typed n P (Parser.name note) := by
  intro r _ _
  by_cases hr : r.current.kind.isName = true
  · have hpos : 0 < r.left := by
      refine Reader.left_pos fun heof => ?_
      rw [heof] at hr
      cases hr
    exact ⟨1, hpos, .inl ⟨r.current.text, if_pos hr⟩⟩
  · exact .of_isSyntax (e := .unexpected _ _ _ _) rfl (if_neg hr)

/-! ## Loops -/

/-- A loop whose rounds stay, and take a token if they go on, comes to an end. -/
theorem iterate {v : Sight} {round : σ → Parser (Option σ)}
    (hround : ∀ s, Stays typed n (fun _ => True) (round s))
    (htakes : ∀ s, Agrees v (fun _ => True) (round s) (round s) (·.isSome = true)) (s : σ) :
    Stays typed n P (Parser.iterate round s) := by
  intro r hn hP
  clear hP
  -- By induction on the tokens ahead, since a round that goes on takes one.
  induction hl : r.left using Nat.strong_induction_on generalizing s r with
  | _ l ih =>
    refine EndsWithin.congr ?_ (Rounds.iterate_eq_bind htakes s r)
    obtain ⟨m, hm, ⟨o, ho⟩ | ⟨e, he, hwithin⟩⟩ := hround s r hn trivial
    · cases o with
      | none => exact ⟨m, hm, .inl ⟨s, Parser.bind_of_ok ho⟩⟩
      | some s' =>
        have hlt := (htakes s).left_lt ho rfl
        have hrest := ih (r.drop m).left (by omega) s' (r.drop m) (by omega) rfl
        exact hrest.of_drop hm (Parser.bind_of_ok ho)
    · exact ⟨m, hm, .inr ⟨e, Parser.bind_of_error he, hwithin⟩⟩

end Stays

/-! ## Skipping -/

theorem Parser.groupLength_le {opener closer : Kind} {depth n : Nat} {ts : List Token}
    (h : groupLength opener closer depth ts = some n) : n ≤ ts.length := by
  induction ts generalizing depth n with
  | nil => cases h
  | cons t ts ih =>
    rw [groupLength_cons] at h
    split at h
    · obtain rfl : 1 = n := Option.some.inj h
      exact Nat.succ_pos _
    · obtain ⟨m, hm, rfl⟩ := Option.map_eq_some_iff.mp h
      exact Nat.succ_le_succ (ih hm)

theorem Parser.statementLength_le (depth : Nat) (ts : List Token) :
    statementLength depth ts ≤ ts.length := by
  induction ts generalizing depth with
  | nil => exact Nat.le_refl _
  | cons t ts ih =>
    rw [statementLength_cons]
    cases hdepth : statementDepth? depth t.kind with
    | error n =>
      have hn : n ≤ 1 := by
        unfold statementDepth? at hdepth
        grind
      exact Nat.le_trans hn (Nat.succ_pos _)
    | ok d => exact Nat.succ_le_succ (ih d)

namespace Stays

variable {α β σ : Type} {typed : Bool} {n : Nat} {P : Token → Prop}

/-- A group is skipped within the stream; it is missing only if the current token opens none. -/
theorem skipGroup (hP : typed = false → ∀ t, P t → t.kind.isOpener = true) :
    Stays typed n P Parser.skipGroup := by
  intro r _ hr
  cases hcloser : r.current.kind.closer? with
  | none =>
    refine ⟨0, Nat.zero_le _, .inr ⟨.groupMissing r.current.kind, ?_, .inr ⟨?_, _, rfl⟩⟩⟩
    · simp only [Parser.skipGroup, hcloser, Reader.drop_zero]
    · by_contra htyped
      have hopener := hP (by simpa using htyped) _ hr
      rw [Kind.isOpener, hcloser] at hopener
      cases hopener
  | some closer =>
    cases hlength : Parser.groupLength r.current.kind closer 0 (r.ahead.drop 1) with
    | some m =>
      have hle := Parser.groupLength_le hlength
      have hpos : 0 < r.left := Reader.left_pos fun heof => by
        rw [heof] at hcloser
        cases hcloser
      rw [List.length_drop, ← r.left_eq] at hle
      refine ⟨m + 1, by omega, .inl ⟨(), ?_⟩⟩
      simp only [Parser.skipGroup, hcloser, hlength]
    | none =>
      refine ⟨r.left, Nat.le_refl _, .inr ⟨.unterminated r.current.text r.current.place, ?_, .inl rfl⟩⟩
      simp only [Parser.skipGroup, hcloser, hlength]

theorem skipGroup_of {k : Kind} (hk : k.isOpener = true) :
    Stays typed n (fun t => t.kind = k) Parser.skipGroup :=
  skipGroup fun _ _ ht => ht ▸ hk

theorem skipStatement : Stays typed n P Parser.skipStatement :=
  fun r _ _ => ⟨_, r.left_eq ▸ Parser.statementLength_le 0 r.ahead, .inl ⟨(), rfl⟩⟩

theorem lengthText : Stays typed n P Parser.lengthText :=
  fun r _ _ => ⟨_, r.left_eq ▸ (List.takeWhile_sublist _).length_le, .inl ⟨_, rfl⟩⟩

theorem skipArguments : Stays typed n P Parser.skipArguments :=
  kind_bind fun _ => ite (fun hk => skipGroup_of (by rw [hk]; rfl)) fun _ => pure'

theorem skipComma : Stays typed n P Parser.skipComma :=
  kind_bind fun _ => ite (fun hk => skip (by rw [hk]; decide)) fun _ => pure'

theorem skipName : Stays typed n P Parser.skipName := by
  refine kind_bind fun k => ite (fun hk => skip ?_) fun _ => pure'
  rintro rfl
  cases hk

theorem skipBodyRound (u : Unit) : Stays typed n P (Parser.skipBodyRound u) := by
  refine kind_bind fun k => ?_
  split
  · exact pure'
  · exact pure'
  · exact pure'
  · refine ite (fun hk => ?_) fun _ => ?_
    · exact (skipGroup_of hk).bind fun _ => pure'
    · exact (skip ‹_›).bind fun _ => pure'

theorem skipBody : Stays typed n P Parser.skipBody := by
  refine (iterate skipBodyRound (Agrees.skipBodyRound (v := .near)) _).bind fun _ => kind_bind fun k => ?_
  split
  · exact skipGroup_of rfl
  · exact skip (by decide)
  · exact pure'

/-! ## Names and types -/

theorem segmentRound (path : DottedName) : Stays typed n P (Parser.segmentRound path) := by
  refine kind_bind fun k => ite (fun hk => ?_) fun _ => pure'
  exact (skip (by rw [hk]; decide)).bind fun _ => name.bind fun _ => pure'

theorem dottedName : Stays typed n P Parser.dottedName :=
  name.bind fun _ => iterate segmentRound (Agrees.segmentRound (v := .near)) _

theorem typeAttributeRound (u : Unit) : Stays typed n P (Parser.typeAttributeRound u) := by
  refine kind_bind fun k => ite (fun hk => ?_) fun _ => pure'
  refine (skip ?_).bind fun _ => pure'
  rintro rfl
  simp [Parser.visibility?, Parser.stateMutability?] at hk

/-- The groups of a function type may be missing. -/
theorem functionType : Stays true n P Parser.functionType := by
  refine (discard (expect (by decide))).bind fun _ => (skipGroup nofun).bind fun _ => ?_
  refine (iterate typeAttributeRound (Agrees.typeAttributeRound (v := .near)) _).bind fun _ => ?_
  refine kind_bind fun k => ite (fun hk => ?_) fun _ => pure'.bind fun _ => pure'
  exact (skip (by rw [hk]; decide)).bind fun _ => (skipGroup nofun).bind fun _ => pure'

theorem mappingType {inner : Parser TypeName} (hinner : Stays typed n (fun _ => True) inner) :
    Stays typed (n + 1) P (Parser.mappingType inner) := by
  refine expect_bind (by decide) ((discard (expect (by decide))).bind fun _ => ?_)
  refine hinner.bind fun _ => skipName.bind fun _ => (discard (expect (by decide))).bind fun _ => ?_
  exact hinner.bind fun _ => skipName.bind fun _ => (discard (expect (by decide))).bind fun _ => pure'

theorem bracketRound (type : TypeName) : Stays typed n P (Parser.bracketRound type) := by
  refine kind_bind fun k => ite (fun hk => ?_) fun _ => pure'
  refine (skip (by rw [hk]; decide)).bind fun _ => lengthText.bind fun _ => ?_
  exact (discard (expect (by decide))).bind fun _ => pure'

/-- Groups may be missing in function types only, and levels in mappings. -/
theorem baseType_of {inner : Parser TypeName}
    (hmapping : Stays typed n (fun t => P t ∧ t.kind = .kwMapping) (Parser.mappingType inner))
    (hfunction : Stays typed n (fun t => P t ∧ t.kind = .kwFunction) Parser.functionType) :
    Stays typed n P (Parser.baseType inner) := by
  refine current_bind fun t hP => ?_
  split
  · refine hmapping.weaken ?_
    rintro _ rfl
    exact ⟨hP, ‹_›⟩
  · refine hfunction.weaken ?_
    rintro _ rfl
    exact ⟨hP, ‹_›⟩
  · rename_i hk
    refine Stays.bind ((skip (k := .elementary) (by decide)).weaken ?_) fun _ => ?_
    · rintro _ rfl
      exact hk
    refine kind_bind fun k => ite (fun hpayable => (skip ?_).bind fun _ => pure') fun _ => pure'
    rintro rfl
    simp at hpayable
  · refine ite (fun _ => ?_) fun _ => throw rfl
    exact dottedName.bind fun _ => pure'

theorem baseType {inner : Parser TypeName} (hinner : Stays true n (fun _ => True) inner) :
    Stays true (n + 1) P (Parser.baseType inner) :=
  baseType_of (mappingType hinner) functionType

/-- A mapping takes a token before it goes a level down, so the levels are enough. -/
theorem typeNameWithin (n : Nat) : Stays true n P (Parser.typeNameWithin n) := by
  induction n generalizing P with
  | zero => exact fun r hn => absurd hn (Nat.not_lt_zero _)
  | succ n ih =>
    rw [Parser.typeNameWithin]
    exact (baseType ih).bind fun _ => iterate bracketRound (Agrees.bracketRound (v := .near)) _

theorem typeName : Stays true n P Parser.typeName :=
  fun r _ hr => typeNameWithin (r.left + 1) r (Nat.lt_succ_self _) hr

/-! ## Variables -/

theorem parameterWordRound (x : Variable) : Stays typed n P (Parser.parameterWordRound x) := by
  refine kind_bind fun k => ?_
  have hlocation : ∀ l, Parser.location? k = some l → k ≠ .eof := by
    rintro l hl rfl
    cases hl
  split
  · exact (skip (hlocation _ ‹_›)).bind fun _ => pure'
  · refine ite (fun hk => ?_) fun _ => pure'
    exact (skip (by rw [hk]; decide)).bind fun _ => pure'

theorem parameter : Stays true n P Parser.parameter := by
  refine typeName.bind fun _ => ?_
  refine (iterate parameterWordRound (Agrees.parameterWordRound (v := .near)) _).bind fun _ => ?_
  refine kind_bind fun k => ite (fun hk => ?_) fun _ => pure'
  refine (advance_of ?_).bind fun _ => pure'
  rintro rfl
  cases hk

theorem parameterRound (vs : List Variable) : Stays true n P (Parser.parameterRound vs) := by
  refine kind_bind fun k => ?_
  split
  · exact pure'
  · exact pure'
  · exact parameter.bind fun _ => skipComma.bind fun _ => pure'

theorem parameterList : Stays true n P Parser.parameterList := by
  refine (discard (expect (by decide))).bind fun _ => ?_
  refine (iterate parameterRound (Agrees.parameterRound (v := .near)) _).bind fun _ => ?_
  exact (discard (expect (by decide))).bind fun _ => pure'

theorem variableWordRound (x : Variable) : Stays typed n P (Parser.variableWordRound x) := by
  refine kind_bind fun k => ite (fun hk => ?_) fun _ => ?_
  · exact (skip (by rw [hk]; decide)).bind fun _ => skipArguments.bind fun _ => pure'
  have hmode : ∀ m, Parser.mode? k = some m → k ≠ .eof := by
    rintro m hm rfl
    cases hm
  have hvisibility : ∀ x, Parser.visibility? k = some x → k ≠ .eof := by
    rintro m hm rfl
    cases hm
  split
  · exact (skip (hmode _ ‹_›)).bind fun _ => pure'
  split
  · exact pure'
  · exact (skip (hvisibility _ ‹_›)).bind fun _ => pure'
  · exact pure'

theorem stateVariable : Stays true n P Parser.stateVariable := by
  refine current_bind fun t _ => typeName.bind fun _ => ?_
  refine (iterate variableWordRound (Agrees.variableWordRound (v := .near)) _).bind fun _ => ?_
  refine name.bind fun _ => kind_bind fun k => ite (fun _ => ?_) fun _ => ?_
  · exact skipStatement.bind fun _ => pure'
  · exact (discard (expect (by decide))).bind fun _ => pure'

/-! ## Structs, enums and functions -/

theorem structMemberRound (vs : List Variable) : Stays true n P (Parser.structMemberRound vs) := by
  refine kind_bind fun k => ?_
  split
  · exact pure'
  · exact pure'
  · refine typeName.bind fun _ => name.bind fun _ => ?_
    exact (discard (expect (by decide))).bind fun _ => pure'

theorem struct : Stays true n P Parser.struct := by
  refine (discard (expect (by decide))).bind fun _ => name.bind fun _ => ?_
  refine (discard (expect (by decide))).bind fun _ => ?_
  refine (iterate structMemberRound (Agrees.structMemberRound (v := .near)) _).bind fun _ => ?_
  exact (discard (expect (by decide))).bind fun _ => pure'

theorem enumMemberRound (names : List String) : Stays typed n P (Parser.enumMemberRound names) := by
  refine kind_bind fun k => ?_
  split
  · exact pure'
  · exact pure'
  · exact name.bind fun _ => skipComma.bind fun _ => pure'

theorem enum : Stays typed n P Parser.enum := by
  refine (discard (expect (by decide))).bind fun _ => name.bind fun _ => ?_
  refine (discard (expect (by decide))).bind fun _ => ?_
  refine (iterate enumMemberRound (Agrees.enumMemberRound (v := .near)) _).bind fun _ => ?_
  exact (discard (expect (by decide))).bind fun _ => pure'

/-- Types stand in the results of a function, and in no other attribute. -/
theorem functionAttributeRound_of (f : FunctionDecl) :
    Stays typed n (fun t => typed = false → t.kind ≠ .kwReturns) (Parser.functionAttributeRound f) := by
  refine kind_bind_of (P := fun k => typed = false → k ≠ .kwReturns) fun k hP => ?_
  have hvisibility : ∀ x, Parser.visibility? k = some x → k ≠ .eof := by
    rintro m hm rfl
    cases hm
  have hmutability : ∀ x, Parser.stateMutability? k = some x → k ≠ .eof := by
    rintro m hm rfl
    cases hm
  split
  · exact (skip (hvisibility _ ‹_›)).bind fun _ => pure'
  · exact (skip (hmutability _ ‹_›)).bind fun _ => pure'
  refine ite (fun hk => ?_) fun _ => ite (fun hk => ?_) fun _ => ite (fun hk => ?_) fun _ =>
    ite (fun _ => ?_) fun _ => pure'
  · exact (skip (by rw [hk]; decide)).bind fun _ => pure'
  · exact (skip (by rw [hk]; decide)).bind fun _ => skipArguments.bind fun _ => pure'
  · cases typed with
    | true => exact (skip (by rw [hk]; decide)).bind fun _ => parameterList.bind fun _ => pure'
    | false => exact absurd hk (hP rfl)
  · exact dottedName.bind fun _ => skipArguments.bind fun _ => pure'

theorem functionAttributeRound (f : FunctionDecl) : Stays true n P (Parser.functionAttributeRound f) :=
  (functionAttributeRound_of f).weaken fun _ _ => nofun

theorem signature (f : FunctionDecl) : Stays true n P (Parser.signature f) :=
  parameterList.bind fun _ => iterate functionAttributeRound (Agrees.functionAttributeRound (v := .near)) _

theorem functionBody (f : FunctionDecl) : Stays typed n P (Parser.functionBody f) := by
  refine kind_bind fun k => ite (fun hk => ?_) fun _ => ?_
  · exact (skipGroup_of (by rw [hk]; rfl)).bind fun _ => pure'
  · exact (discard (expect (by decide))).bind fun _ => pure'

theorem function : Stays true n P Parser.function := by
  rw [Parser.function_eq]
  refine Stays.bind ?_ functionBody
  refine (discard (expect (by decide))).bind fun _ => kind_bind fun k => ite (fun _ => ?_) fun _ => ?_
  · exact signature _
  · exact name.bind fun _ => signature _

theorem specialFunction {k : Kind} (hk : k ≠ .eof) :
    Stays true n (fun t => t.kind = k) Parser.specialFunction := by
  rw [Parser.specialFunction_eq]
  refine Stays.bind ?_ functionBody
  exact (advance_of hk).bind fun _ => signature _

/-! ## Contracts -/

theorem baseRound (state : List DottedName × Bool) : Stays typed n P (Parser.baseRound state) := by
  refine ite (fun _ => ?_) fun _ => pure'
  refine dottedName.bind fun _ => skipArguments.bind fun _ => kind_bind fun k => ?_
  refine ite (fun hk => ?_) fun _ => pure'
  exact (skip (by rw [hk]; decide)).bind fun _ => pure'

theorem baseList : Stays typed n P Parser.baseList := by
  refine kind_bind fun k => ite (fun hk => ?_) fun _ => pure'
  refine (skip (by rw [hk]; decide)).bind fun _ => ?_
  exact (iterate baseRound (Agrees.baseRound (v := .near)) _).bind fun _ => pure'

theorem contractKind : Stays typed n P Parser.contractKind := by
  refine kind_bind fun k => ?_
  split
  · exact (skip (by decide)).bind fun _ => pure'
  · exact (skip (by decide)).bind fun _ => pure'
  · exact (discard (expect (by decide))).bind fun _ => pure'

theorem contractHead : Stays typed n P Parser.contractHead := by
  refine kind_bind fun k => ite (fun hk => (skip ?_).bind fun _ => ?_) fun _ => ?_
  · rintro rfl
    simp at hk
  all_goals
    refine contractKind.bind fun _ => name.bind fun _ => baseList.bind fun _ => ?_
    exact (discard (expect (by decide))).bind fun _ => pure'

/-- What is skipped where an attempt was given up is a statement, or a token. -/
theorem recovering {p : Parser α} (hp : Stays typed n (fun t => t.kind ≠ .eof) p) :
    Stays typed n (fun t => t.kind ≠ .eof) (Parser.recovering p) := by
  intro r hn hk
  have hpos := Reader.left_pos hk
  obtain ⟨m, hm, ⟨a, ha⟩ | ⟨e, he, hwithin⟩⟩ := hp r hn hk
  · exact ⟨m, hm, .inl ⟨some a, Parser.recovering_of_ok ha⟩⟩
  · cases hsyntax : e.isSyntax with
    | true =>
      have hle := Parser.statementLength_le 0 r.ahead
      rw [← r.left_eq] at hle
      exact ⟨_, Nat.max_le.mpr ⟨hpos, hle⟩, .inl ⟨none, Parser.recovering_of_syntax he hsyntax⟩⟩
    | false => exact ⟨m, hm, .inr ⟨e, Parser.recovering_of_error he hsyntax, hwithin⟩⟩

theorem announcedMember : Stays true n (fun t => t.kind ≠ .eof) Parser.announcedMember := by
  refine kind_bind_of (P := (· ≠ .eof)) fun k hk => ?_
  split
  · exact function.bind fun _ => pure'
  · exact struct.bind fun _ => pure'
  · exact enum.bind fun _ => pure'
  · rw [← Parser.modifier_eq]
    exact (skip hk).bind fun _ => skipBody.bind fun _ => pure'
  · exact skipStatement.bind fun _ => pure'
  · exact skipStatement.bind fun _ => pure'
  · exact skipStatement.bind fun _ => pure'
  · exact skipStatement.bind fun _ => pure'
  · exact (specialFunction hk).bind fun _ => pure'

theorem variableMember : Stays true n (fun t => t.kind ≠ .eof) Parser.variableMember :=
  (recovering stateVariable).bind fun _ => pure'

theorem member : Stays true n (fun t => t.kind ≠ .eof) Parser.member := by
  intro r hn hr
  cases hvariable : r.startsVariable with
  | true => exact (variableMember r hn hr).congr (by rw [Parser.member_eq, hvariable, if_pos rfl])
  | false =>
    exact (announcedMember r hn hr).congr (by rw [Parser.member_eq, hvariable, if_neg (by decide)])

theorem memberRound (members : List Member) : Stays true n P (Parser.memberRound members) := by
  refine kind_bind fun k => ?_
  split
  · exact pure'
  · exact pure'
  · rename_i heof
    refine Stays.bind (member.weaken ?_) fun _ => pure'
    rintro t rfl
    exact heof

theorem contract : Stays true n P Parser.contract := by
  rw [Parser.contract_eq]
  refine contractHead.bind fun _ => (iterate memberRound Agrees.memberRound _).bind fun _ => ?_
  exact (discard (expect (by decide))).bind fun _ => pure'

/-! ## Files -/

theorem pragma : Stays typed n P Parser.pragma := by
  refine (discard (expect (by decide))).bind fun _ => (expect (by decide)).bind fun _ => ?_
  exact (expect (by decide)).bind fun _ => (discard (expect (by decide))).bind fun _ => pure'

/-- The end of a stream has no text, so it is no alias. -/
theorem alias? : Stays typed n P Parser.alias? := by
  refine current_bind fun t _ => ite (fun ht => ?_) fun _ => pure'
  refine (discard (advance ?_)).bind fun _ => name.bind fun _ => pure'
  rintro _ rfl hsymbol
  exact absurd (ht.symm.trans (Prod.mk.inj hsymbol).2) (by decide)

theorem symbolRound (symbols : List (String × Option String)) :
    Stays typed n P (Parser.symbolRound symbols) := by
  refine kind_bind fun k => ?_
  split
  · exact pure'
  · exact pure'
  · exact name.bind fun _ => alias?.bind fun _ => skipComma.bind fun _ => pure'

theorem importedFile : Stays typed n P Parser.importedFile := by
  refine current_bind fun t _ => ite (fun _ => throw_bind rfl) fun ht => ?_
  have htext : t.text = "from" := Classical.not_not.mp ht
  refine (discard (advance ?_)).bind fun _ => (expect (by decide)).bind fun _ => pure'
  rintro _ rfl hsymbol
  exact absurd (htext.symm.trans (Prod.mk.inj hsymbol).2) (by decide)

theorem importDirective : Stays typed n P Parser.importDirective := by
  refine (discard (expect (by decide))).bind fun _ => kind_bind fun k => ?_
  split
  · refine (advance_of (by decide)).bind fun _ => alias?.bind fun _ => ?_
    exact (discard (expect (by decide))).bind fun _ => pure'
  · refine (skip (by decide)).bind fun _ => alias?.bind fun _ => importedFile.bind fun _ => ?_
    exact (discard (expect (by decide))).bind fun _ => pure'
  · refine (discard (expect (by decide))).bind fun _ => ?_
    refine (iterate symbolRound (Agrees.symbolRound (v := .near)) _).bind fun _ => ?_
    refine (discard (expect (by decide))).bind fun _ => importedFile.bind fun _ => ?_
    exact (discard (expect (by decide))).bind fun _ => pure'

/-- Types stand in contracts, structs and functions. -/
theorem unitRound_of (u : SourceUnit) :
    Stays typed n (fun t => typed = false → startsContract t.kind = false ∧ t.kind ≠ .kwStruct ∧
      t.kind ≠ .kwFunction) (Parser.unitRound u) := by
  refine kind_bind_of (P := fun k => typed = false → startsContract k = false ∧ k ≠ .kwStruct ∧
    k ≠ .kwFunction) fun k hP => ?_
  have htyped : ∀ {p : Parser (Option SourceUnit)}, (startsContract k = true ∨ k = .kwStruct ∨
      k = .kwFunction) → (typed = true → Stays typed n (fun t => t.kind = k) p) →
      Stays typed n (fun t => t.kind = k) p := by
    intro p hk hp
    cases typed with
    | true => exact hp rfl
    | false =>
      obtain ⟨hcontract, hstruct, hfunction⟩ := hP rfl
      rw [hcontract] at hk
      rcases hk with hk | hk | hk
      · cases hk
      · exact absurd hk hstruct
      · exact absurd hk hfunction
  split
  · exact pure'
  · exact pragma.bind fun _ => pure'
  · exact importDirective.bind fun _ => pure'
  · exact htyped (.inl rfl) fun h => h ▸ contract.bind fun _ => pure'
  · exact htyped (.inl rfl) fun h => h ▸ contract.bind fun _ => pure'
  · exact htyped (.inl rfl) fun h => h ▸ contract.bind fun _ => pure'
  · exact htyped (.inl rfl) fun h => h ▸ contract.bind fun _ => pure'
  · exact htyped (.inr (.inl rfl)) fun h => h ▸ struct.bind fun _ => pure'
  · exact enum.bind fun _ => pure'
  · exact htyped (.inr (.inr rfl)) fun h => h ▸ (discard function).bind fun _ => pure'
  · rename_i heof _ _ _ _ _ _ _ _ _
    refine ite (fun _ => ?_) fun _ => ?_
    · exact (skip heof).bind fun _ => pure'
    · exact skipStatement.bind fun _ => pure'

theorem unitRound (u : SourceUnit) : Stays true n P (Parser.unitRound u) :=
  (unitRound_of u).weaken fun _ _ => nofun

theorem sourceUnit : Stays true n P Parser.sourceUnit := iterate unitRound Agrees.unitRound _

end Stays

end SolidityInterface
