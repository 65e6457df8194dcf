import SolidityInterface.Proofs.Declaration.Concluding

/-
  Passing over a faulty member. A contract is parsed member by member; where one is read as a
  state variable and breaks the grammar, the parser goes back to where it began and skips a
  statement. If the faulty member is a statement (`IsStatement`), it is dropped and nothing else:

  1. Two streams that part where the faulty member begins, or what would come in its place, have
     the same course up to there (`membersRead_transfer`). The member before it may stop just
     there, so that its own last token is all it has seen (`member_concludes`).
  2. There the statement that is skipped is the faulty member, however far the attempt has read
     (`IsStatement.memberRound`).
  3. Behind it the parser sees the same symbols as in the stream without it, and goes on alike.

  An attempt at an earlier member that was given up is the exception in the first step: it has
  read the token at which it broke off. So none of them may have come to the faulty member.
-/

namespace SolidityInterface

open Token (Kind)

/-! ## Statements -/

/-- Whether some symbols are a statement: their brackets match, and the only semicolon outside
brackets is the last of them. -/
structure IsStatement (m : List Symbol) : Prop where
  nonempty : m ≠ []
  endless : ∀ x ∈ m, x.1 ≠ .eof
  matched : Matched m
  last : ∀ i, EndsStatement m i ↔ i + 1 = m.length

namespace IsStatement

variable {m : List Symbol}

/-- Before its semicolon a statement is unbroken. -/
theorem exists_unbroken (h : IsStatement m) :
    ∃ front x, m = front ++ [x] ∧ Unbroken front ∧ x.1 = .semicolon := by
  obtain hunbroken | ⟨before, x, after, rfl, hbefore, hx⟩ := h.matched.unbroken_or_split
  · have hpos := List.length_pos_iff.mpr h.nonempty
    obtain ⟨hsemicolon, houtside⟩ := (h.last (m.length - 1)).mpr (by omega)
    exact absurd houtside (hunbroken.not_outside hsemicolon)
  · have hends := (isLeast_endsStatement hbefore hx h.matched).1
    have hlength := (h.last before.length).mp hends
    rw [List.length_append, List.length_cons] at hlength
    obtain rfl : after = [] := List.length_eq_zero_iff.mp (by omega)
    exact ⟨before, x, rfl, hbefore, hx⟩

/-- Unbroken symbols and a semicolon are a statement. -/
theorem of_unbroken {front : List Symbol} {x : Symbol} (hfront : Unbroken front) (hx : x.1 = .semicolon)
    (hend : ∀ y ∈ front, y.1 ≠ .eof) : IsStatement (front ++ [x]) where
  nonempty := List.append_ne_nil_of_right_ne_nil _ (List.cons_ne_nil _ _)
  endless := by
    intro y hy
    obtain hy | hy := List.mem_append.mp hy
    · exact hend y hy
    · rw [List.mem_singleton.mp hy, hx]
      decide
  matched := hfront.matched_concat (by rw [hx]; rfl) (by rw [hx]; rfl)
  last := by
    have hleast := isLeast_endsStatement hfront hx
      (hfront.matched_concat (by rw [hx]; rfl) (by rw [hx]; rfl))
    intro i
    rw [List.length_append, List.length_singleton]
    constructor
    · intro hi
      have hle := hleast.2 hi
      obtain ⟨⟨u, hu, -⟩, -⟩ := hi
      have hlt := (List.getElem?_eq_some_iff.mp hu).1
      rw [List.length_append, List.length_singleton] at hlt
      omega
    · intro hi
      obtain rfl : i = front.length := by omega
      exact hleast.1

theorem goesOn (h : IsStatement m) {r : Reader} {post : List Symbol} (hr : r.symbols = m ++ post) :
    r.GoesOn := by
  rw [Reader.GoesOn, r.current_kind, hr]
  have hkind := h.endless
  cases h.matched with
  | nil => exact absurd rfl h.nonempty
  | @plain x ss hopener hcloser rest => exact ⟨hkind x List.mem_cons_self, hcloser⟩
  | @group x y ss ts hxy inside rest =>
    exact ⟨hkind x List.mem_cons_self, Kind.isCloser_of_isOpener (Sound.isCloser_of_closer? hxy).1⟩

/-- A statement is skipped as a whole. -/
theorem statementLength (h : IsStatement m) {r : Reader} {post : List Symbol}
    (hr : r.symbols = m ++ post) : Parser.statementLength 0 r.ahead = m.length := by
  obtain ⟨front, x, rfl, hfront, hx⟩ := h.exists_unbroken
  rw [List.append_assoc] at hr
  rw [Parser.statementLength_of_semicolon hr hfront hx, List.length_append, List.length_singleton]

end IsStatement

/-! ## The course of a contract -/

/-- Whether the parser of a contract at the start of a stream comes to a member, or to where the
members end, and what it has read by then. -/
def MembersRead (t : TokenStream) (c : Contract) (members : List Member) (r : Reader) : Prop :=
  ∃ r₁, Parser.contractHead (t.readerAt 0) = .ok c r₁ ∧ Rounds Parser.memberRound [] r₁ members r

/-- Whether a state variable is tried at a reader and given up, and where. -/
structure GivesUp (r stop : Reader) : Prop where
  more : r.current.kind ≠ .rbrace ∧ r.current.kind ≠ .eof
  startsVariable : r.startsVariable = true
  given_up : ∃ e, Parser.stateVariable r = .error e stop ∧ e.isSyntax = true

/-- The members of a contract, from one of them on. -/
def Parser.contractRest (c : Contract) (members : List Member) : Parser Contract := do
  let members ← iterate memberRound members
  discard (expect .rbrace)
  return { c with members }

theorem Agrees.contractRest {P : Kind → Prop} (c : Contract) (members : List Member) :
    Agrees .whole P (Parser.contractRest c members) (Parser.contractRest c members) fun _ => False :=
  (iterate memberRound _).seq fun _ => (expect (by decide)).seq fun _ => pure' id

/-- A contract is the members that were read and the rest. -/
theorem MembersRead.contract_eq {t : TokenStream} {c : Contract} {members : List Member} {r : Reader}
    (h : MembersRead t c members r) :
    Parser.contract (t.readerAt 0) = Parser.contractRest c members r := by
  obtain ⟨r₁, hhead, hrounds⟩ := h
  rw [Parser.contract_eq, Parser.bind_of_ok hhead]
  show EStateM.bind _ _ _ = EStateM.bind _ _ _
  rw [EStateM.bind, EStateM.bind, hrounds.iterate_eq Agrees.memberRound]

/-- A faulty member that is a statement is skipped as a whole, and leaves nothing. -/
theorem IsStatement.memberRound {m post : List Symbol} (h : IsStatement m) {r stop : Reader}
    (hr : r.symbols = m ++ post) (hfaulty : GivesUp r stop) (members : List Member) :
    Parser.memberRound members r = .ok (some members) (r.drop m.length) := by
  obtain ⟨e, he, hsyntax⟩ := hfaulty.given_up
  have hpos := List.length_pos_iff.mpr h.nonempty
  have hrecovering : Parser.recovering Parser.stateVariable r = .ok none (r.drop m.length) := by
    rw [Parser.recovering_of_syntax he hsyntax, h.statementLength hr, Nat.max_eq_right hpos]
  have hmember : Parser.member r = .ok none (r.drop m.length) := by
    rw [Parser.member_eq, if_pos hfaulty.startsVariable]
    exact Parser.bind_of_ok hrecovering
  rw [Parser.memberRound_eq members hfaulty.more, Parser.bind_of_ok hmember, Option.toList_none,
    List.append_nil]
  rfl

section Before

variable {t₁ t₂ : TokenStream} {limit : Nat}
  (hshare : t₁.symbols.take limit = t₂.symbols.take limit) (hgoes : (t₁.readerAt limit).GoesOn)
include hshare hgoes

omit hgoes in
theorem take_readerAt {i n : Nat} (h : i + n ≤ limit) :
    (t₁.readerAt i).symbols.take n = (t₂.readerAt i).symbols.take n := by
  have hstart : (Reader.ofStream t₁).symbols.take limit = (Reader.ofStream t₂).symbols.take limit := hshare
  exact Reader.drop_of_take (Reader.take_of_le hstart h)

/-- A parser that concludes and sees no further than its stop does the same on two streams that
part at the limit, if it stops there at the latest. -/
theorem Concludes.transfer {α : Type} {p : Parser α} {Q : α → Prop}
    (hp : Concludes (fun _ => True) p p) (hnear : Agrees .near (fun _ => True) p p Q) {i : Nat} {a : α}
    {r : Reader} (hr : p (t₁.readerAt i) = .ok a r) (hle : r.index ≤ limit) :
    ∃ j, i ≤ j ∧ r = t₁.readerAt j ∧ p (t₂.readerAt i) = .ok a (t₂.readerAt j) := by
  obtain ⟨n, rfl, hother, -⟩ := hnear.exists_drop trivial hr
  rw [t₁.readerAt_drop] at hle hr ⊢
  rw [t₁.readerAt_index] at hle
  refine ⟨i + n, Nat.le_add_right i n, rfl, ?_⟩
  rw [← t₂.readerAt_drop]
  obtain hlt | rfl := Nat.lt_or_eq_of_le hle
  · exact hother _ (take_readerAt hshare hlt)
  · obtain ⟨m, -, hstop, hconcludes⟩ := hp _ a _ trivial hr hgoes
    rw [← t₁.readerAt_drop] at hstop
    obtain rfl := Reader.drop_inj hstop
    exact hconcludes _ (take_readerAt hshare (Nat.le_refl _))

/-- A member that stops at the limit at the latest is the same on both streams, if a state variable
that was tried and given up there broke off before the limit. -/
theorem member_transfer_of_goesOn {i : Nat} {m : Option Member} {r : Reader}
    (hmore : (t₁.readerAt i).current.kind ≠ .eof)
    (hstop : (t₁.readerAt i).startsVariable = true → ∀ e stop,
      Parser.stateVariable (t₁.readerAt i) = .error e stop → e.isSyntax = true → stop.index < limit)
    (hr : Parser.member (t₁.readerAt i) = .ok m r) (hle : r.index ≤ limit) :
    ∃ j, i ≤ j ∧ r = t₁.readerAt j ∧ Parser.member (t₂.readerAt i) = .ok m (t₂.readerAt j) := by
  obtain hlt | heq := Nat.lt_or_eq_of_le hle
  · -- Before the limit the token at which the member stops is in sight.
    have hpred : limit - 1 + 1 = limit := by omega
    have hshare' : t₁.symbols.take (limit - 1 + 1) = t₂.symbols.take (limit - 1 + 1) := by rwa [hpred]
    refine member_transfer hshare' hmore ?_ hr (by omega)
    intro _ hstarts e stop he hsyntax
    have hbefore := hstop hstarts e stop he hsyntax
    omega
  · obtain ⟨k, hk, rfl⟩ : ∃ k, i ≤ k ∧ r = t₁.readerAt k := by
      obtain ⟨n, rfl, -, -⟩ := (Agrees.member hmore).exists_drop rfl hr
      exact ⟨i + n, Nat.le_add_right i n, t₁.readerAt_drop i n⟩
    rw [t₁.readerAt_index] at heq
    subst heq
    obtain ⟨n, -, hdrop, hconcludes⟩ := member_concludes hmore
      (fun hstarts e stop he hsyntax => by simpa using hstop hstarts e stop he hsyntax) hr hgoes
    rw [t₁.readerAt_drop] at hdrop
    obtain rfl := TokenStream.readerAt_inj hdrop
    refine ⟨i + n, hk, rfl, ?_⟩
    rw [← t₂.readerAt_drop]
    exact hconcludes _ (take_readerAt hshare (Nat.le_refl _))

theorem memberRound_transfer_of_goesOn {i : Nat} {members next : List Member} {r : Reader}
    (hbefore : ∀ stop, (t₁.readerAt i).index < limit → GivesUp (t₁.readerAt i) stop → stop.index < limit)
    (hr : Parser.memberRound members (t₁.readerAt i) = .ok (some next) r) (hle : r.index ≤ limit) :
    ∃ j, i ≤ j ∧ r = t₁.readerAt j ∧
      Parser.memberRound members (t₂.readerAt i) = .ok (some next) (t₂.readerAt j) := by
  have hi : i < limit := by
    obtain ⟨n, rfl, -, htaken⟩ := (Agrees.memberRound (P := fun _ => True) members).exists_drop trivial hr
    have hpos := (htaken rfl).1
    rw [t₁.readerAt_drop, t₁.readerAt_index] at hle
    omega
  have hkind := Reader.kind_of_take Nat.one_pos (take_readerAt hshare (n := 1) hi)
  have hmore : (t₁.readerAt i).current.kind ≠ .rbrace ∧ (t₁.readerAt i).current.kind ≠ .eof := by
    by_contra hend
    rw [Parser.memberRound_stop members hend] at hr
    cases hr
  rw [Parser.memberRound_eq members hmore] at hr
  obtain ⟨m, r', hm, hpure⟩ := Sound.bind_ok hr
  obtain ⟨hnext, rfl⟩ := EStateM.Result.ok.inj hpure
  obtain ⟨j, hj, rfl, hother⟩ := member_transfer_of_goesOn hshare hgoes hmore.2
    (fun hstarts e stop he hsyntax => hbefore stop (by rwa [t₁.readerAt_index])
      ⟨hmore, hstarts, e, he, hsyntax⟩) hm hle
  refine ⟨j, hj, rfl, ?_⟩
  rw [Parser.memberRound_eq members (hkind ▸ hmore), Parser.bind_of_ok hother, ← hnext]
  rfl

/-- The course of a contract up to the limit is the same on both streams. -/
theorem membersRead_transfer {c : Contract} {members : List Member}
    (hbefore : ∀ members r stop, MembersRead t₁ c members r → r.index < limit → GivesUp r stop →
      stop.index < limit)
    (h : MembersRead t₁ c members (t₁.readerAt limit)) : MembersRead t₂ c members (t₂.readerAt limit) := by
  obtain ⟨r₁, hhead, hrounds⟩ := h
  obtain ⟨j, -, rfl⟩ :=
    (Agrees.contractHead (v := .near) (P := fun _ => True)).exists_readerAt trivial hhead
  have hj : j ≤ limit := by
    obtain ⟨k, hk, heq⟩ := hrounds.exists_readerAt Agrees.memberRound
    rwa [TokenStream.readerAt_inj heq]
  obtain ⟨j', -, hjj', hhead'⟩ := Concludes.contractHead.transfer hshare hgoes Agrees.contractHead hhead
    (by rwa [t₁.readerAt_index])
  obtain rfl := TokenStream.readerAt_inj hjj'
  have hstep : ∀ y z i r', Rounds Parser.memberRound [] (t₁.readerAt j) y (t₁.readerAt i) →
      Parser.memberRound y (t₁.readerAt i) = .ok (some z) r' → r'.index ≤ limit →
      ∃ k, i ≤ k ∧ r' = t₁.readerAt k ∧
        Parser.memberRound y (t₂.readerAt i) = .ok (some z) (t₂.readerAt k) := by
    intro y z i r' hrounds hround hle
    exact memberRound_transfer_of_goesOn hshare hgoes
      (fun stop => hbefore y _ stop ⟨_, hhead, hrounds⟩) hround hle
  obtain ⟨k, -, hk, hrounds'⟩ := Rounds.transfer Agrees.memberRound hstep hrounds
    (Nat.le_of_eq (t₁.readerAt_index limit))
  obtain rfl := TokenStream.readerAt_inj hk
  exact ⟨_, hhead', hrounds'⟩

end Before

/-! ## The contract without the member -/

theorem Ends.of_readerAt {α : Type} {p q : Parser α} {t : TokenStream} {k n : Nat} {o : Except Bool α}
    (h : Ends q (t.readerAt k) n o) (heq : p (t.readerAt 0) = q (t.readerAt k)) :
    Ends p (t.readerAt 0) (k + n) o := by
  have hdrop : (t.readerAt k).drop n = (t.readerAt 0).drop (k + n) := by
    rw [t.readerAt_drop, t.readerAt_drop, Nat.zero_add]
  unfold Ends at h ⊢
  rwa [heq, ← hdrop]

namespace Parser

/-- Passing over a faulty member drops it and nothing else. Where the parser of a contract comes to
a statement that is read as a state variable and breaks the grammar there, it goes on just behind
the statement with the members it had, and the contract ends as it would without the statement: in
the same contract, or in an error of the same gravity, at the same token. No attempt at an earlier
member that was given up may have come to the statement; the token at which it broke off counts,
since the attempt has read it. -/
theorem faulty_member_is_dropped_alone {pre m post : List Symbol} {t₁ t₂ : TokenStream} {c : Contract}
    {members : List Member} {stop : Reader} (hm : IsStatement m)
    (h₁ : t₁.symbols = pre ++ (m ++ post)) (h₂ : t₂.symbols = pre ++ post)
    (hreach : MembersRead t₁ c members (t₁.readerAt pre.length))
    (hbefore : ∀ members r stop, MembersRead t₁ c members r → r.index < pre.length → GivesUp r stop →
      stop.index < pre.length)
    (hfaulty : GivesUp (t₁.readerAt pre.length) stop) :
    memberRound members (t₁.readerAt pre.length)
        = .ok (some members) (t₁.readerAt (pre.length + m.length)) ∧
      ∃ n o, Ends contract (t₁.readerAt 0) (pre.length + m.length + n) o ∧
        Ends contract (t₂.readerAt 0) (pre.length + n) o := by
  have hsymbols : (t₁.readerAt pre.length).symbols = m ++ post := by
    rw [t₁.readerAt_symbols, h₁, List.drop_left]
  have hshare : t₁.symbols.take pre.length = t₂.symbols.take pre.length := by
    rw [h₁, h₂, List.take_left, List.take_left]
  have hround := hm.memberRound hsymbols hfaulty members
  rw [t₁.readerAt_drop] at hround
  obtain ⟨r₁, hhead, hrounds⟩ := id hreach
  have hreach₁ : MembersRead t₁ c members (t₁.readerAt (pre.length + m.length)) :=
    ⟨r₁, hhead, hrounds.step hround⟩
  have hreach₂ := membersRead_transfer hshare (hm.goesOn hsymbols) hbefore hreach
  -- Behind the statement the two streams show the same symbols.
  have hrest : Sight.whole.Shares 0 (t₁.readerAt (pre.length + m.length)) (t₂.readerAt pre.length) := by
    change (t₁.readerAt (pre.length + m.length)).symbols = (t₂.readerAt pre.length).symbols
    rw [t₁.readerAt_symbols, t₂.readerAt_symbols, h₁, h₂, List.drop_left, ← List.drop_drop,
      List.drop_left, List.drop_left]
  obtain ⟨n, o, hends₁, hends₂, -⟩ :=
    Agrees.contractRest (P := fun _ => True) c members (t₁.readerAt (pre.length + m.length)) trivial
  exact ⟨hround, n, o, hends₁.of_readerAt hreach₁.contract_eq,
    (hends₂ _ hrest).of_readerAt hreach₂.contract_eq⟩

/-- The start of a contract, with a state variable. -/
def variableFront : List Symbol :=
  [(.kwContract, "contract"), (.identifier, "C"), (.lbrace, "\x7b"), (.elementary, "uint"),
    (.identifier, "x"), (.semicolon, ";")]

/-- A member that is none, with a semicolon in brackets. -/
def faultyMember : List Symbol :=
  [(.elementary, "uint"), (.operator, "+"), (.lparen, "("), (.semicolon, ";"), (.rparen, ")"),
    (.semicolon, ";")]

/-- The end of the contract, with another state variable. -/
def variableBack : List Symbol :=
  [(.elementary, "uint"), (.identifier, "y"), (.semicolon, ";"), (.rbrace, "\x7d")]

/-- A contract with two state variables, and the symbols between them. -/
def contractAround (m : List Symbol) : TokenStream :=
  ⟨(variableFront ++ (m ++ variableBack)).map fun s => ⟨s.1, s.2, {}⟩, {}⟩

/-- A contract with a faulty member is the contract without it. -/
theorem contract_around_faulty_member :
    ∃ c r₁ r₂, contract ((contractAround faultyMember).readerAt 0) = .ok c r₁ ∧
      contract ((contractAround []).readerAt 0) = .ok c r₂ := by
  have hfront : Unbroken faultyMember.dropLast :=
    .plain rfl rfl (by decide) (.plain rfl rfl (by decide) (.group rfl (.plain rfl rfl .nil) .nil))
  have hm : IsStatement faultyMember := .of_unbroken hfront rfl (by decide)
  have h₁ : (contractAround faultyMember).symbols = variableFront ++ (faultyMember ++ variableBack) := rfl
  have h₂ : (contractAround []).symbols = variableFront ++ variableBack := rfl
  obtain ⟨x, hx⟩ : ∃ x, memberRound [] ((contractAround faultyMember).readerAt 3)
      = .ok (some [x]) ((contractAround faultyMember).readerAt 6) := ⟨_, rfl⟩
  have hbefore : ∀ members r stop, MembersRead (contractAround faultyMember) { name := "C", kind := .contract }
      members r → r.index < variableFront.length → GivesUp r stop → stop.index < variableFront.length := by
    rintro members r stop ⟨r₁, hhead, hrounds⟩ hlt ⟨-, -, e, he, -⟩
    obtain ⟨-, rfl⟩ := EStateM.Result.ok.inj hhead
    obtain ⟨-, rfl⟩ | ⟨w, r', hfirst, hrest⟩ := hrounds.eq_or_first
    · cases he
    · obtain ⟨-, rfl⟩ := EStateM.Result.ok.inj (hx.symm.trans hfirst)
      obtain ⟨j, hj, rfl⟩ := hrest.exists_readerAt Agrees.memberRound
      rw [TokenStream.readerAt_index] at hlt
      exact absurd hlt (Nat.not_lt.mpr hj)
  obtain ⟨-, n, o, hends₁, hends₂⟩ := faulty_member_is_dropped_alone hm h₁ h₂ ⟨_, rfl, .step .refl hx⟩ hbefore
    ⟨by decide, rfl, _, rfl, rfl⟩
  cases o with
  | ok c => exact ⟨c, _, _, hends₁, hends₂⟩
  | error b =>
    obtain ⟨e, he, -⟩ := hends₁
    cases he

end Parser

end SolidityInterface
