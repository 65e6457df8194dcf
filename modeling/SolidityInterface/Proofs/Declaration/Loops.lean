import SolidityInterface.Proofs.Declaration.Bounds

/-
  The loops of the parser come to an end, and none of them passes the end of the stream.

  1. Groups, statements and lengths are skipped at once; the same is done by loops over
     single tokens (`Parser.SkipsByRounds`).
  2. One round of any of the loops (`Loop`) takes a token, or ends the loop or the run
     (`Loop.moves`).
  3. The run as a whole stops at the end of the stream, or before it with an error
     (`TokenStream.parser_halts_within_the_stream`).
-/

namespace SolidityInterface

open Token (Kind)

/-! ## Skipping token by token -/

namespace Parser

/-- One more token of a group that starts at a given token, where `depth` groups are open. -/
def groupRound (opener closer : Kind) (start : Token) (depth : Nat) : Parser (Option Nat) := do
  if depth = 0 then return none
  else if (← kind) = .eof then throw (.unterminated start.text start.place)
  else
    let token ← advance
    if token.kind = opener then return some (depth + 1)
    else if token.kind = closer then return some (depth - 1)
    else return some depth

/-- Skips a group token by token. -/
def skipGroupByRounds : Parser Unit := do
  let opener ← kind
  match opener.closer? with
  | none => throw (.groupMissing opener)
  | some closer =>
    let start ← advance
    discard (iterate (groupRound opener closer start) 1)

/-- One more token of a statement in which `depth` groups are open. -/
def statementRound (depth : Nat) : Parser (Option Nat) := do
  let k ← kind
  if k = .eof then return none
  else if k.isOpener then
    discard advance
    return some (depth + 1)
  else if k.isCloser then
    if depth = 0 then return none
    else
      discard advance
      return some (depth - 1)
  else if k = .semicolon ∧ depth = 0 then
    discard advance
    return none
  else
    discard advance
    return some depth

/-- One more token of the length of an array. -/
def lengthRound (text : String) : Parser (Option String) := do
  match ← kind with
  | .rbracket | .eof => return none
  | _ =>
    let token ← advance
    return some (text ++ token.text)

end Parser

namespace Agrees

variable {v : Sight} {P : Kind → Prop}

theorem groupRound (opener closer : Kind) (start : Token) (depth : Nat) :
    Agrees v P (Parser.groupRound opener closer start depth)
      (Parser.groupRound opener closer start depth) (·.isSome = true) := by
  refine ite (fun _ => pure' (by simp)) fun _ => kind_bind fun k _ => ite (fun _ => throw rfl) fun hk => ?_
  refine advance_bind hk fun t t' hsymbol => ?_
  rw [show t'.kind = t.kind from congrArg Prod.fst hsymbol.symm]
  exact ite (fun _ => pure' id) fun _ => ite (fun _ => pure' id) fun _ => pure' id

theorem statementRound (depth : Nat) :
    Agrees v P (Parser.statementRound depth) (Parser.statementRound depth) (·.isSome = true) := by
  refine kind_bind fun k _ => ite (fun _ => pure' (by simp)) fun hk => ?_
  refine ite (fun _ => (skip hk).bind_taken fun _ => pure' id) fun _ => ite (fun _ => ?_) fun _ => ?_
  · exact ite (fun _ => pure' (by simp)) fun _ => (skip hk).bind_taken fun _ => pure' id
  · exact ite (fun _ => (skip hk).bind_taken fun _ => pure' id) fun _ =>
      (skip hk).bind_taken fun _ => pure' id

theorem lengthRound (text : String) :
    Agrees v P (Parser.lengthRound text) (Parser.lengthRound text) (·.isSome = true) := by
  refine kind_bind fun k _ => ?_
  split
  · exact pure' (by simp)
  · exact pure' (by simp)
  · refine advance_bind ‹_› fun t t' hsymbol => ?_
    rw [show t'.text = t.text from congrArg Prod.snd hsymbol.symm]
    exact pure' id

end Agrees

namespace Stays

variable {typed : Bool} {n : Nat} {P : Token → Prop}

theorem groupRound (opener closer : Kind) (start : Token) (depth : Nat) :
    Stays typed n P (Parser.groupRound opener closer start depth) := by
  refine ite (fun _ => pure') fun _ => kind_bind fun k => ite (fun _ => throw rfl) fun hk => ?_
  exact (advance_of hk).bind fun _ => ite (fun _ => pure') fun _ => ite (fun _ => pure') fun _ => pure'

theorem statementRound (depth : Nat) : Stays typed n P (Parser.statementRound depth) := by
  refine kind_bind fun k => ite (fun _ => pure') fun hk => ?_
  refine ite (fun _ => (skip hk).bind fun _ => pure') fun _ => ite (fun _ => ?_) fun _ => ?_
  · exact ite (fun _ => pure') fun _ => (skip hk).bind fun _ => pure'
  · exact ite (fun _ => (skip hk).bind fun _ => pure') fun _ => (skip hk).bind fun _ => pure'

theorem lengthRound (text : String) : Stays typed n P (Parser.lengthRound text) := by
  refine kind_bind fun k => ?_
  split
  · exact pure'
  · exact pure'
  · exact (advance_of ‹_›).bind fun _ => pure'

end Stays

namespace Reader

variable {r : Reader} {t : Token} {ts : List Token}

theorem current_of_cons (h : r.ahead = t :: ts) : r.current = t := by
  rw [current, h]
  rfl

theorem current_of_nil (h : r.ahead = []) : r.current = Token.eof r.stop := by
  rw [current, h]
  rfl

theorem drop_one_ahead (h : r.ahead = t :: ts) : (r.drop 1).ahead = ts := by
  rw [show (r.drop 1).ahead = r.ahead.drop 1 from rfl, h]
  rfl

end Reader

namespace Parser

variable {r : Reader} {t : Token} {ts : List Token}

theorem groupRound_cons (opener closer : Kind) (start : Token) (depth : Nat) (h : r.ahead = t :: ts)
    (ht : t.kind ≠ .eof) :
    groupRound opener closer start (depth + 1) r
      = .ok (some ((groupDepth? opener closer depth t.kind).elim 0 (· + 1))) (r.drop 1) := by
  have hcurrent := Reader.current_of_cons h
  rw [groupRound, if_neg (Nat.succ_ne_zero _), kind_bind, hcurrent, if_neg ht,
    bind_of_ok (a := t) (by rw [← hcurrent]; rfl), groupDepth?.eq_def]
  split
  · rfl
  split
  · cases depth with
    | zero => rfl
    | succ depth => rfl
  · rfl

/-- A group is skipped token by token up to the token that closes it. -/
theorem iterate_groupRound (opener closer : Kind) (start : Token) (depth : Nat)
    (h : ∀ t ∈ r.ahead, t.kind ≠ .eof) :
    iterate (groupRound opener closer start) (depth + 1) r =
      match groupLength opener closer depth r.ahead with
      | some n => .ok 0 (r.drop n)
      | none => .error (.unterminated start.text start.place) (r.drop r.left) := by
  obtain ⟨ts, hts⟩ : ∃ ts, r.ahead = ts := ⟨_, rfl⟩
  induction ts generalizing r depth with
  | nil =>
    have hleft : r.left = 0 := by rw [r.left_eq, hts, List.length_nil]
    have hround : groupRound opener closer start (depth + 1) r
        = .error (.unterminated start.text start.place) r := by
      rw [groupRound, if_neg (Nat.succ_ne_zero _), kind_bind, Reader.current_of_nil hts]
      rfl
    rw [Rounds.iterate_eq_bind (Agrees.groupRound (v := .near) opener closer start),
      bind_of_error hround, hts, hleft]
    rfl
  | cons t ts ih =>
    have hrest := Reader.drop_one_ahead hts
    rw [hts] at h
    rw [Rounds.iterate_eq_bind (Agrees.groupRound (v := .near) opener closer start),
      bind_of_ok (groupRound_cons opener closer start depth hts (h t (by simp))), hts,
      groupLength_cons]
    cases groupDepth? opener closer depth t.kind with
    | none => rfl
    | some d =>
      have hloop := ih d (by rw [hrest]; exact fun u hu => h u (by simp [hu])) hrest
      rw [hrest] at hloop
      show iterate (groupRound opener closer start) (d + 1) (r.drop 1) = _
      rw [hloop]
      cases hlength : groupLength opener closer d ts with
      | some n => simp only [hlength, Option.map_some, Reader.drop_drop, Nat.add_comm 1 n]
      | none =>
        have hleft : 1 + (r.drop 1).left = r.left := by
          rw [Reader.drop_left, r.left_eq, hts, List.length_cons]
          omega
        simp only [hlength, Option.map_none, Reader.drop_drop, hleft]

theorem skipGroup_eq_rounds (h : ∀ t ∈ r.ahead, t.kind ≠ .eof) : skipGroup r = skipGroupByRounds r := by
  rw [skipGroup, skipGroupByRounds, kind_bind]
  cases hcloser : r.current.kind.closer? with
  | none => rfl
  | some closer =>
    have hpos : 0 < r.left := Reader.left_pos fun heof => by
      rw [heof] at hcloser
      cases hcloser
    have hloop := iterate_groupRound r.current.kind closer r.current 0 (r := r.drop 1)
      fun t ht => h t (List.mem_of_mem_drop ht)
    dsimp only
    rw [bind_of_ok (p := advance) (a := r.current) rfl, Agrees.discard_eq]
    change _ = EStateM.bind _ _ (r.drop 1)
    rw [EStateM.bind, hloop, show (r.drop 1).ahead = r.ahead.drop 1 from rfl]
    cases groupLength r.current.kind closer 0 (r.ahead.drop 1) with
    | some n =>
      show EStateM.Result.ok () (r.drop (n + 1)) = EStateM.Result.ok () ((r.drop 1).drop n)
      rw [Reader.drop_drop, Nat.add_comm]
    | none =>
      show EStateM.Result.error _ _ = EStateM.Result.error _ ((r.drop 1).drop (r.drop 1).left)
      rw [Reader.drop_drop, Reader.drop_left, show 1 + (r.left - 1) = r.left by omega]

theorem statementRound_cons (depth : Nat) (h : r.ahead = t :: ts) (ht : t.kind ≠ .eof) :
    statementRound depth r =
      match statementDepth? depth t.kind with
      | .ok d => .ok (some d) (r.drop 1)
      | .error n => .ok none (r.drop n) := by
  rw [statementRound, kind_bind, Reader.current_of_cons h, if_neg ht, statementDepth?.eq_def]
  split
  · rfl
  split
  · cases depth with
    | zero => rfl
    | succ depth => rfl
  split
  · rfl
  · rfl

theorem skipStatement_eq_rounds (h : ∀ t ∈ r.ahead, t.kind ≠ .eof) :
    skipStatement r = (discard (iterate statementRound 0) : Parser Unit) r := by
  have hloop : ∀ depth, ∃ d,
      iterate statementRound depth r = .ok d (r.drop (statementLength depth r.ahead)) := by
    obtain ⟨ts, hts⟩ : ∃ ts, r.ahead = ts := ⟨_, rfl⟩
    induction ts generalizing r with
    | nil =>
      intro depth
      have hround : statementRound depth r = .ok none r := by
        rw [statementRound, kind_bind, Reader.current_of_nil hts]
        rfl
      refine ⟨depth, ?_⟩
      rw [Rounds.iterate_eq_bind (Agrees.statementRound (v := .near)), bind_of_ok hround, hts]
      rfl
    | cons t ts ih =>
      intro depth
      have hrest := Reader.drop_one_ahead hts
      rw [hts] at h
      have hround := statementRound_cons depth hts (h t (by simp))
      rw [Rounds.iterate_eq_bind (Agrees.statementRound (v := .near)), hts, statementLength_cons]
      cases hdepth : statementDepth? depth t.kind with
      | error n =>
        rw [hdepth] at hround
        exact ⟨depth, by rw [bind_of_ok hround]; rfl⟩
      | ok d =>
        rw [hdepth] at hround
        obtain ⟨d', hd'⟩ := ih (r := r.drop 1) (by rw [hrest]; exact fun u hu => h u (by simp [hu])) hrest d
        refine ⟨d', ?_⟩
        rw [hrest, Reader.drop_drop, Nat.add_comm] at hd'
        rw [bind_of_ok hround]
        exact hd'
  obtain ⟨d, hd⟩ := hloop 0
  rw [skipStatement, Agrees.discard_eq, bind_of_ok hd]
  rfl

theorem lengthRound_eq (text : String) (hk : r.current.kind ≠ .rbracket ∧ r.current.kind ≠ .eof) :
    lengthRound text r = .ok (some (text ++ r.current.text)) (r.drop 1) := by
  rw [lengthRound, kind_bind]
  generalize r.current.kind = k at hk ⊢
  cases k with
  | rbracket => exact absurd rfl hk.1
  | eof => exact absurd rfl hk.2
  | _ => rfl

theorem lengthText_eq_rounds (h : ∀ t ∈ r.ahead, t.kind ≠ .eof) :
    lengthText r = iterate lengthRound "" r := by
  have hloop : ∀ text, iterate lengthRound text r
      = .ok (text ++ String.join ((r.ahead.takeWhile (·.kind ≠ .rbracket)).map (·.text)))
        (r.drop (r.ahead.takeWhile (·.kind ≠ .rbracket)).length) := by
    obtain ⟨ts, hts⟩ : ∃ ts, r.ahead = ts := ⟨_, rfl⟩
    induction ts generalizing r with
    | nil =>
      intro text
      have hround : lengthRound text r = .ok none r := by
        rw [lengthRound, kind_bind, Reader.current_of_nil hts]
        rfl
      rw [Rounds.iterate_eq_bind (Agrees.lengthRound (v := .near)), bind_of_ok hround, hts]
      simp [String.join, pure, EStateM.pure]
    | cons t ts ih =>
      intro text
      have hrest := Reader.drop_one_ahead hts
      rw [hts] at h
      rw [Rounds.iterate_eq_bind (Agrees.lengthRound (v := .near)), hts]
      by_cases hk : t.kind = .rbracket
      · have hround : lengthRound text r = .ok none r := by
          rw [lengthRound, kind_bind, Reader.current_of_cons hts, hk]
          rfl
        rw [bind_of_ok hround, List.takeWhile_cons_of_neg (by simpa using hk)]
        simp [String.join, pure, EStateM.pure]
      · have hround : lengthRound text r = .ok (some (text ++ t.text)) (r.drop 1) := by
          rw [lengthRound_eq text (by rw [Reader.current_of_cons hts]; exact ⟨hk, h t (by simp)⟩),
            Reader.current_of_cons hts]
        have hd := ih (r := r.drop 1) (by rw [hrest]; exact fun u hu => h u (by simp [hu])) hrest
          (text ++ t.text)
        rw [bind_of_ok hround, List.takeWhile_cons_of_pos (by simpa using hk)]
        show iterate lengthRound (text ++ t.text) (r.drop 1) = _
        rw [hd, hrest, Reader.drop_drop, List.map_cons, List.length_cons, Nat.add_comm,
          String.join_cons, String.append_assoc]
  rw [hloop "", lengthText]
  simp

/-- Whether groups, statements and lengths are skipped token by token. -/
structure SkipsByRounds (r : Reader) : Prop where
  group : skipGroup r = skipGroupByRounds r
  statement : skipStatement r = (discard (iterate statementRound 0) : Parser Unit) r
  length : lengthText r = iterate lengthRound "" r

theorem SkipsByRounds.of_ends_once (h : ∀ t ∈ r.ahead, t.kind ≠ .eof) : SkipsByRounds r :=
  ⟨skipGroup_eq_rounds h, skipStatement_eq_rounds h, lengthText_eq_rounds h⟩

end Parser

/-! ## The loops of the grammar -/

/-- The loops of the parser, each by its round. -/
inductive Loop : {σ : Type} → (σ → Parser (Option σ)) → Prop
  | segment : Loop Parser.segmentRound
  | group (opener closer : Kind) (start : Token) : Loop (Parser.groupRound opener closer start)
  | statement : Loop Parser.statementRound
  | beforeBody : Loop Parser.skipBodyRound
  | declaration : Loop Parser.unitRound
  | symbol : Loop Parser.symbolRound
  | base : Loop Parser.baseRound
  | member : Loop Parser.memberRound
  | structMember : Loop Parser.structMemberRound
  | enumMember : Loop Parser.enumMemberRound
  | functionAttribute : Loop Parser.functionAttributeRound
  | typeAttribute : Loop Parser.typeAttributeRound
  | parameter : Loop Parser.parameterRound
  | parameterWord : Loop Parser.parameterWordRound
  | variableWord : Loop Parser.variableWordRound
  | bracket : Loop Parser.bracketRound
  | length : Loop Parser.lengthRound

namespace Loop

variable {σ : Type} {round : σ → Parser (Option σ)}

/-- A round stays within the stream, and takes a token if it goes on. -/
theorem stays_and_takes (h : Loop round) (n : Nat) (x : σ) :
    Stays true n (fun _ => True) (round x) ∧
      Agrees .whole (fun _ => True) (round x) (round x) (·.isSome = true) := by
  cases h with
  | segment => exact ⟨.segmentRound x, .segmentRound x⟩
  | group opener closer start => exact ⟨.groupRound opener closer start x, .groupRound opener closer start x⟩
  | statement => exact ⟨.statementRound x, .statementRound x⟩
  | beforeBody => exact ⟨.skipBodyRound x, .skipBodyRound x⟩
  | declaration => exact ⟨.unitRound x, .unitRound x⟩
  | symbol => exact ⟨.symbolRound x, .symbolRound x⟩
  | base => exact ⟨.baseRound x, .baseRound x⟩
  | member => exact ⟨.memberRound x, .memberRound x⟩
  | structMember => exact ⟨.structMemberRound x, .structMemberRound x⟩
  | enumMember => exact ⟨.enumMemberRound x, .enumMemberRound x⟩
  | functionAttribute => exact ⟨.functionAttributeRound x, .functionAttributeRound x⟩
  | typeAttribute => exact ⟨.typeAttributeRound x, .typeAttributeRound x⟩
  | parameter => exact ⟨.parameterRound x, .parameterRound x⟩
  | parameterWord => exact ⟨.parameterWordRound x, .parameterWordRound x⟩
  | variableWord => exact ⟨.variableWordRound x, .variableWordRound x⟩
  | bracket => exact ⟨.bracketRound x, .bracketRound x⟩
  | length => exact ⟨.lengthRound x, .lengthRound x⟩

/-- A round ends the run, or the loop, or goes on behind at least one token. -/
theorem moves (h : Loop round) (x : σ) (r : Reader) :
    ∃ m ≤ r.left, (∃ e, round x r = .error e (r.drop m) ∧ e ≠ .stalled) ∨
      round x r = .ok none (r.drop m) ∨ 0 < m ∧ ∃ y, round x r = .ok (some y) (r.drop m) := by
  obtain ⟨hstays, htakes⟩ := h.stays_and_takes (r.left + 1) x
  obtain ⟨m, hm, ⟨o, ho⟩ | ⟨e, he, hwithin⟩⟩ := hstays r (Nat.lt_succ_self _) trivial
  · refine ⟨m, hm, .inr ?_⟩
    cases o with
    | none => exact .inl ho
    | some y =>
      have hlt := htakes.left_lt ho rfl
      rw [Reader.drop_left] at hlt
      exact .inr ⟨by omega, y, ho⟩
  · exact ⟨m, hm, .inl ⟨e, he, hwithin.ne_stalled⟩⟩

end Loop

/-! ## Streams -/

theorem Parser.bind_some_ne_none {α β : Type} {p : Parser α} {f : α → β} {r r' : Reader} :
    (p >>= fun a => pure (some (f a))) r ≠ .ok none r' := by
  intro h
  obtain ⟨a, s, -, hs⟩ := Sound.bind_ok h
  cases hs

theorem Parser.unitRound_none {u : SourceUnit} {r r' : Reader} (h : unitRound u r = .ok none r') :
    r.current.kind = .eof ∧ r' = r := by
  rw [unitRound, kind_bind] at h
  generalize hk : r.current.kind = k at h
  cases k with
  | eof =>
    cases h
    exact ⟨rfl, rfl⟩
  | _ => exact absurd h bind_some_ne_none

namespace TokenStream

theorem readerAt_left (t : TokenStream) (i : Nat) : (t.readerAt i).left = t.tokens.length - i := rfl

/-- A parser that stays on the tokens ahead stays in the stream. -/
theorem exists_readerAt_of_stays {α : Type} {typed : Bool} {p : Parser α} {t : TokenStream} {i : Nat}
    (h : ∀ n, Stays typed n (fun _ => True) p) (hi : i ≤ t.tokens.length) :
    ∃ j, i ≤ j ∧ j ≤ t.tokens.length ∧ ((∃ a, p (t.readerAt i) = .ok a (t.readerAt j)) ∨
      ∃ e, p (t.readerAt i) = .error e (t.readerAt j) ∧ e.Within typed) := by
  obtain ⟨m, hm, hend⟩ := h _ (t.readerAt i) (Nat.lt_succ_self _) trivial
  rw [readerAt_left] at hm
  rw [readerAt_drop] at hend
  exact ⟨i + m, by omega, by omega, hend⟩

theorem readerAt_current_of_lt {t : TokenStream} {i : Nat} (hi : i < t.tokens.length) :
    (t.readerAt i).current ∈ t.tokens := by
  have hahead : (t.readerAt i).ahead = t.tokens[i] :: t.tokens.drop (i + 1) :=
    List.drop_eq_getElem_cons hi
  rw [Reader.current_of_cons hahead]
  exact List.getElem_mem hi

/-- The loop over declarations ends at the end of the stream only. -/
theorem eq_end_of_sourceUnit {t : TokenStream} (ht : ∀ k ∈ t.tokens, k.kind ≠ .eof) {u : SourceUnit}
    {j : Nat} (hj : j ≤ t.tokens.length)
    (h : Parser.sourceUnit (t.readerAt 0) = .ok u (t.readerAt j)) : j = t.tokens.length := by
  obtain ⟨r, -, hlast⟩ := Rounds.of_iterate h
  obtain ⟨heof, rfl⟩ := Parser.unitRound_none hlast
  by_contra hne
  exact ht _ (readerAt_current_of_lt (by omega)) heof

/-- On a stream whose tokens do not mark the end, the parser stops at the end, or before it with
an error other than a stall; so does every attempt that it gives up. Readers only move on, behind
the last token too, so the end is not passed in between. A round of any of its loops, started
anywhere in the stream, ends in an error or ends the loop, or takes a token and goes on, and never
passes the end. What is skipped at once is skipped by such rounds too. -/
theorem parser_halts_within_the_stream (t : TokenStream) (ht : ∀ k ∈ t.tokens, k.kind ≠ .eof) :
    ((∃ u, Parser.sourceUnit (t.readerAt 0) = .ok u (t.readerAt t.tokens.length)) ∨
      ∃ e, ∃ i ≤ t.tokens.length,
        Parser.sourceUnit (t.readerAt 0) = .error e (t.readerAt i) ∧ e ≠ .stalled) ∧
    (∀ r stop, Rewinds t r stop → ∃ i j, i ≤ j ∧ j ≤ t.tokens.length ∧
      r = t.readerAt i ∧ stop = t.readerAt j) ∧
    (∀ {σ : Type} (round : σ → Parser (Option σ)), Loop round → ∀ x, ∀ i ≤ t.tokens.length,
      ∃ j, i ≤ j ∧ j ≤ t.tokens.length ∧
        ((∃ e, round x (t.readerAt i) = .error e (t.readerAt j) ∧ e ≠ .stalled) ∨
          round x (t.readerAt i) = .ok none (t.readerAt j) ∨
          i < j ∧ ∃ y, round x (t.readerAt i) = .ok (some y) (t.readerAt j))) ∧
    ∀ i, Parser.SkipsByRounds (t.readerAt i) := by
  refine ⟨?_, ?_, ?_, ?_⟩
  · obtain ⟨j, -, hj, ⟨u, hu⟩ | ⟨e, he, hwithin⟩⟩ :=
      exists_readerAt_of_stays (t := t) (fun _ => Stays.sourceUnit) (Nat.zero_le _)
    · obtain rfl := eq_end_of_sourceUnit ht hj hu
      exact .inl ⟨u, hu⟩
    · exact .inr ⟨e, j, hj, he, hwithin.ne_stalled⟩
  · intro r stop hrewinds
    obtain ⟨i, hi⟩ := hrewinds.atMember.exists_readerAt
    obtain ⟨e, he, -⟩ := hrewinds.given_up
    have hlt : i < t.tokens.length := by
      have hpos := Reader.left_pos hrewinds.more.2
      rw [hi, readerAt_left] at hpos
      omega
    rw [hi] at he
    obtain ⟨j, hij, hj, ⟨a, ha⟩ | ⟨e', he', -⟩⟩ :=
      exists_readerAt_of_stays (t := t) (fun _ => Stays.stateVariable) (Nat.le_of_lt hlt)
    · cases he.symm.trans ha
    · obtain ⟨-, rfl⟩ := EStateM.Result.error.inj (he.symm.trans he')
      exact ⟨i, j, hij, hj, hi, rfl⟩
  · intro σ round hloop x i hi
    obtain ⟨m, hm, hend⟩ := hloop.moves x (t.readerAt i)
    rw [readerAt_left] at hm
    rw [readerAt_drop] at hend
    refine ⟨i + m, by omega, by omega, hend.imp_right (Or.imp_right ?_)⟩
    rintro ⟨hpos, hy⟩
    exact ⟨by omega, hy⟩
  · exact fun i => .of_ends_once fun k hk => ht k (List.mem_of_mem_drop hk)

/-- The parser gives up on `uint + x;` behind its first token, goes on behind it and stops at the
end. -/
theorem parser_halts_behind_a_faulty_member :
    ∃ t, ofSource? "contract A\x7buint + x;uint y;\x7d" = some t ∧ t.tokens.length = 11 ∧
      (∃ u, Parser.sourceUnit (t.readerAt 0) = .ok u (t.readerAt 11)) ∧
      (∃ e, Parser.stateVariable (t.readerAt 3) = .error e (t.readerAt 4)) ∧
      ∃ j ms, 3 < j ∧ j ≤ 11 ∧ Parser.memberRound [] (t.readerAt 3) = .ok (some ms) (t.readerAt j) := by
  let t : TokenStream := ⟨[⟨.kwContract, "contract", {}⟩, ⟨.identifier, "A", ⟨9, 1, 10⟩⟩,
    ⟨.lbrace, "\x7b", ⟨10, 1, 11⟩⟩, ⟨.elementary, "uint", ⟨11, 1, 12⟩⟩, ⟨.operator, "+", ⟨16, 1, 17⟩⟩,
    ⟨.identifier, "x", ⟨18, 1, 19⟩⟩, ⟨.semicolon, ";", ⟨19, 1, 20⟩⟩, ⟨.elementary, "uint", ⟨20, 1, 21⟩⟩,
    ⟨.identifier, "y", ⟨25, 1, 26⟩⟩, ⟨.semicolon, ";", ⟨26, 1, 27⟩⟩, ⟨.rbrace, "\x7d", ⟨27, 1, 28⟩⟩],
    ⟨28, 1, 29⟩⟩
  obtain ⟨hunit, -, hround, -⟩ := parser_halts_within_the_stream t (by decide)
  refine ⟨t, by decide +kernel, rfl, ?_, ⟨_, rfl⟩, ?_⟩
  · obtain hu | ⟨e, i, -, he, -⟩ := hunit
    · exact hu
    · have hok : ∃ u r, Parser.sourceUnit (t.readerAt 0) = .ok u r := ⟨_, _, rfl⟩
      obtain ⟨u, r, hu⟩ := hok
      cases he.symm.trans hu
  · obtain ⟨j, -, hj, h⟩ := hround Parser.memberRound .member [] 3 (by decide)
    have hsome : ∃ ms r, Parser.memberRound [] (t.readerAt 3) = .ok (some ms) r := ⟨_, _, rfl⟩
    obtain ⟨ms, r, hms⟩ := hsome
    rw [hms] at h
    obtain ⟨e, he, -⟩ | hnone | ⟨hlt, y, hy⟩ := h
    · cases he
    · cases hnone
    · exact ⟨j, y, hlt, hj, by rw [hms, hy]⟩

end TokenStream

end SolidityInterface
