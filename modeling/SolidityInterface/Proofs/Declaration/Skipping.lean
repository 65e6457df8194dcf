import Mathlib.Data.Nat.Find
import Mathlib.Order.Bounds.Basic
import SolidityInterface.Proofs.Declaration.Bodies
import SolidityInterface.Proofs.Declaration.Loops
import SolidityInterface.Proofs.Declaration.Pairs

/-
  Where the two scanners stop that skip groups and statements. One counts the brackets of a
  single kind, the other those of all kinds together.

  1. A group is skipped up to the first place where as many brackets of its kind are closed as
     opened (`Parser.groupLength_eq_some_iff`, `skipGroup_iff`), and to the end with an error if
     there is none. If the brackets up to there match, the two are a pair (`isPair_of_evens`).
  2. A statement is skipped up to the first semicolon outside all pairs, or before the bracket
     that closes what was not opened, or to the end (`skipStatement_of_matched`).
  3. The depth of the second scanner is the number of brackets opened and not yet closed
     (`rounds_of_counts`). Within a pair it is higher than before it, so behind the pair it comes
     back for the first time, and there the first scanner stops.
-/

namespace SolidityInterface

open Token (Kind)

/-! ## Groups -/

/-- Whether as many brackets of a kind are closed as opened, up to the symbol at a place. -/
def Evens (opener closer : Kind) (ss : List Symbol) (k : Nat) : Prop :=
  k < ss.length ∧ countKind opener (ss.take (k + 1)) = countKind closer (ss.take (k + 1))

instance (opener closer : Kind) (ss : List Symbol) : DecidablePred (Evens opener closer ss) :=
  fun _ => inferInstanceAs (Decidable (_ ∧ _))

namespace Parser

variable {opener closer : Kind}

/-- A symbol closes the group, or changes the number of inner groups by its own counts. -/
theorem groupDepth?_cases (hne : opener ≠ closer) (depth : Nat) (x : Symbol) :
    (groupDepth? opener closer depth x.1 = none ∧ depth = 0 ∧ countKind closer [x] = 1 ∧
        countKind opener [x] = 0) ∨
      ∃ d, groupDepth? opener closer depth x.1 = some d ∧
        d + countKind closer [x] = depth + countKind opener [x] := by
  unfold groupDepth?
  by_cases ho : x.1 = opener
  · have hc : x.1 ≠ closer := fun h => hne (ho.symm.trans h)
    exact .inr ⟨depth + 1, by simp [ho], by simp [countKind, ho, hne]⟩
  by_cases hc : x.1 = closer
  · cases depth with
    | zero => exact .inl ⟨by simp [hc, hne.symm], rfl, by simp [countKind, hc], by simp [countKind, ho]⟩
    | succ depth => exact .inr ⟨depth, by simp [hc, hne.symm], by simp [countKind, hc, hne.symm]⟩
  · exact .inr ⟨depth, by simp [ho, hc], by simp [countKind, ho, hc]⟩

/-- Whether among the first symbols one bracket more of a kind is closed than opened, besides the
inner groups that are open. -/
def ClosesWithin (opener closer : Kind) (depth : Nat) (ss : List Symbol) (n : Nat) : Prop :=
  countKind closer (ss.take n) = countKind opener (ss.take n) + depth + 1

theorem not_closesWithin_zero (depth : Nat) (ss : List Symbol) :
    ¬ ClosesWithin opener closer depth ss 0 := by
  simp [ClosesWithin, countKind]

theorem closesWithin_cons {depth d n : Nat} {x : Symbol} {ss : List Symbol}
    (hcount : d + countKind closer [x] = depth + countKind opener [x]) :
    ClosesWithin opener closer depth (x :: ss) (n + 1) ↔ ClosesWithin opener closer d ss n := by
  rw [ClosesWithin, ClosesWithin, List.take_succ_cons, countKind_cons, countKind_cons opener]
  omega

/-- A group ends where this is so for the first time. -/
theorem groupLength_eq_some_iff (hne : opener ≠ closer) {depth n : Nat} {ts : List Token} :
    groupLength opener closer depth ts = some n ↔
      n ≤ ts.length ∧ IsLeast {m | ClosesWithin opener closer depth (ts.map Token.symbol) m} n := by
  induction ts generalizing depth n with
  | nil =>
    refine iff_of_false (by simp [groupLength]) ?_
    rintro ⟨-, hn, -⟩
    simp [ClosesWithin, countKind] at hn
  | cons t ts ih =>
    rw [groupLength_cons, List.map_cons]
    obtain ⟨hdepth, rfl, hc, ho⟩ | ⟨d, hdepth, hcount⟩ := groupDepth?_cases hne depth t.symbol
    · have hone : ClosesWithin opener closer 0 (t.symbol :: ts.map Token.symbol) 1 := by
        rw [ClosesWithin, List.take_succ_cons, List.take_zero, hc, ho]
      have hleast : IsLeast {m | ClosesWithin opener closer 0 (t.symbol :: ts.map Token.symbol) m} 1 := by
        refine ⟨hone, fun m hm => Nat.pos_of_ne_zero ?_⟩
        rintro rfl
        exact not_closesWithin_zero _ _ (Set.mem_ofPred.mp hm)
      rw [show groupDepth? opener closer 0 t.kind = none from hdepth]
      constructor
      · rintro ⟨⟩
        exact ⟨by simp, hleast⟩
      · rintro ⟨-, hn⟩
        exact congrArg some (hleast.unique hn)
    · rw [show groupDepth? opener closer depth t.kind = some d from hdepth]
      show (groupLength opener closer d ts).map (· + 1) = some n ↔ _
      have hleast : ∀ n, IsLeast {m | ClosesWithin opener closer depth
            (t.symbol :: ts.map Token.symbol) m} (n + 1) ↔
          IsLeast {m | ClosesWithin opener closer d (ts.map Token.symbol) m} n := by
        intro n
        refine and_congr (closesWithin_cons hcount) ⟨fun h m hm => ?_, fun h m hm => ?_⟩
        · exact Nat.le_of_succ_le_succ (h ((closesWithin_cons hcount).mpr hm))
        · cases m with
          | zero => exact absurd hm (not_closesWithin_zero _ _)
          | succ m => exact Nat.succ_le_succ (h ((closesWithin_cons hcount).mp hm))
      cases n with
      | zero =>
        refine iff_of_false (by simp) fun h => not_closesWithin_zero _ _ h.2.1
      | succ n =>
        rw [hleast, List.length_cons, Nat.succ_le_succ_iff, ← ih]
        simp

end Parser

/-- The first place where a kind evens out is where its first bracket is closed. -/
theorem isLeast_evens_iff {opener closer : Kind} (hne : opener ≠ closer) {x : Symbol}
    (hx : x.1 = opener) {ss : List Symbol} {k : Nat} :
    IsLeast {k | Evens opener closer (x :: ss) k} k ↔
      k ≤ ss.length ∧ IsLeast {m | Parser.ClosesWithin opener closer 0 ss m} k := by
  have hone : countKind opener [x] = 1 := by simp [countKind, hx]
  have hnone : countKind closer [x] = 0 := by simp [countKind, hx, hne]
  have hevens : ∀ m, Evens opener closer (x :: ss) m ↔
      m ≤ ss.length ∧ Parser.ClosesWithin opener closer 0 ss m := by
    intro m
    rw [Evens, Parser.ClosesWithin, List.take_succ_cons, countKind_cons, countKind_cons closer, hone,
      hnone, List.length_cons, Nat.lt_succ_iff]
    refine and_congr_right fun _ => ?_
    omega
  constructor
  · rintro ⟨hk, hlower⟩
    obtain ⟨hle, hcloses⟩ := (hevens k).mp hk
    refine ⟨hle, hcloses, fun m hm => ?_⟩
    by_cases hm' : m ≤ ss.length
    · exact hlower ((hevens m).mpr ⟨hm', hm⟩)
    · omega
  · rintro ⟨hle, hcloses, hlower⟩
    exact ⟨(hevens k).mpr ⟨hle, hcloses⟩, fun m hm => hlower ((hevens m).mp hm).2⟩

section Group

variable {r : Reader} {closer : Kind} (hcloser : r.current.kind.closer? = some closer)
include hcloser

theorem exists_opener : ∃ t ts, r.ahead = t :: ts ∧ r.current = t := by
  cases hahead : r.ahead with
  | nil =>
    rw [Reader.current_of_nil hahead] at hcloser
    cases hcloser
  | cons t ts => exact ⟨t, ts, rfl, Reader.current_of_cons hahead⟩

/-- A group is skipped up to the first place where its kind evens out. -/
theorem skipGroup_iff (k : Nat) :
    Parser.skipGroup r = .ok () (r.drop (k + 1)) ↔
      IsLeast {k | Evens r.current.kind closer r.symbols k} k := by
  obtain ⟨t, ts, hahead, hcurrent⟩ := exists_opener hcloser
  have hsymbols : r.symbols = t.symbol :: ts.map Token.symbol := by
    rw [Reader.symbols, hahead, List.map_cons]
  have hne : r.current.kind ≠ closer := by
    obtain ⟨hopener, hisCloser, -⟩ := Sound.isCloser_of_closer? hcloser
    exact (Kind.ne_of_isOpener hopener (Kind.isOpener_of_isCloser hisCloser)).symm
  have hrest : r.ahead.drop 1 = ts := by rw [hahead, List.drop_succ_cons, List.drop_zero]
  rw [hsymbols, isLeast_evens_iff hne (congrArg Token.kind hcurrent).symm, List.length_map,
    ← Parser.groupLength_eq_some_iff hne, Parser.skipGroup, hrest]
  simp only [hcloser]
  cases Parser.groupLength r.current.kind closer 0 ts with
  | none =>
    refine iff_of_false (fun h => ?_) fun h => ?_
    · cases h
    · cases h
  | some n =>
    constructor
    · intro h
      have hdrop := Reader.drop_inj (EStateM.Result.ok.inj h).2
      exact congrArg some (Nat.succ.inj hdrop)
    · rintro ⟨⟩
      rfl

/-- A group has no end just if its kind evens out nowhere. -/
theorem skipGroup_error_iff :
    (∃ e r', Parser.skipGroup r = .error e r' ∧ e.isSyntax = true) ↔
      ¬ ∃ k, Evens r.current.kind closer r.symbols k := by
  constructor
  · rintro ⟨e, r', he, -⟩ hsome
    have hleast : IsLeast {k | Evens r.current.kind closer r.symbols k} (Nat.find hsome) :=
      ⟨Nat.find_spec hsome, fun m hm => Nat.find_min' hsome hm⟩
    cases he.symm.trans ((skipGroup_iff hcloser _).mpr hleast)
  · intro hnone
    cases hlength : Parser.groupLength r.current.kind closer 0 (r.ahead.drop 1) with
    | none =>
      refine ⟨.unterminated r.current.text r.current.place, r.drop r.left, ?_, rfl⟩
      simp only [Parser.skipGroup, hcloser, hlength]
    | some n =>
      have hskip : Parser.skipGroup r = .ok () (r.drop (n + 1)) := by
        simp only [Parser.skipGroup, hcloser, hlength]
      exact absurd ⟨n, ((skipGroup_iff hcloser n).mp hskip).1⟩ hnone

/-- If the brackets up to the place match, it is that of the bracket that closes the group. -/
theorem isPair_of_evens {k : Nat} (hk : IsLeast {k | Evens r.current.kind closer r.symbols k} k)
    (hmatched : Matched (r.symbols.take (k + 1))) : IsPair r.symbols 0 k := by
  obtain ⟨t, ts, hahead, hcurrent⟩ := exists_opener hcloser
  have hopener : t.symbol.1.isOpener = true := by
    rw [hcurrent] at hcloser
    exact (Sound.isCloser_of_closer? hcloser).1
  have hfront : r.symbols.take (k + 1) = t.symbol :: (ts.map Token.symbol).take k := by
    rw [Reader.symbols, hahead, List.map_cons, List.take_succ_cons]
  have hsplit := List.take_append_drop (k + 1) r.symbols
  generalize r.symbols.take (k + 1) = front at hmatched hfront hsplit
  cases hmatched with
  | nil => cases hfront
  | plain hplain _ _ =>
    obtain ⟨rfl, -⟩ := List.cons.inj hfront
    rw [hopener] at hplain
    cases hplain
  | @group x y ss us hxy inside rest =>
    rw [List.cons_append, List.append_assoc, List.cons_append] at hsplit
    have hskip := Parser.skipGroup_matched hxy inside hsplit.symm
    have hstop := ((skipGroup_iff hcloser k).mpr hk).symm.trans hskip
    have hk' := Reader.drop_inj (EStateM.Result.ok.inj hstop).2
    exact ⟨[], x, ss, y, _, hsplit.symm, hxy, inside, rfl, by omega⟩

end Group

/-- A pair at the front is skipped as a group. -/
theorem skipGroup_of_isPair {r : Reader} {k : Nat} (h : IsPair r.symbols 0 k) :
    Parser.skipGroup r = .ok () (r.drop (k + 1)) := by
  obtain ⟨front, x, inside, y, back, hr, hxy, hinside, hfront, rfl⟩ := h
  obtain rfl := List.length_eq_zero_iff.mp hfront
  rw [Parser.skipGroup_matched hxy hinside hr, Nat.zero_add]

/-! ## Statements -/

namespace Parser

variable {front back : List Symbol} {ts : List Token}

/-- A statement takes unbroken symbols and the semicolon behind them. -/
theorem statementLength_of_semicolon {x : Symbol} (hts : ts.map Token.symbol = front ++ x :: back)
    (hfront : Unbroken front) (hx : x.1 = .semicolon) :
    statementLength 0 ts = front.length + 1 := by
  obtain ⟨statement, behind, rfl, rfl, hbehind⟩ := List.map_eq_append_iff.mp hts
  obtain ⟨u, behind, rfl, rfl, -⟩ := List.map_eq_cons_iff.mp hbehind
  have hlast : statementLength 0 (u :: behind) = 1 := by
    rw [statementLength_cons, show u.kind = .semicolon from hx]
    rfl
  rw [statementLength_unbroken hfront rfl, hlast, List.length_map]

/-- A statement stops behind unbroken symbols, if nothing comes or a bracket that closes what was
not opened. -/
theorem statementLength_of_end (hts : ts.map Token.symbol = front ++ back) (hfront : Unbroken front)
    (hback : back = [] ∨ (headKind back).isCloser = true) : statementLength 0 ts = front.length := by
  obtain ⟨statement, behind, rfl, rfl, rfl⟩ := List.map_eq_append_iff.mp hts
  have hstop : statementLength 0 behind = 0 := by
    cases behind with
    | nil => rfl
    | cons u behind =>
      have hcloser : u.kind.isCloser = true := hback.resolve_left (List.cons_ne_nil _ _)
      simp [statementLength, Kind.isOpener_of_isCloser hcloser, hcloser]
  rw [statementLength_unbroken hfront rfl, hstop, List.length_map, Nat.add_zero]

end Parser

/-- A statement is skipped up to the first semicolon outside brackets, or before the bracket
that closes what was not opened, or to the end. -/
theorem skipStatement_of_matched {r : Reader} {front back : List Symbol}
    (hr : r.symbols = front ++ back) (hfront : Matched front)
    (hback : back = [] ∨ (headKind back).isCloser = true) :
    (∃ i, IsLeast {i | EndsStatement front i} i ∧
        Parser.skipStatement r = .ok () (r.drop (i + 1))) ∨
      (∀ i, ¬ EndsStatement front i) ∧ Parser.skipStatement r = .ok () (r.drop front.length) := by
  obtain hunbroken | ⟨before, x, after, rfl, hbefore, hx⟩ := hfront.unbroken_or_split
  · refine .inr ⟨fun i hi => hunbroken.not_outside hi.1 hi.2, ?_⟩
    rw [Parser.skipStatement, Parser.statementLength_of_end hr hunbroken hback]
  · rw [List.append_assoc, List.cons_append] at hr
    refine .inl ⟨before.length, isLeast_endsStatement hbefore hx hfront, ?_⟩
    rw [Parser.skipStatement, Parser.statementLength_of_semicolon hr hbefore hx]

/-! ## The depth of a statement -/

namespace Rounds

variable {σ : Type} {round : σ → Parser (Option σ)} {x y z : σ} {r r₁ r₂ : Reader}

/-- Rounds that are run start with the first of them. -/
theorem eq_or_first (h : Rounds round x r y r₁) :
    (x = y ∧ r = r₁) ∨ ∃ w r', round x r = .ok (some w) r' ∧ Rounds round w r' y r₁ := by
  induction h with
  | refl => exact .inl ⟨rfl, rfl⟩
  | step h hstep ih =>
    obtain ⟨rfl, rfl⟩ | ⟨w, r', hfirst, hrest⟩ := ih
    · exact .inr ⟨_, _, hstep, .refl⟩
    · exact .inr ⟨w, r', hfirst, hrest.step hstep⟩

/-- Of two rows of rounds from one place, one goes on behind the other. -/
theorem total (h : Rounds round x r y r₁) (h' : Rounds round x r z r₂) :
    Rounds round y r₁ z r₂ ∨ Rounds round z r₂ y r₁ := by
  induction h with
  | refl => exact .inl h'
  | step h hstep ih =>
    obtain hbehind | hbefore := ih
    · obtain ⟨rfl, rfl⟩ | ⟨w, r', hfirst, hrest⟩ := hbehind.eq_or_first
      · exact .inr (.step .refl hstep)
      · rw [hstep] at hfirst
        cases hfirst
        exact .inl hrest
    · exact .inr (hbefore.step hstep)

/-- At each place a loop has one state, if every round takes a token. -/
theorem unique {v : Sight}
    (hround : ∀ s, Agrees v (fun _ => True) (round s) (round s) (·.isSome = true))
    (h : Rounds round x r y r₁) (h' : Rounds round x r z r₁) : y = z := by
  have hleft : ∀ {a b : σ} {s s' : Reader}, Rounds round a s b s' → s'.left ≤ s.left := by
    intro a b s s' hrounds
    induction hrounds with
    | refl => exact Nat.le_refl _
    | step _ hstep ih => exact Nat.le_trans (Nat.le_of_lt ((hround _).left_lt hstep rfl)) ih
  have hsame : ∀ {a b : σ}, Rounds round a r₁ b r₁ → a = b := by
    intro a b hrounds
    obtain ⟨heq, -⟩ | ⟨w, r', hfirst, hrest⟩ := hrounds.eq_or_first
    · exact heq
    · have hlt := (hround a).left_lt hfirst rfl
      have hle := hleft hrest
      omega
  obtain hrounds | hrounds := h.total h'
  · exact hsame hrounds
  · exact (hsame hrounds).symm

end Rounds

/-- A symbol within a bracket, or an opening bracket, changes the depth by its own counts. -/
theorem Parser.statementDepth?_of_counts {depth : Nat} {x : Symbol}
    (h : 0 < depth ∨ x.1.isOpener = true) :
    ∃ d, statementDepth? depth x.1 = .ok d ∧ d + closed [x] = depth + opened [x] := by
  unfold statementDepth?
  cases ho : x.1.isOpener with
  | true =>
    obtain ⟨hopened, hclosed⟩ := counts_of_opener ho []
    exact ⟨depth + 1, by simp, by rw [hopened, hclosed]; rfl⟩
  | false =>
    obtain ⟨d, rfl⟩ := Nat.exists_eq_add_one.mpr (h.resolve_right (by simp [ho]))
    cases hc : x.1.isCloser with
    | true =>
      obtain ⟨hopened, hclosed⟩ := counts_of_closer hc []
      exact ⟨d, by simp, by rw [hopened, hclosed]; rfl⟩
    | false =>
      obtain ⟨hopened, hclosed⟩ := counts_of_plain ho hc []
      exact ⟨d + 1, by simp, by rw [hopened, hclosed]; rfl⟩

/-- The depth of a statement is the number of brackets that are open, as long as it does not come
back to nothing before a symbol other than an opening bracket. -/
theorem rounds_of_counts {r : Reader} (hend : ∀ t ∈ r.ahead, t.kind ≠ .eof) {depth n : Nat}
    (hn : n ≤ r.left)
    (hopen : ∀ i < n, closed (r.symbols.take i) < depth + opened (r.symbols.take i) ∨
      ∃ x, r.symbols[i]? = some x ∧ x.1.isOpener = true) :
    ∃ e, Rounds Parser.statementRound depth r e (r.drop n) ∧
      e + closed (r.symbols.take n) = depth + opened (r.symbols.take n) := by
  induction n with
  | zero => exact ⟨depth, .refl, rfl⟩
  | succ n ih =>
    obtain ⟨e, hrounds, hcount⟩ := ih (by omega) fun i hi => hopen i (by omega)
    have hlt : n < r.ahead.length := by
      rw [← r.left_eq]
      exact hn
    have hahead : (r.drop n).ahead = r.ahead[n] :: r.ahead.drop (n + 1) :=
      List.drop_eq_getElem_cons hlt
    have hsymbol : r.symbols[n]? = some r.ahead[n].symbol := by
      rw [Reader.symbols, List.getElem?_map, List.getElem?_eq_getElem hlt]
      rfl
    have hinside : 0 < e ∨ r.ahead[n].symbol.1.isOpener = true := by
      obtain hcounts | ⟨x, hx, hopener⟩ := hopen n (Nat.lt_succ_self n)
      · exact .inl (by omega)
      · rw [hsymbol] at hx
        exact .inr (Option.some.inj hx ▸ hopener)
    obtain ⟨d, hdepth, hstep⟩ := Parser.statementDepth?_of_counts hinside
    have hround := Parser.statementRound_cons e hahead (hend _ (List.getElem_mem hlt))
    rw [show Parser.statementDepth? e r.ahead[n].kind = .ok d from hdepth, r.drop_drop] at hround
    refine ⟨d, hrounds.step hround, ?_⟩
    rw [List.take_add_one, hsymbol, Option.toList_some, closed_append, opened_append]
    omega

/-- Within a pair of brackets the depth is higher than before it, and behind the pair it is the
same again. -/
theorem rounds_of_isPair {r : Reader} (hend : ∀ t ∈ r.ahead, t.kind ≠ .eof) {k : Nat}
    (hpair : IsPair r.symbols 0 k) (depth : Nat) {n : Nat} (hpos : 0 < n) (hn : n ≤ k + 1) :
    ∃ e, Rounds Parser.statementRound depth r e (r.drop n) ∧ depth ≤ e ∧ (e = depth ↔ n = k + 1) := by
  have hlt : ∀ i, 0 < i → i ≤ k → closed (r.symbols.take i) < opened (r.symbols.take i) := by
    intro i hi hik
    simpa [opened, closed] using hpair.closed_lt hi hik
  have heq : closed (r.symbols.take (k + 1)) = opened (r.symbols.take (k + 1)) := by
    simpa [opened, closed] using hpair.closed_eq
  have hleft : n ≤ r.left := by
    rw [← r.length_symbols]
    exact Nat.le_trans hn hpair.lt_length
  have hopener : ∃ x, r.symbols[0]? = some x ∧ x.1.isOpener = true := by
    obtain ⟨front, x, inside, y, back, hr, hxy, -, hfront, -⟩ := hpair
    obtain rfl := List.length_eq_zero_iff.mp hfront
    exact ⟨x, by rw [hr]; rfl, (Sound.isCloser_of_closer? hxy).1⟩
  have hopen : ∀ i < n, closed (r.symbols.take i) < depth + opened (r.symbols.take i) ∨
      ∃ x, r.symbols[i]? = some x ∧ x.1.isOpener = true := by
    intro i hi
    obtain rfl | hi0 := Nat.eq_zero_or_pos i
    · exact .inr hopener
    · have hmore := hlt i hi0 (by omega)
      exact .inl (by omega)
  obtain ⟨e, hrounds, hcount⟩ := rounds_of_counts hend hleft hopen
  refine ⟨e, hrounds, ?_⟩
  obtain rfl | hne := Nat.eq_or_lt_of_le hn
  · omega
  · have hmore := hlt n hpos (by omega)
    omega

namespace Parser

/-- Where the two scanners stop, on tokens of which none marks the end. At an opening bracket, a
group is skipped up to the first place where its kind evens out; it has no end, and the text is
refused, just if there is none; and if the brackets up to there match, that is the place of the
bracket that closes the first. Where the brackets match up to one that closes what was not
opened, or to the end, a statement is skipped with the first semicolon outside them, or else up to
there. On a group whose brackets match, the depth of a statement comes back to what it was before
the group just where the group is skipped. -/
theorem skipping_stops_at_the_right_delimiter (r : Reader) (hend : ∀ t ∈ r.ahead, t.kind ≠ .eof) :
    (∀ closer, r.current.kind.closer? = some closer →
      (∀ k, skipGroup r = .ok () (r.drop (k + 1)) ↔
        IsLeast {k | Evens r.current.kind closer r.symbols k} k) ∧
      ((∃ e r', skipGroup r = .error e r' ∧ e.isSyntax = true) ↔
        ¬ ∃ k, Evens r.current.kind closer r.symbols k) ∧
      ∀ k, IsLeast {k | Evens r.current.kind closer r.symbols k} k →
        Matched (r.symbols.take (k + 1)) → IsPair r.symbols 0 k) ∧
    (∀ front back, r.symbols = front ++ back → Matched front →
      (back = [] ∨ (headKind back).isCloser = true) →
      (∃ i, IsLeast {i | EndsStatement front i} i ∧ skipStatement r = .ok () (r.drop (i + 1))) ∨
        (∀ i, ¬ EndsStatement front i) ∧ skipStatement r = .ok () (r.drop front.length)) ∧
    ∀ k, IsPair r.symbols 0 k → ∀ depth n, 0 < n → n ≤ k + 1 →
      ∃ e, (∀ e', Rounds statementRound depth r e' (r.drop n) ↔ e' = e) ∧ depth ≤ e ∧
        (e = depth ↔ skipGroup r = .ok () (r.drop n)) := by
  refine ⟨fun closer hcloser => ⟨skipGroup_iff hcloser, skipGroup_error_iff hcloser,
    fun k => isPair_of_evens hcloser⟩, fun front back => skipStatement_of_matched, ?_⟩
  intro k hpair depth n hpos hn
  obtain ⟨e, hrounds, hle, hback⟩ := rounds_of_isPair hend hpair depth hpos hn
  refine ⟨e, fun e' => ⟨fun h => h.unique (Agrees.statementRound (v := .near)) hrounds, ?_⟩, hle, ?_⟩
  · rintro rfl
    exact hrounds
  · rw [hback, skipGroup_of_isPair hpair]
    refine ⟨fun h => by rw [h], fun h => ?_⟩
    exact (Reader.drop_inj (EStateM.Result.ok.inj h).2).symm

/-- A statement that starts with a group in which a semicolon stands in brackets of another
kind. -/
def groupedStatement : List Symbol :=
  [(.lparen, "("), (.lbracket, "["), (.semicolon, ";"), (.rbracket, "]"), (.rparen, ")"),
    (.semicolon, ";"), (.identifier, "x")]

/-- The statement at the end of a contract. -/
def groupedReader : Reader :=
  .ofStream ⟨(groupedStatement ++ [(Kind.rbrace, "\x7d")]).map fun s => ⟨s.1, s.2, {}⟩, {}⟩

/-- The group is a pair of brackets, behind which the depth comes back, and the statement ends at
the second semicolon. -/
theorem scanners_stop_behind_group_and_statement :
    IsPair groupedReader.symbols 0 4 ∧
      IsLeast {i | EndsStatement groupedStatement i} 5 ∧
      ∃ e, (∀ e', Rounds statementRound 0 groupedReader e' (groupedReader.drop 3) ↔ e' = e) ∧
        0 ≤ e ∧ (e = 0 ↔ skipGroup groupedReader = .ok () (groupedReader.drop 3)) := by
  obtain ⟨hgroup, hstatement, hdepth⟩ :=
    skipping_stops_at_the_right_delimiter groupedReader (by decide)
  obtain ⟨hskips, -, hpairs⟩ := hgroup .rparen rfl
  have hbrackets : Matched [(.lbracket, "["), (.semicolon, ";"), (.rbracket, "]")] :=
    .group rfl (.plain rfl rfl .nil) .nil
  have hpair : IsPair groupedReader.symbols 0 4 :=
    hpairs 4 ((hskips 4).mp rfl) (.group rfl hbrackets .nil)
  have hmatched : Matched groupedStatement := .group rfl hbrackets (.plain rfl rfl (.plain rfl rfl .nil))
  refine ⟨hpair, ?_, hdepth 4 hpair 0 3 (by decide) (by decide)⟩
  have hstop : skipStatement groupedReader = .ok () (groupedReader.drop 6) := rfl
  obtain ⟨i, hleast, hi⟩ | ⟨-, hnone⟩ := hstatement groupedStatement [(.rbrace, "\x7d")] rfl hmatched (.inr rfl)
  · have heq := Reader.drop_inj (EStateM.Result.ok.inj (hstop.symm.trans hi)).2
    obtain rfl : i = 5 := by omega
    exact hleast
  · have heq := Reader.drop_inj (EStateM.Result.ok.inj (hstop.symm.trans hnone)).2
    cases heq

end Parser

end SolidityInterface
