import SolidityInterface.Proofs.Token.Comments
import SolidityInterface.Proofs.Token.Slices

/-
  Where the scanner halts. A round takes a character at least, but for one that comes to a
  digit other than 0 to 9: such a digit starts a number that holds no character
  (`Lexeme.number_of_isForeignDigit`), so the round adds an empty token and stays where it
  is, and so does every later one (`Cursor.rounds_of_stuck`).

  `Cursor.rounds` is the loop of the scanner without a bound on its rounds. It ends just if
  `Cursor.scan?` gives a stream, and then in that stream (`Cursor.scan?_eq_some_iff`). A
  source without foreign digits is scanned to its end (`Cursor.exists_scan?`).
-/

namespace SolidityInterface

open Token (Kind)
open Lexeme

/-- Whether a character is a digit other than 0 to 9: of another script, or raised or
circled. -/
def Text.IsForeignDigit (c : Char) : Prop := isDigit c = true ∧ c.isDigit = false

instance : DecidablePred Text.IsForeignDigit := fun _ => inferInstanceAs (Decidable (_ ∧ _))

/-! ## Numbers -/

namespace Lexeme

/-- A digit from 0 to 9 starts a number that holds it. -/
theorem head?_number {ch : Char} (rest : List Char) (hpart : isNumberPart ch = true) :
    (number (ch :: rest)).1.head? = some ch := by
  cases hx : isHexStart (ch :: rest) with
  | true =>
    obtain ⟨c, rest', heq, hnumber⟩ := exists_of_isHexStart hx
    rw [heq, hnumber, (List.cons.inj heq).1]
    rfl
  | false => simp [number_eq_decimal hx, decimal, List.takeWhile_cons_of_pos hpart]

/-- A foreign digit starts a number that holds nothing. -/
theorem number_of_isForeignDigit {ch : Char} (rest : List Char) (h : Text.IsForeignDigit ch) :
    number (ch :: rest) = ([], .number) := by
  obtain ⟨hdigit, hforeign⟩ := h
  have hne : ∀ d, Text.isDigit d = false → ch ≠ d := by
    rintro d hd rfl
    rw [hdigit] at hd
    cases hd
  have hzero : ch ≠ '0' := by
    rintro rfl
    cases hforeign
  have hunder := hne '_' rfl
  have hpoint := hne '.' rfl
  have hexp := hne 'e' rfl
  have hexp' := hne 'E' rfl
  have hx : isHexStart (ch :: rest) = false := by
    unfold isHexStart
    split
    · rename_i heq
      exact absurd (List.cons.inj heq).1 hzero
    · rfl
  have hpart : isNumberPart ch = false := by simp [isNumberPart, hforeign, hunder]
  have hwhole : (ch :: rest).takeWhile isNumberPart = [] := by simp [hpart]
  have hfraction : fraction (ch :: rest) = [] := by simp [fraction, hpoint]
  have hexponent : exponent (ch :: rest) = [] := by simp [exponent, hexp, hexp']
  simp [number_eq_decimal hx, decimal, hwhole, hfraction, hexponent]

end Lexeme

/-! ## One piece -/

theorem IsWord.length_pos {w : List Char} (h : IsWord w) : 0 < w.length := by
  obtain ⟨c, rest, rfl, -⟩ := h
  exact Nat.succ_pos _

namespace Reading

variable {p q : Place} {s after : List Char} {ts : List Token}

/-- Every piece takes a character, unless a foreign digit is at the front. -/
theorem length_lt (h : Reading p s ts after q) (hs : ∀ ch ∈ s.head?, ¬ Text.IsForeignDigit ch) :
    after.length < s.length := by
  cases h with
  | @comment w after hw => cases hw <;> simp <;> omega
  | @number ch k w after hch hdigit hw =>
    have hpart : isNumberPart ch = true := by
      have hplain : ¬ (Text.isDigit ch = true ∧ ch.isDigit = false) := hs ch hch
      simp only [hdigit, true_and, Bool.not_eq_false] at hplain
      simp [isNumberPart, hplain]
    have hhead : w.head? = some ch := by
      obtain ⟨rest, hrest⟩ := List.head?_eq_some_iff.mp hch
      have hnumber := head?_number rest hpart
      rwa [← hrest, hw] at hnumber
    have hpos : 0 < w.length := by
      rw [List.length_pos_iff]
      intro hnil
      rw [hnil] at hhead
      cases hhead
    rw [List.length_append]
    omega
  | @word w after hw hkind hrun =>
    have hpos := hw.length_pos
    rw [List.length_append]
    omega
  | @pragma w b₁ name b₂ value after hw hkind hrun htext =>
    have hpos := hw.length_pos
    simp only [List.length_append]
    omega
  | _ => simp <;> omega

/-- What is left behind a piece is what its place says. -/
theorem exists_drop (h : Reading p s ts after q) :
    ∃ n, q.offset = p.offset + n ∧ after = s.drop n := by
  cases h with
  | @comment w after hw => exact ⟨w.length, Place.after_offset p w, List.drop_left.symm⟩
  | @string quote body after hq hbody =>
    refine ⟨_, Place.after_offset p (quote :: (body ++ [quote])), ?_⟩
    have hdrop : (quote :: (body ++ [quote]) ++ after).drop _ = after := List.drop_left
    rw [List.cons_append, List.append_assoc] at hdrop
    exact hdrop.symm
  | @openString quote body hq hbody =>
    exact ⟨_, Place.after_offset p (quote :: body), List.drop_length.symm⟩
  | @escapingString quote body hq hbody =>
    -- The place moves on once more, where nothing is left.
    refine ⟨(quote :: (body ++ ['\\'])).length + 1, ?_, ?_⟩
    · show ((p.after (quote :: (body ++ ['\\']))).offset + 1) = _
      rw [Place.after_offset]
      rfl
    · exact (List.drop_of_length_le (Nat.le_succ _)).symm
  | @number ch k w after hch hdigit hw =>
    exact ⟨w.length, Place.after_offset p w, List.drop_left.symm⟩
  | @word w after hw hkind hrun => exact ⟨w.length, Place.after_offset p w, List.drop_left.symm⟩
  | @pragma w b₁ name b₂ value after hw hkind hrun htext =>
    refine ⟨(w ++ (b₁ ++ (name ++ (b₂ ++ value)))).length, ?_, ?_⟩
    · simp only [Place.after_offset, List.length_append]
      omega
    · have hdrop : (w ++ (b₁ ++ (name ++ (b₂ ++ value))) ++ after).drop _ = after := List.drop_left
      simp only [List.append_assoc] at hdrop
      exact hdrop.symm
  | arrow => exact ⟨2, Place.after_offset p ['=', '>'], rfl⟩
  | @operator ch w after hch hrun hslash =>
    have hdrop : (ch :: w ++ after).drop _ = after := List.drop_left
    exact ⟨_, Place.after_offset p (ch :: w), hdrop.symm⟩
  | @punctuation ch k after hk heq => exact ⟨1, Place.after_offset p [ch], rfl⟩
  | @other ch after hch => exact ⟨1, Place.after_offset p [ch], rfl⟩

end Reading

/-! ## One round -/

namespace Cursor

variable {c : Cursor} {source : List Char}

/-- Whether a cursor stands in a source, so that the characters ahead are those behind its
place. At the end, and one place beyond it, none are. -/
def IsIn (source : List Char) (c : Cursor) : Prop := c.rest = source.drop c.place.offset

theorem IsIn.head? (h : c.IsIn source) : c.rest.head? = source[c.place.offset]? := by
  rw [h, List.head?_drop]

theorem IsIn.ne_nil (h : c.IsIn source) (hlt : c.place.offset < source.length) : c.rest ≠ [] := by
  rw [h, ne_eq, List.drop_eq_nil_iff]
  omega

theorem IsIn.move (h : c.IsIn source) {d : Cursor} {n : Nat}
    (hplace : d.place.offset = c.place.offset + n) (hrest : d.rest = c.rest.drop n) :
    d.IsIn source := by
  rw [IsIn, hrest, h, List.drop_drop, hplace]

theorem IsIn.skipSpace (h : c.IsIn source) : c.skipSpace.IsIn source :=
  h.move (Place.after_offset _ _) rfl

/-- A round that does not come to a foreign digit takes a character; every round leaves the
cursor in the source. -/
theorem IsIn.read (h : c.IsIn source) (hlt : c.place.offset < source.length) :
    c.read.2.IsIn source ∧ ((∀ ch ∈ c.rest.head?, ¬ Text.IsForeignDigit ch) →
      c.place.offset < c.read.2.place.offset) := by
  have hread : Reading c.place c.rest c.read.1 c.read.2.rest c.read.2.place :=
    (read_eq_iff (h.ne_nil hlt)).mp rfl
  obtain ⟨n, hplace, hrest⟩ := hread.exists_drop
  refine ⟨h.move hplace hrest, fun hplain => ?_⟩
  have hshorter := hread.length_lt hplain
  rw [hrest, List.length_drop] at hshorter
  omega

/-- At a foreign digit a round adds an empty number and does not move. -/
theorem read_of_isForeignDigit {ch : Char} {rest : List Char} (hrest : c.rest = ch :: rest)
    (h : Text.IsForeignDigit ch) : c.read = ([⟨.number, "", c.place⟩], c) := by
  have hne : ∀ d, Text.isDigit d = false → ch ≠ d := by
    rintro d hd rfl
    rw [h.1] at hd
    cases hd
  have hslash := hne '/' rfl
  have hquote := hne '\x22' rfl
  have hquote' := hne '\x27' rfl
  unfold read
  rw [hrest]
  simp only [hslash, hquote, hquote', h.1, decide_false, Bool.false_and, Bool.or_false,
    Bool.false_eq_true, if_false, if_true, number_of_isForeignDigit rest h]
  rfl

theorem isWhitespace_of_isForeignDigit {ch : Char} (h : Text.IsForeignDigit ch) :
    ch.isWhitespace = false := by
  rw [← Bool.not_eq_true]
  intro hspace
  have hnot : Text.isDigit ch = false :=
    of_isWhitespace (P := fun c => Text.isDigit c = false) rfl rfl rfl rfl hspace
  rw [h.1] at hnot
  cases hnot

theorem skipSpace_of_isForeignDigit {ch : Char} {rest : List Char}
    (hrest : c.rest = ch :: rest) (h : Text.IsForeignDigit ch) : c.skipSpace = c := by
  obtain ⟨_, p⟩ := c
  obtain rfl : _ = ch :: rest := hrest
  exact skipSpace_of_solid (isWhitespace_of_isForeignDigit h)

/-! ## All rounds -/

/-- The tokens of the first `n` rounds, or of all of them if the source ends before, and the
cursor behind them. -/
def rounds : Nat → Cursor → List Token × Cursor
  | 0, c => ([], c)
  | n + 1, c =>
    if c.rest.isEmpty then ([], c)
    else (c.round.1 ++ (rounds n c.round.2).1, (rounds n c.round.2).2)

theorem rounds_succ (n : Nat) (hne : c.rest ≠ []) :
    c.rounds (n + 1) = (c.round.1 ++ (c.round.2.rounds n).1, (c.round.2.rounds n).2) := by
  rw [rounds, if_neg (by simpa using hne)]

theorem scanWithin_eq_some_iff {n : Nat} {s : TokenStream} :
    c.scanWithin n = some s ↔ c.rounds n = (s.tokens, ⟨[], s.stop⟩) := by
  induction n generalizing c s with
  | zero =>
    obtain ⟨rest, p⟩ := c
    obtain ⟨ts, stop⟩ := s
    cases rest with
    | nil => simp [scanWithin, rounds, eq_comm]
    | cons ch rest => simp [scanWithin, rounds]
  | succ n ih =>
    by_cases hnil : c.rest = []
    · obtain ⟨rest, p⟩ := c
      obtain ⟨ts, stop⟩ := s
      obtain rfl : rest = [] := hnil
      simp [scanWithin, rounds, eq_comm]
    · rw [scanWithin_succ n hnil, rounds_succ n hnil, Option.map_eq_some_iff]
      constructor
      · rintro ⟨t, ht, rfl⟩
        rw [ih.mp ht]
      · intro h
        obtain ⟨htokens, hlast⟩ := Prod.mk.inj h
        refine ⟨⟨(c.round.2.rounds n).1, s.stop⟩, ih.mpr (Prod.ext rfl hlast), ?_⟩
        simp only [htokens]

/-- The scanner comes to the end of a text just if some number of rounds does. -/
theorem scan?_eq_some_iff {s : TokenStream} :
    c.scan? = some s ↔ ∃ n, c.rounds n = (s.tokens, ⟨[], s.stop⟩) := by
  constructor
  · exact fun h => ⟨_, scanWithin_eq_some_iff.mp h⟩
  · rintro ⟨n, hn⟩
    have hmore := scanWithin_mono (scanWithin_eq_some_iff.mpr hn) (Nat.le_max_left n c.rest.length)
    rwa [scanWithin_eq_scan? (Nat.le_max_right _ _)] at hmore

/-- A cursor at a foreign digit stays there, and every round adds an empty number. -/
theorem rounds_of_stuck {ch : Char} {rest : List Char} (hrest : c.rest = ch :: rest)
    (h : Text.IsForeignDigit ch) (n : Nat) :
    c.rounds n = (List.replicate n ⟨.number, "", c.place⟩, c) := by
  have hround : c.round = ([⟨.number, "", c.place⟩], c) := by
    rw [round, skipSpace_of_isForeignDigit hrest h, read_of_isForeignDigit hrest h]
  induction n with
  | zero => rfl
  | succ n ih =>
    rw [rounds_succ n (by rw [hrest]; exact List.cons_ne_nil _ _), hround, ih]
    rfl

/-- A text without foreign digits is scanned to its end. -/
theorem exists_scan? (hplain : ∀ ch ∈ c.rest, ¬ Text.IsForeignDigit ch) : ∃ s, c.scan? = some s := by
  -- By induction on what is left, since every piece takes a character.
  obtain ⟨s, p⟩ := c
  induction hn : s.length using Nat.strong_induction_on generalizing s p with
  | _ n ih =>
    cases s with
    | nil => exact ⟨_, rfl⟩
    | cons ch s =>
      cases hspace : ch.isWhitespace with
      | true =>
        rw [scan?_blank hspace]
        exact ih s.length (by simp [← hn]) s _ (fun d hd => hplain d (List.mem_cons_of_mem _ hd)) rfl
      | false =>
        obtain ⟨ts, after, q, hread⟩ := exists_reading p ch s
        have hshorter : after.length < n := by
          rw [← hn]
          exact hread.length_lt fun d hd => hplain d (List.mem_of_mem_head? hd)
        obtain ⟨t, ht⟩ :=
          ih after.length hshorter after q (fun d hd => hplain d (hread.suffix.subset hd)) rfl
        exact ⟨_, by rw [scan?_of_reading hspace hread, ht]; rfl⟩

end Cursor

/-! ## Sources -/

/-- Whether a foreign digit stands at an offset of a source. -/
def HasForeignDigitAt (source : List Char) (n : Nat) : Prop :=
  ∃ ch, source[n]? = some ch ∧ Text.IsForeignDigit ch

/-- Every round moves on from the place behind the blanks, but for one that comes to a foreign
digit there: it adds an empty number and stays, and so do all later rounds. A source without
foreign digits is scanned in some number of rounds, up to its end or one place beyond it. -/
theorem TokenStream.scanner_halts_without_foreign_digits (source : String) :
    (∀ c : Cursor, c.IsIn source.toList → c.skipSpace.place.offset < source.toList.length →
      c.round.2.IsIn source.toList ∧
      (c.skipSpace.place.offset < c.round.2.place.offset ↔
        ¬ HasForeignDigitAt source.toList c.skipSpace.place.offset) ∧
      (HasForeignDigitAt source.toList c.skipSpace.place.offset →
        c.round = ([⟨.number, "", c.skipSpace.place⟩], c.skipSpace) ∧
        ∀ n, c.round.2.rounds n
          = (List.replicate n ⟨.number, "", c.skipSpace.place⟩, c.skipSpace))) ∧
    ((∀ ch ∈ source.toList, ¬ Text.IsForeignDigit ch) →
      ∃ s n, ofSource? source = some s ∧
        (Cursor.mk source.toList {}).rounds n = (s.tokens, ⟨[], s.stop⟩) ∧
        (¬ EndsEscaping s.tokens → s.stop.offset = source.toList.length) ∧
        (EndsEscaping s.tokens → s.stop.offset = source.toList.length + 1)) := by
  refine ⟨fun c hc hlt => ?_, fun hplain => ?_⟩
  · have hspace := hc.skipSpace
    obtain ⟨hin, hmoves⟩ := hspace.read hlt
    have hstuck : HasForeignDigitAt source.toList c.skipSpace.place.offset →
        c.round = ([⟨.number, "", c.skipSpace.place⟩], c.skipSpace) ∧
        ∀ n, c.skipSpace.rounds n
          = (List.replicate n ⟨.number, "", c.skipSpace.place⟩, c.skipSpace) := by
      rintro ⟨ch, hch, hforeign⟩
      rw [← hspace.head?] at hch
      obtain ⟨rest, hrest⟩ := List.head?_eq_some_iff.mp hch
      exact ⟨Cursor.read_of_isForeignDigit hrest hforeign, Cursor.rounds_of_stuck hrest hforeign⟩
    refine ⟨hin, ⟨fun hmoved hforeign => ?_, fun hplain => hmoves fun ch hch hforeign => ?_⟩, ?_⟩
    · rw [(hstuck hforeign).1] at hmoved
      exact Nat.lt_irrefl _ hmoved
    · exact hplain ⟨ch, by rw [← hspace.head?]; exact hch, hforeign⟩
    · intro hforeign
      obtain ⟨hround, hrounds⟩ := hstuck hforeign
      rw [hround]
      exact ⟨rfl, hrounds⟩
  · obtain ⟨s, hs⟩ := Cursor.exists_scan? (c := ⟨source.toList, {}⟩) hplain
    obtain ⟨n, hn⟩ := Cursor.scan?_eq_some_iff.mp hs
    obtain ⟨hbeyond, hend⟩ := (Covers.of_scanWithin hs).stop
    have hoffset : (Place.after {} source.toList).offset = source.toList.length := by
      rw [Place.after_offset]
      exact Nat.zero_add _
    refine ⟨s, n, hs, hn, fun hnot => ?_, fun hescaping => ?_⟩
    · rw [hend hnot, hoffset]
    · rw [hbeyond hescaping]
      show (Place.after {} source.toList).offset + 1 = _
      rw [hoffset]

/-- The scanner stays at a raised two, and reads a string up to a backslash at the end. -/
theorem TokenStream.scanner_stays_at_a_raised_digit :
    (Cursor.mk " ²;".toList {}).round = ([⟨.number, "", ⟨1, 1, 2⟩⟩], ⟨"²;".toList, ⟨1, 1, 2⟩⟩) ∧
    (∀ n, (Cursor.mk "²;".toList ⟨1, 1, 2⟩).rounds n
      = (List.replicate n ⟨.number, "", ⟨1, 1, 2⟩⟩, ⟨"²;".toList, ⟨1, 1, 2⟩⟩)) ∧
    ∃ s n, ofSource? "x1\n'\\" = some s ∧
      (Cursor.mk "x1\n'\\".toList {}).rounds n = (s.tokens, ⟨[], s.stop⟩) ∧ s.stop.offset = 6 := by
  obtain ⟨-, -, hstuck⟩ := (scanner_halts_without_foreign_digits " ²;").1 ⟨" ²;".toList, {}⟩ rfl
    (by decide)
  obtain ⟨hround, hrounds⟩ := hstuck ⟨'²', rfl, by decide +kernel⟩
  rw [hround] at hrounds
  refine ⟨hround, hrounds, ?_⟩
  have hall : "x1\n'\\".toList.all (fun ch => decide (¬ Text.IsForeignDigit ch)) = true := by
    decide +kernel
  obtain ⟨s, n, hs, hn, -, hescaping⟩ := (scanner_halts_without_foreign_digits "x1\n'\\").2
    fun ch hch => of_decide_eq_true (List.all_eq_true.mp hall ch hch)
  have htokens : ofSource? "x1\n'\\" = some ⟨[⟨.identifier, "x1", {}⟩,
      ⟨.stringLiteral, "'\\", ⟨3, 2, 1⟩⟩], ⟨6, 2, 4⟩⟩ := by decide +kernel
  obtain rfl := Option.some.inj (hs.symm.trans htokens)
  exact ⟨_, n, hs, hn, hescaping ⟨_, rfl, rfl, '\x27', [], .inr rfl, rfl, rfl⟩⟩

end SolidityInterface
