import SolidityInterface.Proofs.Token.Reading

/-
  The symbols of a text, wherever it starts, or none if the scanner cannot come to its end.
  As many rounds as there are characters are enough (`Cursor.scanWithin_eq_scan?`), so the
  symbols of a text are those of the piece at its front and those of what is left
  (`symbols?_of_reading`), and the blanks in front have none (`symbols?_blank`).
-/

namespace SolidityInterface

open Token (Kind)

namespace Cursor

/-! ## Rounds enough -/

/-- A cursor that a round leaves where it is does not come to the end. -/
theorem scanWithin_of_stuck {c : Cursor} (hcons : c.rest ≠ []) (h : c.round.2 = c) (n : Nat) :
    c.scanWithin n = none := by
  induction n with
  | zero =>
    rw [scanWithin, if_neg (by simpa using hcons)]
  | succ n ih =>
    rw [scanWithin_succ n hcons, h, ih]
    rfl

theorem scanWithin_eq {n m : Nat} {c : Cursor} (hn : c.rest.length ≤ n) (hm : c.rest.length ≤ m) :
    c.scanWithin n = c.scanWithin m := by
  induction n generalizing c m with
  | zero =>
    have hnil : c.rest = [] := List.eq_nil_of_length_eq_zero (by omega)
    cases m with
    | zero => rfl
    | succ m => simp [scanWithin, hnil]
  | succ n ih =>
    by_cases hnil : c.rest = []
    · cases m with
      | zero => simp [scanWithin, hnil]
      | succ m => simp [scanWithin, hnil]
    have hpos : 0 < c.rest.length := List.length_pos_of_ne_nil hnil
    obtain ⟨m, rfl⟩ : ∃ k, m = k + 1 := ⟨m - 1, by omega⟩
    rcases c.round_moves with hmoves | hstuck
    · have hlt : c.round.2.rest.length ≤ c.rest.length - 1 := by
        have hle := hmoves.length_le
        rwa [List.length_tail] at hle
      rw [scanWithin_succ n hnil, scanWithin_succ m hnil, ih (m := m) (by omega) (by omega)]
    · rw [scanWithin_of_stuck hnil hstuck, scanWithin_of_stuck hnil hstuck]

/-- As many rounds as there are characters are enough. -/
theorem scanWithin_eq_scan? {n : Nat} {c : Cursor} (hn : c.rest.length ≤ n) :
    c.scanWithin n = c.scan? :=
  scanWithin_eq hn (Nat.le_refl _)

theorem scan?_succ {c : Cursor} (hcons : c.rest ≠ []) :
    c.scan? = (c.round.2.scan?).map fun s => ⟨c.round.1 ++ s.tokens, s.stop⟩ := by
  have hsuffix : c.round.2.rest.length ≤ c.rest.length := by
    rcases c.round_moves with hmoves | hstuck
    · exact (hmoves.trans (List.tail_suffix _)).length_le
    · rw [hstuck]
  rw [← scanWithin_eq_scan? (Nat.le_succ _), scanWithin_succ _ hcons, scanWithin_eq_scan? hsuffix]

/-- A blank in front is skipped. -/
theorem scan?_blank {p : Place} {c : Char} {s : List Char} (hc : c.isWhitespace = true) :
    (Cursor.mk (c :: s) p).scan? = (Cursor.mk s (p.next c)).scan? := by
  have hround : (Cursor.mk (c :: s) p).round = (Cursor.mk s (p.next c)).round := by
    rw [Cursor.round, Cursor.round, Cursor.skipSpace_cons hc]
  rw [scan?_succ (by simp), hround]
  cases s with
  | nil => rfl
  | cons d s => rw [scan?_succ (c := ⟨d :: s, _⟩) (by simp)]

/-- The piece at the front is read, then what is left. -/
theorem scan?_of_reading {p q : Place} {c : Char} {s after : List Char} {ts : List Token}
    (hc : c.isWhitespace = false) (h : Reading p (c :: s) ts after q) :
    (Cursor.mk (c :: s) p).scan?
      = (Cursor.mk after q).scan?.map fun t => ⟨ts ++ t.tokens, t.stop⟩ := by
  have hround : (Cursor.mk (c :: s) p).round = (ts, ⟨after, q⟩) := by
    rw [Cursor.round, Cursor.skipSpace_of_solid hc]
    exact Cursor.read_eq_of_reading h
  rw [scan?_succ (by simp), hround]

/-- Where a cursor stands has no say in the symbols ahead. -/
theorem scanWithin_place (n : Nat) (s : List Char) (p q : Place) :
    ((Cursor.mk s p).scanWithin n).map TokenStream.symbols
      = ((Cursor.mk s q).scanWithin n).map TokenStream.symbols := by
  induction n generalizing s p q with
  | zero =>
    cases s with
    | nil => rfl
    | cons c s => rfl
  | succ n ih =>
    cases s with
    | nil => rfl
    | cons c s =>
      obtain ⟨hsymbols, hrest⟩ := (Cursor.mk (c :: s) p).round_place q
      rw [scanWithin_succ n (by simp), scanWithin_succ n (by simp), Option.map_map, Option.map_map]
      have hmap : ∀ d : Cursor, TokenStream.symbols ∘ (fun t : TokenStream =>
          (⟨d.round.1 ++ t.tokens, t.stop⟩ : TokenStream))
            = (d.round.1.map Token.symbol ++ ·) ∘ TokenStream.symbols := by
        intro d
        funext t
        simp [TokenStream.symbols]
      rw [hmap, hmap, ← Option.map_map, ← Option.map_map]
      change (Cursor.mk (c :: s) q).round.1.map Token.symbol = _ at hsymbols
      change (Cursor.mk (c :: s) q).round.2.rest = _ at hrest
      rw [hsymbols]
      congr 1
      generalize (Cursor.mk (c :: s) p).round.2 = d at hrest
      generalize (Cursor.mk (c :: s) q).round.2 = e at hrest
      obtain ⟨rest, p'⟩ := d
      obtain ⟨rest', q'⟩ := e
      obtain rfl : rest' = rest := hrest
      exact ih rest' p' q'

end Cursor

/-! ## The symbols of a text -/

/-- The symbols of a text, if the scanner comes to its end. -/
def symbols? (s : List Char) : Option (List Symbol) :=
  (Cursor.mk s {}).scan?.map TokenStream.symbols

theorem symbols?_eq (s : List Char) (p : Place) :
    symbols? s = (Cursor.mk s p).scan?.map TokenStream.symbols :=
  Cursor.scanWithin_place s.length s {} p

/-- A blank in front has no symbols. -/
theorem symbols?_blank {c : Char} (hc : c.isWhitespace = true) (s : List Char) :
    symbols? (c :: s) = symbols? s := by
  rw [symbols?, symbols?_eq s (Place.next {} c), Cursor.scan?_blank hc]

/-- The symbols of a text are those of the piece at its front and those of what is left. -/
theorem symbols?_of_reading {p q : Place} {c : Char} {s after : List Char} {ts : List Token}
    (hc : c.isWhitespace = false) (h : Reading p (c :: s) ts after q) :
    symbols? (c :: s) = (symbols? after).map (ts.map Token.symbol ++ ·) := by
  rw [symbols?_eq _ p, symbols?_eq after q, Cursor.scan?_of_reading hc h]
  rw [Option.map_map, Option.map_map]
  congr 1
  funext t
  simp [TokenStream.symbols]

theorem spells_iff {s : List Char} {ss : List Symbol} : Spells s ss ↔ symbols? s = some ss := by
  constructor
  · intro h
    obtain ⟨t, ht, hss⟩ := h {}
    rw [symbols?, ht]
    exact congrArg some hss
  · intro h p
    rw [symbols?_eq s p] at h
    obtain ⟨t, ht, hss⟩ := Option.map_eq_some_iff.mp h
    exact ⟨t, ht, hss⟩

end SolidityInterface
