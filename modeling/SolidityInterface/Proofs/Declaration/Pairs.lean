import Mathlib.Order.Bounds.Defs
import SolidityInterface.Proofs.Declaration.Nesting

/-
  Pairs of brackets. Two brackets are a pair if they belong together and the brackets between
  them match. What stands outside all pairs is found by counting:

  1. Where brackets match, no more are closed than opened up to any place, and in the end as
     many (`Matched.closed_le`, `Matched.closed_eq`). Within a pair more are opened
     (`IsPair.closed_lt`).
  2. So a place up to which the brackets match stands outside all pairs
     (`outside_of_matched_take`).
  3. Symbols whose brackets match are unbroken, and then no semicolon stands outside all pairs
     (`Unbroken.not_outside`), or they have a first such semicolon (`isLeast_endsStatement`).
-/

namespace SolidityInterface

open Token (Kind)

/-! ## Counting -/

/-- The number of opening brackets, of all kinds. -/
def opened (ss : List Symbol) : Nat := ss.countP (·.1.isOpener)

/-- The number of closing brackets, of all kinds. -/
def closed (ss : List Symbol) : Nat := ss.countP (·.1.isCloser)

@[simp] theorem opened_append (ss ts : List Symbol) : opened (ss ++ ts) = opened ss + opened ts :=
  List.countP_append

@[simp] theorem closed_append (ss ts : List Symbol) : closed (ss ++ ts) = closed ss + closed ts :=
  List.countP_append

theorem counts_of_plain {x : Symbol} (hopener : x.1.isOpener = false) (hcloser : x.1.isCloser = false)
    (ss : List Symbol) : opened (x :: ss) = opened ss ∧ closed (x :: ss) = closed ss := by
  simp [opened, closed, hopener, hcloser]

theorem counts_of_opener {x : Symbol} (h : x.1.isOpener = true) (ss : List Symbol) :
    opened (x :: ss) = opened ss + 1 ∧ closed (x :: ss) = closed ss := by
  simp [opened, closed, h, Kind.isCloser_of_isOpener h]

theorem counts_of_closer {y : Symbol} (h : y.1.isCloser = true) (ss : List Symbol) :
    opened (y :: ss) = opened ss ∧ closed (y :: ss) = closed ss + 1 := by
  simp [opened, closed, h, Kind.isOpener_of_isCloser h]

/-- From a bracket on, more are opened than closed for as long as this holds of what stands
behind it in itself. -/
theorem closed_lt_behind {x : Symbol} {inside rest : List Symbol} {n : Nat} (hx : x.1.isOpener = true)
    (hinside : ∀ m, closed (inside.take m) ≤ opened (inside.take m)) (hpos : 0 < n)
    (hn : n ≤ inside.length + 1) :
    closed ((x :: (inside ++ rest)).take n) < opened ((x :: (inside ++ rest)).take n) := by
  obtain ⟨m, rfl⟩ := Nat.exists_eq_add_of_le' hpos
  have htake : (x :: (inside ++ rest)).take (m + 1) = x :: inside.take m := by
    rw [List.take_succ_cons, List.take_append_of_le_length (by omega)]
  obtain ⟨hopened, hclosed⟩ := counts_of_opener hx (inside.take m)
  have hle := hinside m
  rw [htake, hopened, hclosed]
  omega

/-- The counts of a pair of brackets, what stands between them and what stands behind them. -/
theorem counts_of_group {x y : Symbol} {inside : List Symbol} (hxy : x.1.closer? = some y.1)
    (hinside : closed inside = opened inside) (rest : List Symbol) :
    opened (x :: (inside ++ y :: rest)) = opened inside + 1 + opened rest ∧
      closed (x :: (inside ++ y :: rest)) = opened inside + 1 + closed rest := by
  obtain ⟨hx, hy, -⟩ := Sound.isCloser_of_closer? hxy
  rw [(counts_of_opener hx _).1, (counts_of_opener hx _).2, opened_append, closed_append,
    (counts_of_closer hy _).1, (counts_of_closer hy _).2]
  omega

namespace Matched

variable {ss : List Symbol}

/-- Where brackets match, as many are closed as opened. -/
theorem closed_eq (h : Matched ss) : closed ss = opened ss := by
  induction h with
  | nil => rfl
  | plain hopener hcloser _ ih =>
    obtain ⟨hopened, hclosed⟩ := counts_of_plain hopener hcloser _
    rw [hopened, hclosed, ih]
  | group hxy _ _ ihInside ihRest =>
    obtain ⟨hopened, hclosed⟩ := counts_of_group hxy ihInside _
    rw [hopened, hclosed, ihRest]

/-- Where brackets match, nowhere are more closed than opened. -/
theorem closed_le (h : Matched ss) (n : Nat) : closed (ss.take n) ≤ opened (ss.take n) := by
  induction h generalizing n with
  | nil => simp [opened, closed]
  | @plain x ss hopener hcloser _ ih =>
    cases n with
    | zero => exact Nat.le_refl _
    | succ n =>
      obtain ⟨hopened, hclosed⟩ := counts_of_plain hopener hcloser (ss.take n)
      rw [List.take_succ_cons, hopened, hclosed]
      exact ih n
  | @group x y ss ts hxy inside _ ihInside ihRest =>
    obtain rfl | hpos := Nat.eq_zero_or_pos n
    · exact Nat.le_refl _
    by_cases hn : n ≤ ss.length + 1
    · exact Nat.le_of_lt (closed_lt_behind (Sound.isCloser_of_closer? hxy).1 ihInside hpos hn)
    · -- The pair is read as a whole.
      obtain ⟨m, rfl⟩ : ∃ m, n = m + 1 + ss.length + 1 := ⟨n - ss.length - 2, by omega⟩
      have htake : (x :: (ss ++ y :: ts)).take (m + 1 + ss.length + 1) = x :: (ss ++ y :: ts.take m) := by
        rw [List.take_succ_cons, Nat.add_comm, List.take_length_add_append, List.take_succ_cons]
      obtain ⟨hopened, hclosed⟩ := counts_of_group hxy inside.closed_eq (ts.take m)
      have hle := ihRest m
      rw [htake, hopened, hclosed]
      omega

end Matched

/-! ## Pairs -/

/-- Whether the brackets at two places are a pair. -/
def IsPair (ss : List Symbol) (j k : Nat) : Prop :=
  ∃ front x inside y back, ss = front ++ x :: (inside ++ y :: back) ∧ x.1.closer? = some y.1 ∧
    Matched inside ∧ front.length = j ∧ j + inside.length + 1 = k

/-- Whether the symbol at a place stands outside all pairs of brackets. -/
def Outside (ss : List Symbol) (i : Nat) : Prop := ∀ j k, IsPair ss j k → ¬ (j < i ∧ i < k)

/-- Whether a semicolon stands at a place. -/
def SemicolonAt (ss : List Symbol) (i : Nat) : Prop := ∃ x, ss[i]? = some x ∧ x.1 = .semicolon

namespace IsPair

variable {ss : List Symbol} {j k : Nat}

theorem lt_length (h : IsPair ss j k) : k < ss.length := by
  obtain ⟨front, x, inside, y, back, rfl, -, -, rfl, rfl⟩ := h
  simp only [List.length_append, List.length_cons]
  omega

/-- A pair stays one with symbols put behind it. -/
theorem append (h : IsPair ss j k) (ts : List Symbol) : IsPair (ss ++ ts) j k := by
  obtain ⟨front, x, inside, y, back, rfl, hxy, hinside, hj, hk⟩ := h
  exact ⟨front, x, inside, y, back ++ ts, by simp, hxy, hinside, hj, hk⟩

/-- A pair stays one with symbols put before it. -/
theorem after (h : IsPair ss j k) (ts : List Symbol) :
    IsPair (ts ++ ss) (ts.length + j) (ts.length + k) := by
  obtain ⟨front, x, inside, y, back, rfl, hxy, hinside, hj, hk⟩ := h
  exact ⟨ts ++ front, x, inside, y, back, by simp, hxy, hinside, by simp [hj], by omega⟩

/-- Within a pair more brackets are open than before it. -/
theorem closed_lt (h : IsPair ss j k) {i : Nat} (hj : j < i) (hi : i ≤ k) :
    opened (ss.take j) + closed (ss.take i) < closed (ss.take j) + opened (ss.take i) := by
  obtain ⟨front, x, inside, y, back, rfl, hxy, hinside, rfl, rfl⟩ := h
  obtain ⟨n, rfl⟩ := Nat.exists_eq_add_of_le (Nat.le_of_lt hj)
  have hlt : closed ((x :: (inside ++ y :: back)).take n) < opened ((x :: (inside ++ y :: back)).take n) :=
    closed_lt_behind (Sound.isCloser_of_closer? hxy).1 hinside.closed_le (by omega) (by omega)
  rw [List.take_left, List.take_length_add_append, opened_append, closed_append]
  omega

/-- Behind a pair as many brackets are open as before it. -/
theorem closed_eq (h : IsPair ss j k) :
    opened (ss.take j) + closed (ss.take (k + 1)) = closed (ss.take j) + opened (ss.take (k + 1)) := by
  obtain ⟨front, x, inside, y, back, rfl, hxy, hinside, rfl, rfl⟩ := h
  have htake : (x :: (inside ++ y :: back)).take (inside.length + 1 + 1) = x :: (inside ++ [y]) := by
    rw [List.take_succ_cons, List.take_length_add_append, List.take_succ_cons, List.take_zero]
  obtain ⟨hopened, hclosed⟩ := counts_of_group hxy hinside.closed_eq []
  rw [List.take_left, show front.length + inside.length + 1 + 1 = front.length + (inside.length + 1 + 1)
    by omega, List.take_length_add_append, htake, opened_append, closed_append, hopened, hclosed]
  simp only [opened, closed, List.countP_nil]
  omega

end IsPair

/-- A place up to which the brackets match stands outside all pairs. -/
theorem outside_of_matched_take {ss : List Symbol} {i : Nat} (hss : Matched ss)
    (htake : Matched (ss.take i)) : Outside ss i := by
  rintro j k hpair ⟨hj, hk⟩
  have hlt := hpair.closed_lt hj (Nat.le_of_lt hk)
  have hle := hss.closed_le j
  have heq := htake.closed_eq
  omega

/-! ## Semicolons -/

/-- Symbols whose brackets match hold no semicolon outside them, or there is a first one. -/
theorem Matched.unbroken_or_split {ss : List Symbol} (h : Matched ss) :
    Unbroken ss ∨ ∃ front x back, ss = front ++ x :: back ∧ Unbroken front ∧ x.1 = .semicolon := by
  induction h with
  | nil => exact .inl .nil
  | @plain x ss hopener hcloser _ ih =>
    by_cases hsemicolon : x.1 = .semicolon
    · exact .inr ⟨[], x, ss, rfl, .nil, hsemicolon⟩
    obtain hunbroken | ⟨front, u, back, rfl, hfront, hu⟩ := ih
    · exact .inl (.plain hopener hcloser hsemicolon hunbroken)
    · exact .inr ⟨x :: front, u, back, rfl, .plain hopener hcloser hsemicolon hfront, hu⟩
  | @group x y ss ts hxy inside _ _ ihRest =>
    obtain hunbroken | ⟨front, u, back, rfl, hfront, hu⟩ := ihRest
    · exact .inl (.group hxy inside hunbroken)
    · exact .inr ⟨x :: (ss ++ y :: front), u, back, by simp, .group hxy inside hfront, hu⟩

namespace Unbroken

variable {ss : List Symbol}

theorem matched (h : Unbroken ss) : Matched ss := by
  induction h with
  | nil => exact .nil
  | plain hopener hcloser _ _ ih => exact .plain hopener hcloser ih
  | group hxy inside _ ih => exact .group hxy inside ih

/-- Unbroken symbols and one that is no bracket have brackets that match. -/
theorem matched_concat (h : Unbroken ss) {x : Symbol} (hopener : x.1.isOpener = false)
    (hcloser : x.1.isCloser = false) : Matched (ss ++ [x]) := by
  induction h with
  | nil => exact .plain hopener hcloser .nil
  | plain hopener' hcloser' _ _ ih => exact .plain hopener' hcloser' ih
  | @group y z ss ts hyz inside _ ih =>
    have hsplit : y :: (ss ++ z :: ts) ++ [x] = y :: (ss ++ z :: (ts ++ [x])) := by simp
    rw [hsplit]
    exact .group hyz inside ih

/-- Every semicolon of unbroken symbols stands in a pair of brackets. -/
theorem exists_isPair (h : Unbroken ss) {i : Nat} (hi : SemicolonAt ss i) :
    ∃ j k, IsPair ss j k ∧ j < i ∧ i < k := by
  induction h generalizing i with
  | nil =>
    obtain ⟨x, hx, -⟩ := hi
    simp at hx
  | @plain x ss _ _ hsemicolon _ ih =>
    obtain ⟨u, hu, hkind⟩ := hi
    cases i with
    | zero =>
      obtain rfl : x = u := by simpa using hu
      exact absurd hkind hsemicolon
    | succ i =>
      obtain ⟨j, k, hpair, hj, hk⟩ := ih ⟨u, by simpa using hu, hkind⟩
      exact ⟨_, _, hpair.after [x], by simp only [List.length_singleton]; omega,
        by simp only [List.length_singleton]; omega⟩
  | @group x y ss ts hxy inside _ ihRest =>
    obtain ⟨u, hu, hkind⟩ := hi
    obtain ⟨hx, hy, -⟩ := Sound.isCloser_of_closer? hxy
    have hwhole : x :: (ss ++ y :: ts) = x :: (ss ++ [y]) ++ ts := by simp
    by_cases hlt : i < ss.length + 2
    · -- Neither bracket is a semicolon, so it stands between them.
      refine ⟨0, ss.length + 1, ⟨[], x, ss, y, ts, rfl, hxy, inside, rfl, by omega⟩, ?_, ?_⟩
      · refine Nat.pos_of_ne_zero ?_
        rintro rfl
        obtain rfl : x = u := by simpa using hu
        rw [hkind] at hx
        cases hx
      · refine Nat.lt_of_le_of_ne (by omega) ?_
        rintro rfl
        obtain rfl : y = u := by simpa using hu
        rw [hkind] at hy
        cases hy
    · obtain ⟨m, rfl⟩ : ∃ m, i = ss.length + 2 + m := ⟨i - ss.length - 2, by omega⟩
      have hlength : (x :: (ss ++ [y])).length = ss.length + 2 := by simp
      rw [hwhole, ← hlength, List.getElem?_append_right (Nat.le_add_right _ _),
        Nat.add_sub_cancel_left] at hu
      obtain ⟨j, k, hpair, hj, hk⟩ := ihRest ⟨u, hu, hkind⟩
      rw [hwhole]
      exact ⟨_, _, hpair.after _, by omega, by omega⟩

theorem not_outside (h : Unbroken ss) {i : Nat} (hi : SemicolonAt ss i) : ¬ Outside ss i := by
  obtain ⟨j, k, hpair, hj, hk⟩ := h.exists_isPair hi
  exact fun houtside => houtside j k hpair ⟨hj, hk⟩

end Unbroken

/-- Whether a semicolon that stands outside all pairs of brackets is at a place. -/
def EndsStatement (ss : List Symbol) (i : Nat) : Prop := SemicolonAt ss i ∧ Outside ss i

/-- Where brackets match, the first semicolon outside them stands behind unbroken symbols. -/
theorem isLeast_endsStatement {front back : List Symbol} {x : Symbol} (hfront : Unbroken front)
    (hx : x.1 = .semicolon) (h : Matched (front ++ x :: back)) :
    IsLeast {i | EndsStatement (front ++ x :: back) i} front.length := by
  refine ⟨⟨⟨x, by simp, hx⟩, outside_of_matched_take h ?_⟩, ?_⟩
  · rw [List.take_left]
    exact hfront.matched
  · rintro i ⟨⟨u, hu, hkind⟩, houtside⟩
    by_contra hlt
    rw [List.getElem?_append_left (by omega)] at hu
    have hinside := hfront.not_outside ⟨u, hu, hkind⟩
    exact hinside fun j k hpair => houtside j k (hpair.append _)

end SolidityInterface
