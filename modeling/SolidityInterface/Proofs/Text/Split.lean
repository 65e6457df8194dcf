import SolidityInterface.Text.Split

/-
  Pieces that are put together with a separator between them are found again, as long as
  no piece holds the separator.
-/

namespace SolidityInterface.Text

variable {sep : Char}

theorem split_of_not_mem {s : List Char} (h : sep ∉ s) : split sep s = [s] := by
  induction s with
  | nil => rfl
  | cons c s ih =>
    simp only [List.mem_cons, not_or] at h
    rw [split, if_neg (Ne.symm h.1), ih h.2]

theorem split_append {s : List Char} (h : sep ∉ s) (t : List Char) :
    split sep (s ++ sep :: t) = s :: split sep t := by
  induction s with
  | nil => rw [List.nil_append, split, if_pos rfl]
  | cons c s ih =>
    simp only [List.mem_cons, not_or] at h
    rw [List.cons_append, split, if_neg (Ne.symm h.1), ih h.2]

/-- No piece of a text holds the separator. -/
theorem not_mem_of_mem_split {s piece : List Char} (h : piece ∈ split sep s) : sep ∉ piece := by
  induction s generalizing piece with
  | nil =>
    obtain rfl : piece = [] := by simpa [split] using h
    simp
  | cons c s ih =>
    rw [split] at h
    split at h
    · rcases List.mem_cons.mp h with rfl | h
      · simp
      · exact ih h
    · rename_i hc
      split at h
      · obtain rfl := List.mem_singleton.mp h
        simpa using Ne.symm hc
      · rename_i first rest hsplit
        rcases List.mem_cons.mp h with rfl | h
        · have hfirst : first ∈ split sep s := by simp [hsplit]
          simp [Ne.symm hc, ih hfirst]
        · exact ih (by simp [hsplit, h])

theorem not_mem_of_mem_splitString {s piece : String} (h : piece ∈ splitString sep s) :
    sep ∉ piece.toList := by
  obtain ⟨cs, hcs, rfl⟩ := List.mem_map.mp h
  rw [String.toList_ofList]
  exact not_mem_of_mem_split hcs

theorem splitString_of_not_mem {s : String} (h : sep ∉ s.toList) : splitString sep s = [s] := by
  rw [splitString, split_of_not_mem h]
  simp

theorem splitString_intercalate {glue : String} {pieces : List String} (hglue : glue.toList = [sep])
    (hne : pieces ≠ []) (hpieces : ∀ p ∈ pieces, sep ∉ p.toList) :
    splitString sep (glue.intercalate pieces) = pieces := by
  induction pieces with
  | nil => exact absurd rfl hne
  | cons p pieces ih =>
    have hp := hpieces p (by simp)
    cases pieces with
    | nil => simpa using splitString_of_not_mem hp
    | cons q pieces =>
      have hrest := ih (by simp) fun k hk => hpieces k (by simp [hk])
      rw [splitString] at hrest ⊢
      rw [String.intercalate_cons_cons, String.toList_append, String.toList_append, hglue,
        List.append_assoc, List.singleton_append, split_append hp, List.map_cons, hrest,
        String.ofList_toList]

end SolidityInterface.Text
