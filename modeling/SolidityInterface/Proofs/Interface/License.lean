import SolidityInterface.Source.License
import SolidityInterface.Source.Record
import SolidityInterface.Proofs.Token.Lexing
import SolidityInterface.Interface.Document

/-
  The licence of an interface file. The licence that a source declares is an identifier,
  and an identifier on the first line of a file is found again. A configured licence need
  not be an identifier, and then something else or nothing is found.
-/

namespace SolidityInterface

namespace License

/-- Whether a text is an identifier: it is not empty, and holds no blank and no star. -/
def IsIdentifier (s : List Char) : Prop := s ≠ [] ∧ s.all isPart = true

instance (s : List Char) : Decidable (IsIdentifier s) := inferInstanceAs (Decidable (_ ∧ _))

theorem isIdentifier_of_onLine {s identifier : List Char} (h : onLine s = some identifier) :
    IsIdentifier identifier := by
  induction s with
  | nil => simp [onLine] at h
  | cons c s ih =>
    rw [onLine] at h
    split at h
    · dsimp only at h
      split at h
      · exact ih h
      · rename_i hne
        cases h
        exact ⟨by simpa using hne, List.all_takeWhile⟩
    · exact ih h

/-- What is found in a source is an identifier. -/
theorem isIdentifier_of_ofLines {lines : List (List Char)} {identifier : List Char}
    (h : ofLines lines = some identifier) : IsIdentifier identifier := by
  induction lines with
  | nil => simp [ofLines] at h
  | cons line lines ih =>
    rw [ofLines] at h
    split at h
    · simp at h
    split at h
    · split at h
      · rename_i found hfound
        cases h
        exact isIdentifier_of_onLine hfound
      · exact ih h
    · exact ih h

theorem isIdentifier_of_ofSource? {source identifier : String}
    (h : ofSource? source = some identifier) : IsIdentifier identifier.toList := by
  obtain ⟨found, hfound, rfl⟩ := Option.map_eq_some_iff.mp h
  simpa using isIdentifier_of_ofLines hfound

/-! ## The first line of a file -/

/-- A character that ends a line is blank. -/
theorem isBlank_of_isLineBreak {c : Char} (h : Text.isLineBreak c = true) : Text.isBlank c = true := by
  unfold Text.isLineBreak at h
  unfold Text.isBlank
  generalize c.toNat = n at h ⊢
  simp only [Text.inRanges, Text.lineBreakRanges, Text.blankRanges] at h ⊢
  grind

theorem lines_go {rest : List Char} (hrest : ∀ c ∈ rest, Text.isLineBreak c = false)
    (line tail : List Char) :
    Text.lines.go line (rest ++ '\n' :: tail) = (line.reverse ++ rest) :: Text.lines.go [] tail := by
  induction rest generalizing line with
  | nil =>
    rw [List.nil_append, List.append_nil, Text.lines.go]
    · rfl
    · simp
  | cons c rest ih =>
    have hc := hrest c (by simp)
    have hcr : c ≠ '\r' := by
      rintro rfl
      exact absurd hc (by decide)
    rw [List.cons_append, Text.lines.go, hc]
    · have hgo := ih (fun d hd => hrest d (by simp [hd])) (c :: line)
      simpa using hgo
    · intro _ h
      exact absurd h hcr

theorem trim_eq_self {s : List Char} (hhead : ∀ c ∈ s.head?, Text.isBlank c = false)
    (hlast : ∀ c ∈ s.getLast?, Text.isBlank c = false) : Text.trim s = s := by
  have hfront : ∀ t : List Char, (∀ c ∈ t.head?, Text.isBlank c = false) →
      t.dropWhile Text.isBlank = t := by
    intro t ht
    cases t with
    | nil => rfl
    | cons c t => rw [List.dropWhile_cons, ht c rfl]; rfl
  rw [Text.trim, hfront s hhead, hfront _ (by simpa using hlast), List.reverse_reverse]

theorem IsIdentifier.isBlank {s : List Char} (h : IsIdentifier s) {c : Char} (hc : c ∈ s) :
    Text.isBlank c = false := by
  have hpart := List.all_eq_true.mp h.2 c hc
  simp only [isPart, Bool.and_eq_true, Bool.not_eq_true'] at hpart
  exact hpart.1

theorem onLine_cons {c : Char} (hc : c ≠ 'S') (s : List Char) : onLine (c :: s) = onLine s := by
  have hmark : mark = 'S' :: "PDX-License-Identifier:".toList := by decide
  have hnone : mark.isPrefixOf? (c :: s) = none := by
    rw [hmark, List.isPrefixOf?, if_neg (by simpa using Ne.symm hc)]
  rw [onLine, hnone]

theorem onLine_mark {s : List Char} (h : IsIdentifier s) :
    onLine ("// SPDX-License-Identifier: ".toList ++ s) = some s := by
  have htext : "// SPDX-License-Identifier: ".toList = '/' :: '/' :: ' ' :: (mark ++ [' ']) := by decide
  have hdrop : (' ' :: s).dropWhile Text.isBlank = s := by
    rw [List.dropWhile_cons, if_pos (by decide)]
    cases s with
    | nil => rfl
    | cons c s => rw [List.dropWhile_cons, h.isBlank (by simp)]; rfl
  have htake : s.takeWhile isPart = s := List.takeWhile_eq_self_iff.mpr (List.all_eq_true.mp h.2)
  have hempty : s.isEmpty = false := by simpa using h.1
  have hfound : ∀ c rest, c :: rest = mark ++ ' ' :: s → onLine (c :: rest) = some s := by
    intro c rest hc
    rw [onLine, hc, List.isPrefixOf?_eq_some_iff_append_eq.mpr rfl]
    simp only [hdrop, htake, hempty, Bool.false_eq_true, if_false]
  rw [htext]
  simp only [List.cons_append, List.append_assoc, List.nil_append]
  rw [onLine_cons (by decide), onLine_cons (by decide), onLine_cons (by decide)]
  exact hfound _ _ rfl

/-- An identifier on the first line of a file is found. -/
theorem ofSource?_of_isIdentifier {s : List Char} (h : IsIdentifier s) (tail : List Char) :
    ofSource? (String.ofList ("// SPDX-License-Identifier: ".toList ++ s ++ '\n' :: tail))
      = some (String.ofList s) := by
  have hbreaks : ∀ c ∈ "// SPDX-License-Identifier: ".toList ++ s, Text.isLineBreak c = false := by
    intro c hc
    have hall : "// SPDX-License-Identifier: ".toList.all (fun c => !Text.isLineBreak c) = true := by
      decide
    have hstart : ∀ c ∈ "// SPDX-License-Identifier: ".toList, Text.isLineBreak c = false := by
      simpa using List.all_eq_true.mp hall
    rcases List.mem_append.mp hc with hc | hc
    · exact hstart c hc
    · cases hbreak : Text.isLineBreak c with
      | false => rfl
      | true => simpa [isBlank_of_isLineBreak hbreak] using h.isBlank hc
  have htrim : Text.trim ("// SPDX-License-Identifier: ".toList ++ s)
      = "// SPDX-License-Identifier: ".toList ++ s := by
    refine trim_eq_self ?_ ?_
    · intro c hc
      obtain rfl : '/' = c := by simpa using hc
      decide
    · intro c hc
      rw [List.getLast?_append_of_ne_nil _ h.1] at hc
      exact h.isBlank (List.mem_of_getLast? hc)
  rw [ofSource?, String.toList_ofList, Text.lines, lines_go hbreaks, List.reverse_nil, List.nil_append,
    ofLines, htrim, onLine_mark h]
  rfl

end License

end SolidityInterface
