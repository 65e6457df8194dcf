import SolidityInterface.Proofs.Token.Dividers

/-
  Texts between brackets. The length of an array is kept as the texts of its tokens,
  one after the other, and that text need not be read as the same tokens again: two
  operators may join to a comment. `isInline` says that it is: with a closing
  bracket behind it, the scanner comes to stand before the bracket, and what it has read
  by then makes up the text. What stands behind the bracket has no say in it
  (`Spells.inline`), since a round that does not come to the end of a text stays the same
  with more text behind a bracket there (`Cursor.round_append`).
-/

namespace SolidityInterface

open Token (Kind)

/-- The tokens before the closing bracket at the end of a text, if the scanner comes to
stand before it within `n` rounds. -/
def Cursor.toBracket : Nat → Cursor → Option (List Token)
  | 0, _ => none
  | n + 1, c =>
    if c.rest = [']'] then some [] else (c.round.2.toBracket n).map (c.round.1 ++ ·)

/-- The tokens of a text that stands before a closing bracket. -/
def inlineTokens? (text : String) : Option (List Token) :=
  (Cursor.mk (text.toList ++ [']']) {}).toBracket (text.length + 1)

/-- The symbols of a text that stands before a closing bracket. -/
def inlineSymbols (text : String) : List Symbol :=
  ((inlineTokens? text).getD []).map Token.symbol

/-- Whether a text that stands before a closing bracket is read as symbols that make up the
text, none of which closes a bracket. It stands on one line. -/
def isInline (text : String) : Bool :=
  (inlineTokens? text).isSome && (inlineSymbols text).all (·.1 ≠ .rbracket)
    && String.join ((inlineSymbols text).map (·.2)) = text && !text.toList.contains '\n'

/-! ## What does not look over a bracket -/

namespace Lexeme

/-- The front that a test takes lies before the bracket. -/
theorem takeWhile_bounded {p : Char → Bool} (hp : p ']' = false) (x y : List Char) :
    (x ++ ']' :: y).takeWhile p = x.takeWhile p := by
  induction x with
  | nil => simp [hp]
  | cons a x ih => cases ha : p a <;> simp [ha, ih]

theorem length_takeWhile_le {p : Char → Bool} (hp : p ']' = false) (x y : List Char) :
    ((x ++ ']' :: y).takeWhile p).length ≤ x.length := by
  rw [takeWhile_bounded hp]
  exact List.IsPrefix.length_le (List.takeWhile_prefix p)

theorem number_bounded (x y : List Char) : number (x ++ ']' :: y) = number (x ++ [']']) := by
  have hbracket : isDivider ']' = true := rfl
  rw [number_append (setsApart_cons hbracket y), number_append (setsApart_cons hbracket [])]

theorem takeWhile_append_of_lt {p : Char → Bool} {s : List Char}
    (h : (s.takeWhile p).length < s.length) (t : List Char) :
    (s ++ t).takeWhile p = s.takeWhile p := by
  induction s with
  | nil => simp at h
  | cons a s ih =>
    cases ha : p a
    · simp [ha]
    · simp only [List.takeWhile_cons, ha, if_true, List.length_cons, Nat.add_lt_add_iff_right,
        List.cons_append] at h ⊢
      rw [ih h]

theorem untilCommentEnd_append {s : List Char} (h : (untilCommentEnd s).length < s.length)
    (t : List Char) : untilCommentEnd (s ++ t) = untilCommentEnd s := by
  induction s using untilCommentEnd.induct with
  | case1 => simp [untilCommentEnd] at h
  | case2 rest => rfl
  | case3 c rest hne ih =>
    rw [untilCommentEnd.eq_3 _ _ hne, List.length_cons, List.length_cons] at h
    have hrest := ih (by omega)
    rw [List.cons_append, untilCommentEnd.eq_3 _ _ hne, untilCommentEnd, hrest]
    intro rest' hc happend
    -- The end of the comment would have to start with the last character.
    cases rest with
    | nil => simp [untilCommentEnd] at h
    | cons d rest =>
      obtain ⟨rfl, -⟩ := List.cons.inj happend
      exact hne rest hc rfl

theorem comment_append {s : List Char} (h : (comment s).length < s.length) (hne : comment s ≠ [])
    (t : List Char) : comment (s ++ t) = comment s := by
  unfold comment at h hne
  split at h
  · exact takeWhile_append_of_lt h t
  · simp only [List.length_cons, Nat.add_lt_add_iff_right] at h
    simp only [List.cons_append, comment, untilCommentEnd_append h t]
  · simp at hne

theorem stringTail_append (quote : Char) {s : List Char}
    (h : (stringTail quote s).1.length < s.length) (t : List Char) :
    stringTail quote (s ++ t) = stringTail quote s ∧ (stringTail quote s).2 = false := by
  induction s using stringTail.induct quote with
  | case1 => simp [stringTail] at h
  | case2 rest =>
    rw [List.cons_append, stringTail.eq_def, stringTail.eq_def]
    simp
  | case3 hslash =>
    -- A backslash at the end is the whole text.
    rw [stringTail.eq_def] at h
    simp [hslash] at h
  | case4 d rest text short htail hslash ih =>
    have hunfold : ∀ rest, stringTail quote ('\\' :: d :: rest)
        = ('\\' :: d :: (stringTail quote rest).1, (stringTail quote rest).2) := by
      intro rest
      rw [stringTail.eq_def]
      simp [hslash]
    rw [hunfold] at h
    obtain ⟨htext, hshort⟩ := ih (by simp only [List.length_cons] at h; omega)
    rw [List.cons_append, List.cons_append, hunfold, hunfold, htext]
    exact ⟨rfl, hshort⟩
  | case5 d rest hquote hslash text short htail ih =>
    have hunfold : ∀ rest, stringTail quote (d :: rest)
        = (d :: (stringTail quote rest).1, (stringTail quote rest).2) := by
      intro rest
      rw [stringTail.eq_def]
      simp [hquote, hslash]
    rw [hunfold] at h
    obtain ⟨htext, hshort⟩ := ih (by simp only [List.length_cons] at h; omega)
    rw [List.cons_append, hunfold, hunfold, htext]
    exact ⟨rfl, hshort⟩

end Lexeme

/-! ## Rounds that end before a bracket -/

namespace Cursor

/-- The cursor with more text behind what is ahead. -/
def append (c : Cursor) (t : List Char) : Cursor := ⟨c.rest ++ t, c.place⟩

theorem past_append {c : Cursor} {text : List Char} (h : text.length ≤ c.rest.length)
    (t : List Char) : (c.append t).past text = (c.past text).append t := by
  simp only [past, append, List.drop_append_of_le_length h]

theorem length_lt_of_past {c : Cursor} {text : List Char} (h : (c.past text).rest ≠ []) :
    text.length < c.rest.length := by
  by_contra hlt
  exact h (List.drop_eq_nil_of_le (by omega))

theorem skipComment_append {c : Cursor} (hne : Lexeme.comment c.rest ≠ [])
    (h : c.skipComment.rest ≠ []) (t : List Char) :
    (c.append t).skipComment = c.skipComment.append t := by
  have hlt := length_lt_of_past h
  rw [skipComment, skipComment, append, Lexeme.comment_append hlt hne]
  exact past_append (by omega) t

theorem string_append {c : Cursor} (h : c.string.2.rest ≠ []) (t : List Char) :
    (c.append t).string = (c.string.1, c.string.2.append t) := by
  obtain ⟨rest, p⟩ := c
  cases rest with
  | nil => exact absurd rfl h
  | cons quote rest =>
    dsimp only [string, append, List.cons_append] at h ⊢
    have hpast : ((Cursor.mk (quote :: rest) p).past
        (quote :: (Lexeme.stringTail quote rest).1)).rest ≠ [] := by
      split at h
      · intro hnil
        rw [advance_rest, hnil] at h
        exact h rfl
      · exact h
    have hlt : (Lexeme.stringTail quote rest).1.length < rest.length := by
      simpa using length_lt_of_past hpast
    obtain ⟨htail, hshort⟩ := Lexeme.stringTail_append quote hlt t
    rw [htail, hshort]
    refine Prod.ext rfl ?_
    exact past_append (c := ⟨quote :: rest, p⟩) (by simp; omega) t

/-- A run of characters that a bracket ends stays the same. -/
theorem takeWhile_append {p : Char → Bool} (hp : p ']' = false) {c : Cursor} {x : List Char}
    (hc : c.rest = x ++ [']']) (t : List Char) :
    (c.append t).rest.takeWhile p = c.rest.takeWhile p ∧
      (c.append t).past (c.rest.takeWhile p) = (c.past (c.rest.takeWhile p)).append t ∧
      ∃ y, (c.past (c.rest.takeWhile p)).rest = y ++ [']'] := by
  have hle : (c.rest.takeWhile p).length ≤ x.length := by
    rw [hc]
    exact Lexeme.length_takeWhile_le hp x []
  refine ⟨?_, past_append ?_ t, x.drop (c.rest.takeWhile p).length, ?_⟩
  · rw [append, hc, List.append_assoc, List.singleton_append]
    rw [Lexeme.takeWhile_bounded hp, Lexeme.takeWhile_bounded hp]
  · rw [hc, List.length_append] at *
    omega
  · rw [past_rest]
    nth_rewrite 2 [hc]
    exact List.drop_append_of_le_length hle

theorem word_append {c : Cursor} {x : List Char} (hc : c.rest = x ++ [']']) (t : List Char) :
    Lexeme.word (c.append t).rest = Lexeme.word c.rest ∧
      (c.append t).past (Lexeme.word c.rest) = (c.past (Lexeme.word c.rest)).append t ∧
      ∃ y, (c.past (Lexeme.word c.rest)).rest = y ++ [']'] :=
  takeWhile_append rfl hc t

theorem operator_append {c : Cursor} {x : List Char} (hc : c.rest = x ++ [']']) (t : List Char) :
    Lexeme.operator (c.append t).rest = Lexeme.operator c.rest ∧
      (c.append t).past (Lexeme.operator c.rest) = (c.past (Lexeme.operator c.rest)).append t := by
  obtain ⟨htext, hpast, -⟩ := takeWhile_append (p := fun c => Lexeme.isOperator c || c = '=')
    (by decide) hc t
  exact ⟨htext, hpast⟩

theorem number_append {c : Cursor} {x : List Char} (hc : c.rest = x ++ [']']) (t : List Char) :
    Lexeme.number (c.append t).rest = Lexeme.number c.rest := by
  rw [append, hc, List.append_assoc]
  exact Lexeme.number_bounded x t

theorem skipSpace_append {c : Cursor} {x : List Char} (hc : c.rest = x ++ [']']) (t : List Char) :
    (c.append t).skipSpace = c.skipSpace.append t ∧ ∃ y, c.skipSpace.rest = y ++ [']'] := by
  obtain ⟨hspace, hpast, hrest⟩ := takeWhile_append (p := Char.isWhitespace) (by decide) hc t
  refine ⟨?_, hrest⟩
  rw [skipSpace, hspace]
  exact hpast

theorem pragma_append {c : Cursor} {x : List Char} (hc : c.rest = x ++ [']'])
    (h : c.pragma.2.rest ≠ []) (t : List Char) :
    (c.append t).pragma = (c.pragma.1, c.pragma.2.append t) := by
  obtain ⟨hspace, y, hy⟩ := skipSpace_append hc t
  obtain ⟨hname, hpast, z, hz⟩ := word_append hy t
  obtain ⟨hspace', -⟩ := skipSpace_append hz t
  dsimp only [pragma] at h ⊢
  have hlt := length_lt_of_past h
  simp only [hspace, hname, hpast, hspace']
  generalize (c.skipSpace.past (Lexeme.word c.skipSpace.rest)).skipSpace = d at *
  have hvalue : (d.append t).rest.takeWhile (· ≠ ';') = d.rest.takeWhile (· ≠ ';') :=
    Lexeme.takeWhile_append_of_lt hlt t
  rw [hvalue, past_append (by omega) t]
  rfl

/-- A round that does not come to the end stays the same with more text behind the
bracket there. -/
theorem read_append {c : Cursor} {x : List Char} (hc : c.rest = x ++ [']'])
    (h : c.read.2.rest ≠ []) (t : List Char) :
    (c.append t).read = (c.read.1, c.read.2.append t) := by
  cases x with
  | nil =>
    obtain ⟨rest, p⟩ := c
    obtain rfl : rest = [']'] := hc
    -- The bracket alone is one token, and a round on it comes to the end.
    exact absurd (by rw [read_of_punctuation (k := .rbracket) rfl (by decide)]; rfl) h
  | cons ch x =>
    rw [List.cons_append] at hc
    have hhead : (x ++ [']'] ++ t).head? = (x ++ [']']).head? := by cases x <;> rfl
    have hrest : (c.append t).rest = ch :: (x ++ [']'] ++ t) := by rw [append, hc]; rfl
    have htoken : ∀ k text, (c.append t).token k text = c.token k text := fun _ _ => rfl
    unfold read at h ⊢
    simp only [hc, hrest, hhead, htoken] at h ⊢
    -- The tests are the same now, so each branch is one of the cases above.
    split
    · rename_i hcomment
      rw [if_pos hcomment] at h
      have hne : Lexeme.comment c.rest ≠ [] := by
        simp only [Bool.and_eq_true, Bool.or_eq_true, decide_eq_true_eq] at hcomment
        rw [hc, hcomment.1]
        exact Lexeme.comment_ne_nil hcomment.2
      rw [skipComment_append hne h t]
    rename_i hcomment
    rw [if_neg hcomment] at h
    split
    · rename_i hquote
      rw [if_pos hquote] at h
      rw [string_append h t]
    rename_i hquote
    rw [if_neg hquote] at h
    split
    · rename_i hdigit
      rw [if_pos hdigit] at h
      have hnumber := number_append (x := ch :: x) hc t
      rw [hrest, hc] at hnumber
      rw [hnumber]
      have hlt := length_lt_of_past h
      rw [past_append (by omega) t]
    rename_i hdigit
    rw [if_neg hdigit] at h
    split
    · rename_i hstart
      rw [if_pos hstart] at h
      -- The word ends before the bracket at the latest. Only the word `pragma` reads on.
      obtain ⟨hword, hpast, y, hy⟩ := word_append (x := ch :: x) hc t
      rw [hrest, hc] at hword
      rw [hc] at hpast hy
      rw [hword, hpast]
      by_cases hkind : Word.kind (String.ofList (Lexeme.word (ch :: (x ++ [']'])))) = .kwPragma
      · simp only [hkind, if_true] at h ⊢
        rw [pragma_append hy h t]
      · simp only [hkind, if_false]
    rename_i hstart
    rw [if_neg hstart] at h
    split
    · rename_i harrow
      rw [if_pos harrow] at h
      have hlt := length_lt_of_past h
      rw [past_append (by omega) t]
    rename_i harrow
    rw [if_neg harrow] at h
    split
    · rename_i hoperator
      obtain ⟨htext, hpast⟩ := operator_append (x := ch :: x) hc t
      rw [hrest, hc] at htext
      rw [hc] at hpast
      rw [htext, hpast]
    have hone : (c.append t).past [ch] = (c.past [ch]).append t := past_append (by simp [hc]) t
    rw [hone]
    split <;> rfl

theorem round_append {c : Cursor} {x : List Char} (hc : c.rest = x ++ [']'])
    (h : c.round.2.rest ≠ []) (t : List Char) :
    (c.append t).round = (c.round.1, c.round.2.append t) := by
  obtain ⟨hspace, y, hy⟩ := skipSpace_append hc t
  rw [round, hspace]
  exact read_append hy h t

theorem round_of_nil {c : Cursor} (h : c.rest = []) : c.round.2 = c := by
  obtain ⟨rest, p⟩ := c
  obtain rfl : rest = [] := h
  rfl

/-- The scanner does not come to a bracket from a cursor that a round leaves where it is. -/
theorem toBracket_eq_none {c : Cursor} (hne : c.rest ≠ [']']) (h : c.round.2 = c) (n : Nat) :
    c.toBracket n = none := by
  induction n with
  | zero => rfl
  | succ n ih =>
    rw [toBracket, if_neg hne, h, ih]
    rfl

end Cursor

namespace Spells

open Cursor

theorem of_toBracket {n : Nat} {c : Cursor} {x t : List Char} {tokens : List Token}
    {ts : List Symbol} (hc : c.rest = x ++ [']']) (h : c.toBracket n = some tokens)
    (ht : Spells t ts) :
    Spells (c.rest ++ t) (tokens.map Token.symbol ++ (.rbracket, "]") :: ts) := by
  induction n generalizing c x tokens with
  | zero => simp [toBracket] at h
  | succ n ih =>
    by_cases hlast : c.rest = [']']
    · obtain rfl : [] = tokens := by simpa [toBracket, hlast] using h
      rw [hlast]
      exact punctuation (k := .rbracket) rfl (by decide) ht
    · have hmoves : c.round.2.rest <:+ c.rest.tail := by
        rcases c.round_moves with hmoves | hstays
        · exact hmoves
        · rw [toBracket_eq_none hlast hstays] at h
          simp at h
      rw [toBracket, if_neg hlast] at h
      obtain ⟨after, hafter, rfl⟩ := Option.map_eq_some_iff.mp h
      have hnil : c.round.2.rest ≠ [] := by
        intro hnil
        rw [toBracket_eq_none (by simp [hnil]) (round_of_nil hnil)] at hafter
        simp at hafter
      -- What the round leaves ends with the bracket too.
      obtain ⟨y, hy⟩ : ∃ y, c.round.2.rest = y ++ [']'] := by
        obtain ⟨z, hz⟩ := hmoves.trans (List.tail_suffix _)
        obtain ⟨y, a, hy⟩ := (List.eq_nil_or_concat' c.round.2.rest).resolve_left hnil
        rw [hy, hc, ← List.append_assoc] at hz
        exact ⟨y, by rw [hy, List.append_inj_right' hz rfl]⟩
      rw [List.map_append, List.append_assoc]
      refine of_round (by simp [hc]) ?_ ?_ (ih hy hafter)
      · have hle := hmoves.length_le
        simp [hc] at hle ⊢
        omega
      · intro p
        obtain ⟨hsymbols, hrest⟩ := (c.append t).round_place p
        rw [round_append hc hnil t] at hsymbols hrest
        exact ⟨hsymbols, hrest⟩

/-- A text that stands before a closing bracket is read as its symbols and the bracket,
whatever stands behind. -/
theorem inline {text : String} {cs : List Char} {ts : List Symbol} (htext : isInline text = true)
    (h : Spells cs ts) :
    Spells (text.toList ++ ']' :: cs) (inlineSymbols text ++ (.rbracket, "]") :: ts) := by
  simp only [isInline, Bool.and_eq_true] at htext
  obtain ⟨tokens, htokens⟩ := Option.isSome_iff_exists.mp htext.1.1.1
  have hspells := of_toBracket rfl htokens h
  rw [List.append_assoc] at hspells
  rw [inlineSymbols, htokens]
  exact hspells

end Spells

end SolidityInterface
