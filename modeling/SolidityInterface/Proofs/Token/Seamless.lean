import SolidityInterface.Proofs.Token.Slices
import SolidityInterface.Proofs.Token.Spaced

/-
  Texts that are nothing but their tokens, such as the lengths of arrays, which are kept as the
  texts of their tokens one after the other.

  1. The tokens of a text are no longer than the text (`length_texts_le`). So if they make up
     all of it, no blank and no comment stands between them (`Seamless.of_texts`).
  2. Before a divider that is no operator such a text is read as the same tokens, and what
     stands behind it is read by itself (`Seamless.symbols?_append`).
-/

namespace SolidityInterface

open Token (Kind)
open Lexeme

/-- The characters of some symbols, one after the other. -/
def texts (ss : List Symbol) : List Char := ss.flatMap (·.2.toList)

/-- Whether a token of this class may stand in the length of an array. -/
def Token.Kind.isLengthPart : Kind → Bool
  | .number | .hexNumber | .identifier | .dot | .star | .operator | .lparen | .rparen => true
  | _ => false

/-! ## How long tokens are -/

theorem Covers.length_texts_le {p q : Place} {s : List Char} {ts : List Token} (h : Covers p s ts q) :
    (texts (ts.map Token.symbol)).length ≤ s.length := by
  induction h with
  | nil => exact Nat.le_refl _
  | blank _ _ ih | other _ _ ih => exact Nat.le_succ_of_le ih
  | comment _ _ ih =>
    rw [List.length_append]
    exact Nat.le_add_left_of_le ih
  | token _ _ _ _ ih =>
    simp only [texts, List.map_cons, Token.symbol, List.flatMap_cons, String.toList_ofList,
      List.length_append] at ih ⊢
    omega
  | @value p q w s ts _ _ ih =>
    have htrim := Text.length_trim_le w
    have hdrop := (List.dropWhile_sublist Text.isBlank (l := w)).length_le
    simp only [texts, List.map_cons, Token.symbol, List.flatMap_cons, String.toList_ofList,
      List.length_append] at ih ⊢
    omega
  | escaping _ => simp [texts, Token.symbol]

theorem length_texts_le {s : List Char} {ss : List Symbol} (h : symbols? s = some ss) :
    (texts ss).length ≤ s.length := by
  obtain ⟨t, ht, rfl⟩ := Option.map_eq_some_iff.mp h
  exact (Covers.of_scanWithin ht).length_texts_le

/-! ## One token at the front -/

/-- A text that is cut off starts with a comment, a string literal or a pragma. -/
theorem IsCut.exists_reading {s : List Char} (h : IsCut s) (p : Place) : ∃ ts after q,
    Reading p s ts after q ∧ (ts = [] ∨ ∃ u ∈ ts, u.kind.isLengthPart = false) := by
  cases h with
  | @lineComment rest hrest =>
    obtain ⟨w, after, hs, hw⟩ := exists_isComment (s := '/' :: rest) (.inl rfl)
    rw [hs]
    exact ⟨_, _, _, .comment hw, .inl rfl⟩
  | @blockComment rest hrest =>
    obtain ⟨w, after, hs, hw⟩ := exists_isComment (s := '*' :: rest) (.inr rfl)
    rw [hs]
    exact ⟨_, _, _, .comment hw, .inl rfl⟩
  | @string quote rest hq h =>
    rcases exists_stringEnd quote rest with ⟨body, after, rfl, hbody⟩ | hopen | ⟨body, rfl, hbody⟩
    · exact ⟨_, _, _, .string hq hbody, .inr ⟨_, List.mem_cons_self, rfl⟩⟩
    · exact ⟨_, _, _, .openString hq hopen, .inr ⟨_, List.mem_cons_self, rfl⟩⟩
    · exact ⟨_, _, _, .escapingString hq hbody, .inr ⟨_, List.mem_cons_self, rfl⟩⟩
  | @pragma rest hrun h =>
    obtain ⟨b₁, name, b₂, value, after, rfl, htext⟩ := Cursor.exists_isPragmaText rest
    exact ⟨_, _, _, .pragma (by decide) rfl hrun htext,
      .inr ⟨_, List.mem_cons_self, rfl⟩⟩

/-- No divider stands in a number. -/
theorem Lexeme.not_mem_number {c : Char} (hc : isDivider c = true) {w after : List Char} {k : Kind}
    (h : number (w ++ after) = (w, k)) : c ∉ w := by
  intro hmem
  obtain ⟨v, x, rfl⟩ := List.append_of_mem hmem
  rw [List.append_assoc, List.cons_append, number_append (setsApart_cons hc _)] at h
  have hprefix := isPrefix_number v
  rw [h] at hprefix
  have hle := hprefix.length_le
  simp only [List.length_append, List.length_cons] at hle
  omega

namespace Reading

variable {p q : Place} {s after : List Char} {ts : List Token} {u : Token}

theorem unique {ts' : List Token} {after' : List Char} {q' : Place} (h : Reading p s ts after q)
    (h' : Reading p s ts' after' q') : ts = ts' :=
  congrArg Prod.fst ((Cursor.read_eq_of_reading h).symm.trans (Cursor.read_eq_of_reading h'))

theorem not_isCut (h : Reading p s [u] after q) (hu : u.kind.isLengthPart = true) : ¬ IsCut s := by
  intro hcut
  obtain ⟨ts, after', q', h', hts⟩ := hcut.exists_reading p
  obtain rfl := h.unique h'
  simp [hu] at hts

/-- A piece of one token is the text of the token. -/
theorem text_append (h : Reading p s [u] after q) : u.text.toList ++ after = s := by
  cases h <;> simp

/-- A piece without tokens takes a character. -/
theorem length_lt_of_nil (h : Reading p s [] after q) : after.length < s.length := by
  cases h with
  | comment hw => cases hw <;> simp <;> omega
  | other _ => simp

/-- What may stand in the length of an array stands on one line. -/
theorem newline_not_mem (h : Reading p s [u] after q) (hu : u.kind.isLengthPart = true) :
    '\n' ∉ u.text.toList := by
  have hout : ∀ {test : Char → Bool} {w : List Char}, w.all test = true → test '\n' = false → '\n' ∉ w := by
    intro test w hw htest hmem
    rw [List.all_eq_true.mp hw _ hmem] at htest
    simp at htest
  cases h with
  | number hch hdigit hw =>
    rw [String.toList_ofList]
    exact not_mem_number rfl hw
  | word hw hkind hrun =>
    obtain ⟨c, rest, -, -, -, hall⟩ := hw
    rw [String.toList_ofList]
    exact hout hall rfl
  | @operator ch w after hch hrun hslash =>
    have hfirst : '\n' ≠ ch := by
      rintro rfl
      rcases hch with hop | ⟨heq, -⟩
      · simp [isOperator] at hop
      · simp at heq
    rw [String.toList_ofList, List.mem_cons, not_or]
    exact ⟨hfirst, hout hrun.1 (by decide)⟩
  | @punctuation ch k after hk heq =>
    rw [String.toList_ofList, List.mem_singleton]
    rintro rfl
    simp [punctuation?] at hk
  | string | openString | escapingString | arrow => simp [Kind.isLengthPart] at hu

end Reading

/-! ## Texts without gaps -/

/-- Whether a text consists of tokens that may stand in the length of an array, one directly
behind the other. -/
inductive Seamless : List Char → List Symbol → Prop
  | nil : Seamless [] []
  | token {p q : Place} {c : Char} {s after : List Char} {u : Token} {ss : List Symbol}
      (hc : c.isWhitespace = false) (h : Reading p (c :: s) [u] after q)
      (hu : u.kind.isLengthPart = true) (rest : Seamless after ss) :
      Seamless (c :: s) (u.symbol :: ss)

namespace Seamless

variable {s t : List Char} {ss : List Symbol}

/-- A text that its tokens make up has no gaps. -/
theorem of_texts (hs : symbols? s = some ss) (htexts : texts ss = s)
    (hparts : ∀ x ∈ ss, x.1.isLengthPart = true) : Seamless s ss := by
  induction ss generalizing s with
  | nil =>
    obtain rfl : [] = s := htexts
    exact .nil
  | cons x ss ih =>
    have hlength := congrArg List.length htexts
    cases s with
    | nil => cases hs
    | cons c rest =>
      rw [List.length_cons] at hlength
      -- Behind a blank, or a piece without tokens, less would be left than the tokens take.
      have hc : c.isWhitespace = false := by
        rw [← Bool.not_eq_true]
        intro hc
        rw [symbols?_blank hc] at hs
        have hle := length_texts_le hs
        omega
      obtain ⟨ts, after, q, hr⟩ := Cursor.exists_reading {} c rest
      rw [symbols?_of_reading hc hr] at hs
      obtain ⟨us, hus, hss⟩ := Option.map_eq_some_iff.mp hs
      rcases hr.tokens_cases with rfl | ⟨u, rfl⟩ | ⟨_, _, _, _, -, -, hpragma⟩
      · obtain rfl : us = x :: ss := hss
        have hlt := hr.length_lt_of_nil
        have hle := length_texts_le hus
        rw [List.length_cons] at hlt
        omega
      · obtain ⟨rfl, rfl⟩ := List.cons.inj hss
        have hafter : texts us = after := List.append_cancel_left (htexts.trans hr.text_append.symm)
        exact .token hc hr (hparts _ List.mem_cons_self)
          (ih hus hafter fun y hy => hparts y (List.mem_cons_of_mem _ hy))
      · rw [hpragma] at hss
        obtain ⟨rfl, -⟩ := List.cons.inj hss
        exact absurd (hparts _ List.mem_cons_self) (by decide)

/-- A text without gaps is read by itself before a divider that is no operator. -/
theorem symbols?_append (h : Seamless s ss) (ht : SetsApart t)
    (hop : ∀ c ∈ t.head?, isOperatorPart c = false) :
    symbols? (s ++ t) = (symbols? t).map (ss ++ ·) := by
  induction h with
  | nil => simp
  | token hc hr hu _ ih =>
    have happend := hr.append (hr.not_isCut hu) ht fun _ ⟨c, hmem, hpart⟩ =>
      absurd hpart (by simp [hop c hmem])
    rw [List.cons_append] at happend ⊢
    rw [symbols?_of_reading hc happend, ih, Option.map_map]
    rfl

theorem newline_not_mem (h : Seamless s ss) : '\n' ∉ s := by
  induction h with
  | nil => simp
  | token hc hr hu _ ih =>
    rw [← hr.text_append, List.mem_append, not_or]
    exact ⟨hr.newline_not_mem hu, ih⟩

end Seamless

end SolidityInterface
