import SolidityInterface.Proofs.Token.Rounds

/-
  The lexical grammar. `Reading p s ts rest q` says what may stand at the front of the
  text `s` that starts at `p`: the tokens `ts` are read there, `rest` is left and starts
  at `q`. One constructor a kind of piece, each with the shape of its text and with what
  may not follow it. A round of the scanner from a character reads just what the grammar
  allows (`Cursor.read_eq_iff`), so the laws of scanning are proved by cases on a piece
  and never by opening the scanner again.

  Most pieces are runs: the longest front of a text whose characters pass a test
  (`IsRun`).
-/

namespace SolidityInterface

open Token (Kind)

/-! ## Runs -/

/-- Whether `w` is the whole run of characters that pass a test, at the front of `w`
and what stands behind it. -/
def IsRun (test : Char → Bool) (w after : List Char) : Prop :=
  w.all test = true ∧ ∀ c ∈ after.head?, test c = false

namespace IsRun

variable {test : Char → Bool} {w after t : List Char}

theorem takeWhile_eq (h : IsRun test w after) : (w ++ after).takeWhile test = w :=
  Cursor.takeWhile_append_stop h.1 h.2

theorem of_takeWhile (test : Char → Bool) (s : List Char) :
    IsRun test (s.takeWhile test) (s.dropWhile test) := by
  refine ⟨List.all_takeWhile, ?_⟩
  intro c hc
  have hhead := List.head?_dropWhile_not test s
  rw [hc] at hhead
  simpa using hhead

/-- A run ends before more text that starts with no character of the run. -/
theorem append (h : IsRun test w after) (ht : ∀ c ∈ t.head?, test c = false) :
    IsRun test w (after ++ t) := by
  refine ⟨h.1, ?_⟩
  cases after with
  | nil => exact ht
  | cons c after => exact h.2

/-- A run that something ends stays the same with more text behind. -/
theorem append_of_ne_nil (h : IsRun test w after) (hne : after ≠ []) (t : List Char) :
    IsRun test w (after ++ t) := by
  obtain ⟨c, after, rfl⟩ := List.exists_cons_of_ne_nil hne
  exact ⟨h.1, h.2⟩

end IsRun

/-! ## Comments -/

/-- Whether a text is a comment, given what stands behind it: one to the end of its line,
one up to the first `*/`, or one that the source ends before. -/
inductive IsComment : List Char → List Char → Prop
  | line {body after : List Char} (hrun : IsRun (· ≠ '\n') body after) :
      IsComment ('/' :: '/' :: body) after
  | block {body after : List Char} (hbody : ¬ ['*', '/'] <:+: body) :
      IsComment ('/' :: '*' :: (body ++ ['*', '/'])) after
  | unclosed {body : List Char} (hbody : ¬ ['*', '/'] <:+: body) : IsComment ('/' :: '*' :: body) []

namespace Lexeme

theorem untilCommentEnd_of_not_infix {body : List Char} (h : ¬ ['*', '/'] <:+: body) :
    untilCommentEnd body = body := by
  induction body using untilCommentEnd.induct with
  | case1 => rfl
  | case2 rest => exact absurd ⟨[], rest, rfl⟩ h
  | case3 c rest hne ih =>
    rw [untilCommentEnd.eq_3 _ _ hne, ih]
    intro hend
    exact h (hend.trans (List.suffix_cons c rest).isInfix)

theorem untilCommentEnd_block {body : List Char} (h : ¬ ['*', '/'] <:+: body) (after : List Char) :
    untilCommentEnd (body ++ '*' :: '/' :: after) = body ++ ['*', '/'] := by
  induction body with
  | nil => rfl
  | cons c body ih =>
    have hbody : ¬ ['*', '/'] <:+: body := fun hend =>
      h (hend.trans (List.suffix_cons c body).isInfix)
    rw [List.cons_append, untilCommentEnd.eq_3, ih hbody, List.cons_append]
    -- The end cannot start in the body: its second character would be the body's or a star.
    intro rest hc hrest
    cases body with
    | nil => simp at hrest
    | cons d body =>
      obtain ⟨rfl, -⟩ := List.cons.inj hrest
      exact h ⟨[], body, by rw [hc]; rfl⟩

/-- A text holds an end of a comment, and then a first one, or none. -/
theorem exists_commentEnd (s : List Char) :
    (∃ body after, s = body ++ '*' :: '/' :: after ∧ ¬ ['*', '/'] <:+: body) ∨
      ¬ ['*', '/'] <:+: s := by
  induction s using untilCommentEnd.induct with
  | case1 => exact .inr (by simp)
  | case2 rest => exact .inl ⟨[], rest, rfl, by simp⟩
  | case3 c rest hne ih =>
    have hcons : ∀ t, ¬ ['*', '/'] <:+: t → t <+: rest → ¬ ['*', '/'] <:+: c :: t := by
      intro t ht hpre hend
      rcases List.infix_cons_iff.mp hend with hfront | hin
      · obtain ⟨u, hu⟩ := hfront
        obtain ⟨rfl, rfl⟩ := List.cons.inj hu
        obtain ⟨v, rfl⟩ := hpre
        exact hne (u ++ v) rfl rfl
      · exact ht hin
    rcases ih with ⟨body, after, rfl, hbody⟩ | hopen
    · exact .inl ⟨c :: body, after, rfl, hcons body hbody ⟨_, rfl⟩⟩
    · exact .inr (hcons rest hopen List.prefix_rfl)

theorem comment_of_isComment {w after : List Char} (h : IsComment w after) :
    comment (w ++ after) = w := by
  cases h with
  | @line body _ hrun =>
    have hrun' : IsRun (· ≠ '\n') ('/' :: '/' :: body) after := by
      refine ⟨?_, hrun.2⟩
      simpa using hrun.1
    exact hrun'.takeWhile_eq
  | block hbody =>
    simp only [List.cons_append, List.append_assoc, List.nil_append, comment,
      untilCommentEnd_block hbody]
  | unclosed hbody =>
    rw [List.append_nil, comment, untilCommentEnd_of_not_infix hbody]

/-- What starts like a comment is one, up to somewhere. -/
theorem exists_isComment {s : List Char} (h : s.head? = some '/' ∨ s.head? = some '*') :
    ∃ w after, '/' :: s = w ++ after ∧ IsComment w after := by
  obtain ⟨c, s, rfl⟩ : ∃ c t, s = c :: t := by
    cases s with
    | nil => simp at h
    | cons c t => exact ⟨c, t, rfl⟩
  simp only [List.head?_cons, Option.some.injEq] at h
  rcases h with rfl | rfl
  · refine ⟨'/' :: '/' :: s.takeWhile (· ≠ '\n'), s.dropWhile (· ≠ '\n'), ?_, .line (.of_takeWhile _ s)⟩
    rw [List.cons_append, List.cons_append, List.takeWhile_append_dropWhile]
  · rcases exists_commentEnd s with ⟨body, after, rfl, hbody⟩ | hopen
    · exact ⟨_, after, by simp, .block hbody⟩
    · exact ⟨_, [], by simp, .unclosed hopen⟩

/-! ## String literals -/

/-- Whether a character is one of the two quotes. -/
def IsQuote (c : Char) : Prop := c = '\x22' ∨ c = '\x27'

theorem IsQuote.ne_backslash {c : Char} (h : IsQuote c) : c ≠ '\\' := by
  rcases h with rfl | rfl <;> decide

/-- Behind an opening quote stands a closing quote, nothing that closes, or nothing but
an unpaired backslash at the end. -/
theorem exists_stringEnd (quote : Char) (s : List Char) :
    (∃ body after, s = body ++ quote :: after ∧ isQuotable quote body = true) ∨
      isQuotable quote s = true ∨
      ∃ body, s = body ++ ['\\'] ∧ isQuotable quote body = true := by
  induction s using isQuotable.induct with
  | case1 => exact .inr (.inl rfl)
  | case2 d rest ih =>
    rcases ih with ⟨body, after, rfl, hbody⟩ | hopen | ⟨body, rfl, hbody⟩
    · exact .inl ⟨'\\' :: d :: body, after, rfl, hbody⟩
    · exact .inr (.inl hopen)
    · exact .inr (.inr ⟨'\\' :: d :: body, rfl, hbody⟩)
  | case3 c rest hne ih =>
    by_cases hquote : c = quote
    · subst hquote
      exact .inl ⟨[], rest, rfl, rfl⟩
    by_cases hslash : c = '\\'
    · -- Nothing stands behind the backslash, or it would be paired.
      cases rest with
      | nil => exact .inr (.inr ⟨[], by rw [hslash]; rfl, rfl⟩)
      | cons d rest => exact (hne d rest hslash rfl).elim
    have hcons : ∀ t, isQuotable quote t = true → isQuotable quote (c :: t) = true := by
      intro t ht
      rw [isQuotable]
      · simp [hquote, hslash, ht]
      · intro _ _ hc _
        exact hslash hc
    rcases ih with ⟨body, after, rfl, hbody⟩ | hopen | ⟨body, rfl, hbody⟩
    · exact .inl ⟨c :: body, after, rfl, hcons body hbody⟩
    · exact .inr (.inl (hcons rest hopen))
    · exact .inr (.inr ⟨c :: body, rfl, hcons body hbody⟩)

theorem stringTail_cons {quote c : Char} (rest : List Char) (hquote : c ≠ quote) (hslash : c ≠ '\\') :
    stringTail quote (c :: rest) = (c :: (stringTail quote rest).1, (stringTail quote rest).2) := by
  rw [stringTail.eq_def]
  simp [hquote, hslash]

theorem stringTail_escape {quote : Char} (hq : quote ≠ '\\') (d : Char) (rest : List Char) :
    stringTail quote ('\\' :: d :: rest)
      = ('\\' :: d :: (stringTail quote rest).1, (stringTail quote rest).2) := by
  rw [stringTail.eq_def]
  simp [Ne.symm hq]

/-- A string literal takes all that can stand between quotes, and goes on behind it. -/
theorem stringTail_quotable {quote : Char} (hq : quote ≠ '\\') {body : List Char}
    (h : isQuotable quote body = true) (s : List Char) :
    stringTail quote (body ++ s) = (body ++ (stringTail quote s).1, (stringTail quote s).2) := by
  induction body using isQuotable.induct with
  | case1 => rfl
  | case2 d rest ih =>
    simp only [List.cons_append, stringTail_escape hq, ih h]
  | case3 c rest hne ih =>
    rw [isQuotable] at h
    · simp only [Bool.and_eq_true, decide_eq_true_eq] at h
      obtain ⟨⟨hquote, hslash⟩, hrest⟩ := h
      rw [List.cons_append, stringTail_cons _ hquote hslash, ih hrest]
      rfl
    · exact hne

/-! ## Numbers -/

theorem isPrefix_fraction (s : List Char) : fraction s <+: s := by
  unfold fraction
  split
  · split
    · exact List.prefix_cons_inj _ |>.mpr (List.takeWhile_prefix _)
    · exact List.nil_prefix
  · exact List.nil_prefix

theorem isPrefix_sign (s : List Char) : sign s <+: s := by
  unfold sign
  split
  · exact ⟨_, rfl⟩
  · exact ⟨_, rfl⟩
  · exact List.nil_prefix

/-- A front, and then a front of what is left, is a front. -/
theorem prefix_append_drop {v w s : List Char} (hv : v <+: s) (hw : w <+: s.drop v.length) :
    v ++ w <+: s := by
  obtain ⟨t, rfl⟩ := hv
  rw [List.drop_left] at hw
  exact (List.prefix_append_right_inj v).mpr hw

theorem isPrefix_exponent (s : List Char) : exponent s <+: s := by
  unfold exponent
  split
  · split
    · rw [List.cons_append, List.prefix_cons_inj]
      exact prefix_append_drop (isPrefix_sign _) (List.takeWhile_prefix _)
    · exact List.nil_prefix
  · exact List.nil_prefix

theorem isPrefix_number (s : List Char) : (number s).1 <+: s := by
  unfold number
  split
  · exact (List.prefix_cons_inj _).mpr ((List.prefix_cons_inj _).mpr (List.takeWhile_prefix _))
  · exact (List.prefix_cons_inj _).mpr ((List.prefix_cons_inj _).mpr (List.takeWhile_prefix _))
  · dsimp only
    refine prefix_append_drop (prefix_append_drop (List.takeWhile_prefix _) (isPrefix_fraction _)) ?_
    rw [List.length_append, ← List.drop_drop]
    exact isPrefix_exponent _

/-! ## Operators and other characters -/

/-- Whether a character may stand in a run of operators. -/
def isOperatorPart (c : Char) : Bool := isOperator c || c = '='

/-- Whether some token may start with a character, outside of pragmas. -/
def startsToken (c : Char) : Bool :=
  c = '\x22' || c = '\x27' || Text.isDigit c || Word.isStart c || isOperator c ||
    (punctuation? c).isSome

theorem isOperator_spec {c : Char} (h : isOperator c = true) :
    c ≠ '\x22' ∧ c ≠ '\x27' ∧ c ≠ '=' ∧ Text.isDigit c = false ∧ Word.isStart c = false := by
  have hall : "+-/%&|^~<>!?:".toList.all (fun c => decide (c ≠ '\x22' ∧ c ≠ '\x27' ∧ c ≠ '=' ∧
      Text.isDigit c = false ∧ Word.isStart c = false)) = true := rfl
  have hmem : c ∈ "+-/%&|^~<>!?:".toList := by simpa [isOperator] using h
  exact of_decide_eq_true (List.all_eq_true.mp hall c hmem)

end Lexeme

/-! ## Pieces -/

open Lexeme

/-- What the words behind `pragma` are: blanks, a name, blanks, and a value up to a
semicolon or the end. -/
structure IsPragmaText (b₁ name b₂ value after : List Char) : Prop where
  blanks : IsRun Char.isWhitespace b₁ (name ++ (b₂ ++ (value ++ after)))
  name_run : IsRun Word.isPart name (b₂ ++ (value ++ after))
  blanks' : IsRun Char.isWhitespace b₂ (value ++ after)
  value_run : IsRun (· ≠ ';') value after

/-- What the scanner may read at the front of a text that starts at `p`, what is left,
and where that starts. -/
inductive Reading (p : Place) : List Char → List Token → List Char → Place → Prop
  | comment {w after : List Char} (hw : IsComment w after) :
      Reading p (w ++ after) [] after (p.after w)
  | string {quote : Char} {body after : List Char} (hq : IsQuote quote)
      (hbody : isQuotable quote body = true) :
      Reading p (quote :: (body ++ quote :: after))
        [⟨.stringLiteral, String.ofList (quote :: (body ++ [quote])), p⟩] after
        (p.after (quote :: (body ++ [quote])))
  /-- A string literal that the source ends in. -/
  | openString {quote : Char} {body : List Char} (hq : IsQuote quote)
      (hbody : isQuotable quote body = true) :
      Reading p (quote :: body) [⟨.stringLiteral, String.ofList (quote :: body), p⟩] []
        (p.after (quote :: body))
  /-- A string literal that the source ends in, behind an unpaired backslash. -/
  | escapingString {quote : Char} {body : List Char} (hq : IsQuote quote)
      (hbody : isQuotable quote body = true) :
      Reading p (quote :: (body ++ ['\\']))
        [⟨.stringLiteral, String.ofList (quote :: (body ++ ['\\'])), p⟩] []
        (p.after (quote :: (body ++ ['\\']))).beyond
  | number {ch : Char} {k : Kind} {w after : List Char} (hch : (w ++ after).head? = some ch)
      (hdigit : Text.isDigit ch = true) (hw : Lexeme.number (w ++ after) = (w, k)) :
      Reading p (w ++ after) [⟨k, String.ofList w, p⟩] after (p.after w)
  | word {w after : List Char} (hw : IsWord w) (hkind : Word.kind (String.ofList w) ≠ .kwPragma)
      (hrun : IsRun Word.isPart w after) :
      Reading p (w ++ after) [⟨Word.kind (String.ofList w), String.ofList w, p⟩] after (p.after w)
  | pragma {w b₁ name b₂ value after : List Char} (hw : IsWord w)
      (hkind : Word.kind (String.ofList w) = .kwPragma)
      (hrun : IsRun Word.isPart w (b₁ ++ (name ++ (b₂ ++ (value ++ after)))))
      (htext : IsPragmaText b₁ name b₂ value after) :
      Reading p (w ++ (b₁ ++ (name ++ (b₂ ++ (value ++ after)))))
        [⟨.kwPragma, String.ofList w, p⟩,
          ⟨.identifier, String.ofList name, (p.after w).after b₁⟩,
          ⟨.pragmaValue, String.ofList (Text.trim value), (((p.after w).after b₁).after name).after b₂⟩]
        after (((((p.after w).after b₁).after name).after b₂).after value)
  | arrow {after : List Char} :
      Reading p ('=' :: '>' :: after) [⟨.arrow, String.ofList ['=', '>'], p⟩] after
        (p.after ['=', '>'])
  | operator {ch : Char} {w after : List Char}
      (hch : isOperator ch = true ∨ ch = '=' ∧ (w ++ after).head? = some '=')
      (hrun : IsRun isOperatorPart w after)
      (hslash : ch = '/' → (w ++ after).head? ≠ some '/' ∧ (w ++ after).head? ≠ some '*') :
      Reading p (ch :: (w ++ after)) [⟨.operator, String.ofList (ch :: w), p⟩] after
        (p.after (ch :: w))
  | punctuation {ch : Char} {k : Kind} {after : List Char} (hk : punctuation? ch = some k)
      (heq : ch = '=' → after.head? ≠ some '=' ∧ after.head? ≠ some '>') :
      Reading p (ch :: after) [⟨k, String.ofList [ch], p⟩] after (p.after [ch])
  /-- A character that starts no token. -/
  | other {ch : Char} {after : List Char} (hch : startsToken ch = false) :
      Reading p (ch :: after) [] after (p.after [ch])

/-! ## The scanner follows the grammar -/

namespace Cursor

variable {p : Place}

theorem mk_past (w after : List Char) (p : Place) :
    (Cursor.mk (w ++ after) p).past w = ⟨after, p.after w⟩ := by
  simp [past]

theorem read_string {quote : Char} {s : List Char} (hq : IsQuote quote) :
    (Cursor.mk (quote :: s) p).read =
      ([⟨.stringLiteral, String.ofList (quote :: (stringTail quote s).1), p⟩],
        if (stringTail quote s).2 then
          ((Cursor.mk (quote :: s) p).past (quote :: (stringTail quote s).1)).advance
        else (Cursor.mk (quote :: s) p).past (quote :: (stringTail quote s).1)) := by
  have hslash : quote ≠ '/' := by rcases hq with rfl | rfl <;> decide
  have hquote : (decide (quote = '\x22') || decide (quote = '\x27')) = true := by
    rcases hq with rfl | rfl <;> decide
  simp only [read, hslash, decide_false, Bool.false_and, Bool.false_eq_true, if_false, hquote, if_true]
  rfl

/-- The words behind `pragma` are read as the grammar says. -/
theorem pragma_eq {b₁ name b₂ value after : List Char} (h : IsPragmaText b₁ name b₂ value after)
    (p : Place) : (Cursor.mk (b₁ ++ (name ++ (b₂ ++ (value ++ after)))) p).pragma =
      ([⟨.identifier, String.ofList name, p.after b₁⟩,
        ⟨.pragmaValue, String.ofList (Text.trim value), ((p.after b₁).after name).after b₂⟩],
        ⟨after, (((p.after b₁).after name).after b₂).after value⟩) := by
  simp only [pragma, skipSpace, h.blanks.takeWhile_eq, mk_past, word, h.name_run.takeWhile_eq,
    h.blanks'.takeWhile_eq, h.value_run.takeWhile_eq, token]

/-- A comment gives no tokens. -/
theorem read_comment {w after : List Char} (h : IsComment w after) :
    (Cursor.mk (w ++ after) p).read = ([], ⟨after, p.after w⟩) := by
  have hread : (Cursor.mk (w ++ after) p).read = ([], (Cursor.mk (w ++ after) p).skipComment) := by
    cases h <;> simp [read]
  rw [hread, skipComment, comment_of_isComment h, mk_past]

theorem read_number {ch : Char} {k : Kind} {w after : List Char} (hch : (w ++ after).head? = some ch)
    (hdigit : Text.isDigit ch = true) (hw : Lexeme.number (w ++ after) = (w, k)) :
    (Cursor.mk (w ++ after) p).read = ([⟨k, String.ofList w, p⟩], ⟨after, p.after w⟩) := by
  obtain ⟨rest, hrest⟩ := List.head?_eq_some_iff.mp hch
  have hpunct : ch ≠ '/' ∧ ch ≠ '\x22' ∧ ch ≠ '\x27' := by
    refine ⟨?_, ?_, ?_⟩ <;> rintro rfl <;> revert hdigit <;> decide
  have hread : (Cursor.mk (w ++ after) p).read
      = ([(Cursor.mk (w ++ after) p).token k w], (Cursor.mk (w ++ after) p).past w) := by
    have hw' : Lexeme.number (ch :: rest) = (w, k) := by rw [← hrest, hw]
    simp only [read, hrest, hpunct, decide_false, Bool.false_and, Bool.or_false,
      Bool.false_eq_true, if_false, hdigit, if_true, hw']
  rw [hread, mk_past]
  rfl

/-- A run of operator characters is one token, unless it starts with the slash of a comment. -/
theorem read_operator {ch : Char} {w after : List Char}
    (hch : isOperator ch = true ∨ ch = '=' ∧ (w ++ after).head? = some '=')
    (hrun : IsRun isOperatorPart w after)
    (hslash : ch = '/' → (w ++ after).head? ≠ some '/' ∧ (w ++ after).head? ≠ some '*') :
    (Cursor.mk (ch :: (w ++ after)) p).read
      = ([⟨.operator, String.ofList (ch :: w), p⟩], ⟨after, p.after (ch :: w)⟩) := by
  have hspec : ch ≠ '\x22' ∧ ch ≠ '\x27' ∧ Text.isDigit ch = false ∧ Word.isStart ch = false := by
    rcases hch with hop | ⟨rfl, -⟩
    · obtain ⟨h₁, h₂, -, h₃, h₄⟩ := isOperator_spec hop
      exact ⟨h₁, h₂, h₃, h₄⟩
    · decide
  have hcomment : ¬ (ch = '/' ∧ ((w ++ after).head? = some '/' ∨ (w ++ after).head? = some '*')) := by
    rintro ⟨hc, hhead⟩
    exact hhead.elim (hslash hc).1 (hslash hc).2
  have harrow : ¬ (ch = '=' ∧ (w ++ after).head? = some '>') := by
    rintro ⟨rfl, hhead⟩
    rcases hch with hop | ⟨-, heq⟩
    · exact absurd hop (by decide)
    · rw [heq] at hhead
      simp at hhead
  have hpart : isOperatorPart ch = true := by
    rcases hch with hop | ⟨rfl, -⟩
    · simp [isOperatorPart, hop]
    · rfl
  have hall : (ch :: w).all isOperatorPart = true := by
    rw [List.all_cons, hpart, hrun.1, Bool.and_self]
  have hrun' : Lexeme.operator (ch :: (w ++ after)) = ch :: w :=
    IsRun.takeWhile_eq (w := ch :: w) ⟨hall, hrun.2⟩
  have hread : (Cursor.mk (ch :: (w ++ after)) p).read
      = ([(Cursor.mk (ch :: (w ++ after)) p).token .operator (ch :: w)],
        (Cursor.mk (ch :: w ++ after) p).past (ch :: w)) := by
    simp only [read, hspec, hrun', Bool.and_eq_true, Bool.or_eq_true, decide_eq_true_eq, hcomment,
      harrow, hch, if_true, if_false, Bool.false_eq_true, or_self]
    rfl
  rw [hread, mk_past]
  rfl

/-- The equals sign is a token of its own, unless it starts an arrow or an operator. -/
theorem read_equals {after : List Char} (heq : after.head? ≠ some '=') (harrow : after.head? ≠ some '>') :
    (Cursor.mk ('=' :: after) p).read
      = ([⟨.eq, String.ofList ['='], p⟩], ⟨after, p.after ['=']⟩) := by
  have hspec : Text.isDigit '=' = false ∧ Word.isStart '=' = false ∧ isOperator '=' = false := by
    decide
  simp [read, hspec, heq, harrow, punctuation?, past, token]

/-- A character that starts no token is passed over. -/
theorem read_other {ch : Char} {after : List Char} (h : startsToken ch = false) :
    (Cursor.mk (ch :: after) p).read = ([], ⟨after, p.after [ch]⟩) := by
  simp only [startsToken, Bool.or_eq_false_iff, decide_eq_false_iff_not, Option.isSome_eq_false_iff,
    Option.isNone_iff_eq_none] at h
  obtain ⟨⟨⟨⟨⟨hquote, hquote'⟩, hdigit⟩, hstart⟩, hop⟩, hpunct⟩ := h
  have hslash : ch ≠ '/' := by
    rintro rfl
    exact absurd hop (by decide)
  have heq : ch ≠ '=' := by
    rintro rfl
    simp [punctuation?] at hpunct
  simp [read, hslash, heq, hquote, hquote', hdigit, hstart, hop, hpunct, past]

/-- A round reads what the grammar says. -/
theorem read_eq_of_reading {s after : List Char} {ts : List Token} {q : Place}
    (h : Reading p s ts after q) : (Cursor.mk s p).read = (ts, ⟨after, q⟩) := by
  cases h with
  | comment hw => exact read_comment hw
  | @string quote body after hq hbody =>
    rw [read_string hq, Spells.stringTail_of_isQuotable hq.ne_backslash hbody]
    simp [past]
  | @openString quote body hq hbody =>
    have htail := stringTail_quotable hq.ne_backslash hbody []
    rw [List.append_nil] at htail
    rw [read_string hq, htail]
    simp [past, stringTail]
  | @escapingString quote body hq hbody =>
    rw [read_string hq, stringTail_quotable hq.ne_backslash hbody, stringTail.eq_def]
    simp [past, advance, Ne.symm hq.ne_backslash]
  | number hch hdigit hw => exact read_number hch hdigit hw
  | @word w after hw hkind hrun =>
    obtain ⟨c, rest, rfl, hstart, hdigit, -⟩ := hw
    have hword : Lexeme.word (c :: (rest ++ after)) = c :: rest := hrun.takeWhile_eq
    rw [List.cons_append, read_of_isStart hstart hdigit hword, if_neg hkind, ← List.cons_append,
      mk_past]
    rfl
  | @pragma w b₁ name b₂ value after hw hkind hrun htext =>
    obtain ⟨c, rest, rfl, hstart, hdigit, -⟩ := hw
    have hword := hrun.takeWhile_eq
    rw [List.cons_append] at hword
    rw [List.cons_append, read_of_isStart hstart hdigit hword, if_pos hkind, ← List.cons_append,
      mk_past, pragma_eq htext]
    rfl
  | arrow =>
    have hstart : Word.isStart '=' = false ∧ Text.isDigit '=' = false := by decide
    simp [read, hstart, past, token]
  | operator hch hrun hslash => exact read_operator hch hrun hslash
  | @punctuation ch k after hk heq =>
    by_cases hch : ch = '='
    · subst hch
      obtain rfl : .eq = k := by simpa [punctuation?] using hk
      exact read_equals (heq rfl).1 (heq rfl).2
    · rw [read_of_punctuation hk hch]
      rfl
  | other hch => exact read_other hch

theorem exists_isPragmaText (s : List Char) : ∃ b₁ name b₂ value after,
    s = b₁ ++ (name ++ (b₂ ++ (value ++ after))) ∧ IsPragmaText b₁ name b₂ value after := by
  obtain ⟨s₁, hs₁⟩ : ∃ t, t = s.dropWhile Char.isWhitespace := ⟨_, rfl⟩
  obtain ⟨s₂, hs₂⟩ : ∃ t, t = s₁.dropWhile Word.isPart := ⟨_, rfl⟩
  obtain ⟨s₃, hs₃⟩ : ∃ t, t = s₂.dropWhile Char.isWhitespace := ⟨_, rfl⟩
  have h₃ : s₃.takeWhile (· ≠ ';') ++ s₃.dropWhile (· ≠ ';') = s₃ := List.takeWhile_append_dropWhile
  have h₂ : s₂.takeWhile Char.isWhitespace ++ s₃ = s₂ := by
    rw [hs₃, List.takeWhile_append_dropWhile]
  have h₁ : s₁.takeWhile Word.isPart ++ s₂ = s₁ := by rw [hs₂, List.takeWhile_append_dropWhile]
  have h₀ : s.takeWhile Char.isWhitespace ++ s₁ = s := by rw [hs₁, List.takeWhile_append_dropWhile]
  refine ⟨s.takeWhile Char.isWhitespace, s₁.takeWhile Word.isPart, s₂.takeWhile Char.isWhitespace,
    s₃.takeWhile (· ≠ ';'), s₃.dropWhile (· ≠ ';'), by rw [h₃, h₂, h₁, h₀], ?_⟩
  constructor
  · rw [h₃, h₂, h₁, hs₁]
    exact .of_takeWhile _ s
  · rw [h₃, h₂, hs₂]
    exact .of_takeWhile _ s₁
  · rw [h₃, hs₃]
    exact .of_takeWhile _ s₂
  · exact .of_takeWhile _ s₃

/-- Every text starts with some piece of the grammar. -/
theorem exists_reading (p : Place) (ch : Char) (rest : List Char) :
    ∃ ts after q, Reading p (ch :: rest) ts after q := by
  by_cases hcomment : ch = '/' ∧ (rest.head? = some '/' ∨ rest.head? = some '*')
  · obtain ⟨rfl, hhead⟩ := hcomment
    obtain ⟨w, after, hs, hw⟩ := exists_isComment hhead
    exact hs ▸ ⟨_, _, _, .comment hw⟩
  by_cases hquote : IsQuote ch
  · rcases exists_stringEnd ch rest with ⟨body, after, rfl, hbody⟩ | hopen | ⟨body, rfl, hbody⟩
    · exact ⟨_, _, _, .string hquote hbody⟩
    · exact ⟨_, _, _, .openString hquote hopen⟩
    · exact ⟨_, _, _, .escapingString hquote hbody⟩
  by_cases hdigit : Text.isDigit ch = true
  · obtain ⟨after, hafter⟩ := isPrefix_number (ch :: rest)
    have hnumber : Lexeme.number ((Lexeme.number (ch :: rest)).1 ++ after)
        = ((Lexeme.number (ch :: rest)).1, (Lexeme.number (ch :: rest)).2) := by rw [hafter]
    exact hafter ▸ ⟨_, _, _, .number (by rw [hafter]; rfl) hdigit hnumber⟩
  by_cases hstart : Word.isStart ch = true
  · have hsplit : Lexeme.word (ch :: rest) ++ (ch :: rest).dropWhile Word.isPart = ch :: rest :=
      List.takeWhile_append_dropWhile
    have hword := isWord_word rest hstart (by simpa using hdigit)
    have hrun : IsRun Word.isPart (Lexeme.word (ch :: rest)) ((ch :: rest).dropWhile Word.isPart) :=
      .of_takeWhile _ _
    by_cases hkind : Word.kind (String.ofList (Lexeme.word (ch :: rest))) = .kwPragma
    · obtain ⟨b₁, name, b₂, value, after, hs, htext⟩ :=
        exists_isPragmaText ((ch :: rest).dropWhile Word.isPart)
      rw [hs] at hrun hsplit
      exact hsplit ▸ ⟨_, _, _, .pragma hword hkind hrun htext⟩
    · exact hsplit ▸ ⟨_, _, _, .word hword hkind hrun⟩
  by_cases harrow : ch = '=' ∧ rest.head? = some '>'
  · obtain ⟨rfl, hhead⟩ := harrow
    obtain ⟨after, rfl⟩ : ∃ after, rest = '>' :: after := by
      cases rest with
      | nil => simp at hhead
      | cons c after => exact ⟨after, by simpa using hhead⟩
    exact ⟨_, _, _, .arrow⟩
  have hsplit : rest.takeWhile isOperatorPart ++ rest.dropWhile isOperatorPart = rest :=
    List.takeWhile_append_dropWhile
  by_cases hop : isOperator ch = true ∨ ch = '=' ∧ rest.head? = some '='
  · rw [← hsplit] at hop hcomment ⊢
    refine ⟨_, _, _, .operator hop (.of_takeWhile _ rest) ?_⟩
    exact fun hc => not_or.mp fun hhead => hcomment ⟨hc, hhead⟩
  have heq : ch = '=' → rest.head? ≠ some '=' ∧ rest.head? ≠ some '>' := by
    intro hc
    exact ⟨fun h => hop (.inr ⟨hc, h⟩), fun h => harrow ⟨hc, h⟩⟩
  cases hk : punctuation? ch with
  | some k => exact ⟨_, _, _, .punctuation hk heq⟩
  | none =>
    refine ⟨_, _, _, .other ?_⟩
    have hop' : isOperator ch = false := by
      rw [← Bool.not_eq_true]
      exact fun h => hop (.inl h)
    have hquotes := not_or.mp hquote
    simp [startsToken, hquotes, hdigit, hstart, hop', hk]

/-- A round from a character reads just what the grammar says. -/
theorem read_eq_iff {s after : List Char} {ts : List Token} {q : Place} (hs : s ≠ []) :
    (Cursor.mk s p).read = (ts, ⟨after, q⟩) ↔ Reading p s ts after q := by
  refine ⟨fun h => ?_, read_eq_of_reading⟩
  obtain ⟨ch, rest, rfl⟩ := List.exists_cons_of_ne_nil hs
  obtain ⟨ts', after', q', hr⟩ := exists_reading p ch rest
  rw [read_eq_of_reading hr] at h
  cases h
  exact hr

end Cursor

/-- What a piece leaves is the end of its text. -/
theorem Reading.suffix {p q : Place} {s after : List Char} {ts : List Token}
    (h : Reading p s ts after q) : after <:+ s := by
  have hread := Cursor.read_eq_of_reading h
  have hmoves := (Cursor.mk s p).read_moves
  rw [hread] at hmoves
  rcases hmoves with hmoves | hstuck
  · exact hmoves.trans (List.tail_suffix s)
  · obtain rfl : after = s := congrArg Cursor.rest hstuck
    exact List.suffix_rfl

end SolidityInterface
