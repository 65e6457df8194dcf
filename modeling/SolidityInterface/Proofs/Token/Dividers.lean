import SolidityInterface.Proofs.Token.Reading

/-
  Dividers: characters that can go on none of the pieces they may stand behind, whatever
  number or word that is. To the front of a text a divider behind it is like the end of the
  text (`number_append`), so a piece of the grammar that nothing cuts off stays the same
  with more text behind (`Reading.append`). Only a run of operators goes on if the divider
  is an operator itself.

  A number also stays the same if what stands behind it is taken away, as long as its
  characters are in ASCII (`number_alone`): the digit behind a point may be one that no
  number can hold.
-/

namespace SolidityInterface

open Token (Kind)

namespace Lexeme

/-- Whether a character goes on no word, no number and no `=`, and starts no comment
with a slash before it. Slashes and other operators may go on a run of operators. -/
def isDivider (c : Char) : Bool :=
  !Word.isPart c && !Text.isDigit c && !(['.', '+', '-', '=', '>', '*'].contains c)

/-- Whether a text is empty or starts with a divider. -/
def SetsApart (t : List Char) : Prop := ∀ c ∈ t.head?, isDivider c = true

theorem isDivider_spec {c : Char} (h : isDivider c = true) :
    Word.isPart c = false ∧ Text.isDigit c = false ∧
      c ≠ '.' ∧ c ≠ '+' ∧ c ≠ '-' ∧ c ≠ '=' ∧ c ≠ '>' ∧ c ≠ '*' := by
  simpa [isDivider, and_assoc] using h

theorem setsApart_nil : SetsApart [] := by simp [SetsApart]

theorem setsApart_cons {c : Char} (hc : isDivider c = true) (t : List Char) : SetsApart (c :: t) := by
  simpa [SetsApart] using hc

/-- A test that no divider passes stops at one. -/
theorem SetsApart.stops {t : List Char} (ht : SetsApart t) {test : Char → Bool}
    (htest : ∀ c, isDivider c = true → test c = false) : ∀ c ∈ t.head?, test c = false :=
  fun c hc => htest c (ht c hc)

/-- A property of the characters in ASCII. -/
theorem of_ascii {P : Char → Prop} (hall : ∀ n < 128, P (Char.ofNat n)) {c : Char}
    (hc : c.toNat < 128) : P c := by
  have hP := hall c.toNat hc
  rwa [Char.ofNat_toNat] at hP

theorem toNat_lt_of_isHexPart {c : Char} (h : isHexPart c = true) : c.toNat < 128 := by
  simp only [isHexPart, Char.isDigit, Bool.or_eq_true, Bool.and_eq_true, decide_eq_true_eq,
    ge_iff_le, Char.le_def, UInt32.le_iff_toNat_le] at h
  have hcode : c.toNat = c.val.toNat := rfl
  have h9 : '9'.val.toNat = 57 := rfl
  have hf : 'f'.val.toNat = 102 := rfl
  have hF : 'F'.val.toNat = 70 := rfl
  rcases h with ((h | h) | h) | rfl
  · omega
  · omega
  · omega
  · decide

theorem isPart_of_isHexPart {c : Char} (h : isHexPart c = true) : Word.isPart c = true := by
  have hall : ∀ n < 128, isHexPart (Char.ofNat n) = true → Word.isPart (Char.ofNat n) = true := by
    decide
  exact of_ascii (P := fun c => isHexPart c = true → Word.isPart c = true) hall
    (toNat_lt_of_isHexPart h) h

theorem isHexPart_of_isNumberPart {c : Char} (h : isNumberPart c = true) : isHexPart c = true := by
  simp only [isNumberPart, Bool.or_eq_true] at h
  rcases h with h | h
  · simp [isHexPart, h]
  · simp only [isHexPart, h, Bool.or_true]

section Tests

variable {c : Char} (hc : isDivider c = true)
include hc

theorem isPart_of_isDivider : Word.isPart c = false := (isDivider_spec hc).1

theorem isDigit_of_isDivider : Text.isDigit c = false := (isDivider_spec hc).2.1

theorem isHexPart_of_isDivider : isHexPart c = false := by
  rw [← Bool.not_eq_true]
  intro h
  have hpart := isPart_of_isDivider hc
  rw [isPart_of_isHexPart h] at hpart
  simp at hpart

theorem isNumberPart_of_isDivider : isNumberPart c = false := by
  rw [← Bool.not_eq_true]
  intro h
  have hhex := isHexPart_of_isDivider hc
  rw [isHexPart_of_isNumberPart h] at hhex
  simp at hhex

end Tests

/-! ## Numbers before a divider -/

section Append

variable {t : List Char} (ht : SetsApart t)
include ht

theorem takeWhile_append_setsApart {test : Char → Bool}
    (htest : ∀ c, isDivider c = true → test c = false) (x : List Char) :
    (x ++ t).takeWhile test = x.takeWhile test := by
  have hrun := (IsRun.of_takeWhile test x).append (ht.stops htest)
  have hsplit : x ++ t = x.takeWhile test ++ (x.dropWhile test ++ t) := by
    rw [← List.append_assoc, List.takeWhile_append_dropWhile]
  rw [hsplit]
  exact hrun.takeWhile_eq

theorem fraction_append (x : List Char) : fraction (x ++ t) = fraction x := by
  match x with
  | [] =>
    cases t with
    | nil => rfl
    | cons c t =>
      have hne : c ≠ '.' := (isDivider_spec (ht c rfl)).2.2.1
      simp [fraction, hne]
  | [a] =>
    by_cases ha : a = '.'
    · subst ha
      cases t with
      | nil => rfl
      | cons c t => simp [fraction, isDigit_of_isDivider (ht c rfl)]
    · simp [fraction, ha]
  | a :: b :: x =>
    by_cases ha : a = '.'
    · subst ha
      have hrun := takeWhile_append_setsApart ht (fun _ => isNumberPart_of_isDivider) (b :: x)
      rw [List.cons_append] at hrun
      simp only [List.cons_append, fraction, hrun]
    · simp [fraction, ha]

theorem sign_append (x : List Char) : sign (x ++ t) = sign x := by
  cases x with
  | nil =>
    cases t with
    | nil => rfl
    | cons c t =>
      obtain ⟨-, -, -, hplus, hminus, -⟩ := isDivider_spec (ht c rfl)
      simp [sign, hplus, hminus]
  | cons a x =>
    unfold sign
    split <;> simp_all

theorem exponent_append (x : List Char) : exponent (x ++ t) = exponent x := by
  cases x with
  | nil =>
    cases t with
    | nil => rfl
    | cons c t =>
      have hpart := isPart_of_isDivider (ht c rfl)
      have hne : ∀ d, Word.isPart d = true → c ≠ d := by
        rintro d hd rfl
        rw [hpart] at hd
        simp at hd
      simp [exponent, hne 'e' rfl, hne 'E' rfl]
  | cons a x =>
    simp only [List.cons_append, exponent]
    split
    · rw [sign_append ht, List.drop_append_of_le_length (isPrefix_sign x).length_le,
        takeWhile_append_setsApart ht (fun _ => isDigit_of_isDivider)]
    · rfl

/-- The decimal number at the front. -/
def decimal (s : List Char) : List Char :=
  let whole := s.takeWhile isNumberPart
  let part := fraction (s.drop whole.length)
  whole ++ part ++ exponent ((s.drop whole.length).drop part.length)

theorem decimal_append (x : List Char) : decimal (x ++ t) = decimal x := by
  have hwhole := takeWhile_append_setsApart ht (fun _ => isNumberPart_of_isDivider) x
  simp only [decimal, hwhole]
  rw [List.drop_append_of_le_length (List.takeWhile_prefix _).length_le, fraction_append ht,
    List.drop_append_of_le_length (isPrefix_fraction _).length_le, exponent_append ht]

end Append

/-- Whether a text starts like a hexadecimal number. -/
def isHexStart : List Char → Bool
  | '0' :: c :: _ => c = 'x' || c = 'X'
  | _ => false

theorem number_eq_decimal {s : List Char} (h : isHexStart s = false) :
    number s = (decimal s, .number) := by
  unfold number
  split
  · simp [isHexStart] at h
  · simp [isHexStart] at h
  · rfl

theorem exists_of_isHexStart {s : List Char} (h : isHexStart s = true) :
    ∃ c rest, s = '0' :: c :: rest ∧
      ∀ t, number ('0' :: c :: t) = ('0' :: c :: t.takeWhile isHexPart, .hexNumber) := by
  unfold isHexStart at h
  split at h
  · rename_i c rest
    simp only [Bool.or_eq_true, decide_eq_true_eq] at h
    rcases h with rfl | rfl
    · exact ⟨'x', rest, rfl, fun _ => rfl⟩
    · exact ⟨'X', rest, rfl, fun _ => rfl⟩
  · simp at h

theorem isHexStart_append {t : List Char} (ht : SetsApart t) (x : List Char) :
    isHexStart (x ++ t) = isHexStart x := by
  match x with
  | [] =>
    cases t with
    | nil => rfl
    | cons c t =>
      have hne : c ≠ '0' := by
        rintro rfl
        exact absurd (isPart_of_isDivider (ht '0' rfl)) (by decide)
      simp [isHexStart, hne]
  | [a] =>
    cases t with
    | nil => rfl
    | cons c t =>
      have hne : ∀ d, Word.isPart d = true → c ≠ d := by
        rintro d hd rfl
        rw [isPart_of_isDivider (ht c rfl)] at hd
        simp at hd
      by_cases ha : a = '0'
      · subst ha
        simp [isHexStart, hne 'x' rfl, hne 'X' rfl]
      · simp [isHexStart, ha]
  | a :: b :: x =>
    by_cases ha : a = '0'
    · subst ha
      rfl
    · simp [isHexStart, ha]

/-- To a number a divider behind it is like the end of the text. -/
theorem number_append {t : List Char} (ht : SetsApart t) (x : List Char) :
    number (x ++ t) = number x := by
  cases hx : isHexStart x with
  | true =>
    obtain ⟨c, rest, rfl, hnumber⟩ := exists_of_isHexStart hx
    simp only [List.cons_append, hnumber,
      takeWhile_append_setsApart ht (fun _ => isHexPart_of_isDivider)]
  | false =>
    rw [number_eq_decimal hx, number_eq_decimal ((isHexStart_append ht x).trans hx),
      decimal_append ht]

/-! ## Numbers alone -/

theorem sign_cases (s : List Char) : sign s = ['+'] ∨ sign s = ['-'] ∨ sign s = [] := by
  unfold sign
  split
  · exact .inl rfl
  · exact .inr (.inl rfl)
  · exact .inr (.inr rfl)

/-- A sign is read again, since no digit is one. -/
theorem sign_sign (s : List Char) {digits : List Char} (hdigits : digits.all Text.isDigit = true) :
    sign (sign s ++ digits) = sign s := by
  rcases sign_cases s with h | h | h
  · rw [h]
    rfl
  · rw [h]
    rfl
  · rw [h, List.nil_append]
    cases digits with
    | nil => rfl
    | cons d digits =>
      rw [List.all_cons, Bool.and_eq_true] at hdigits
      have hplus : d ≠ '+' := by
        rintro rfl
        exact absurd hdigits.1 (by decide)
      have hminus : d ≠ '-' := by
        rintro rfl
        exact absurd hdigits.1 (by decide)
      simp [sign, hplus, hminus]

theorem exponent_exponent (s : List Char) : exponent (exponent s) = exponent s := by
  cases s with
  | nil => rfl
  | cons e rest =>
    by_cases he : (decide (e = 'e') || decide (e = 'E')) = true
    · have hexp : exponent (e :: rest)
          = e :: (sign rest ++ (rest.drop (sign rest).length).takeWhile Text.isDigit) := by
        rw [exponent, if_pos he]
        rfl
      have hdigits : ((rest.drop (sign rest).length).takeWhile Text.isDigit).all Text.isDigit = true :=
        List.all_takeWhile
      rw [hexp]
      generalize (rest.drop (sign rest).length).takeWhile Text.isDigit = digits at hdigits
      have htake : digits.takeWhile Text.isDigit = digits := by
        have hrun : IsRun Text.isDigit digits [] := ⟨hdigits, by simp⟩
        have htake := hrun.takeWhile_eq
        rwa [List.append_nil] at htake
      rw [exponent, if_pos he, sign_sign rest hdigits, List.drop_left, htake]
      rfl
    · rw [exponent, if_neg he]
      rfl

theorem head_exponent (s : List Char) : ∀ c ∈ (exponent s).head?, c = 'e' ∨ c = 'E' := by
  unfold exponent
  split
  · split
    · rename_i he
      simpa using he
    · simp
  · simp

theorem isNumberPart_of_isDigit {c : Char} (hc : c.toNat < 128) (h : Text.isDigit c = true) :
    isNumberPart c = true := by
  have hall : ∀ n < 128, Text.isDigit (Char.ofNat n) = true → isNumberPart (Char.ofNat n) = true := by
    decide
  exact of_ascii (P := fun c => Text.isDigit c = true → isNumberPart c = true) hall hc h

theorem fraction_cases (s : List Char) : fraction s = [] ∨
    ∃ d rest, s = '.' :: d :: rest ∧ Text.isDigit d = true ∧
      fraction s = '.' :: (d :: rest).takeWhile isNumberPart := by
  unfold fraction
  split
  · split
    · exact .inr ⟨_, _, rfl, ‹_›, rfl⟩
    · exact .inl rfl
  · exact .inl rfl

/-- A fraction is read again before an exponent: the digit behind its point is one that a
number can hold. -/
theorem fraction_fraction {s u : List Char} (hs : ∀ c ∈ s, c.toNat < 128)
    (hu : ∀ c ∈ u.head?, c = 'e' ∨ c = 'E') : fraction (fraction s ++ u) = fraction s := by
  have hstop : ∀ c ∈ u.head?, isNumberPart c = false := by
    intro c hc
    rcases hu c hc with rfl | rfl <;> decide
  rcases fraction_cases s with h | ⟨d, rest, rfl, hd, h⟩
  · rw [h, List.nil_append]
    cases u with
    | nil => rfl
    | cons c u =>
      have hne : c ≠ '.' := by
        rintro rfl
        exact absurd (hu '.' rfl) (by decide)
      simp [fraction, hne]
  · have hpart := isNumberPart_of_isDigit (hs d (by simp)) hd
    rw [List.takeWhile_cons_of_pos hpart] at h
    have htake : (d :: rest.takeWhile isNumberPart ++ u).takeWhile isNumberPart
        = d :: rest.takeWhile isNumberPart := by
      refine Cursor.takeWhile_append_stop ?_ hstop
      rw [List.all_cons, hpart, List.all_takeWhile, Bool.and_self]
    rw [h, List.cons_append, List.cons_append, fraction, if_pos hd, ← List.cons_append, htake]

theorem head_fraction (s : List Char) : ∀ c ∈ (fraction s).head?, c = '.' := by
  rcases fraction_cases s with h | ⟨d, rest, -, -, h⟩ <;> simp [h]

theorem decimal_eq {whole rest : List Char} (h : IsRun isNumberPart whole rest) :
    decimal (whole ++ rest)
      = whole ++ (fraction rest ++ exponent (rest.drop (fraction rest).length)) := by
  simp only [decimal, h.takeWhile_eq, List.drop_left, List.append_assoc]

theorem decimal_decimal {s : List Char} (hs : ∀ c ∈ s, c.toNat < 128) :
    decimal (decimal s) = decimal s := by
  obtain ⟨rest, hrest⟩ : ∃ t, t = s.dropWhile isNumberPart := ⟨_, rfl⟩
  have hsplit : s.takeWhile isNumberPart ++ rest = s := by
    rw [hrest, List.takeWhile_append_dropWhile]
  have hascii : ∀ c ∈ rest, c.toNat < 128 := by
    intro c hc
    refine hs c ?_
    rw [← hsplit]
    exact List.mem_append_right _ hc
  have hrun : IsRun isNumberPart (s.takeWhile isNumberPart) rest := hrest ▸ .of_takeWhile _ s
  have hdecimal := decimal_eq hrun
  rw [hsplit] at hdecimal
  generalize hexpo : exponent (rest.drop (fraction rest).length) = expo at hdecimal
  have hhead : ∀ c ∈ expo.head?, c = 'e' ∨ c = 'E' := hexpo ▸ head_exponent _
  have hstop : IsRun isNumberPart (s.takeWhile isNumberPart) (fraction rest ++ expo) := by
    refine ⟨hrun.1, ?_⟩
    intro c hc
    rw [List.head?_append] at hc
    cases hf : (fraction rest).head? with
    | some d =>
      rw [hf] at hc
      obtain rfl : d = c := by simpa using hc
      rw [head_fraction rest d hf]
      decide
    | none =>
      rw [hf] at hc
      rcases hhead c hc with rfl | rfl <;> decide
  rw [hdecimal, decimal_eq hstop, fraction_fraction hascii hhead, List.drop_left, ← hexpo,
    exponent_exponent]

/-- A number in ASCII is read again if what stands behind it is taken away. -/
theorem number_alone {w after : List Char} {k : Kind} (hs : ∀ c ∈ w ++ after, c.toNat < 128)
    (h : number (w ++ after) = (w, k)) : number w = (w, k) := by
  cases hx : isHexStart (w ++ after) with
  | true =>
    obtain ⟨c, rest, hrest, hnumber⟩ := exists_of_isHexStart hx
    rw [hrest, hnumber] at h
    obtain ⟨rfl, rfl⟩ := Prod.mk.inj h
    rw [hnumber]
    have hrun : IsRun isHexPart (rest.takeWhile isHexPart) [] :=
      ⟨(IsRun.of_takeWhile isHexPart rest).1, by simp⟩
    have htake := hrun.takeWhile_eq
    rw [List.append_nil] at htake
    rw [htake]
  | false =>
    rw [number_eq_decimal hx] at h
    obtain ⟨hw, rfl⟩ := Prod.mk.inj h
    have hx' : isHexStart w = false := by
      unfold isHexStart at hx ⊢
      split
      · simpa using hx
      · rfl
    rw [number_eq_decimal hx']
    have hagain := decimal_decimal hs
    rw [hw] at hagain
    rw [hagain]

end Lexeme

/-! ## More text behind a piece -/

open Lexeme

/-- Whether the end of a text cuts off what its front starts: a comment without its end, a
string literal without its closing quote, or a pragma without its semicolon. -/
inductive IsCut : List Char → Prop
  | lineComment {rest : List Char} (h : '\n' ∉ rest) : IsCut ('/' :: '/' :: rest)
  | blockComment {rest : List Char} (h : ¬ ['*', '/'] <:+: rest) : IsCut ('/' :: '*' :: rest)
  | string {quote : Char} {rest : List Char} (hq : IsQuote quote)
      (h : ∀ body after, rest = body ++ quote :: after → isQuotable quote body = false) :
      IsCut (quote :: rest)
  | pragma {rest : List Char} (hrun : IsRun Word.isPart "pragma".toList rest) (h : ';' ∉ rest) :
      IsCut ("pragma".toList ++ rest)

namespace IsPragmaText

variable {b₁ name b₂ value after : List Char}

theorem append (h : IsPragmaText b₁ name b₂ value after) (hne : after ≠ []) (t : List Char) :
    IsPragmaText b₁ name b₂ value (after ++ t) where
  blanks := by simpa using h.blanks.append_of_ne_nil (by simp [hne]) t
  name_run := by simpa using h.name_run.append_of_ne_nil (by simp [hne]) t
  blanks' := by simpa using h.blanks'.append_of_ne_nil (by simp [hne]) t
  value_run := h.value_run.append_of_ne_nil hne t

/-- Without a semicolon behind it, a pragma holds none. -/
theorem not_mem (h : IsPragmaText b₁ name b₂ value []) :
    ';' ∉ b₁ ++ (name ++ (b₂ ++ (value ++ []))) := by
  have hout : ∀ {test : Char → Bool} {w : List Char}, w.all test = true → test ';' = false → ';' ∉ w := by
    intro test w hw htest hmem
    rw [List.all_eq_true.mp hw _ hmem] at htest
    simp at htest
  simp only [List.append_nil, List.mem_append, not_or]
  exact ⟨hout h.blanks.1 (by decide), hout h.name_run.1 rfl,
    hout h.blanks'.1 (by decide), hout h.value_run.1 (by decide)⟩

end IsPragmaText

theorem IsComment.append {w after : List Char} (h : IsComment w after) (hcut : ¬ IsCut (w ++ after))
    (t : List Char) : IsComment w (after ++ t) := by
  cases h with
  | @line body after hrun =>
    have hne : after ≠ [] := by
      rintro rfl
      rw [List.append_nil] at hcut
      refine hcut (.lineComment ?_)
      intro hmem
      simpa using List.all_eq_true.mp hrun.1 _ hmem
    exact .line (hrun.append_of_ne_nil hne t)
  | block hbody => exact .block hbody
  | unclosed hbody =>
    rw [List.append_nil] at hcut
    exact absurd (.blockComment hbody) hcut

/-- A text between quotes ends at the first quote that is not escaped. -/
theorem isQuotable_append_quote {quote : Char} (hq : IsQuote quote) {body : List Char}
    (h : isQuotable quote body = true) (after : List Char) :
    isQuotable quote (body ++ quote :: after) = false := by
  induction body using isQuotable.induct with
  | case1 =>
    rw [List.nil_append, isQuotable]
    · simp
    · intro _ _ hquote _
      exact hq.ne_backslash hquote
  | case2 d rest ih => exact ih h
  | case3 c rest hne ih =>
    rw [isQuotable.eq_3 _ _ _ hne] at h
    simp only [Bool.and_eq_true, decide_eq_true_eq] at h
    obtain ⟨⟨hquote, hslash⟩, hrest⟩ := h
    rw [List.cons_append, isQuotable]
    · rw [ih hrest, Bool.and_false]
    · intro _ _ hc _
      exact hslash hc

/-- A string literal is cut off behind an unpaired backslash. -/
theorem IsCut.escaping {quote : Char} {body : List Char} (hq : IsQuote quote)
    (hbody : isQuotable quote body = true) : IsCut (quote :: (body ++ ['\\'])) := by
  refine .string hq ?_
  intro body' after hsplit
  rw [← Bool.not_eq_true]
  intro hbody'
  -- A backslash that cuts the literal off would not show behind a closing quote.
  have hcutoff := congrArg Prod.snd (stringTail_quotable hq.ne_backslash hbody ['\\'])
  rw [hsplit, Spells.stringTail_of_isQuotable hq.ne_backslash hbody', stringTail.eq_def] at hcutoff
  simp [Ne.symm hq.ne_backslash] at hcutoff

/-- A pragma that is not cut off ends before a semicolon. -/
theorem IsPragmaText.ne_nil {w b₁ name b₂ value after : List Char}
    (htext : IsPragmaText b₁ name b₂ value after) (hkind : Word.kind (String.ofList w) = .kwPragma)
    (hrun : IsRun Word.isPart w (b₁ ++ (name ++ (b₂ ++ (value ++ after)))))
    (hcut : ¬ IsCut (w ++ (b₁ ++ (name ++ (b₂ ++ (value ++ after)))))) : after ≠ [] := by
  rintro rfl
  have hword : w = "pragma".toList := by
    rw [← Word.eq_of_kind_eq_kwPragma hkind, String.toList_ofList]
  subst hword
  exact hcut (.pragma hrun htext.not_mem)

/-- A run of operators stays the same before a divider that is no operator, and before
anything if the run has ended. -/
theorem Reading.operator_append {p : Place} {ch : Char} {w after t : List Char}
    (hch : isOperator ch = true ∨ ch = '=' ∧ (w ++ after).head? = some '=')
    (hrun : IsRun isOperatorPart w after)
    (hslash : ch = '/' → (w ++ after).head? ≠ some '/' ∧ (w ++ after).head? ≠ some '*')
    (ht : SetsApart t) (hstop : after = [] → ∀ c ∈ t.head?, isOperatorPart c = false) :
    Reading p (ch :: (w ++ (after ++ t))) [⟨.operator, String.ofList (ch :: w), p⟩] (after ++ t)
      (p.after (ch :: w)) := by
  by_cases hnil : w ++ after = []
  · obtain ⟨rfl, rfl⟩ := List.append_eq_nil_iff.mp hnil
    refine .operator ?_ ⟨rfl, hstop rfl⟩ ?_
    · exact hch.imp_right fun h => absurd h.2 (by simp)
    · intro _
      refine ⟨fun hhead => ?_, fun hhead => ?_⟩
      · exact absurd (hstop rfl '/' hhead) (by decide)
      · exact absurd (ht '*' hhead) (by decide)
  · have hhead : (w ++ (after ++ t)).head? = (w ++ after).head? := by
      rw [← List.append_assoc, List.head?_append_of_ne_nil _ hnil]
    refine .operator (by rw [hhead]; exact hch) ?_ (by rw [hhead]; exact hslash)
    by_cases hafter : after = []
    · exact hrun.append (hstop hafter)
    · exact hrun.append_of_ne_nil hafter t

/-- A piece that is not cut off stays the same before a divider, unless it is a run of
operators that the divider goes on. -/
theorem Reading.append {p q : Place} {s after t : List Char} {ts : List Token}
    (h : Reading p s ts after q) (hcut : ¬ IsCut s) (ht : SetsApart t)
    (hop : after = [] → (∃ c ∈ t.head?, isOperatorPart c = true) → ∀ u ∈ ts, u.kind ≠ .operator) :
    Reading p (s ++ t) ts (after ++ t) q := by
  cases h with
  | @comment w after hw =>
    rw [List.append_assoc]
    exact .comment (hw.append hcut t)
  | @string quote body after hq hbody =>
    have hread : Reading p _ _ (after ++ t) _ := .string hq hbody
    simpa using hread
  | @openString quote body hq hbody =>
    refine absurd (.string hq ?_) hcut
    rintro body' after rfl
    rw [← Bool.not_eq_true]
    intro hbody'
    rw [isQuotable_append_quote hq hbody'] at hbody
    simp at hbody
  | @escapingString quote body hq hbody =>
    exact absurd (.escaping hq hbody) hcut
  | @number ch k w after hch hdigit hw =>
    have hne : w ++ after ≠ [] := by
      intro hnil
      rw [hnil] at hch
      simp at hch
    rw [List.append_assoc]
    refine .number ?_ hdigit ?_
    · rw [← List.append_assoc, List.head?_append_of_ne_nil _ hne]
      exact hch
    · rw [← List.append_assoc, number_append ht, hw]
  | @word w after hw hkind hrun =>
    rw [List.append_assoc]
    exact .word hw hkind (hrun.append (ht.stops fun _ => isPart_of_isDivider))
  | @pragma w b₁ name b₂ value after hw hkind hrun htext =>
    have hne := htext.ne_nil hkind hrun hcut
    have hread := Reading.pragma (p := p) hw hkind
      (by simpa using hrun.append_of_ne_nil (by simp [hne]) t) (htext.append hne t)
    simpa using hread
  | arrow => exact .arrow
  | @operator ch w after hch hrun hslash =>
    have hstop : after = [] → ∀ c ∈ t.head?, isOperatorPart c = false := by
      intro hafter c hc
      rw [← Bool.not_eq_true]
      intro hpart
      exact hop hafter ⟨c, hc, hpart⟩ _ List.mem_cons_self rfl
    rw [List.cons_append, List.append_assoc]
    exact operator_append hch hrun hslash ht hstop
  | @punctuation ch k after hk heq =>
    refine .punctuation hk ?_
    intro hch
    cases after with
    | nil =>
      refine ⟨fun hhead => ?_, fun hhead => ?_⟩
      · exact absurd (ht '=' hhead) (by decide)
      · exact absurd (ht '>' hhead) (by decide)
    | cons c after => exact heq hch
  | other hch => exact .other hch

end SolidityInterface
