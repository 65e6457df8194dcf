import SolidityInterface.Proofs.Declaration.Locality
import SolidityInterface.Proofs.Token.Halting

/-
  Reformatting a source: its tokens, written with single spaces between them.

  1. A source in ASCII has tokens, since no digit there is foreign (`Reading.length_lt`).
  2. A piece that is one token is read again from its text, before a space or the end
     (`Reading.respell`). A literal that the source ends in stays the last one.
  3. The three tokens of a pragma are read again too, with the space before the semicolon
     cut off its value (`Spells.pragma`). This needs a source in which the characters that
     are cut off there are those that the scanner skips as blanks (`isPlain`).

  So the symbols stay the same, and with them the declarations
  (`TokenStream.joined_has_the_same_symbols`).
-/

namespace SolidityInterface

open Token (Kind)
open Lexeme

/-! ## Texts with spaces -/

/-- Whether a character is in ASCII and no vertical tab, form feed or information separator. -/
def isPlain (c : Char) : Bool :=
  c.toNat < 128 && c ≠ '\x0b' && c ≠ '\x0c' && !(0x1c ≤ c.toNat && c.toNat ≤ 0x1f)

theorem toNat_lt_of_isPlain {c : Char} (h : isPlain c = true) : c.toNat < 128 := by
  simp only [isPlain, Bool.and_eq_true, decide_eq_true_eq] at h
  exact h.1.1.1

/-- Plain characters that are cut off a pragma are skipped as blanks. -/
theorem isWhitespace_of_isPlain {c : Char} (h : isPlain c = true) (hblank : Text.isBlank c = true) :
    c.isWhitespace = true := by
  have hall : ∀ n < 128, isPlain (Char.ofNat n) = true → Text.isBlank (Char.ofNat n) = true →
      (Char.ofNat n).isWhitespace = true := by
    decide
  exact of_ascii (P := fun c => isPlain c = true → Text.isBlank c = true → c.isWhitespace = true) hall
    (toNat_lt_of_isPlain h) h hblank

/-- The texts of some symbols with single spaces between them. -/
def withSpaces (ss : List Symbol) : List Char := [' '].intercalate (ss.map (·.2.toList))

/-- A space and some symbols, or nothing if there are none. -/
def gap : List Symbol → List Char
  | [] => []
  | s :: ss => ' ' :: withSpaces (s :: ss)

theorem withSpaces_cons (s : Symbol) (ss : List Symbol) : withSpaces (s :: ss) = s.2.toList ++ gap ss := by
  cases ss with
  | nil => simp [withSpaces, gap, List.intercalate]
  | cons t ss => simp [withSpaces, gap, List.intercalate]

theorem gap_cons (s : Symbol) (ss : List Symbol) : gap (s :: ss) = ' ' :: (s.2.toList ++ gap ss) := by
  rw [gap, withSpaces_cons]

theorem setsApart_gap (ss : List Symbol) : SetsApart (gap ss) := by
  cases ss with
  | nil => exact setsApart_nil
  | cons s ss => exact setsApart_cons rfl _

theorem head?_gap (ss : List Symbol) : ∀ c ∈ (gap ss).head?, c = ' ' := by
  cases ss with
  | nil => simp [gap]
  | cons s ss => simp [gap]

theorem symbols?_gap (ss : List Symbol) : symbols? (gap ss) = symbols? (withSpaces ss) := by
  cases ss with
  | nil => rfl
  | cons s ss => exact symbols?_blank (by decide) _

/-! ## One token -/

theorem not_isForeignDigit_of_ascii {c : Char} (hc : c.toNat < 128) : ¬ Text.IsForeignDigit c := by
  have hall : ∀ n < 128, ¬ Text.IsForeignDigit (Char.ofNat n) := by decide
  exact of_ascii (P := fun c => ¬ Text.IsForeignDigit c) hall hc

/-- A number in ASCII starts with its digit. -/
theorem head?_of_number {ch : Char} {k : Kind} {w after : List Char}
    (hs : ∀ c ∈ w ++ after, c.toNat < 128) (hch : (w ++ after).head? = some ch)
    (hdigit : Text.isDigit ch = true) (hw : number (w ++ after) = (w, k)) : w.head? = some ch := by
  obtain ⟨rest, hrest⟩ := List.head?_eq_some_iff.mp hch
  have hascii := hs ch (by rw [hrest]; exact List.mem_cons_self)
  have hhead := head?_number rest (isNumberPart_of_isDigit hascii hdigit)
  rwa [← hrest, hw] at hhead

namespace Reading

variable {p q : Place} {s after : List Char} {ts : List Token}

/-- A piece that is one token is read again from its text, before a space or the end. -/
theorem respell {t : Token} (h : Reading p s [t] after q) (hs : ∀ c ∈ s, c.toNat < 128)
    {us : List Symbol} (hend : after = [] → us = []) :
    t.text.toList.head? = s.head? ∧ ∃ q', Reading p (t.text.toList ++ gap us) [t] (gap us) q' := by
  have hgap := head?_gap us
  -- No test that a space fails goes on behind the token.
  have hrun : ∀ {test : Char → Bool} {w after : List Char}, IsRun test w after → test ' ' = false →
      IsRun test w (gap us) := by
    intro test w after h htest
    refine ⟨h.1, ?_⟩
    intro c hc
    rw [hgap c hc, htest]
  cases h with
  | @string quote body after hq hbody =>
    rw [String.toList_ofList]
    refine ⟨rfl, p.after (quote :: (body ++ [quote])), ?_⟩
    have hread : Reading p _ _ (gap us) _ := .string hq hbody
    simpa using hread
  | @openString quote body hq hbody =>
    rw [String.toList_ofList, hend rfl]
    exact ⟨rfl, _, by simpa [gap] using Reading.openString (p := p) hq hbody⟩
  | @escapingString quote body hq hbody =>
    rw [String.toList_ofList, hend rfl]
    exact ⟨rfl, _, by simpa [gap] using Reading.escapingString (p := p) hq hbody⟩
  | @number ch k w after hch hdigit hw =>
    rw [String.toList_ofList]
    have hhead := head?_of_number hs hch hdigit hw
    refine ⟨hhead.trans hch.symm, _, .number ?_ hdigit ?_⟩
    · rw [List.head?_append, hhead]
      rfl
    · rw [number_append (setsApart_gap us), number_alone hs hw]
  | @word w after hw hkind hrun' =>
    rw [String.toList_ofList]
    refine ⟨?_, _, .word hw hkind (hrun hrun' rfl)⟩
    obtain ⟨c, rest, rfl, -⟩ := hw
    rfl
  | arrow =>
    rw [String.toList_ofList]
    exact ⟨rfl, _, .arrow⟩
  | @operator ch w after hch hrun' hslash =>
    rw [String.toList_ofList]
    refine ⟨rfl, _, .operator ?_ (hrun hrun' (by decide)) ?_⟩
    · refine hch.imp_right ?_
      intro ⟨heq, hhead⟩
      cases w with
      | nil => exact absurd (hrun'.2 '=' hhead) (by decide)
      | cons d w => exact ⟨heq, hhead⟩
    · intro hc
      cases w with
      | nil => exact ⟨fun hd => absurd (hgap _ hd) (by decide), fun hd => absurd (hgap _ hd) (by decide)⟩
      | cons d w => exact hslash hc
  | @punctuation ch k after hk heq =>
    rw [String.toList_ofList]
    refine ⟨rfl, _, .punctuation hk ?_⟩
    intro _
    exact ⟨fun hc => absurd (hgap _ hc) (by decide), fun hc => absurd (hgap _ hc) (by decide)⟩

/-- What one piece gives: nothing, one token, or those of a pragma. -/
theorem tokens_cases (h : Reading p s ts after q) : ts = [] ∨ (∃ t, ts = [t]) ∨
    ∃ b₁ name b₂ value, s = "pragma".toList ++ (b₁ ++ (name ++ (b₂ ++ (value ++ after)))) ∧
      IsPragmaText b₁ name b₂ value after ∧
      ts.map Token.symbol = [(.kwPragma, "pragma"), (.identifier, String.ofList name),
        (.pragmaValue, String.ofList (Text.trim value))] := by
  cases h with
  | @pragma w b₁ name b₂ value after hw hkind hrun htext =>
    have hword := Word.eq_of_kind_eq_kwPragma hkind
    have hw' : w = "pragma".toList := by rw [← hword, String.toList_ofList]
    exact .inr (.inr ⟨b₁, name, b₂, value, by rw [hw'], htext, by simp [Token.symbol, hword]⟩)
  | comment | other => exact .inl rfl
  | _ => exact .inr (.inl ⟨_, rfl⟩)

end Reading

/-! ## Pragmas -/

namespace IsPragmaText

variable {b₁ name b₂ value after : List Char}

theorem isPragma (h : IsPragmaText b₁ name b₂ value after) :
    Spells.IsPragma name (Text.trim value) where
  name_parts := h.name_run.1
  value_open := by
    intro hmem
    simpa using List.all_eq_true.mp h.value_run.1 _ (mem_of_mem_trim hmem)
  value_trimmed := Text.trim_trim value

/-- A pragma without a name has a value that starts with no word. -/
theorem splitsPragma (h : IsPragmaText b₁ name b₂ value after)
    (hvalue : ∀ c ∈ value, isPlain c = true) : Spells.SplitsPragma name (Text.trim value) := by
  intro hname c hc
  subst hname
  cases value with
  | nil => simp [Text.trim] at hc
  | cons d value =>
    -- The blanks before the name are all there are, so the value starts behind them.
    have hnil : b₂ = [] := by
      cases b₂ with
      | nil => rfl
      | cons e b₂ =>
        have hspace := List.all_eq_true.mp h.blanks'.1 e List.mem_cons_self
        rw [h.blanks.2 e rfl] at hspace
        cases hspace
    subst hnil
    have hspace : d.isWhitespace = false := h.blanks.2 d rfl
    have hblank : Text.isBlank d = false := by
      rw [← Bool.not_eq_true]
      intro hblank
      rw [isWhitespace_of_isPlain (hvalue d List.mem_cons_self) hblank] at hspace
      cases hspace
    have hprefix := Text.trim_prefix (d :: value)
    rw [List.dropWhile_cons, hblank] at hprefix
    obtain ⟨t, ht⟩ := List.head?_eq_some_iff.mp hc
    rw [ht] at hprefix
    rw [(List.cons_prefix_cons.mp hprefix).1]
    exact h.name_run.2 d rfl

/-- What is left behind a pragma is nothing, or starts with a semicolon. -/
theorem head?_after (h : IsPragmaText b₁ name b₂ value after) : ∀ c ∈ after.head?, c = ';' := by
  intro c hc
  simpa using h.value_run.2 c hc

end IsPragmaText

/-- Behind a pragma a space and the symbols left are blanks, and a text with these symbols
that is empty or starts with a semicolon. -/
theorem exists_gap_eq {after : List Char} {us : List Symbol} (hafter : ∀ c ∈ after.head?, c = ';')
    (hus : symbols? after = some us) (hagain : symbols? (withSpaces us) = some us) :
    ∃ b cs, gap us = b ++ cs ∧ b.all Char.isWhitespace = true ∧ (∀ c ∈ cs.head?, c = ';') ∧
      symbols? cs = some us := by
  cases after with
  | nil =>
    obtain rfl : [] = us := Option.some.inj hus
    exact ⟨[], [], rfl, rfl, by simp, hus⟩
  | cons c after =>
    obtain rfl : c = ';' := hafter c rfl
    have hread : Reading {} (';' :: after) [⟨.semicolon, ";", {}⟩] after _ :=
      .punctuation rfl fun hc => absurd hc (by decide)
    rw [symbols?_of_reading (by decide) hread] at hus
    obtain ⟨vs, -, rfl⟩ := Option.map_eq_some_iff.mp hus
    refine ⟨[' '], withSpaces ((.semicolon, ";") :: vs), rfl, rfl, ?_, hagain⟩
    rw [withSpaces_cons]
    simp

/-! ## All tokens -/

/-- The text of one token, and the spaced texts of those behind it, are read as these tokens. -/
theorem symbols?_withSpaces_token {p q : Place} {c : Char} {s after : List Char} {t : Token}
    {us : List Symbol} (hc : c.isWhitespace = false) (hread : Reading p (c :: s) [t] after q)
    (hascii : ∀ d ∈ c :: s, d.toNat < 128) (hus : symbols? after = some us)
    (hagain : symbols? (withSpaces us) = some us) :
    symbols? (withSpaces (t.symbol :: us)) = some (t.symbol :: us) := by
  have hend : after = [] → us = [] := by
    intro hnil
    rw [hnil] at hus
    exact (Option.some.inj hus).symm
  obtain ⟨hhead, q', hagain'⟩ := hread.respell hascii hend
  obtain ⟨w, hw⟩ := List.head?_eq_some_iff.mp hhead
  rw [withSpaces_cons]
  change symbols? (t.text.toList ++ gap us) = _
  rw [hw, List.cons_append] at hagain' ⊢
  rw [symbols?_of_reading hc hagain', symbols?_gap, hagain]
  rfl

theorem symbols?_withSpaces_pragma {b₁ name b₂ value after : List Char} {us : List Symbol}
    (hpragma : IsPragmaText b₁ name b₂ value after) (hvalue : ∀ d ∈ value, isPlain d = true)
    (hus : symbols? after = some us) (hagain : symbols? (withSpaces us) = some us) :
    symbols? (withSpaces ((.kwPragma, "pragma") :: (.identifier, String.ofList name) ::
        (.pragmaValue, String.ofList (Text.trim value)) :: us))
      = some ((.kwPragma, "pragma") :: (.identifier, String.ofList name) ::
        (.pragmaValue, String.ofList (Text.trim value)) :: us) := by
  obtain ⟨b, cs, hgap, hb, hcs, hspells⟩ := exists_gap_eq hpragma.head?_after hus hagain
  rw [← spells_iff]
  have hagain' := Spells.pragma hpragma.isPragma (hpragma.splitsPragma hvalue) hb hcs
    (spells_iff.mpr hspells)
  rw [← hgap] at hagain'
  simp only [withSpaces_cons, gap_cons, String.toList_ofList]
  exact hagain'

/-- The symbols of a plain text are those of their texts with single spaces. -/
theorem symbols?_withSpaces (s : List Char) (hs : ∀ c ∈ s, isPlain c = true) :
    ∃ ss, symbols? s = some ss ∧ symbols? (withSpaces ss) = some ss := by
  induction hn : s.length using Nat.strong_induction_on generalizing s with
  | _ n ih =>
    cases s with
    | nil => exact ⟨[], rfl, rfl⟩
    | cons c s =>
      subst hn
      have hascii : ∀ d ∈ c :: s, d.toNat < 128 := fun d hd => toNat_lt_of_isPlain (hs d hd)
      cases hc : c.isWhitespace with
      | true =>
        rw [symbols?_blank hc]
        exact ih s.length (Nat.lt_succ_self _) s (fun d hd => hs d (List.mem_cons_of_mem _ hd)) rfl
      | false =>
        obtain ⟨ts, after, q, hread⟩ := Cursor.exists_reading {} c s
        have hrest : ∀ d ∈ after, isPlain d = true := fun d hd => hs d (hread.suffix.subset hd)
        have hshorter := hread.length_lt fun d hd =>
          not_isForeignDigit_of_ascii (hascii d (List.mem_of_mem_head? hd))
        obtain ⟨us, hus, hagain⟩ := ih after.length hshorter after hrest rfl
        refine ⟨ts.map Token.symbol ++ us, ?_, ?_⟩
        · rw [symbols?_of_reading hc hread, hus]
          rfl
        rcases hread.tokens_cases with rfl | ⟨t, rfl⟩ | ⟨b₁, name, b₂, value, htext, hpragma, hts⟩
        · exact hagain
        · exact symbols?_withSpaces_token hc hread hascii hus hagain
        · have hvalue : ∀ d ∈ value, isPlain d = true := by
            intro d hd
            refine hs d ?_
            rw [htext]
            simp [hd]
          rw [hts]
          exact symbols?_withSpaces_pragma hpragma hvalue hus hagain

/-! ## Sources -/

/-- What a source declares depends on its symbols alone. -/
theorem SourceUnit.toOption_ofSource_of_symbols {source source' : String} {s s' : TokenStream}
    (hs : TokenStream.ofSource? source = some s) (hs' : TokenStream.ofSource? source' = some s')
    (h : s.symbols = s'.symbols) : (ofSource source).toOption = (ofSource source').toOption := by
  simp only [ofSource, hs, hs']
  cases hu : ofTokens s with
  | ok u => rw [ofTokens_of_symbols h hu]
  | error e =>
    cases hu' : ofTokens s' with
    | ok u =>
      rw [ofTokens_of_symbols h.symm hu'] at hu
      cases hu
    | error e' => rfl

namespace TokenStream

/-- The texts of the tokens with single spaces between them. -/
def joined (s : TokenStream) : String := " ".intercalate (s.tokens.map (·.text))

theorem toList_joined (s : TokenStream) : s.joined.toList = withSpaces s.symbols := by
  simp [joined, withSpaces, symbols, Token.symbol, String.toList_intercalate, Function.comp_def]

/-- Reformatting a source keeps its symbols, and what they declare if they declare anything. -/
theorem joined_has_the_same_symbols {source : String}
    (hplain : ∀ c ∈ source.toList, isPlain c = true) :
    ∃ s s', ofSource? source = some s ∧ ofSource? s.joined = some s' ∧ s'.symbols = s.symbols ∧
      (SourceUnit.ofSource s.joined).toOption = (SourceUnit.ofSource source).toOption := by
  obtain ⟨ss, hsource, hagain⟩ := symbols?_withSpaces source.toList hplain
  obtain ⟨s, hs, rfl⟩ := Option.map_eq_some_iff.mp hsource
  rw [← toList_joined] at hagain
  obtain ⟨s', hs', hsymbols⟩ := Option.map_eq_some_iff.mp hagain
  exact ⟨s, s', hs, hs', hsymbols, SourceUnit.toOption_ofSource_of_symbols hs' hs hsymbols⟩

/-- The source has a pragma, an exponent without digits, a run of operators with two slashes
in it, a comment and a string that nothing ends. -/
theorem joined_reads_pragma_runs_and_open_string :
    ∃ s s', ofSource? "pragma\tsolidity ^0.8.0\n;x+//=1e-/*y*/;a=>b'c d" = some s ∧
      ofSource? s.joined = some s' ∧ s'.symbols = s.symbols ∧
      (SourceUnit.ofSource s.joined).toOption
        = (SourceUnit.ofSource "pragma\tsolidity ^0.8.0\n;x+//=1e-/*y*/;a=>b'c d").toOption :=
  joined_has_the_same_symbols (List.all_eq_true.mp (by decide))

end TokenStream

end SolidityInterface
