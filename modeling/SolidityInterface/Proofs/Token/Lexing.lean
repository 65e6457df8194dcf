import Mathlib.Data.List.DropRight
import SolidityInterface.Token.Scan

/-
  What texts are read as. `Spells cs ss` says that the scanner comes to the end of the
  characters `cs` from any place, and that its tokens are the symbols `ss`, which are
  tokens without their places. The lemmas put a text together from its end: each says
  what one more piece at the front adds, if the piece does not run on into what
  follows.
-/

namespace SolidityInterface

open Token (Kind)

/-- A token without its place. -/
abbrev Symbol := Kind × String

/-- The class and the text of a token. -/
def Token.symbol (t : Token) : Symbol := (t.kind, t.text)

/-- The tokens of a stream without their places. -/
def TokenStream.symbols (s : TokenStream) : List Symbol := s.tokens.map Token.symbol

/-- Whether the scanner reads some characters as some symbols, from any place. -/
def Spells (cs : List Char) (ss : List Symbol) : Prop :=
  ∀ p : Place, ∃ s, (Cursor.mk cs p).scan? = some s ∧ s.tokens.map Token.symbol = ss

/-- Whether a text is a word for the scanner. -/
def IsWord (w : List Char) : Prop :=
  ∃ c rest, w = c :: rest ∧ Word.isStart c = true ∧ Text.isDigit c = false ∧
    w.all Word.isPart = true

instance : DecidablePred IsWord
  | [] => isFalse (by rintro ⟨c, rest, h, -⟩; simp at h)
  | c :: rest =>
    decidable_of_iff (Word.isStart c = true ∧ Text.isDigit c = false ∧
      (c :: rest).all Word.isPart = true)
      ⟨fun h => ⟨c, rest, rfl, h⟩, by rintro ⟨d, rest', h, hd⟩; obtain ⟨rfl, -⟩ := List.cons.inj h; exact hd⟩

/-- Whether a text is one that can be a name. -/
def IsName (n : String) : Prop := IsWord n.toList ∧ (Word.kind n).isName = true

instance : DecidablePred IsName := fun _ => inferInstanceAs (Decidable (_ ∧ _))

/-- Whether a text can stand between two quotes: it holds no quote and no last backslash
that is not escaped. -/
def Lexeme.isQuotable (quote : Char) : List Char → Bool
  | [] => true
  | '\\' :: _ :: rest => Lexeme.isQuotable quote rest
  | c :: rest => c ≠ quote && c ≠ '\\' && Lexeme.isQuotable quote rest

namespace Cursor

@[simp] theorem past_rest (c : Cursor) (text : List Char) :
    (c.past text).rest = c.rest.drop text.length := rfl

@[simp] theorem token_symbol (c : Cursor) (k : Kind) (text : List Char) :
    (c.token k text).symbol = (k, String.ofList text) := rfl

/-! ## Rounds -/

theorem scanWithin_mono {n m : Nat} {c : Cursor} {s : TokenStream}
    (h : c.scanWithin n = some s) (hm : n ≤ m) : c.scanWithin m = some s := by
  induction n generalizing c m s with
  | zero =>
    simp only [scanWithin] at h
    split at h
    · rename_i hnil
      cases m <;> simpa [scanWithin, hnil] using h
    · simp at h
  | succ n ih =>
    obtain ⟨k, rfl⟩ : ∃ k, m = k + 1 := ⟨m - 1, by omega⟩
    simp only [scanWithin] at h ⊢
    split
    · rename_i hnil
      simpa [hnil] using h
    · rename_i hcons
      simp only [hcons] at h
      obtain ⟨t, ht, rfl⟩ := Option.map_eq_some_iff.mp h
      rw [ih ht (by omega)]
      rfl

theorem scanWithin_succ {c : Cursor} (n : Nat) (hcons : c.rest ≠ []) :
    c.scanWithin (n + 1)
      = (c.round.2.scanWithin n).map fun s => ⟨c.round.1 ++ s.tokens, s.stop⟩ := by
  have hempty : c.rest.isEmpty = false := by simpa using hcons
  rw [scanWithin, hempty]
  rfl

/-- The scanner makes one round, and then reads what the round left. -/
theorem scan?_of_round {c : Cursor} {s : TokenStream} (hcons : c.rest ≠ [])
    (hlt : c.round.2.rest.length < c.rest.length) (h : c.round.2.scan? = some s) :
    c.scan? = some ⟨c.round.1 ++ s.tokens, s.stop⟩ := by
  unfold scan? at h ⊢
  obtain ⟨n, hn⟩ : ∃ n, c.rest.length = n + 1 := ⟨c.rest.length - 1, by omega⟩
  rw [hn, scanWithin_succ n hcons, scanWithin_mono h (by omega)]
  rfl

theorem takeWhile_append_stop {p : Char → Bool} {w cs : List Char} (hw : w.all p = true)
    (hcs : ∀ c ∈ cs.head?, p c = false) : (w ++ cs).takeWhile p = w := by
  induction w with
  | nil =>
    cases cs with
    | nil => rfl
    | cons c cs => simp [hcs c (by simp)]
  | cons a w ih =>
    simp only [List.all_cons, Bool.and_eq_true] at hw
    simp [hw.1, ih hw.2]

theorem head_stops {p : Char → Bool} {c : Char} (hc : p c = false) (cs : List Char) :
    ∀ d ∈ (c :: cs).head?, p d = false := by
  simpa using hc

theorem drop_length_takeWhile (p : Char → Bool) (cs : List Char) :
    cs.drop (cs.takeWhile p).length = cs.dropWhile p := by
  induction cs with
  | nil => rfl
  | cons c cs ih =>
    cases hc : p c
    · simp [hc]
    · simp [hc, ih]

theorem skipSpace_rest (c : Cursor) : c.skipSpace.rest = c.rest.dropWhile Char.isWhitespace :=
  drop_length_takeWhile _ _

theorem skipSpace_of_solid {c : Char} {cs : List Char} {p : Place} (h : c.isWhitespace = false) :
    (Cursor.mk (c :: cs) p).skipSpace = ⟨c :: cs, p⟩ := by
  simp [skipSpace, past, h, Place.after]

theorem skipSpace_cons {c : Char} {cs : List Char} {p : Place} (h : c.isWhitespace = true) :
    (Cursor.mk (c :: cs) p).skipSpace = (Cursor.mk cs (p.next c)).skipSpace := by
  simp [skipSpace, past, h, Place.after]

end Cursor

/-- A property of the four blanks that the scanner skips. -/
theorem of_isWhitespace {P : Char → Prop} (hspace : P ' ') (htab : P '\t') (hcr : P '\r')
    (hlf : P '\n') {c : Char} (h : c.isWhitespace = true) : P c := by
  simp only [Char.isWhitespace, Bool.or_eq_true, decide_eq_true_eq] at h
  rcases h with ((rfl | rfl) | rfl) | rfl <;> assumption

namespace Text

theorem isBlank_of_isWhitespace {c : Char} (h : c.isWhitespace = true) : isBlank c = true :=
  of_isWhitespace (P := fun c => isBlank c = true) (by decide) (by decide) (by decide) (by decide) h

theorem length_trim_le (s : List Char) : (trim s).length ≤ (s.dropWhile isBlank).length := by
  have hle := List.IsSuffix.length_le
    (List.dropWhile_suffix (l := (s.dropWhile isBlank).reverse) isBlank)
  rw [List.length_reverse] at hle
  rw [trim, List.length_reverse]
  exact hle

theorem isBlank_head_of_trim {c : Char} {s : List Char} (h : trim (c :: s) = c :: s) :
    isBlank c = false := by
  cases hc : isBlank c with
  | false => rfl
  | true =>
    have hle := length_trim_le (c :: s)
    have hdrop : ((c :: s).dropWhile isBlank).length ≤ s.length := by
      rw [List.dropWhile_cons, hc, if_pos rfl]
      exact List.IsSuffix.length_le (List.dropWhile_suffix _)
    rw [h, List.length_cons] at hle
    omega

theorem trim_prefix (s : List Char) : trim s <+: s.dropWhile isBlank := by
  rw [trim, ← List.reverse_suffix, List.reverse_reverse]
  exact List.dropWhile_suffix _

theorem trim_trim (s : List Char) : trim (trim s) = trim s := by
  have hfront : (trim s).dropWhile isBlank = trim s := by
    -- What is left in front is what was left before the end was cut.
    cases ht : trim s with
    | nil => rfl
    | cons c t =>
      have hpre := trim_prefix s
      rw [ht] at hpre
      obtain ⟨u, hu⟩ := hpre
      have hc : isBlank c = false := by
        have := List.head?_dropWhile_not isBlank s
        rw [← hu] at this
        simpa using this
      rw [List.dropWhile_cons, hc]
      rfl
  have hback : (trim s).reverse.dropWhile isBlank = (trim s).reverse := by
    rw [trim, List.reverse_reverse, List.dropWhile_idempotent]
  show (((trim s).dropWhile isBlank).reverse.dropWhile isBlank).reverse = trim s
  rw [hfront, hback, List.reverse_reverse]

/-- Blanks behind a trimmed text are cut off again. -/
theorem trim_append_blanks {v b : List Char} (hv : trim v = v) (hb : b.all isBlank = true) :
    trim (v ++ b) = v := by
  have hdrop : ∀ {b : List Char}, b.all isBlank = true → b.dropWhile isBlank = [] := by
    intro b hb
    rw [List.dropWhile_eq_nil_iff]
    exact List.all_eq_true.mp hb
  cases v with
  | nil => rw [List.nil_append, trim, hdrop hb]; rfl
  | cons c v =>
    have hc := isBlank_head_of_trim hv
    have hback : ((c :: v).reverse.dropWhile isBlank) = (c :: v).reverse := by
      have hrev := congrArg List.reverse hv
      rw [trim, List.reverse_reverse, List.dropWhile_cons, hc] at hrev
      exact hrev
    have hfront : (c :: v ++ b).dropWhile isBlank = c :: v ++ b := by
      rw [List.cons_append, List.dropWhile_cons, hc]
      rfl
    have hblanks : b.reverse.all isBlank = true := by rwa [List.all_reverse]
    rw [trim, hfront, List.reverse_append, List.dropWhile_append, hdrop hblanks, hback]
    exact List.reverse_reverse _

end Text

namespace Word

theorem isWhitespace_of_isStart {c : Char} (h : isStart c = true) : c.isWhitespace = false := by
  cases hc : c.isWhitespace with
  | false => rfl
  | true =>
    refine absurd h (of_isWhitespace (P := fun c => ¬ isStart c = true) ?_ ?_ ?_ ?_ hc) <;>
      decide

theorem isWhitespace_of_isPart {c : Char} (h : isPart c = true) : c.isWhitespace = false := by
  cases hc : c.isWhitespace with
  | false => rfl
  | true =>
    refine absurd h (of_isWhitespace (P := fun c => ¬ isPart c = true) ?_ ?_ ?_ ?_ hc) <;>
      decide

theorem ne_of_isStart {c d : Char} (h : isStart c = true) (hd : isStart d = false) : c ≠ d := by
  rintro rfl
  rw [h] at hd
  simp at hd

end Word

/-- What a character that starts a word makes the scanner read. -/
theorem Cursor.read_of_isStart {c : Char} {cs w : List Char} {p : Place}
    (hc : Word.isStart c = true) (hdigit : Text.isDigit c = false)
    (hw : Lexeme.word (c :: cs) = w) :
    (Cursor.mk (c :: cs) p).read =
      if Word.kind (String.ofList w) = .kwPragma then
        ((Cursor.mk (c :: cs) p).token .kwPragma w :: ((Cursor.mk (c :: cs) p).past w).pragma.1,
          ((Cursor.mk (c :: cs) p).past w).pragma.2)
      else ([(Cursor.mk (c :: cs) p).token (Word.kind (String.ofList w)) w],
        (Cursor.mk (c :: cs) p).past w) := by
  subst hw
  have hslash := Word.ne_of_isStart hc (d := '/') rfl
  have hquote := Word.ne_of_isStart hc (d := '\x22') rfl
  have hquote' := Word.ne_of_isStart hc (d := '\x27') rfl
  simp only [Cursor.read, hslash, hquote, hquote', hdigit, hc, decide_false, Bool.false_and,
    Bool.or_false, Bool.false_eq_true, if_false, if_true]
  split
  · rename_i hkind
    rw [hkind]
  · rfl

/-- What the characters that are tokens of their own are not. -/
theorem Lexeme.punctuation?_spec {c : Char} {k : Kind} (hc : punctuation? c = some k)
    (heq : c ≠ '=') : c.isWhitespace = false ∧ c ≠ '/' ∧ c ≠ '\x22' ∧ c ≠ '\x27' ∧
      Text.isDigit c = false ∧ Word.isStart c = false ∧ isOperator c = false := by
  have hcases : c ∈ ['*', '(', ')', '\x7b', '\x7d', '[', ']', ';', ',', '.'] := by
    unfold punctuation? at hc
    split at hc
    case h_1 => exact absurd rfl heq
    case h_12 => simp at hc
    all_goals decide
  have hall : ['*', '(', ')', '\x7b', '\x7d', '[', ']', ';', ',', '.'].all (fun c =>
      decide (c.isWhitespace = false ∧ c ≠ '/' ∧ c ≠ '\x22' ∧ c ≠ '\x27' ∧
        Text.isDigit c = false ∧ Word.isStart c = false ∧ isOperator c = false)) = true := by
    rfl
  exact of_decide_eq_true (List.all_eq_true.mp hall c hcases)

/-- What a character that is a token of its own makes the scanner read. -/
theorem Cursor.read_of_punctuation {c : Char} {k : Kind} {cs : List Char} {p : Place}
    (hc : Lexeme.punctuation? c = some k) (heq : c ≠ '=') :
    (Cursor.mk (c :: cs) p).read
      = ([(Cursor.mk (c :: cs) p).token k [c]], (Cursor.mk (c :: cs) p).past [c]) := by
  obtain ⟨-, hslash, hquote, hquote', hdigit, hstart, hoperator⟩ := Lexeme.punctuation?_spec hc heq
  simp only [Cursor.read, hslash, hquote, hquote', hdigit, hstart, hoperator, heq, hc, decide_false,
    Bool.false_and, Bool.or_false, Bool.false_eq_true, if_false]

namespace Spells

open Cursor

variable {cs ds : List Char} {ss ts : List Symbol}

theorem nil : Spells [] [] := fun p => ⟨⟨[], p⟩, rfl, rfl⟩

/-- One round at the front of a text. -/
theorem of_round (hcons : cs ≠ []) (hlt : ds.length < cs.length)
    (hround : ∀ p, (Cursor.mk cs p).round.1.map Token.symbol = ss ∧
      (Cursor.mk cs p).round.2.rest = ds)
    (h : Spells ds ts) : Spells cs (ss ++ ts) := by
  intro p
  obtain ⟨htokens, hrest⟩ := hround p
  generalize hd : (Cursor.mk cs p).round.2 = d at hrest
  obtain ⟨rest, q⟩ := d
  simp only at hrest
  subst hrest
  obtain ⟨s, hs, hsymbols⟩ := h q
  have hscan := scan?_of_round (c := ⟨cs, p⟩) (s := s) hcons (by rw [hd]; exact hlt) (by rw [hd]; exact hs)
  refine ⟨_, hscan, ?_⟩
  rw [List.map_append, htokens, hsymbols]

/-- One round from a character that is not blank. -/
theorem of_read (ss : List Symbol) (ds : List Char) {c : Char} (hc : c.isWhitespace = false) (hlt : ds.length < (c :: cs).length)
    (hread : ∀ p, (Cursor.mk (c :: cs) p).read.1.map Token.symbol = ss ∧
      (Cursor.mk (c :: cs) p).read.2.rest = ds)
    (h : Spells ds ts) : Spells (c :: cs) (ss ++ ts) := by
  refine of_round (by simp) hlt ?_ h
  intro p
  rw [Cursor.round, skipSpace_of_solid hc]
  exact hread p

/-- Blanks at the front of a text are skipped. -/
theorem blank {c : Char} (hc : c.isWhitespace = true) (h : Spells cs ts) : Spells (c :: cs) ts := by
  intro p
  obtain ⟨s, hs, hsymbols⟩ := h (p.next c)
  have hround : (Cursor.mk (c :: cs) p).round = (Cursor.mk cs (p.next c)).round := by
    rw [Cursor.round, Cursor.round, skipSpace_cons hc]
  refine ⟨s, ?_, hsymbols⟩
  unfold scan? at hs ⊢
  simp only [List.length_cons] at hs ⊢
  rw [scanWithin_succ _ (by simp), hround]
  cases cs with
  | nil =>
    obtain rfl : ⟨[], p.next c⟩ = s := by simpa [scanWithin] using hs
    rfl
  | cons a cs =>
    rw [List.length_cons, scanWithin_succ _ (by simp)] at hs
    obtain ⟨t, ht, rfl⟩ := Option.map_eq_some_iff.mp hs
    rw [scanWithin_mono ht (by simp)]
    rfl

/-! ## Words and punctuation -/

theorem word {w : List Char} (hw : IsWord w) (hkind : Word.kind (String.ofList w) ≠ .kwPragma)
    (hcs : ∀ c ∈ cs.head?, Word.isPart c = false) (h : Spells cs ts) :
    Spells (w ++ cs) ((Word.kind (String.ofList w), String.ofList w) :: ts) := by
  obtain ⟨c, rest, rfl, hstart, hdigit, hall⟩ := hw
  have hword : Lexeme.word (c :: (rest ++ cs)) = c :: rest := takeWhile_append_stop hall hcs
  rw [List.cons_append]
  have hlength : cs.length < (c :: (rest ++ cs)).length := by
    rw [List.length_cons, List.length_append]
    omega
  refine of_read [_] cs (Word.isWhitespace_of_isStart hstart) hlength ?_ h
  intro p
  rw [read_of_isStart hstart hdigit hword, if_neg hkind]
  simp

theorem punctuation {c : Char} {k : Kind} (hc : Lexeme.punctuation? c = some k) (heq : c ≠ '=')
    (h : Spells cs ts) : Spells (c :: cs) ((k, String.ofList [c]) :: ts) := by
  refine of_read [_] cs (Lexeme.punctuation?_spec hc heq).1
    (by simp) ?_ h
  intro p
  rw [read_of_punctuation hc heq]
  simp

/-! ## String literals and comments -/

theorem stringTail_of_isQuotable {quote : Char} (hq : quote ≠ '\\') {text : List Char}
    (htext : Lexeme.isQuotable quote text = true) (cs : List Char) :
    Lexeme.stringTail quote (text ++ quote :: cs) = (text ++ [quote], false) := by
  induction text using Lexeme.isQuotable.induct with
  | case1 =>
    rw [List.nil_append, Lexeme.stringTail.eq_def]
    simp
  | case2 d rest ih =>
    simp only [Lexeme.isQuotable] at htext
    simp [Lexeme.stringTail, Ne.symm hq, ih htext]
  | case3 c rest hne ih =>
    rw [Lexeme.isQuotable] at htext
    · simp only [Bool.and_eq_true, decide_eq_true_eq] at htext
      obtain ⟨⟨hquote, hslash⟩, hrest⟩ := htext
      rw [List.cons_append, Lexeme.stringTail.eq_def]
      simp [hquote, hslash, ih hrest]
    · exact hne

theorem string {text : List Char} (htext : Lexeme.isQuotable '\x22' text = true)
    (h : Spells cs ts) :
    Spells ('\x22' :: text ++ '\x22' :: cs)
      ((.stringLiteral, String.ofList ('\x22' :: text ++ ['\x22'])) :: ts) := by
  have htail := stringTail_of_isQuotable (by decide) htext cs
  rw [List.cons_append]
  refine of_read [_] cs (by decide) (by simp; omega) ?_ h
  intro p
  have hread : (Cursor.mk ('\x22' :: (text ++ '\x22' :: cs)) p).read
      = ([(Cursor.mk ('\x22' :: (text ++ '\x22' :: cs)) p).token .stringLiteral
          ('\x22' :: (text ++ ['\x22']))],
        (Cursor.mk ('\x22' :: (text ++ '\x22' :: cs)) p).past ('\x22' :: (text ++ ['\x22']))) := by
    simp [Cursor.read, Cursor.string, htail]
  rw [hread]
  simp

/-- A comment to the end of its line is skipped. -/
theorem lineComment {text : List Char} (htext : '\n' ∉ text) (h : Spells cs ts) :
    Spells ('/' :: '/' :: text ++ '\n' :: cs) ts := by
  have hall : ('/' :: '/' :: text).all (· ≠ '\n') = true := by
    simp only [List.all_cons, List.all_eq_true, Bool.and_eq_true, decide_eq_true_eq]
    exact ⟨by decide, by decide, fun c hc e => htext (e ▸ hc)⟩
  have hcomment : ('/' :: '/' :: (text ++ '\n' :: cs)).takeWhile (· ≠ '\n') = '/' :: '/' :: text :=
    takeWhile_append_stop hall (by simp)
  rw [List.cons_append, List.cons_append]
  refine of_read [] ('\n' :: cs) (by decide) (by simp; omega) ?_ (blank (by decide) h)
  intro p
  have hread : (Cursor.mk ('/' :: '/' :: (text ++ '\n' :: cs)) p).read
      = ([], (Cursor.mk ('/' :: '/' :: (text ++ '\n' :: cs)) p).past ('/' :: '/' :: text)) := by
    simp only [Cursor.read, Cursor.skipComment, Lexeme.comment, Lexeme.lineComment, hcomment]
    simp
  rw [hread]
  simp

/-! ## Pragmas -/

/-- Whether two texts are what the scanner makes of the words behind `pragma`. -/
structure IsPragma (name value : List Char) : Prop where
  name_parts : name.all Word.isPart = true
  value_open : ';' ∉ value
  value_trimmed : Text.trim value = value

/-- Whether the name of a pragma is kept apart from its value: a pragma without a name
has a value that starts with no word. -/
def SplitsPragma (name value : List Char) : Prop :=
  name = [] → ∀ c ∈ value.head?, Word.isPart c = false

/-- The value of a pragma starts with no blank. An empty value gives way to what stands
behind it. -/
theorem IsPragma.dropWhile_value {name value b : List Char} (h : IsPragma name value)
    (hb : b.all Char.isWhitespace = true) (hcs : ∀ c ∈ cs.head?, c = ';') :
    ∃ b', b'.all Char.isWhitespace = true ∧
      (value ++ (b ++ cs)).dropWhile Char.isWhitespace = value ++ (b' ++ cs) := by
  cases value with
  | nil =>
    refine ⟨[], rfl, ?_⟩
    have hall : ∀ c ∈ b, c.isWhitespace = true := List.all_eq_true.mp hb
    rw [List.nil_append, List.dropWhile_append_of_pos hall]
    cases cs with
    | nil => rfl
    | cons c cs =>
      obtain rfl : c = ';' := hcs c rfl
      rfl
  | cons c value =>
    refine ⟨b, hb, ?_⟩
    have hblank := Text.isBlank_head_of_trim h.value_trimmed
    have hspace : c.isWhitespace = false := by
      cases hc : c.isWhitespace with
      | false => rfl
      | true =>
        rw [Text.isBlank_of_isWhitespace hc] at hblank
        simp at hblank
    rw [List.cons_append, List.dropWhile_cons, hspace]
    rfl

theorem IsPragma.dropWhile_name {name value : List Char} (h : IsPragma name value)
    (hne : name ≠ []) : (name ++ cs).dropWhile Char.isWhitespace = name ++ cs := by
  cases name with
  | nil => exact absurd rfl hne
  | cons c name =>
    have hpart := h.name_parts
    simp only [List.all_cons, Bool.and_eq_true] at hpart
    rw [List.cons_append, List.dropWhile_cons, Word.isWhitespace_of_isPart hpart.1]
    rfl

/-- A pragma without a name shows no word behind the blanks: its value starts with none, and
neither do blanks or a semicolon. -/
theorem IsPragma.word_of_nameless {value b : List Char} (hsplit : SplitsPragma [] value)
    (hb : b.all Char.isWhitespace = true) (hcs : ∀ c ∈ cs.head?, c = ';') :
    Lexeme.word (value ++ (b ++ cs)) = [] := by
  refine takeWhile_append_stop (w := []) rfl ?_
  intro d hd
  cases value with
  | cons e value => exact hsplit rfl d hd
  | nil =>
    cases b with
    | cons e b =>
      obtain rfl : e = d := by simpa using hd
      rw [List.all_cons, Bool.and_eq_true] at hb
      rw [← Bool.not_eq_true]
      intro hpart
      have hspace := Word.isWhitespace_of_isPart hpart
      rw [hb.1] at hspace
      cases hspace
    | nil =>
      obtain rfl := hcs d hd
      rfl

/-- Behind the blanks stand the name and a blank, or the value itself. -/
theorem IsPragma.name_rest {name value b : List Char} (h : IsPragma name value)
    (hsplit : SplitsPragma name value) (hb : b.all Char.isWhitespace = true)
    (hcs : ∀ c ∈ cs.head?, c = ';') (c : Cursor)
    (hc : c.rest = ' ' :: (name ++ ' ' :: (value ++ (b ++ cs)))) :
    ∃ b', b'.all Char.isWhitespace = true ∧ Lexeme.word c.skipSpace.rest = name ∧
      ((c.skipSpace.past name).skipSpace).rest = value ++ (b' ++ cs) := by
  rw [skipSpace_rest (c.skipSpace.past name), past_rest, skipSpace_rest, hc, List.dropWhile_cons,
    if_pos (by decide)]
  obtain ⟨b', hb', hvalue⟩ := h.dropWhile_value hb hcs
  by_cases hname : name = []
  · subst hname
    have hhead := word_of_nameless hsplit hb' hcs
    obtain ⟨b'', hb'', hagain⟩ := h.dropWhile_value hb' hcs
    rw [List.nil_append, List.dropWhile_cons, if_pos (by decide), hvalue]
    exact ⟨b'', hb'', hhead, hagain⟩
  · rw [h.dropWhile_name hname]
    refine ⟨b', hb', takeWhile_append_stop h.name_parts (head_stops rfl _), ?_⟩
    rw [List.drop_left, List.dropWhile_cons, if_pos (by decide), hvalue]

/-- The scanner finds the name and the value of a pragma again, whatever blanks stand
before the semicolon or the end. -/
theorem pragma_rest {name value b : List Char} (h : IsPragma name value)
    (hsplit : SplitsPragma name value) (hb : b.all Char.isWhitespace = true)
    (hcs : ∀ c ∈ cs.head?, c = ';') (c : Cursor)
    (hc : c.rest = ' ' :: (name ++ ' ' :: (value ++ (b ++ cs)))) :
    c.pragma.1.map Token.symbol
        = [(.identifier, String.ofList name), (.pragmaValue, String.ofList value)] ∧
      c.pragma.2.rest = cs := by
  obtain ⟨b', hb', hname, hrest⟩ := h.name_rest hsplit hb hcs c hc
  have hblanks : b'.all Text.isBlank = true :=
    List.all_eq_true.mpr fun d hd => Text.isBlank_of_isWhitespace (List.all_eq_true.mp hb' d hd)
  have hvalue : (value ++ (b' ++ cs)).takeWhile (· ≠ ';') = value ++ b' := by
    rw [← List.append_assoc]
    refine takeWhile_append_stop ?_ ?_
    · simp only [List.all_eq_true, decide_eq_true_eq, List.mem_append]
      rintro d hd rfl
      rcases hd with hd | hd
      · exact h.value_open hd
      · exact absurd (List.all_eq_true.mp hb' _ hd) (by decide)
    · intro d hd
      rw [hcs d hd]
      rfl
  simp only [Cursor.pragma, hname, hrest, hvalue, past_rest, List.map_cons, List.map_nil,
    token_symbol, Text.trim_append_blanks h.value_trimmed hblanks]
  rw [← List.append_assoc, List.drop_left]
  exact ⟨trivial, rfl⟩

theorem pragma {name value b : List Char} (hp : IsPragma name value)
    (hsplit : SplitsPragma name value) (hb : b.all Char.isWhitespace = true)
    (hcs : ∀ c ∈ cs.head?, c = ';') (h : Spells cs ts) :
    Spells (['p', 'r', 'a', 'g', 'm', 'a'] ++ ' ' :: (name ++ ' ' :: (value ++ (b ++ cs))))
      ([(.kwPragma, "pragma"), (.identifier, String.ofList name),
        (.pragmaValue, String.ofList value)] ++ ts) := by
  have hword : Lexeme.word
      (['p', 'r', 'a', 'g', 'm', 'a'] ++ ' ' :: (name ++ ' ' :: (value ++ (b ++ cs))))
      = ['p', 'r', 'a', 'g', 'm', 'a'] :=
    takeWhile_append_stop rfl (head_stops rfl _)
  refine of_read _ cs (by decide) (by simp; omega) ?_ h
  intro p
  rw [read_of_isStart rfl rfl hword, if_pos (by decide)]
  obtain ⟨hsymbols, hrest⟩ := pragma_rest hp hsplit hb hcs ((Cursor.mk
    (['p', 'r', 'a', 'g', 'm', 'a'] ++ ' ' :: (name ++ ' ' :: (value ++ (b ++ cs)))) p).past
    ['p', 'r', 'a', 'g', 'm', 'a']) rfl
  refine ⟨?_, hrest⟩
  rw [List.map_cons]
  exact congrArg _ hsymbols

end Spells

end SolidityInterface
