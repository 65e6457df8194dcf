import SolidityInterface.Proofs.Token.Reading

/-
  Tokens are slices of their source. `Covers p s ts q` says how tokens and what lies
  between them cover a text: one constructor a piece, so that the pieces of a text follow
  each other without gaps. The scanner covers what it reads (`Covers.of_scanWithin`).
  From a cover of a source the offsets of all tokens are read off (`Covers.charts`): each
  token stands at the place that counting gives for its offset, has the text of its span,
  and every character outside of the spans is a blank, part of a comment, or a character
  that starts no token.
-/

namespace SolidityInterface

open Token (Kind)
open Lexeme

/-! ## Places by counting -/

namespace Place

/-- Where an offset of a source lies: the line feeds before it, and the characters behind
the last of them, are counted from one. -/
def ofOffset (source : List Char) (n : Nat) : Place :=
  ⟨n, 1 + (source.take n).count '\n', 1 + ((source.take n).reverse.takeWhile (· ≠ '\n')).length⟩

theorem after_append (p : Place) (v w : List Char) : p.after (v ++ w) = (p.after v).after w := by
  induction v generalizing p with
  | nil => rfl
  | cons c v ih => exact ih (p.next c)

/-- A cursor that moved over a text stands where counting says. -/
theorem after_start (before after : List Char) :
    Place.after {} before = ofOffset (before ++ after) before.length := by
  rw [ofOffset, List.take_left]
  induction before using List.reverseRecOn with
  | nil => rfl
  | append_singleton before c ih =>
    rw [after_append, ih]
    by_cases hc : c = '\n'
    · simp [Place.after, next, hc]
      omega
    · simp [Place.after, next, hc]
      omega

end Place

/-! ## Covers -/

/-- Whether a string literal ends behind an unpaired backslash. -/
def Lexeme.IsEscaping (w : List Char) : Prop :=
  ∃ quote body, IsQuote quote ∧ w = quote :: (body ++ ['\\']) ∧ isQuotable quote body = true

/-- Whether the last of some tokens is a string literal that ends behind an unpaired
backslash. -/
def EndsEscaping (ts : List Token) : Prop :=
  ∃ t, ts.getLast? = some t ∧ t.kind = .stringLiteral ∧ IsEscaping t.text.toList

/-- How tokens, and what lies between them, cover a text that starts at a place, and where
they leave the scanner. -/
inductive Covers : Place → List Char → List Token → Place → Prop
  | nil {p : Place} : Covers p [] [] p
  | blank {p q : Place} {c : Char} {s : List Char} {ts : List Token} (hc : c.isWhitespace = true)
      (h : Covers (p.after [c]) s ts q) : Covers p (c :: s) ts q
  | other {p q : Place} {c : Char} {s : List Char} {ts : List Token} (hc : startsToken c = false)
      (h : Covers (p.after [c]) s ts q) : Covers p (c :: s) ts q
  | comment {p q : Place} {w s : List Char} {ts : List Token} (hw : IsComment w s)
      (h : Covers (p.after w) s ts q) : Covers p (w ++ s) ts q
  | token {p q : Place} {k : Kind} {w s : List Char} {ts : List Token} (hvalue : k ≠ .pragmaValue)
      (heof : k ≠ .eof) (hstring : k = .stringLiteral → ¬ IsEscaping w)
      (h : Covers (p.after w) s ts q) : Covers p (w ++ s) (⟨k, String.ofList w, p⟩ :: ts) q
  | value {p q : Place} {w s : List Char} {ts : List Token} (hrun : IsRun (· ≠ ';') w s)
      (h : Covers (p.after w) s ts q) :
      Covers p (w ++ s) (⟨.pragmaValue, String.ofList (Text.trim w), p⟩ :: ts) q
  /-- A string literal that the source ends in, behind an unpaired backslash. -/
  | escaping {p : Place} {w : List Char} (hw : IsEscaping w) :
      Covers p w [⟨.stringLiteral, String.ofList w, p⟩] (p.after w).beyond

namespace Covers

variable {p q r : Place} {s : List Char} {ts us : List Token}

theorem blanks {b : List Char} (hb : b.all Char.isWhitespace = true) (h : Covers (p.after b) s ts q) :
    Covers p (b ++ s) ts q := by
  induction b generalizing p with
  | nil => exact h
  | cons c b ih =>
    rw [List.all_cons, Bool.and_eq_true] at hb
    exact blank hb.1 (ih hb.2 h)

theorem not_isEscaping_of_quote {quote : Char} {body : List Char} (hq : IsQuote quote) :
    ¬ IsEscaping (quote :: (body ++ [quote])) := by
  rintro ⟨quote', body', -, hw, -⟩
  have hlast := congrArg List.getLast? hw
  rw [← List.cons_append, ← List.cons_append, List.getLast?_concat, List.getLast?_concat] at hlast
  exact hq.ne_backslash (Option.some.inj hlast)

theorem not_isEscaping_of_isQuotable {quote : Char} {body : List Char} (hq : IsQuote quote)
    (hbody : isQuotable quote body = true) : ¬ IsEscaping (quote :: body) := by
  rintro ⟨quote', body', -, hw, hbody'⟩
  obtain ⟨rfl, rfl⟩ := List.cons.inj hw
  -- The literal would be read as one that a backslash cuts off, and as one that none does.
  have htail := stringTail_quotable hq.ne_backslash hbody []
  rw [List.append_nil, stringTail_quotable hq.ne_backslash hbody' ['\\'], stringTail.eq_def] at htail
  simp [Ne.symm hq.ne_backslash, stringTail] at htail

/-- What the grammar allows at the front covers it. Behind a source that ends in an escape
nothing is left to cover. -/
theorem of_reading {after : List Char} (hr : Reading p s ts after q) (h : Covers q after us r)
    (hend : after = [] → us = [] ∧ r = q) : Covers p s (ts ++ us) r := by
  cases hr with
  | comment hw => exact comment hw h
  | @string quote body after hq hbody =>
    have hcover := token (p := p) (k := .stringLiteral) (by simp) (by simp)
      (fun _ => not_isEscaping_of_quote hq) h
    rw [List.cons_append, List.append_assoc, List.singleton_append] at hcover
    exact hcover
  | openString hq hbody =>
    have hcover := token (p := p) (k := .stringLiteral) (by simp) (by simp)
      (fun _ => not_isEscaping_of_isQuotable hq hbody) h
    rw [List.append_nil] at hcover
    exact hcover
  | @escapingString quote body hq hbody =>
    obtain ⟨rfl, rfl⟩ := hend rfl
    exact escaping ⟨quote, body, hq, rfl, hbody⟩
  | @number ch k w after hch hdigit hw =>
    have hk : k = .hexNumber ∨ k = .number := by
      have hkind := number_kind (w ++ after)
      rwa [hw] at hkind
    exact token (by rcases hk with rfl | rfl <;> simp) (by rcases hk with rfl | rfl <;> simp)
      (by rcases hk with rfl | rfl <;> simp) h
  | @word w after hw hkind hrun =>
    obtain ⟨hvalue, heof, hstring, -⟩ := Word.kind_ne (String.ofList w)
    exact token hvalue heof (fun hk => absurd hk hstring) h
  | pragma hw hkind hrun htext =>
    refine token (by simp) (by simp) (by simp) (blanks htext.blanks.1 ?_)
    refine token (by simp) (by simp) (by simp) (blanks htext.blanks'.1 ?_)
    exact value htext.value_run h
  | arrow => exact token (w := ['=', '>']) (by simp) (by simp) (by simp) h
  | @operator ch w after hch hrun hslash => exact token (w := ch :: w) (by simp) (by simp) (by simp) h
  | @punctuation ch k after hk heq =>
    have hkind : k ≠ .pragmaValue ∧ k ≠ .eof ∧ k ≠ .stringLiteral := by
      unfold punctuation? at hk
      split at hk <;> cases hk <;> simp
    exact token (w := [ch]) hkind.1 hkind.2.1 (fun hs => absurd hs hkind.2.2) h
  | other hch => exact other hch h

theorem of_scanWithin_nil {n : Nat} {c : Cursor} {t : TokenStream} (hrest : c.rest = [])
    (h : c.scanWithin n = some t) : t.tokens = [] ∧ t.stop = c.place := by
  have hempty : c.rest.isEmpty = true := by rw [hrest, List.isEmpty_nil]
  cases n with
  | zero =>
    rw [Cursor.scanWithin, if_pos hempty] at h
    cases h
    exact ⟨rfl, rfl⟩
  | succ n =>
    rw [Cursor.scanWithin, if_pos hempty] at h
    cases h
    exact ⟨rfl, rfl⟩

theorem of_nil {n : Nat} {c : Cursor} {t : TokenStream} (hrest : c.rest = [])
    (h : c.scanWithin n = some t) : Covers c.place c.rest t.tokens t.stop := by
  obtain ⟨htokens, hstop⟩ := of_scanWithin_nil hrest h
  rw [hrest, htokens, hstop]
  exact nil

/-- What the scanner reads covers the text. -/
theorem of_scanWithin {n : Nat} {c : Cursor} {t : TokenStream} (h : c.scanWithin n = some t) :
    Covers c.place c.rest t.tokens t.stop := by
  induction n generalizing c t with
  | zero =>
    have hrest : c.rest = [] := by
      by_contra hne
      rw [Cursor.scanWithin, if_neg (by simpa using hne)] at h
      cases h
    exact of_nil hrest h
  | succ n ih =>
    by_cases hrest : c.rest = []
    · exact of_nil hrest h
    rw [Cursor.scanWithin_succ n hrest] at h
    obtain ⟨u, hu, rfl⟩ := Option.map_eq_some_iff.mp h
    have hcover := ih hu
    have hsplit : c.rest = c.rest.takeWhile Char.isWhitespace ++ c.skipSpace.rest := by
      rw [Cursor.skipSpace_rest, List.takeWhile_append_dropWhile]
    rw [hsplit]
    refine blanks List.all_takeWhile ?_
    show Covers c.skipSpace.place c.skipSpace.rest (c.skipSpace.read.1 ++ u.tokens) u.stop
    change Covers c.skipSpace.read.2.place c.skipSpace.read.2.rest u.tokens u.stop at hcover
    by_cases hspace : c.skipSpace.rest = []
    · have hread : c.skipSpace.read = ([], c.skipSpace) := by
        unfold Cursor.read
        simp [hspace]
      rw [hread] at hcover ⊢
      exact hcover
    · refine of_reading ((Cursor.read_eq_iff hspace).mp rfl) hcover ?_
      intro hafter
      exact of_scanWithin_nil hafter hu

end Covers

/-! ## Spans -/

/-- Whether a token is the slice of a source that a span covers. The value of a pragma is
trimmed, and its span goes on to the next semicolon or to the end. -/
structure Token.IsSlice (source : List Char) (t : Token) (span : Nat × Nat) : Prop where
  place : t.place = Place.ofOffset source span.1
  bounds : span.1 ≤ span.2 ∧ span.2 ≤ source.length
  text : t.kind ≠ .pragmaValue → t.text.toList = source.extract span.1 span.2
  value : t.kind = .pragmaValue →
    t.text.toList = Text.trim (source.extract span.1 span.2) ∧
      IsRun (· ≠ ';') (source.extract span.1 span.2) (source.drop span.2)

/-- What a character that no span covers may be. No span meets the comment that it lies in. -/
inductive IsFiller (source : List Char) (spans : List (Nat × Nat)) (n : Nat) : Prop
  | blank {c : Char} (hn : source[n]? = some c) (hc : c.isWhitespace = true) : IsFiller source spans n
  | comment {i j : Nat} (hn : i ≤ n ∧ n < j)
      (hw : IsComment (source.extract i j) (source.drop j))
      (hapart : ∀ span ∈ spans, span.2 ≤ i ∨ j ≤ span.1) : IsFiller source spans n
  | other {c : Char} (hn : source[n]? = some c) (hc : startsToken c = false) : IsFiller source spans n

/-- Whether spans lie in order behind an offset of a source, show where some tokens stand,
and leave out only fillers, whatever spans end before the offset. -/
structure Charts (source : List Char) (m : Nat) (ts : List Token) (spans : List (Nat × Nat)) :
    Prop where
  slices : List.Forall₂ (Token.IsSlice source) ts spans
  ordered : spans.Pairwise fun a b => a.2 ≤ b.1
  behind : ∀ span ∈ spans, m ≤ span.1
  filled : ∀ earlier : List (Nat × Nat), (∀ span ∈ earlier, span.2 ≤ m) →
    ∀ n, m ≤ n → n < source.length →
      (∃ span ∈ spans, span.1 ≤ n ∧ n < span.2) ∨ IsFiller source (earlier ++ spans) n

namespace Charts

variable {before w s : List Char} {ts : List Token} {spans : List (Nat × Nat)}

theorem nil (source : List Char) : Charts source source.length [] [] where
  slices := .nil
  ordered := .nil
  behind := by simp
  filled := by
    intro earlier _ n hle hlt
    omega

/-- Text in front that may lie outside of all spans. -/
theorem skip (h : Charts (before ++ w ++ s) (before ++ w).length ts spans)
    (hw : ∀ earlier : List (Nat × Nat), (∀ span ∈ earlier, span.2 ≤ before.length) →
      ∀ n, before.length ≤ n → n < (before ++ w).length →
        IsFiller (before ++ w ++ s) (earlier ++ spans) n) :
    Charts (before ++ w ++ s) before.length ts spans where
  slices := h.slices
  ordered := h.ordered
  behind := by
    intro span hspan
    have hle := h.behind span hspan
    rw [List.length_append] at hle
    omega
  filled := by
    intro earlier hearlier n hle hlt
    by_cases hn : n < (before ++ w).length
    · exact .inr (hw earlier hearlier n hle hn)
    · refine h.filled earlier ?_ n (by omega) hlt
      intro span hspan
      have := hearlier span hspan
      rw [List.length_append]
      omega

/-- A token in front, with its span. -/
theorem cons {t : Token} (h : Charts (before ++ w ++ s) (before ++ w).length ts spans)
    (ht : t.IsSlice (before ++ w ++ s) (before.length, (before ++ w).length)) :
    Charts (before ++ w ++ s) before.length (t :: ts) ((before.length, (before ++ w).length) :: spans) where
  slices := .cons ht h.slices
  ordered := List.pairwise_cons.mpr ⟨h.behind, h.ordered⟩
  behind := by
    intro span hspan
    rcases List.mem_cons.mp hspan with rfl | hspan
    · exact Nat.le_refl _
    · have hle := h.behind span hspan
      rw [List.length_append] at hle
      omega
  filled := by
    intro earlier hearlier n hle hlt
    by_cases hn : n < (before ++ w).length
    · exact .inl ⟨_, List.mem_cons_self, hle, hn⟩
    · have hsooner : ∀ span ∈ earlier ++ [(before.length, (before ++ w).length)],
          span.2 ≤ (before ++ w).length := by
        intro span hspan
        rcases List.mem_append.mp hspan with hspan | hspan
        · have := hearlier span hspan
          rw [List.length_append]
          omega
        · rw [List.mem_singleton.mp hspan]
      rcases h.filled _ hsooner n (by omega) hlt with ⟨span, hspan, hin⟩ | hfill
      · exact .inl ⟨span, List.mem_cons_of_mem _ hspan, hin⟩
      · rw [List.append_assoc earlier] at hfill
        exact .inr hfill

end Charts

theorem extract_middle (before w s : List Char) :
    (before ++ w ++ s).extract before.length (before ++ w).length = w := by
  rw [List.extract_eq_take_drop, List.append_assoc, List.drop_left, List.length_append,
    Nat.add_sub_cancel_left, List.take_left]

theorem getElem?_of_singleton {before s : List Char} {c : Char} {n : Nat} (hle : before.length ≤ n)
    (hlt : n < (before ++ [c]).length) : (before ++ [c] ++ s)[n]? = some c := by
  obtain rfl : n = before.length := by
    rw [List.length_append, List.length_singleton] at hlt
    omega
  simp

namespace Covers

variable {p q : Place} {s : List Char} {ts : List Token}

theorem isSlice {before w : List Char} {k : Kind} (hp : p = Place.after {} before)
    (hvalue : k ≠ .pragmaValue) (s : List Char) :
    Token.IsSlice (before ++ w ++ s) ⟨k, String.ofList w, p⟩ (before.length, (before ++ w).length) where
  place := by
    rw [hp, List.append_assoc]
    exact Place.after_start before (w ++ s)
  bounds := by simp
  text := by
    intro _
    rw [extract_middle, String.toList_ofList]
  value := fun hk => absurd hk hvalue

/-- A cover of the text behind `before` shows where its tokens stand in the whole source. -/
theorem charts (h : Covers p s ts q) (before : List Char) (hp : p = Place.after {} before) :
    ∃ spans, Charts (before ++ s) before.length ts spans := by
  induction h generalizing before with
  | nil =>
    rw [List.append_nil]
    exact ⟨[], .nil before⟩
  | @blank p q c s ts hc h ih =>
    obtain ⟨spans, hspans⟩ := ih (before ++ [c]) (by rw [hp, Place.after_append])
    rw [← List.singleton_append, ← List.append_assoc]
    refine ⟨spans, hspans.skip ?_⟩
    intro earlier _ n hle hlt
    exact .blank (getElem?_of_singleton hle hlt) hc
  | @other p q c s ts hc h ih =>
    obtain ⟨spans, hspans⟩ := ih (before ++ [c]) (by rw [hp, Place.after_append])
    rw [← List.singleton_append, ← List.append_assoc]
    refine ⟨spans, hspans.skip ?_⟩
    intro earlier _ n hle hlt
    exact .other (getElem?_of_singleton hle hlt) hc
  | @comment p q w s ts hw h ih =>
    obtain ⟨spans, hspans⟩ := ih (before ++ w) (by rw [hp, Place.after_append])
    rw [← List.append_assoc]
    refine ⟨spans, hspans.skip ?_⟩
    intro earlier hearlier n hle hlt
    refine .comment ⟨hle, hlt⟩ (by rw [extract_middle, List.drop_left]; exact hw) ?_
    intro span hspan
    rcases List.mem_append.mp hspan with hspan | hspan
    · exact .inl (hearlier span hspan)
    · exact .inr (hspans.behind span hspan)
  | @token p q k w s ts hvalue heof hstring h ih =>
    obtain ⟨spans, hspans⟩ := ih (before ++ w) (by rw [hp, Place.after_append])
    rw [← List.append_assoc]
    exact ⟨_, hspans.cons (isSlice hp hvalue s)⟩
  | @value p q w s ts hrun h ih =>
    obtain ⟨spans, hspans⟩ := ih (before ++ w) (by rw [hp, Place.after_append])
    rw [← List.append_assoc]
    refine ⟨_, hspans.cons ⟨?_, by simp, by simp, ?_⟩⟩
    · rw [hp, List.append_assoc]
      exact Place.after_start before (w ++ s)
    · intro _
      rw [extract_middle, List.drop_left, String.toList_ofList]
      exact ⟨rfl, hrun⟩
  | @escaping p w hw =>
    refine ⟨[(before.length, (before ++ w).length)], ?_⟩
    have hnil := Charts.nil (before ++ w ++ [])
    rw [List.append_nil] at hnil
    have hslice := isSlice (w := w) (k := .stringLiteral) hp (by simp) []
    rw [← List.append_nil (before ++ w)] at hnil
    have hcons := Charts.cons (t := ⟨.stringLiteral, String.ofList w, p⟩) (by simpa using hnil) hslice
    simpa using hcons

theorem endsEscaping_cons {t : Token} (ht : t.kind = .stringLiteral → ¬ IsEscaping t.text.toList)
    (ts : List Token) : EndsEscaping (t :: ts) ↔ EndsEscaping ts := by
  cases ts with
  | nil =>
    have hnot : ¬ EndsEscaping [t] := by
      rintro ⟨u, hu, hkind, hescaping⟩
      obtain rfl : t = u := by simpa using hu
      exact ht hkind hescaping
    have hnot' : ¬ EndsEscaping [] := by
      rintro ⟨u, hu, -⟩
      simp at hu
    exact iff_of_false hnot hnot'
  | cons u ts =>
    unfold EndsEscaping
    rw [List.getLast?_cons_cons]

/-- Where the tokens leave the scanner: behind the text, or one place beyond it. -/
theorem stop (h : Covers p s ts q) :
    (EndsEscaping ts → q = (p.after s).beyond) ∧ (¬ EndsEscaping ts → q = p.after s) := by
  induction h with
  | nil =>
    refine ⟨?_, fun _ => rfl⟩
    rintro ⟨t, ht, -⟩
    simp at ht
  | blank hc h ih => exact ih
  | other hc h ih => exact ih
  | comment hw h ih =>
    rw [Place.after_append]
    exact ih
  | @token p q k w s ts hvalue heof hstring h ih =>
    rw [Place.after_append, endsEscaping_cons (by simpa using hstring)]
    exact ih
  | value hrun h ih =>
    rw [Place.after_append, endsEscaping_cons (by simp)]
    exact ih
  | @escaping p w hw =>
    refine ⟨fun _ => rfl, fun hnot => absurd ?_ hnot⟩
    exact ⟨_, rfl, rfl, by simpa using hw⟩

theorem kind_ne_eof (h : Covers p s ts q) : ∀ t ∈ ts, t.kind ≠ .eof := by
  induction h with
  | nil => simp
  | blank hc h ih => exact ih
  | other hc h ih => exact ih
  | comment hw h ih => exact ih
  | token hvalue heof hstring h ih => exact List.forall_mem_cons.mpr ⟨heof, ih⟩
  | value hrun h ih => exact List.forall_mem_cons.mpr ⟨by simp, ih⟩
  | escaping hw => simp

end Covers

/-! ## The tokens of a source -/

/-- Whether spans show that the tokens of a stream are slices of a source: the spans lie in
order and leave out only fillers, the token that marks the end is the only one of its class
and comes last, and it stands where the source ends, one column on if the source ends behind
an unpaired backslash in a string literal. -/
structure TokenStream.IsFaithful (source : List Char) (s : TokenStream) (spans : List (Nat × Nat)) :
    Prop where
  slices : List.Forall₂ (Token.IsSlice source) s.tokens spans
  ordered : spans.Pairwise fun a b => a.2 ≤ b.1
  filled : ∀ n < source.length,
    (∃ span ∈ spans, span.1 ≤ n ∧ n < span.2) ∨ IsFiller source spans n
  last : s.toList.getLast? = some (Token.eof s.stop)
  single : s.toList.filter (·.kind = .eof) = [Token.eof s.stop]
  stop_line : s.stop.line = (Place.ofOffset source source.length).line
  stop_column : ¬ EndsEscaping s.tokens →
    s.stop.column = (Place.ofOffset source source.length).column
  stop_beyond : EndsEscaping s.tokens →
    s.stop.column = (Place.ofOffset source source.length).column + 1

/-- The tokens of a source are slices of it, at the places where they stand. -/
theorem TokenStream.tokens_are_slices {source : String} {s : TokenStream}
    (h : TokenStream.ofSource? source = some s) :
    ∃ spans, s.IsFaithful source.toList spans := by
  have hcover : Covers {} source.toList s.tokens s.stop := Covers.of_scanWithin h
  obtain ⟨spans, hspans⟩ := hcover.charts [] rfl
  rw [List.nil_append] at hspans
  have hend : Place.after {} source.toList = Place.ofOffset source.toList source.toList.length := by
    have hafter := Place.after_start source.toList []
    rwa [List.append_nil] at hafter
  obtain ⟨hbeyond, hplain⟩ := hcover.stop
  rw [hend] at hbeyond hplain
  refine ⟨spans, hspans.slices, hspans.ordered, ?_, ?_, ?_, ?_, ?_, ?_⟩
  · intro n hn
    exact hspans.filled [] (by simp) n (Nat.zero_le n) hn
  · exact List.getLast?_concat
  · have hnone : s.tokens.filter (·.kind = .eof) = [] := by
      rw [List.filter_eq_nil_iff]
      intro t ht
      simpa using hcover.kind_ne_eof t ht
    rw [TokenStream.toList, List.filter_append, hnone]
    rfl
  · by_cases hescaping : EndsEscaping s.tokens
    · rw [hbeyond hescaping]
      rfl
    · rw [hplain hescaping]
  · intro hescaping
    rw [hplain hescaping]
  · intro hescaping
    rw [hbeyond hescaping]
    rfl

/-- A stream with a pragma, and a string literal that its source ends in. -/
def TokenStream.cutOff : TokenStream where
  tokens := [⟨.kwPragma, "pragma", ⟨0, 1, 1⟩⟩, ⟨.identifier, "s", ⟨7, 1, 8⟩⟩,
    ⟨.pragmaValue, "^1", ⟨9, 1, 10⟩⟩, ⟨.semicolon, ";", ⟨12, 1, 13⟩⟩,
    ⟨.stringLiteral, "\x22x\\", ⟨20, 2, 1⟩⟩]
  stop := ⟨24, 2, 5⟩

theorem TokenStream.cutOff_is_a_row_of_slices :
    TokenStream.ofSource? "pragma s ^1 ;#/*c*/\n\x22x\\" = some cutOff ∧
      ∃ spans, cutOff.IsFaithful "pragma s ^1 ;#/*c*/\n\x22x\\".toList spans := by
  have hscan : TokenStream.ofSource? "pragma s ^1 ;#/*c*/\n\x22x\\" = some cutOff := by
    decide +kernel
  exact ⟨hscan, TokenStream.tokens_are_slices hscan⟩

end SolidityInterface
