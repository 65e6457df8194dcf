import SolidityInterface.Proofs.Token.Dividers
import SolidityInterface.Proofs.Token.Symbols

/-
  Comments between tokens. A comment is read like a blank wherever the scanner looks for a
  new token, and it looks for none inside a run of operators: there the slash that opens a
  comment goes on the run, and the text of the comment is read as tokens.

  1. A text ends outside of comments, string literals and pragmas if none of its pieces is
     cut off by its end (`EndsOutside`).
  2. Behind such a text two texts with the same symbols stay two texts with the same
     symbols, if they start with dividers and no operator touches them
     (`symbols?_append_congr`).
  3. If an operator does, a slash makes it longer and a blank does not
     (`symbols?_append_slash_ne`).
-/

namespace SolidityInterface

open Token (Kind)
open Lexeme

/-! ## The end of a text -/

/-- Whether the scanner comes to the end of a text outside of comments, string literals and
pragmas. -/
inductive EndsOutside : List Char → Prop
  | nil : EndsOutside []
  | blank {c : Char} {s : List Char} (hc : c.isWhitespace = true) (h : EndsOutside s) :
      EndsOutside (c :: s)
  | piece {c : Char} {s : List Char} (hc : c.isWhitespace = false) (hcut : ¬ IsCut (c :: s))
      (h : EndsOutside (Cursor.mk (c :: s) {}).read.2.rest) : EndsOutside (c :: s)

/-- Whether the last token of a text is an operator that ends where the text ends. -/
def EndsInOperator (p : Place) (s : List Char) : Prop :=
  ∃ stream t, (Cursor.mk s p).scan? = some stream ∧ stream.tokens.getLast? = some t ∧
    t.kind = .operator ∧ t.place.offset + t.text.length = p.offset + s.length

/-- Whether a text is a comment with its end: a block up to its first `*/`, or a line with
its line feed. -/
inductive IsWholeComment : List Char → Prop
  | block {body : List Char} (hbody : ¬ ['*', '/'] <:+: body) :
      IsWholeComment ('/' :: '*' :: (body ++ ['*', '/']))
  | line {body : List Char} (hbody : '\n' ∉ body) : IsWholeComment ('/' :: '/' :: (body ++ ['\n']))

theorem Place.after_offset (p : Place) (w : List Char) : (p.after w).offset = p.offset + w.length := by
  induction w generalizing p with
  | nil => rfl
  | cons c w ih =>
    have hnext : (p.next c).offset = p.offset + 1 := by
      unfold Place.next
      split <;> rfl
    rw [Place.after, ih, hnext, List.length_cons]
    omega

namespace Reading

variable {p q : Place} {s after : List Char} {ts : List Token}

/-- A piece is read alike wherever its text starts. -/
theorem exists_of_read (p : Place) (c : Char) (s : List Char) :
    ∃ ts q, Reading p (c :: s) ts (Cursor.mk (c :: s) {}).read.2.rest q := by
  obtain ⟨ts, after, q, h⟩ := Cursor.exists_reading p c s
  have hrest := ((Cursor.mk (c :: s) p).read_place {}).2
  rw [Cursor.read_eq_of_reading h] at hrest
  change (Cursor.mk (c :: s) {}).read.2.rest = after at hrest
  exact ⟨ts, q, hrest ▸ h⟩

/-- Places count the characters of all pieces but of a literal that the text is cut off in. -/
theorem offset_eq (h : Reading p s ts after q) (hcut : ¬ IsCut s) :
    q.offset + after.length = p.offset + s.length := by
  cases h with
  | escapingString hq hbody => exact absurd (.escaping hq hbody) hcut
  | _ =>
    simp only [Place.after_offset, List.length_append, List.length_cons, List.length_nil]
    omega

/-- The piece that an operator comes from is its run and nothing else. -/
theorem of_operator (h : Reading p s ts after q) {t : Token} (ht : t ∈ ts) (hk : t.kind = .operator) :
    ∃ ch w, s = ch :: (w ++ after) ∧ ts = [⟨.operator, String.ofList (ch :: w), p⟩] ∧
      (isOperator ch = true ∨ ch = '=' ∧ (w ++ after).head? = some '=') ∧
      IsRun isOperatorPart w after ∧
      (ch = '/' → (w ++ after).head? ≠ some '/' ∧ (w ++ after).head? ≠ some '*') := by
  cases h with
  | @operator ch w after hch hrun hslash => exact ⟨ch, w, rfl, rfl, hch, hrun, hslash⟩
  | @number ch k w after hch hdigit hw =>
    have hkind := number_kind (w ++ after)
    simp_all
  | @word w after hw hkind hrun =>
    have hne := (Word.kind_ne (String.ofList w)).2.2.2
    simp_all
  | pragma hw hkind hrun htext =>
    simp only [List.mem_cons, List.not_mem_nil, or_false] at ht
    rcases ht with rfl | rfl | rfl <;> simp at hk
  | @punctuation ch k after hpunct heq =>
    obtain rfl : k = .operator := by simp_all
    unfold punctuation? at hpunct
    split at hpunct <;> simp at hpunct
  | _ => simp_all

end Reading

/-! ## Operators at the end -/

theorem endsInOperator_nil (p : Place) : ¬ EndsInOperator p [] := by
  rintro ⟨stream, t, hscan, hlast, -⟩
  obtain rfl : TokenStream.mk [] p = stream := Option.some.inj hscan
  simp at hlast

theorem endsInOperator_blank {p : Place} {c : Char} {s : List Char} (hc : c.isWhitespace = true) :
    EndsInOperator p (c :: s) ↔ EndsInOperator (p.next c) s := by
  have hoffset := Place.after_offset p [c]
  change (p.next c).offset = _ at hoffset
  simp only [EndsInOperator, Cursor.scan?_blank hc, hoffset, List.length_cons, List.length_nil]
  simp only [Nat.add_assoc, Nat.add_comm 1]

/-- A text ends in an operator just if its first piece is one and takes all of it, or if
what is left behind the piece ends in one. -/
theorem endsInOperator_piece {p q : Place} {c : Char} {s after : List Char} {ts : List Token}
    (hc : c.isWhitespace = false) (h : Reading p (c :: s) ts after q) (hcut : ¬ IsCut (c :: s)) :
    EndsInOperator p (c :: s) ↔
      (after = [] ∧ ∃ t ∈ ts, t.kind = .operator) ∨ EndsInOperator q after := by
  have hoffset := h.offset_eq hcut
  have hscan := Cursor.scan?_of_reading hc h
  constructor
  · rintro ⟨stream, t, hstream, hlast, hkind, hend⟩
    rw [hscan] at hstream
    obtain ⟨rest, hrest, rfl⟩ := Option.map_eq_some_iff.mp hstream
    rw [List.getLast?_append] at hlast
    cases hus : rest.tokens.getLast? with
    | some u =>
      rw [hus] at hlast
      obtain rfl : u = t := by simpa using hlast
      exact .inr ⟨rest, u, hrest, hus, hkind, by rw [hend, hoffset]⟩
    | none =>
      rw [hus, Option.none_or] at hlast
      have hmem := List.mem_of_getLast? hlast
      obtain ⟨ch, w, hs, rfl, -⟩ := h.of_operator hmem hkind
      obtain rfl : Token.mk .operator (String.ofList (ch :: w)) p = t := by simpa using hlast
      -- The run ends where the text ends, so nothing is left.
      have hlength : (ch :: w).length = (ch :: (w ++ after)).length := by
        rw [hs, String.length_ofList] at hend
        exact Nat.add_left_cancel hend
      refine .inl ⟨?_, _, hmem, hkind⟩
      simpa using hlength
  · rintro (⟨rfl, t, ht, hkind⟩ | ⟨rest, t, hrest, hlast, hkind, hend⟩)
    · obtain ⟨ch, w, hs, rfl, -⟩ := h.of_operator ht hkind
      refine ⟨_, ⟨.operator, String.ofList (ch :: w), p⟩, hscan, rfl, rfl, ?_⟩
      rw [hs, String.length_ofList, List.append_nil]
    · rw [hrest] at hscan
      refine ⟨_, t, hscan, ?_, hkind, by rw [hend, hoffset]⟩
      rw [List.getLast?_append, hlast]
      rfl

/-! ## Texts behind a text -/

/-- Texts with the same symbols may stand for each other behind a text that no operator
ends. -/
theorem symbols?_append_congr {s u v : List Char} (h : EndsOutside s) (hu : SetsApart u)
    (hv : SetsApart v) (huv : symbols? u = symbols? v) {p : Place} (hop : ¬ EndsInOperator p s) :
    symbols? (s ++ u) = symbols? (s ++ v) := by
  induction h generalizing p with
  | nil => exact huv
  | @blank c s hc h ih =>
    rw [endsInOperator_blank hc] at hop
    rw [List.cons_append, List.cons_append, symbols?_blank hc, symbols?_blank hc, ih hop]
  | @piece c s hc hcut h ih =>
    obtain ⟨ts, q, hr⟩ := Reading.exists_of_read p c s
    rw [endsInOperator_piece hc hr hcut, not_or] at hop
    obtain ⟨hpiece, hrest⟩ := hop
    have happend : ∀ {t : List Char}, SetsApart t → symbols? (c :: s ++ t) =
        (symbols? ((Cursor.mk (c :: s) {}).read.2.rest ++ t)).map (ts.map Token.symbol ++ ·) := by
      intro t ht
      refine symbols?_of_reading hc (hr.append hcut ht ?_)
      intro hafter _ t ht hkind
      exact hpiece ⟨hafter, t, ht, hkind⟩
    rw [happend hu, happend hv, ih hrest]

/-- A slash behind a run of operators goes on it. -/
theorem Reading.lengthen {ch : Char} {w : List Char}
    (hch : isOperator ch = true ∨ ch = '=' ∧ w.head? = some '=') (hw : w.all isOperatorPart = true)
    (hslash : ch = '/' → w.head? ≠ some '/' ∧ w.head? ≠ some '*')
    (hlast : (ch :: w).getLast? ≠ some '/') (p : Place) (u : List Char) :
    ∃ w' after q, w' ≠ [] ∧
      Reading p (ch :: (w ++ '/' :: u)) [⟨.operator, String.ofList (ch :: (w ++ w')), p⟩] after q := by
  have hrun := IsRun.of_takeWhile isOperatorPart ('/' :: u)
  have hne : ('/' :: u).takeWhile isOperatorPart ≠ [] := by
    rw [List.takeWhile_cons_of_pos (by decide)]
    simp
  have hsplit : '/' :: u = ('/' :: u).takeWhile isOperatorPart ++ ('/' :: u).dropWhile isOperatorPart :=
    List.takeWhile_append_dropWhile.symm
  generalize ('/' :: u).takeWhile isOperatorPart = w' at hrun hne hsplit
  generalize ('/' :: u).dropWhile isOperatorPart = after at hrun hsplit
  refine ⟨w', after, p.after (ch :: (w ++ w')), hne, ?_⟩
  rw [hsplit, ← List.append_assoc]
  refine .operator ?_ ⟨?_, hrun.2⟩ ?_
  · refine hch.imp_right ?_
    rintro ⟨rfl, hhead⟩
    rw [List.append_assoc, List.head?_append, hhead]
    exact ⟨rfl, rfl⟩
  · rw [List.all_append, hw, hrun.1, Bool.and_self]
  · rintro rfl
    -- A slash alone would be the end of the text.
    cases w with
    | nil => exact absurd rfl hlast
    | cons d w => exact hslash rfl

/-- Behind an operator a slash and a blank are not read alike, whatever follows them. -/
theorem symbols?_append_slash_ne {s : List Char} (u v : List Char) (h : EndsOutside s) {p : Place}
    (hop : EndsInOperator p s) (hlast : s.getLast? ≠ some '/') (ss : List Symbol)
    (hss : symbols? (s ++ ' ' :: v) = some ss) : symbols? (s ++ '/' :: u) ≠ some ss := by
  have hblank : ∀ t, SetsApart (' ' :: t) := setsApart_cons rfl
  have hslash : ∀ t, SetsApart ('/' :: t) := setsApart_cons rfl
  induction h generalizing p ss with
  | nil => exact absurd hop (endsInOperator_nil p)
  | @blank c s hc h ih =>
    rw [endsInOperator_blank hc] at hop
    rw [List.cons_append, symbols?_blank hc] at hss ⊢
    refine ih hop ?_ ss hss
    cases s with
    | nil => simp
    | cons d s => rwa [List.getLast?_cons_cons] at hlast
  | @piece c s hc hcut h ih =>
    obtain ⟨ts, q, hr⟩ := Reading.exists_of_read p c s
    generalize (Cursor.mk (c :: s) {}).read.2.rest = after at hr ih
    rw [List.cons_append] at hss ⊢
    rcases (endsInOperator_piece hc hr hcut).mp hop with ⟨rfl, t, ht, hkind⟩ | hrest
    · obtain ⟨ch, w, hs, rfl, hch, hrun, hstart⟩ := hr.of_operator ht hkind
      rw [List.append_nil] at hs hch hstart
      have hread := hr.append hcut (hblank v) (fun _ hpart => absurd hpart (by simp; decide))
      rw [List.cons_append, List.nil_append] at hread
      obtain ⟨rest, -, rfl⟩ := Option.map_eq_some_iff.mp ((symbols?_of_reading hc hread).symm.trans hss)
      obtain ⟨rfl, rfl⟩ := List.cons.inj hs
      obtain ⟨w', after, q', hne, hlonger⟩ := Reading.lengthen hch hrun.1 hstart hlast p u
      rw [symbols?_of_reading hc hlonger]
      intro hsame
      obtain ⟨rest', -, hrest'⟩ := Option.map_eq_some_iff.mp hsame
      have htext := congrArg Prod.snd (List.cons.inj hrest').1
      change String.ofList (c :: (s ++ w')) = String.ofList (c :: s) at htext
      rw [String.ofList_inj] at htext
      simp [hne] at htext
    · have hne : after ≠ [] := by
        rintro rfl
        exact endsInOperator_nil q hrest
      have hmore : ∀ {t : List Char}, SetsApart t →
          symbols? (c :: (s ++ t)) = (symbols? (after ++ t)).map (ts.map Token.symbol ++ ·) := by
        intro t ht
        exact symbols?_of_reading hc (hr.append hcut ht fun hafter => absurd hafter hne)
      rw [hmore (hblank v)] at hss
      obtain ⟨rest, hss', rfl⟩ := Option.map_eq_some_iff.mp hss
      have hlast' : after.getLast? ≠ some '/' := by
        obtain ⟨w, hw⟩ := hr.suffix
        rwa [← hw, List.getLast?_append_of_ne_nil _ hne] at hlast
      rw [hmore (hslash u)]
      intro hsame
      obtain ⟨rest', hrest', heq⟩ := Option.map_eq_some_iff.mp hsame
      rw [List.append_cancel_left heq] at hrest'
      exact ih hrest hlast' rest hss' hrest'

/-! ## Comments -/

/-- A comment at the front of a text has no symbols. -/
theorem symbols?_comment {w : List Char} (hw : IsWholeComment w) (s : List Char) :
    symbols? (w ++ s) = symbols? s := by
  cases hw with
  | @block body hbody =>
    have hcomment : IsComment _ s := .block hbody
    have hread := Reading.comment (p := {}) hcomment
    rw [List.cons_append] at hread ⊢
    rw [symbols?_of_reading (by decide) hread, List.map_nil]
    exact Option.map_id'
  | @line body hbody =>
    have hrun : IsRun (· ≠ '\n') body ('\n' :: s) := by
      refine ⟨List.all_eq_true.mpr ?_, by simp⟩
      intro c hc
      exact decide_eq_true fun heq => hbody (heq ▸ hc)
    have hread := Reading.comment (p := {}) (IsComment.line hrun)
    rw [List.cons_append, List.cons_append] at hread
    rw [List.cons_append, List.cons_append, List.append_assoc, List.singleton_append,
      symbols?_of_reading (by decide) hread, symbols?_blank (by decide), List.map_nil]
    exact Option.map_id'

theorem IsWholeComment.exists_cons {w : List Char} (hw : IsWholeComment w) : ∃ u, w = '/' :: u := by
  cases hw with
  | block => exact ⟨_, rfl⟩
  | line => exact ⟨_, rfl⟩

/-- A comment behind a text counts as a blank just if no operator touches it: behind an
operator the symbols are never those with a blank. -/
theorem TokenStream.comment_is_a_blank_unless_behind_operator {s₁ c : String} (s₂ : String)
    (hs₁ : EndsOutside s₁.toList) (hlast : s₁.toList.getLast? ≠ some '/')
    (hc : IsWholeComment c.toList) :
    (¬ EndsInOperator {} s₁.toList →
      (ofSource? (s₁ ++ c ++ s₂)).map symbols = (ofSource? (s₁ ++ " " ++ s₂)).map symbols) ∧
    (EndsInOperator {} s₁.toList → ∀ s, ofSource? (s₁ ++ " " ++ s₂) = some s →
      (ofSource? (s₁ ++ c ++ s₂)).map symbols ≠ some s.symbols) := by
  have hcomment : (ofSource? (s₁ ++ c ++ s₂)).map symbols
      = symbols? (s₁.toList ++ (c.toList ++ s₂.toList)) := by
    rw [ofSource?, String.toList_append, String.toList_append, List.append_assoc]
    rfl
  have hblank : (ofSource? (s₁ ++ " " ++ s₂)).map symbols = symbols? (s₁.toList ++ ' ' :: s₂.toList) := by
    rw [ofSource?, String.toList_append, String.toList_append, List.append_assoc]
    rfl
  obtain ⟨u, hu⟩ := hc.exists_cons
  rw [hcomment]
  constructor
  · intro hop
    rw [hblank]
    refine symbols?_append_congr hs₁ ?_ (setsApart_cons (by decide +kernel) _) ?_ hop
    · rw [hu]
      exact setsApart_cons (by decide +kernel) _
    · rw [symbols?_comment hc, symbols?_blank (by decide)]
  · intro hop s hs
    rw [hs] at hblank
    rw [hu]
    exact symbols?_append_slash_ne _ s₂.toList hs₁ hop hlast s.symbols hblank.symm

/-- What starts like no comment, no string literal and no pragma is not cut off. -/
theorem not_isCut_cons {c : Char} (hslash : c ≠ '/') (hquote : ¬ IsQuote c) (hpragma : c ≠ 'p')
    (s : List Char) : ¬ IsCut (c :: s) := by
  intro h
  generalize htext : c :: s = text at h
  cases h with
  | lineComment => exact hslash (List.cons.inj htext).1
  | blockComment => exact hslash (List.cons.inj htext).1
  | string hq => exact hquote ((List.cons.inj htext).1 ▸ hq)
  | pragma => exact hpragma (List.cons.inj htext).1

theorem endsOutside_word : EndsOutside "a".toList :=
  .piece (by decide) (not_isCut_cons (by decide) (by unfold IsQuote; decide) (by decide) _) .nil

theorem endsOutside_operator : EndsOutside "a+".toList := by
  refine .piece (by decide) (not_isCut_cons (by decide) (by unfold IsQuote; decide) (by decide) _) ?_
  exact .piece (by decide) (not_isCut_cons (by decide) (by unfold IsQuote; decide) (by decide) _) .nil

theorem isWholeComment_block : IsWholeComment "/*x*/".toList := by
  show IsWholeComment ('/' :: '*' :: (['x'] ++ ['*', '/']))
  exact .block (by decide)

theorem TokenStream.comment_behind_word_is_a_blank :
    (ofSource? ("a" ++ "/*x*/" ++ "b")).map symbols = (ofSource? ("a" ++ " " ++ "b")).map symbols := by
  refine (comment_is_a_blank_unless_behind_operator "b" endsOutside_word (by decide)
    isWholeComment_block).1 ?_
  rintro ⟨s, t, hscan, hlast, hkind, -⟩
  have hword : (Cursor.mk "a".toList {}).scan? = some ⟨[⟨.identifier, "a", {}⟩], ⟨1, 1, 2⟩⟩ := by
    decide +kernel
  obtain rfl := Option.some.inj (hword.symm.trans hscan)
  obtain rfl : Token.mk .identifier "a" {} = t := Option.some.inj hlast
  simp at hkind

/-- An operator takes the slash of a comment, whose text is then read as tokens. -/
theorem TokenStream.operator_takes_the_slash_of_a_comment :
    EndsOutside "a+".toList ∧ "a+".toList.getLast? ≠ some '/' ∧ IsWholeComment "/*x*/".toList ∧
      (ofSource? ("a+" ++ " " ++ "b")).map symbols
        = some [(.identifier, "a"), (.operator, "+"), (.identifier, "b")] ∧
      (ofSource? ("a+" ++ "/*x*/" ++ "b")).map symbols
        = some [(.identifier, "a"), (.operator, "+/"), (.star, "*"), (.identifier, "x"),
            (.star, "*"), (.operator, "/"), (.identifier, "b")] := by
  refine ⟨endsOutside_operator, by decide, isWholeComment_block, ?_, ?_⟩
  · decide +kernel
  · decide +kernel

end SolidityInterface
