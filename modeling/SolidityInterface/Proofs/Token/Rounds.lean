import SolidityInterface.Proofs.Token.Lexing

/-
  What one round of the scanner can read, and what follows for the tokens of a source.
  A round reads nothing, one token that stands by itself, or the three tokens of a
  pragma (`Reads`). The name of a pragma is an identifier that need not be a word: it
  may be empty, or a keyword. So the tokens of a source are `Tidy`: a token is solid, and
  then one that can be a name is a word of its class, or it belongs to a pragma.
-/

namespace SolidityInterface

open Token (Kind)

/-- What a round from a character that is not blank can read. -/
inductive Reads (c : Cursor) : List Token → Cursor → Prop
  | skip {d : Cursor} : Reads c [] d
  | word {w : List Char} {d : Cursor} (hw : IsWord w)
      (hkind : Word.kind (String.ofList w) ≠ .kwPragma) :
      Reads c [c.token (Word.kind (String.ofList w)) w] d
  | literal {k : Kind} {w : List Char} {d : Cursor}
      (hk : k ∈ [.stringLiteral, .number, .hexNumber, .arrow, .operator]) : Reads c [c.token k w] d
  | punctuation {k : Kind} {ch : Char} {rest : List Char} {p : Place} (hrest : c.rest = ch :: rest)
      (hc : Lexeme.punctuation? ch = some k) : Reads c [c.token k [ch]] ⟨rest, p⟩
  | pragma {w name value : List Char} {d e f : Cursor}
      (hw : Word.kind (String.ofList w) = .kwPragma) (hp : Spells.IsPragma name value) :
      Reads c [c.token .kwPragma w, d.token .identifier name, e.token .pragmaValue value] f

theorem mem_of_mem_trim {c : Char} {s : List Char} (h : c ∈ Text.trim s) : c ∈ s := by
  rw [Text.trim, List.mem_reverse] at h
  have hmem := (List.dropWhile_suffix _).subset h
  rw [List.mem_reverse] at hmem
  exact (List.dropWhile_suffix _).subset hmem

theorem isPragma_of_takeWhile (s t : List Char) :
    Spells.IsPragma (Lexeme.word s) (Text.trim (t.takeWhile (· ≠ ';'))) where
  name_parts := List.all_takeWhile
  value_open := by
    intro h
    have hall : (t.takeWhile (· ≠ ';')).all (· ≠ ';') = true := List.all_takeWhile
    simpa using List.all_eq_true.mp hall _ (mem_of_mem_trim h)
  value_trimmed := Text.trim_trim _

theorem Word.isPart_of_isStart {c : Char} (h : isStart c = true) : isPart c = true := by
  simp only [isStart, isPart, Text.isAlphanumeric, Bool.or_eq_true] at *
  rcases h with h | h
  · exact .inl (.inl h)
  · exact .inr h

theorem isWord_word {ch : Char} (rest : List Char) (hstart : Word.isStart ch = true)
    (hdigit : Text.isDigit ch = false) : IsWord (Lexeme.word (ch :: rest)) :=
  ⟨ch, rest.takeWhile Word.isPart, List.takeWhile_cons_of_pos (Word.isPart_of_isStart hstart),
    hstart, hdigit, List.all_takeWhile⟩

theorem number_kind (s : List Char) :
    (Lexeme.number s).2 = .hexNumber ∨ (Lexeme.number s).2 = .number := by
  unfold Lexeme.number
  split
  · exact .inl rfl
  · exact .inl rfl
  · exact .inr rfl

/-- Every round does one of these. -/
theorem Cursor.read_reads (c : Cursor) : Reads c c.read.1 c.read.2 := by
  unfold read
  split
  · exact .skip
  · rename_i ch rest hrest
    split
    · exact .skip
    split
    · exact .literal (by simp)
    split
    · refine .literal ?_
      rcases number_kind c.rest with h | h <;> simp [h]
    split
    · rename_i hdigit hstart
      dsimp only
      split
      · rename_i hkind
        dsimp only [Cursor.pragma]
        rw [hkind]
        exact .pragma hkind (isPragma_of_takeWhile _ _)
      · rename_i hkind
        rw [hrest] at hkind ⊢
        exact .word (isWord_word rest hstart (by simpa using hdigit)) hkind
    split
    · exact .literal (by simp)
    split
    · exact .literal (by simp)
    split
    · rename_i hk
      simp only [Cursor.past, hrest, List.length_singleton, List.drop_one, List.tail_cons]
      exact .punctuation hrest hk
    · exact .skip

/-! ## Moving on -/

namespace Lexeme

theorem comment_ne_nil {s : List Char} (h : s.head? = some '/' ∨ s.head? = some '*') :
    comment ('/' :: s) ≠ [] := by
  cases s with
  | nil => simp at h
  | cons a s =>
    rcases h with h | h
    · obtain rfl : a = '/' := by simpa using h
      simp [comment, lineComment]
    · obtain rfl : a = '*' := by simpa using h
      simp [comment]

end Lexeme

namespace Cursor

theorem advance_rest (c : Cursor) : c.advance.rest = c.rest.tail := by
  unfold advance
  split <;> simp [*]

theorem past_suffix (c : Cursor) (text : List Char) : (c.past text).rest <:+ c.rest :=
  List.drop_suffix _ _

theorem past_moves {c : Cursor} {text : List Char} (h : text ≠ []) :
    (c.past text).rest <:+ c.rest.tail := by
  obtain ⟨a, text, rfl⟩ := List.exists_cons_of_ne_nil h
  rw [past_rest, List.length_cons, ← List.drop_one, Nat.add_comm, ← List.drop_drop]
  exact List.drop_suffix _ _

theorem pragma_suffix (c : Cursor) : c.pragma.2.rest <:+ c.rest := by
  dsimp only [pragma]
  refine (past_suffix _ _).trans ((past_suffix _ _).trans ?_)
  exact (past_suffix _ _).trans (past_suffix _ _)

theorem string_moves {c : Cursor} (h : c.rest ≠ []) : c.string.2.rest <:+ c.rest.tail := by
  unfold string
  split
  · exact absurd ‹_› h
  · dsimp only
    split
    · rw [advance_rest]
      exact (List.tail_suffix _).trans (past_moves (by simp))
    · exact past_moves (by simp)

/-- A round takes a character at least, or leaves the cursor where it is. -/
theorem read_moves (c : Cursor) : c.read.2.rest <:+ c.rest.tail ∨ c.read.2 = c := by
  unfold read
  split
  · exact .inr rfl
  · rename_i ch rest hrest
    split
    · rename_i hcomment
      simp only [Bool.and_eq_true, Bool.or_eq_true, decide_eq_true_eq] at hcomment
      refine .inl (past_moves ?_)
      rw [hrest, hcomment.1]
      exact Lexeme.comment_ne_nil hcomment.2
    split
    · exact .inl (string_moves (by simp [hrest]))
    split
    · -- A digit other than 0 to 9 starts an empty number, and the round stays where it is.
      by_cases hnil : (Lexeme.number c.rest).1 = []
      · right
        show c.past (Lexeme.number c.rest).1 = c
        rw [hnil]
        rfl
      · exact .inl (past_moves hnil)
    split
    · rename_i hstart
      have hne : Lexeme.word c.rest ≠ [] := by
        rw [hrest, Lexeme.word, List.takeWhile_cons_of_pos (Word.isPart_of_isStart hstart)]
        simp
      dsimp only
      split
      · exact .inl ((pragma_suffix _).trans (past_moves hne))
      · exact .inl (past_moves hne)
    split
    · exact .inl (past_moves (by simp))
    split
    · rename_i hoperator
      refine .inl (past_moves ?_)
      have hch : (Lexeme.isOperator ch || ch = '=') = true := by
        simp only [Bool.or_eq_true, Bool.and_eq_true] at hoperator ⊢
        exact hoperator.imp id And.left
      simp [hrest, Lexeme.operator, hch]
    split
    · exact .inl (past_moves (by simp))
    · exact .inl (past_moves (by simp))

theorem round_moves (c : Cursor) : c.round.2.rest <:+ c.rest.tail ∨ c.round.2 = c := by
  by_cases hspace : c.rest.takeWhile Char.isWhitespace = []
  · have hskip : c.skipSpace = c := by
      rw [skipSpace, hspace]
      rfl
    rw [round, hskip]
    exact c.read_moves
  · have hskip : c.skipSpace.rest <:+ c.rest.tail := past_moves hspace
    left
    rcases c.skipSpace.read_moves with h | h
    · exact h.trans ((List.tail_suffix _).trans hskip)
    · rw [round, h]
      exact hskip

theorem string_place (c : Cursor) (p : Place) :
    (Cursor.mk c.rest p).string.1 = c.string.1 ∧
      (Cursor.mk c.rest p).string.2.rest = c.string.2.rest := by
  obtain ⟨rest, q⟩ := c
  cases rest with
  | nil => exact ⟨rfl, rfl⟩
  | cons quote rest =>
    refine ⟨rfl, ?_⟩
    dsimp only [string]
    split
    · rw [advance_rest, advance_rest]
      rfl
    · rfl

/-- Where a cursor stands has no say in what a round reads and leaves. -/
theorem read_place (c : Cursor) (p : Place) :
    (Cursor.mk c.rest p).read.1.map Token.symbol = c.read.1.map Token.symbol ∧
      (Cursor.mk c.rest p).read.2.rest = c.read.2.rest := by
  unfold read
  dsimp only
  split
  · exact ⟨rfl, by simp [*]⟩
  split
  · exact ⟨rfl, rfl⟩
  split
  · obtain ⟨htext, hrest⟩ := c.string_place p
    simp only [List.map_cons, List.map_nil, token_symbol, htext, hrest, and_self]
  split
  · exact ⟨rfl, rfl⟩
  split
  · split <;> exact ⟨rfl, rfl⟩
  split
  · exact ⟨rfl, rfl⟩
  split
  · exact ⟨rfl, rfl⟩
  split <;> exact ⟨rfl, rfl⟩

theorem round_place (c : Cursor) (p : Place) :
    (Cursor.mk c.rest p).round.1.map Token.symbol = c.round.1.map Token.symbol ∧
      (Cursor.mk c.rest p).round.2.rest = c.round.2.rest := by
  have hspace : (Cursor.mk c.rest p).skipSpace = ⟨c.skipSpace.rest, (Cursor.mk c.rest p).skipSpace.place⟩ :=
    rfl
  rw [round, hspace]
  exact c.skipSpace.read_place _

end Cursor

/-! ## The tokens of a source -/

/-- Whether a token that can be a name, or the name of a built-in type, is a word of its
class. -/
def Token.Solid (t : Token) : Prop :=
  t.kind ≠ .kwPragma ∧
    (t.kind.isName = true ∨ t.kind = .elementary → IsWord t.text.toList ∧ Word.kind t.text = t.kind)

/-- Whether all tokens are solid but those of pragmas. -/
inductive Tidy : List Token → Prop
  | nil : Tidy []
  | solid {t : Token} {rest : List Token} (ht : t.Solid) (h : Tidy rest) : Tidy (t :: rest)
  | pragma {word name value : Token} {rest : List Token} (hword : word.symbol = (.kwPragma, "pragma"))
      (hname : name.kind = .identifier) (hvalue : value.kind = .pragmaValue)
      (hp : Spells.IsPragma name.text.toList value.text.toList) (h : Tidy rest) :
      Tidy (word :: name :: value :: rest)

theorem Word.kind_cases (w : String) :
    (w, kind w) ∈ keywords ∨ kind w = .elementary ∨ kind w = .identifier := by
  unfold kind
  split
  · rename_i k hk
    obtain ⟨l₁, l₂, hl, -⟩ := List.lookup_eq_some_iff.mp hk
    rw [hl]
    exact .inl (by simp)
  · split
    · exact .inr (.inl rfl)
    · exact .inr (.inr rfl)

/-- Classes that no word has. -/
theorem Word.kind_ne (w : String) : Word.kind w ≠ .pragmaValue ∧ Word.kind w ≠ .eof ∧
    Word.kind w ≠ .stringLiteral ∧ Word.kind w ≠ .operator := by
  rcases Word.kind_cases w with h | h | h
  · have hall : ∀ e ∈ Word.keywords, e.2 ≠ .pragmaValue ∧ e.2 ≠ .eof ∧ e.2 ≠ .stringLiteral ∧
        e.2 ≠ .operator := by
      decide
    exact hall _ h
  · simp [h]
  · simp [h]

theorem Word.eq_of_kind_eq_kwPragma {w : String} (h : kind w = .kwPragma) : w = "pragma" := by
  rcases kind_cases w with hw | hw | hw
  · have hall : ∀ e ∈ keywords, e.2 = .kwPragma → e.1 = "pragma" := by decide
    exact hall _ hw h
  · simp [h] at hw
  · simp [h] at hw

theorem Tidy.of_reads {c d : Cursor} {ts us : List Token} (h : Reads c ts d) (hus : Tidy us) :
    Tidy (ts ++ us) := by
  cases h with
  | skip => exact hus
  | word hw hkind =>
    refine .solid ⟨hkind, fun _ => ?_⟩ hus
    simpa [Cursor.token] using hw
  | literal hk =>
    refine .solid ?_ hus
    simp only [List.mem_cons, List.not_mem_nil, or_false] at hk
    rcases hk with rfl | rfl | rfl | rfl | rfl <;> simp [Token.Solid, Cursor.token, Kind.isName]
  | punctuation hrest hc =>
    refine .solid ?_ hus
    unfold Lexeme.punctuation? at hc
    split at hc <;> cases hc <;> simp [Token.Solid, Cursor.token, Kind.isName]
  | pragma hw hp =>
    have hword := Word.eq_of_kind_eq_kwPragma hw
    refine .pragma (by simp [hword]) rfl rfl ?_ hus
    simpa [Cursor.token] using hp

theorem Tidy.of_scanWithin {n : Nat} {c : Cursor} {s : TokenStream}
    (h : c.scanWithin n = some s) : Tidy s.tokens := by
  induction n generalizing c s with
  | zero =>
    simp only [Cursor.scanWithin] at h
    split at h
    · obtain rfl := by simpa using h
      exact .nil
    · simp at h
  | succ n ih =>
    simp only [Cursor.scanWithin] at h
    split at h
    · obtain rfl := by simpa using h
      exact .nil
    · obtain ⟨t, ht, rfl⟩ := Option.map_eq_some_iff.mp h
      exact .of_reads c.skipSpace.read_reads (ih ht)

/-- The tokens of a source are tidy. -/
theorem Tidy.of_ofSource? {source : String} {s : TokenStream}
    (h : TokenStream.ofSource? source = some s) : Tidy s.tokens := of_scanWithin h

end SolidityInterface
