import SolidityInterface.Proofs.Declaration.Printed

/-
  The texts of declarations are read as their symbols. A text is put together from
  pieces on one line. A piece is `Closed` if it is read as some symbols whatever follows,
  and `Spelled` if this holds as long as nothing follows that could belong to a word.
-/

namespace SolidityInterface

open Token (Kind)

/-- Whether a text on one line is read as some symbols, unless a word runs on. -/
structure Spelled (w : String) (ss : List Symbol) : Prop where
  line : '\n' ∉ w.toList
  spells : ∀ (cs : List Char) (ts : List Symbol), (∀ c ∈ cs.head?, Word.isPart c = false) →
    Spells cs ts → Spells (w.toList ++ cs) (ss ++ ts)

/-- Whether a text on one line is read as some symbols, whatever follows. -/
structure Closed (w : String) (ss : List Symbol) : Prop where
  line : '\n' ∉ w.toList
  spells : ∀ (cs : List Char) (ts : List Symbol), Spells cs ts → Spells (w.toList ++ cs) (ss ++ ts)

/-- Whether no word can run on into a text. -/
def Divides (w : String) : Prop := ∃ c rest, w.toList = c :: rest ∧ Word.isPart c = false

namespace Closed

variable {v w : String} {ss ts : List Symbol}

theorem spelled (h : Closed w ss) : Spelled w ss := ⟨h.line, fun cs ts _ => h.spells cs ts⟩

theorem empty : Closed "" [] := ⟨by simp, fun _ _ h => h⟩

theorem append (hv : Closed v ss) (hw : Closed w ts) : Closed (v ++ w) (ss ++ ts) where
  line := by simp [hv.line, hw.line]
  spells cs us h := by
    rw [String.toList_append, List.append_assoc, List.append_assoc]
    exact hv.spells _ _ (hw.spells _ _ h)

theorem append_spelled (hv : Closed v ss) (hw : Spelled w ts) : Spelled (v ++ w) (ss ++ ts) where
  line := by simp [hv.line, hw.line]
  spells cs us hcs h := by
    rw [String.toList_append, List.append_assoc, List.append_assoc]
    exact hv.spells _ _ (hw.spells _ _ hcs h)

/-- Blanks and characters that are tokens of their own close a text. -/
theorem of_chars {w : String} {ss : List Symbol}
    (hw : w.toList.all (fun c => c = ' ' || (Lexeme.punctuation? c).isSome && c ≠ '=') = true)
    (hss : w.toList.filterMap (fun c => (Lexeme.punctuation? c).map (·, String.ofList [c])) = ss) :
    Closed w ss where
  line h := by
    have hline := List.all_eq_true.mp hw _ h
    simp [Lexeme.punctuation?] at hline
  spells cs ts h := by
    subst hss
    generalize w.toList = l at hw
    induction l with
    | nil => exact h
    | cons c l ih =>
      simp only [List.all_cons, Bool.and_eq_true, Bool.or_eq_true, decide_eq_true_eq] at hw
      obtain ⟨hc, hl⟩ := hw
      have hrest := ih (by simpa using hl)
      rcases hc with rfl | ⟨hsome, hne⟩
      · exact Spells.blank (by decide) hrest
      · obtain ⟨k, hk⟩ := Option.isSome_iff_exists.mp hsome
        simpa [hk] using Spells.punctuation hk hne hrest

end Closed

namespace Spelled

variable {v w : String} {ss ts : List Symbol}

theorem append_of_divides (hv : Spelled v ss) (hw : Spelled w ts) (hdiv : Divides w) :
    Spelled (v ++ w) (ss ++ ts) where
  line := by simp [hv.line, hw.line]
  spells cs us hcs h := by
    obtain ⟨c, rest, hc, hpart⟩ := hdiv
    rw [String.toList_append, List.append_assoc, List.append_assoc]
    refine hv.spells _ _ ?_ (hw.spells _ _ hcs h)
    rw [hc]
    exact Cursor.head_stops hpart _

theorem close (hv : Spelled v ss) (hw : Closed w ts) (hdiv : Divides w) :
    Closed (v ++ w) (ss ++ ts) where
  line := by simp [hv.line, hw.line]
  spells cs us h := by
    obtain ⟨c, rest, hc, hpart⟩ := hdiv
    rw [String.toList_append, List.append_assoc, List.append_assoc]
    refine hv.spells _ _ ?_ (hw.spells _ _ h)
    rw [hc]
    exact Cursor.head_stops hpart _

theorem word (hw : IsWord w.toList) (hkind : Word.kind w ≠ .kwPragma) :
    Spelled w [Symbol.word w] where
  line h := by
    obtain ⟨c, rest, -, -, -, hall⟩ := hw
    have hpart := List.all_eq_true.mp hall _ h
    exact absurd hpart (by decide)
  spells cs ts hcs h := by
    have hspells := Spells.word hw (by simpa using hkind) hcs h
    rw [String.ofList_toList] at hspells
    exact hspells

theorem name {n : String} (hn : IsName n) : Spelled n [Symbol.word n] := by
  refine word hn.1 ?_
  intro h
  have hname := hn.2
  simp [h, Kind.isName] at hname

/-- A keyword with a blank behind it. -/
theorem keyword (v : String) (hw : IsWord w.toList) (hkind : Word.kind w ≠ .kwPragma)
    (hv : v = w ++ " ") : Closed v [Symbol.word w] := by
  rw [hv]
  exact (word hw hkind).close (.of_chars (by decide) rfl) ⟨' ', [], rfl, rfl⟩

theorem append_empty (h : Spelled w ss) : Spelled (w ++ "") (ss ++ []) := by
  rw [String.append_empty, List.append_nil]
  exact h

/-! ## Lists -/

/-- Words behind a text, each with a blank before it. -/
theorem words (hv : Spelled v ss) {ws : List String}
    (hws : ∀ w ∈ ws, IsWord w.toList ∧ Word.kind w ≠ .kwPragma) :
    Spelled (" ".intercalate (v :: ws)) (ss ++ ws.map Symbol.word) := by
  induction ws generalizing v ss with
  | nil => simpa using hv
  | cons w ws ih =>
    obtain ⟨hword, hkind⟩ := hws w (by simp)
    have hrest := ih (word hword hkind) fun u hu => hws u (by simp [hu])
    rw [String.intercalate_cons_cons, String.append_assoc]
    have hblank : Closed " " [] := .of_chars (by decide) rfl
    exact hv.append_of_divides (hblank.append_spelled hrest)
      ⟨' ', _, by rw [String.toList_append]; rfl, rfl⟩

theorem commas {α : Type} {text : α → String} {symbols : α → List Symbol} {items : List α}
    (hitems : ∀ a ∈ items, Spelled (text a) (symbols a)) :
    Spelled (", ".intercalate (items.map text)) (commaSeparated (items.map symbols)) := by
  induction items with
  | nil => exact Closed.empty.spelled
  | cons a items ih =>
    have ha := hitems a (by simp)
    have hrest := ih fun b hb => hitems b (by simp [hb])
    cases items with
    | nil => simpa [commaSeparated] using ha
    | cons b items =>
      simp only [List.map_cons] at hrest ⊢
      rw [String.intercalate_cons_cons, String.append_assoc, commaSeparated]
      · have hcomma : Closed ", " [(.comma, ",")] := .of_chars (by decide) rfl
        exact ha.append_of_divides (hcomma.append_spelled hrest)
          ⟨',', _, by rw [String.toList_append]; rfl, rfl⟩
      · simp

/-! ## Types and variables -/

theorem dottedName {path : DottedName} (hne : path ≠ []) (hpath : ∀ n ∈ path, IsName n) :
    Spelled path.render path.symbols := by
  induction path with
  | nil => exact absurd rfl hne
  | cons n path ih =>
    have hn := name (hpath n (by simp))
    cases path with
    | nil => simpa [DottedName.render, DottedName.symbols] using hn
    | cons m path =>
      have hrest := ih (by simp) fun k hk => hpath k (by simp [hk])
      have hdot : Closed "." [(.dot, ".")] := .of_chars (by decide) rfl
      have happend := hn.append_of_divides (hdot.append_spelled hrest)
          ⟨'.', _, by rw [String.toList_append]; rfl, rfl⟩
      rw [DottedName.render, String.intercalate_cons_cons, String.append_assoc]
      exact happend

theorem brackets {length : String} (h : isInline length = true) :
    Closed ("[" ++ length ++ "]") ((.lbracket, "[") :: (inlineSymbols length ++ [(.rbracket, "]")])) where
  line := by
    simp only [isInline, Bool.and_eq_true] at h
    simpa using h.2
  spells cs ts hcs := by
    have hspells := Spells.punctuation (c := '[') rfl (by decide) (Spells.inline h hcs)
    simpa using hspells

theorem typeName {t : TypeName} (ht : t.Printable) : Spelled t.render t.symbols := by
  induction t with
  | elementary n =>
    rw [TypeName.symbols]
    split
    · rename_i hn
      subst hn
      have haddress : Spelled "address" [Symbol.word "address"] := word (by decide) (by decide)
      have hwords : ∀ w ∈ ["payable"], IsWord w.toList ∧ Word.kind w ≠ .kwPragma := by decide
      exact haddress.words hwords
    · rename_i hn
      obtain ⟨hword, hkind⟩ := ht.resolve_left hn
      exact word hword (by rw [TypeName.render, hkind]; simp)
  | named path => exact dottedName ht.1 ht.2
  | array base length ih =>
    have hbrackets := brackets ht.2.2
    have hrender : (TypeName.array base length).render
        = base.render ++ ("[" ++ length.getD "" ++ "]") := by
      simp [TypeName.render, String.append_assoc]
    rw [hrender, TypeName.symbols]
    exact ((ih ht.1).close hbrackets ⟨'[', _, by simp; rfl, rfl⟩).spelled
  | mapping key value => exact ht.elim

theorem words_of_printable {v : Variable} (hv : v.Printable) :
    ∀ w ∈ v.words, IsWord w.toList ∧ Word.kind w ≠ .kwPragma := by
  intro w hw
  rcases List.mem_append.mp hw with h | h
  · obtain ⟨l, hl, rfl⟩ : ∃ l, v.location = some l ∧ l.word = w := by simpa using h
    cases l with
    | other w => exact absurd hl (hv.location w)
    | storage => decide
    | memory => decide
    | calldata => decide
  · have hname := hv.name w (by simpa using h)
    refine ⟨hname.1, ?_⟩
    intro hk
    have := hname.2
    simp [hk, Kind.isName] at this

theorem parameter {v : Variable} (hv : v.Printable) : Spelled v.render v.symbols :=
  (typeName hv.type).words (words_of_printable hv)

/-! ## Declarations -/

theorem enum {d : EnumDecl} (hd : d.Printable) : Closed d.render d.symbols := by
  have hkeyword : Closed "enum " [Symbol.word "enum"] :=
    keyword "enum " (by decide) (by decide) (by decide)
  have hopen : Closed " \x7b " [(.lbrace, "\x7b")] := .of_chars (by decide) rfl
  have hclose : Closed " \x7d" [(.rbrace, "\x7d")] := .of_chars (by decide) rfl
  have hmembers : Spelled (", ".intercalate d.members)
      (commaSeparated (d.members.map fun n => [Symbol.word n])) := by
    have hcommas : Spelled (", ".intercalate (d.members.map id)) _ :=
      commas fun n hn => name (hd.members n hn)
    rwa [List.map_id] at hcommas
  have hheader := (hkeyword.append_spelled (name hd.name)).close hopen ⟨' ', _, rfl, rfl⟩
  exact (hheader.append_spelled hmembers).close hclose ⟨' ', _, rfl, rfl⟩

theorem mutability (m : Option StateMutability) (hv : Spelled v ss) :
    Spelled (v ++ match m with | some m => " " ++ m.word | none => "")
      (ss ++ FunctionDecl.mutabilitySymbols m) := by
  cases m with
  | none => exact hv.append_empty
  | some m =>
    have hblank : Closed " " [] := .of_chars (by decide) rfl
    have hword : Spelled m.word [Symbol.word m.word] := by
      cases m <;> exact word (by decide) (by decide)
    exact hv.append_of_divides (hblank.append_spelled hword)
      ⟨' ', _, by rw [String.toList_append]; rfl, rfl⟩

theorem results {vs : List Variable} (hvs : ∀ v ∈ vs, v.Printable) (hv : Spelled v ss) :
    Spelled (v ++ if vs.isEmpty then "" else " returns (" ++ ", ".intercalate (vs.map (·.render)) ++ ")")
      (ss ++ FunctionDecl.resultSymbols vs) := by
  cases vs with
  | nil => exact hv.append_empty
  | cons w vs =>
    have hreturns : Closed " returns (" [Symbol.word "returns", (.lparen, "(")] := by
      have hblank : Closed " " [] := .of_chars (by decide) rfl
      have hkeyword : Closed "returns " [Symbol.word "returns"] :=
        keyword "returns " (by decide) (by decide) (by decide)
      have hparen : Closed "(" [(.lparen, "(")] := .of_chars (by decide) rfl
      exact hblank.append (hkeyword.append hparen)
    have hparen : Closed ")" [(.rparen, ")")] := .of_chars (by decide) rfl
    have hlist := commas fun u hu => parameter (hvs u hu)
    have hclosed := (hreturns.append_spelled hlist).close hparen ⟨')', _, rfl, rfl⟩
    rw [if_neg (by simp)]
    exact hv.append_of_divides hclosed.spelled
      ⟨' ', _, by rw [String.toList_append, String.toList_append]; rfl, rfl⟩

theorem function {f : FunctionDecl} (hf : f.Printable) : Closed f.render f.symbols := by
  obtain ⟨⟨n, hn, hname⟩, hparameters, hreturns, -⟩ := hf
  have hkeyword : Closed "function " [Symbol.word "function"] :=
    keyword "function " (by decide) (by decide) (by decide)
  have hopen : Closed "(" [(.lparen, "(")] := .of_chars (by decide) rfl
  have hexternal : Spelled ") external" [(.rparen, ")"), Symbol.word "external"] := by
    have hparen : Closed ") " [(.rparen, ")")] := .of_chars (by decide) rfl
    exact hparen.append_spelled (word (w := "external") (by decide) (by decide))
  have hsemicolon : Closed ";" [(.semicolon, ";")] := .of_chars (by decide) rfl
  have hheader := (hkeyword.append_spelled (name hname)).close hopen ⟨'(', _, rfl, rfl⟩
  have hlist := hheader.append_spelled (commas fun v hv => parameter (hparameters v hv))
  have hattributes := (hlist.append_of_divides hexternal ⟨')', _, rfl, rfl⟩).mutability
    f.mutability
  have hall := (hattributes.results hreturns).close hsemicolon ⟨';', _, rfl, rfl⟩
  have hsymbols : f.symbols = [Symbol.word "function"] ++ [Symbol.word n] ++ [(.lparen, "(")]
      ++ commaSeparated (f.parameters.map (·.symbols)) ++ [(.rparen, ")"), Symbol.word "external"]
      ++ FunctionDecl.mutabilitySymbols f.mutability ++ FunctionDecl.resultSymbols f.returns
      ++ [(.semicolon, ";")] := by
    simp [FunctionDecl.symbols, hn]
  rw [hsymbols, FunctionDecl.render, hn]
  exact hall

end Spelled

end SolidityInterface
