import SolidityInterface.Proofs.Declaration.Parses
import SolidityInterface.Proofs.Declaration.Printed

/-
  Printed declarations are parsed as what they were printed from. There is one lemma for
  each parser of the grammar that a generated interface needs; each gives the symbols of
  a declaration, whatever may follow it, and the declaration. Where a parser looks at
  what follows, the lemma says what must not stand there.
-/

namespace SolidityInterface

open Token (Kind)

theorem IsName.isEmpty {n : String} (hn : IsName n) : n.isEmpty = false := by
  obtain ⟨c, rest, hc, -⟩ := hn.1
  cases hempty : n.isEmpty with
  | false => rfl
  | true =>
    rw [String.isEmpty_iff.mp hempty] at hc
    simp at hc

theorem IsName.isName {n : String} (h : IsName n) : (Symbol.word n).1.isName = true := h.2

/-- Whether a type ends before a token of this class. -/
def Token.Kind.endsType : Kind → Bool
  | .dot | .kwPayable | .lbracket => false
  | _ => true

theorem Token.Kind.endsType_of_isName {k : Kind} (h : k.isName = true) : k.endsType = true := by
  cases k <;> simp [isName] at h <;> rfl

theorem Token.Kind.ne_of_endsType {k : Kind} (h : k.endsType = true) :
    k ≠ .dot ∧ k ≠ .kwPayable ∧ k ≠ .lbracket := by
  cases k <;> simp [endsType] at h <;> simp

namespace Parses

variable {ss ts us : List Symbol}

theorem word_name {n note : String} (hn : IsName n) :
    Parses (Parser.name note) (Symbol.word n :: ts) n ts := name hn.isName

/-! ## Types -/

theorem segmentLoop (path first : DottedName) (hpath : ∀ n ∈ path, IsName n)
    (hts : headKind ts ≠ .dot) :
    Loops Parser.segmentRound first
      (path.flatMap (fun n => [(.dot, "."), Symbol.word n]) ++ ts) (first ++ path) ts := by
  induction path generalizing first with
  | nil =>
    rw [List.append_nil]
    exact .stop (kind_bind (ite (fun h => absurd h hts) fun _ => pure' none))
  | cons n path ih =>
    have hround : Parses (Parser.segmentRound first)
        ((.dot, ".") :: Symbol.word n :: (path.flatMap (fun n => [(.dot, "."), Symbol.word n]) ++ ts))
        (some (first ++ [n])) (path.flatMap (fun n => [(.dot, "."), Symbol.word n]) ++ ts) :=
      kind_bind (ite (fun _ => advance.bind ((word_name (hpath n (by simp))).bind (pure' _)))
        fun h => absurd rfl h)
    have hlength : (path.flatMap (fun n => [(.dot, "."), Symbol.word n]) ++ ts).length
        < ((n :: path).flatMap (fun n => [(.dot, "."), Symbol.word n]) ++ ts).length := by
      exact Nat.lt_succ_of_lt (Nat.lt_succ_self _)
    refine .step hround hlength ?_
    have hrest := ih (first ++ [n]) fun m hm => hpath m (by simp [hm])
    rw [List.append_assoc] at hrest
    exact hrest

theorem dottedName {path : DottedName} (hne : path ≠ []) (hpath : ∀ n ∈ path, IsName n)
    (hts : headKind ts ≠ .dot) : Parses Parser.dottedName (path.symbols ++ ts) path ts := by
  obtain ⟨n, path, rfl⟩ := List.exists_cons_of_ne_nil hne
  exact (word_name (hpath n (by simp))).bind
    (segmentLoop path [n] (fun m hm => hpath m (by simp [hm])) hts).iterate

theorem lengthText {ls : List Symbol} (hls : ls.all (·.1 ≠ .rbracket) = true)
    (hts : headKind ts = .rbracket) :
    Parses Parser.lengthText (ls ++ ts) (String.join (ls.map (·.2))) ts := by
  intro r hr
  have htake : (r.ahead.takeWhile (·.kind ≠ .rbracket)).map Token.symbol = ls := by
    have hmap : (r.ahead.takeWhile (·.kind ≠ .rbracket)).map Token.symbol
        = r.symbols.takeWhile (·.1 ≠ .rbracket) := by
      rw [Reader.symbols, List.takeWhile_map]
      rfl
    rw [hmap, hr, List.takeWhile_append_of_pos (List.all_eq_true.mp hls)]
    cases ts with
    | nil => simp at hts
    | cons t ts =>
      rw [List.takeWhile_cons_of_neg (by simpa using hts), List.append_nil]
  have htexts : (r.ahead.takeWhile (·.kind ≠ .rbracket)).map (·.text) = ls.map (·.2) := by
    rw [← htake, List.map_map]
    rfl
  refine ⟨_, by rw [Parser.lengthText, htexts], ?_⟩
  have hlength := congrArg List.length htake
  rw [List.length_map] at hlength
  rw [Reader.drop_symbols, hr, hlength, List.drop_left]

/-- One more pair of brackets, with the texts between them for a length. -/
theorem bracketRound (base : TypeName) {ls : List Symbol} (hls : ls.all (·.1 ≠ .rbracket) = true)
    (ts : List Symbol) :
    Parses (Parser.bracketRound base) ((.lbracket, "[") :: (ls ++ (.rbracket, "]") :: ts))
      (some (.array base (if (String.join (ls.map (·.2))).isEmpty then none
        else some (String.join (ls.map (·.2)))))) ts := by
  refine kind_bind (ite (fun _ => advance.bind ?_) fun h => absurd rfl h)
  exact (lengthText hls rfl).bind (expect.bind (pure' _))

theorem bracketRound_stop {t : TypeName} (hts : headKind ts ≠ .lbracket) :
    Parses (Parser.bracketRound t) ts none ts :=
  kind_bind (ite (fun h => absurd h hts) fun _ => pure' none)

/-- The types that stand before the brackets. -/
theorem baseType {t : TypeName} {inner : Parser TypeName} (ht : t.Printable)
    (hbase : ∀ base length, t ≠ .array base length) (hdot : headKind ts ≠ .dot)
    (hpayable : headKind ts ≠ .kwPayable) :
    Parses (Parser.baseType inner) (t.symbols ++ ts) t ts := by
  match t with
  | .elementary name =>
    rw [TypeName.symbols]
    split
    · rename_i hname
      subst hname
      -- This is the one elementary type of two words.
      refine current_bind fun token htoken => ?_
      obtain ⟨hkind, htext⟩ := Prod.mk.inj htoken
      have hkind : token.kind = .elementary := hkind.trans rfl
      simp only [hkind, htext, decide_true, Bool.true_and]
      exact advance.bind (kind_bind (ite (fun _ => advance.bind (pure' _)) fun h => absurd rfl h))
    · rename_i hname
      obtain ⟨-, hkind'⟩ := ht.resolve_left hname
      refine current_bind fun token htoken => ?_
      obtain ⟨hkind, htext⟩ := Prod.mk.inj htoken
      have hkind : token.kind = .elementary := hkind.trans hkind'
      simp only [hkind, htext]
      refine advance.bind (kind_bind ?_)
      rw [if_neg (by simp [hpayable])]
      exact pure' _
  | .named path =>
    obtain ⟨hne, hpath⟩ := ht
    have hparsed : Parses (do return .named (← Parser.dottedName)) (path.symbols ++ ts)
        (TypeName.named path) ts := (dottedName hne hpath hdot).bind (pure' _)
    obtain ⟨n, path, rfl⟩ := List.exists_cons_of_ne_nil hne
    refine current_bind fun token htoken => ?_
    have hname : token.kind.isName = true := by
      rw [(Prod.mk.inj htoken).1]
      exact (hpath n (by simp)).2
    have hcases : token.kind = .identifier ∨ token.kind = .kwError ∨ token.kind = .kwType ∨
        token.kind = .kwReceive ∨ token.kind = .kwFallback := by
      revert hname
      cases token.kind <;> simp [Kind.isName]
    rcases hcases with h | h | h | h | h <;> simp only [h] <;> exact hparsed
  | .array base length => exact absurd rfl (hbase base length)

/-- A type is parsed up to where its last layer of brackets ends; the loop over the
brackets may go on from there. -/
theorem typeNameWithin {t u : TypeName} (n : Nat) (ht : t.Printable) (hdot : headKind ts ≠ .dot)
    (hpayable : headKind ts ≠ .kwPayable) (hloop : Loops Parser.bracketRound t ts u us) :
    Parses (Parser.typeNameWithin (n + 1)) (t.symbols ++ ts) u us := by
  induction t generalizing ts with
  | elementary name => exact (baseType ht (by simp) hdot hpayable).bind hloop.iterate
  | named path => exact (baseType ht (by simp) hdot hpayable).bind hloop.iterate
  | array base length ih =>
    obtain ⟨hbase, hlength, hinline⟩ := ht
    simp only [isInline, Bool.and_eq_true, decide_eq_true_eq] at hinline
    obtain ⟨⟨⟨-, hsymbols⟩, hjoin⟩, -⟩ := hinline
    have hround : Parses (Parser.bracketRound base)
        ((.lbracket, "[") :: (inlineSymbols (length.getD "") ++ (.rbracket, "]") :: ts))
        (some (.array base length)) ts := by
      have hbrackets := bracketRound base hsymbols ts
      rw [hjoin] at hbrackets
      cases length with
      | none => exact hbrackets
      | some text =>
        have hempty : text.isEmpty = false := by simpa using hlength
        simpa only [Option.getD_some, hempty, Bool.false_eq_true, if_false] using hbrackets
    have hbaseParsed := ih hbase (by simp) (by simp) (.step hround (by simp; omega) hloop)
    rw [TypeName.symbols]
    simpa using hbaseParsed
  | mapping key value => exact ht.elim

theorem typeName {t : TypeName} (ht : t.Printable) (hts : (headKind ts).endsType = true) :
    Parses Parser.typeName (t.symbols ++ ts) t ts := by
  intro r hr
  obtain ⟨hdot, hpayable, hbracket⟩ := Kind.ne_of_endsType hts
  have hstop : Loops Parser.bracketRound t ts t ts := .stop (bracketRound_stop hbracket)
  exact typeNameWithin r.left ht hdot hpayable hstop r hr

/-! ## Lists with commas -/

/-- A loop whose rounds read one item and the comma behind it, if there is one. -/
theorem commaLoop {α : Type} {round : List α → Parser (Option (List α))}
    {symbols : α → List Symbol} {items : List α} (acc : List α)
    (hstop : ∀ acc, Parses (round acc) ts none ts)
    (hlast : ∀ a ∈ items, ∀ acc, Parses (round acc) (symbols a ++ ts) (some (acc ++ [a])) ts)
    (hcomma : ∀ a ∈ items, ∀ acc us,
      Parses (round acc) (symbols a ++ (.comma, ",") :: us) (some (acc ++ [a])) us)
    (hne : ∀ a ∈ items, symbols a ≠ []) :
    Loops round acc (commaSeparated (items.map symbols) ++ ts) (acc ++ items) ts := by
  induction items generalizing acc with
  | nil =>
    rw [List.append_nil]
    exact .stop (hstop acc)
  | cons a items ih =>
    have hpos : 0 < (symbols a).length := List.length_pos_of_ne_nil (hne a (by simp))
    have hrest := ih (acc ++ [a]) (fun b hb => hlast b (by simp [hb]))
      (fun b hb => hcomma b (by simp [hb])) (fun b hb => hne b (by simp [hb]))
    rw [List.append_assoc] at hrest
    cases items with
    | nil => exact .step (hlast a (by simp) acc) (by simp [commaSeparated]; omega) hrest
    | cons b items =>
      have hround := hcomma a (by simp) acc (commaSeparated ((b :: items).map symbols) ++ ts)
      rw [show commaSeparated ((a :: b :: items).map symbols) ++ ts
        = symbols a ++ (.comma, ",") :: (commaSeparated ((b :: items).map symbols) ++ ts) by
          simp [commaSeparated]]
      exact .step hround (by simp; omega) hrest

/-! ## Variables -/

theorem parameterWord_stop {v : Variable}
    (hk : (headKind ts).isName = true ∨ headKind ts = .comma ∨ headKind ts = .rparen) :
    Parses (Parser.parameterWordRound v) ts none ts := by
  refine kind_bind ?_
  generalize headKind ts = k at hk
  cases k <;> simp [Kind.isName] at hk <;> exact pure' none

theorem parameterWords {t : TypeName} {location : Option DataLocation}
    (hlocation : ∀ w, location ≠ some (.other w))
    (hk : (headKind ts).isName = true ∨ headKind ts = .comma ∨ headKind ts = .rparen) :
    Loops Parser.parameterWordRound { type := t }
      ((location.map (Symbol.word ·.word)).toList ++ ts) { type := t, location } ts := by
  cases location with
  | none => exact .stop (parameterWord_stop hk)
  | some l =>
    refine .step ?_ (by simp) (.stop (parameterWord_stop hk))
    cases l with
    | other w => exact absurd rfl (hlocation w)
    | storage => exact kind_bind (advance.bind (pure' _))
    | memory => exact kind_bind (advance.bind (pure' _))
    | calldata => exact kind_bind (advance.bind (pure' _))

theorem parameter {v : Variable} (hv : v.Printable)
    (hts : headKind ts = .comma ∨ headKind ts = .rparen) :
    Parses Parser.parameter (v.symbols ++ ts) v ts := by
  obtain ⟨htype, hname, hlocation, hplain⟩ := hv
  obtain ⟨type, name, visibility, mode, location, isIndexed⟩ := v
  simp only [Variable.mk.injEq, true_and] at hplain
  obtain ⟨rfl, rfl, rfl⟩ := hplain
  have hsymbols : (Variable.mk type name .internal none location false).symbols ++ ts
      = type.symbols ++ ((location.map (Symbol.word ·.word)).toList
        ++ ((name.map Symbol.word).toList ++ ts)) := by
    cases location <;> cases name <;> simp [Variable.symbols, Variable.words]
  -- What follows the location, and so the type, is a name or the end of the parameter.
  have hend : (headKind ((name.map Symbol.word).toList ++ ts)).isName = true ∨
      headKind ((name.map Symbol.word).toList ++ ts) = .comma ∨
      headKind ((name.map Symbol.word).toList ++ ts) = .rparen := by
    cases name with
    | none => exact .inr hts
    | some n => exact .inl (hname n rfl).2
  have htypeEnd : (headKind ((location.map (Symbol.word ·.word)).toList
      ++ ((name.map Symbol.word).toList ++ ts))).endsType = true := by
    cases location with
    | none =>
      rcases hend with h | h | h
      · exact Kind.endsType_of_isName h
      · exact congrArg Kind.endsType h
      · exact congrArg Kind.endsType h
    | some l =>
      cases l with
      | other w => exact absurd rfl (hlocation w)
      | storage => rfl
      | memory => rfl
      | calldata => rfl
  rw [hsymbols]
  refine (typeName htype htypeEnd).bind ?_
  refine (parameterWords hlocation hend).iterate.bind (kind_bind ?_)
  cases name with
  | none =>
    refine ite (fun h => ?_) fun _ => pure' _
    rcases hts with hts | hts <;> simp [hts, Kind.isName] at h
  | some n =>
    refine ite (fun _ => ?_) fun h => absurd (hname n rfl).2 h
    refine advance_bind fun t ht => ?_
    rw [(Prod.mk.inj ht).2]
    exact pure' _

theorem headKind_symbols {t : TypeName} (ht : t.Printable) (ts : List Symbol) :
    (headKind (t.symbols ++ ts)).isName = true ∨ headKind (t.symbols ++ ts) = .elementary := by
  induction t generalizing ts with
  | elementary name =>
    rw [TypeName.symbols]
    split
    · exact .inr rfl
    · exact .inr (ht.resolve_left ‹_›).2
  | named path =>
    obtain ⟨n, path, rfl⟩ := List.exists_cons_of_ne_nil ht.1
    exact .inl (ht.2 n (by simp)).2
  | array base length ih =>
    rw [TypeName.symbols, List.append_assoc]
    exact ih ht.1 _
  | mapping key value => exact ht.elim

theorem symbols_ne_nil {t : TypeName} (ht : t.Printable) : t.symbols ++ ts ≠ [] := by
  intro h
  have hkind := headKind_symbols ht ts
  simp [h, Kind.isName] at hkind

theorem parameterRound_stop {vs : List Variable} (hts : headKind ts = .rparen) :
    Parses (Parser.parameterRound vs) ts none ts := by
  refine kind_bind ?_
  rw [hts]
  exact pure' none

theorem parameterRound {v : Variable} {vs : List Variable} (hv : v.Printable)
    (hts : headKind ts = .comma ∨ headKind ts = .rparen)
    (hcomma : Parses Parser.skipComma ts () us) :
    Parses (Parser.parameterRound vs) (v.symbols ++ ts) (some (vs ++ [v])) us := by
  have hround : Parses (do let v ← Parser.parameter; Parser.skipComma; return some (vs ++ [v]))
      (v.symbols ++ ts) (some (vs ++ [v])) us :=
    (parameter hv hts).bind (hcomma.bind (pure' _))
  refine kind_bind ?_
  have hkind := headKind_symbols hv.type (v.words.map Symbol.word ++ ts)
  rw [← List.append_assoc] at hkind
  change (headKind (v.symbols ++ ts)).isName = true ∨ headKind (v.symbols ++ ts) = .elementary at hkind
  generalize headKind (v.symbols ++ ts) = k at hkind
  cases k <;> simp [Kind.isName] at hkind <;> exact hround

theorem parameterList {vs : List Variable} (hvs : ∀ v ∈ vs, v.Printable) :
    Parses Parser.parameterList
      ((.lparen, "(") :: (commaSeparated (vs.map (·.symbols)) ++ (.rparen, ")") :: ts)) vs ts := by
  have hloop : Loops Parser.parameterRound [] (commaSeparated (vs.map (·.symbols)) ++ (.rparen, ")") :: ts)
      ([] ++ vs) ((.rparen, ")") :: ts) := by
    refine commaLoop [] (fun acc => parameterRound_stop rfl) ?_ ?_ ?_
    · intro v hv acc
      exact parameterRound (hvs v hv) (.inr rfl) (skipComma_other (by simp))
    · intro v hv acc us
      exact parameterRound (hvs v hv) (.inl rfl) skipComma_comma
    · intro v hv
      exact symbols_ne_nil (hvs v hv).type
  exact expect.bind (hloop.iterate.bind (expect.bind (pure' _)))

/-! ## Structs, enums and functions -/

theorem structMemberRound {v : Variable} {vs : List Variable} (hv : v.Printable)
    (hlocation : v.location = none) (hname : v.name.isSome = true) :
    Parses (Parser.structMemberRound vs) (v.symbols ++ (.semicolon, ";") :: ts) (some (vs ++ [v]))
      ts := by
  obtain ⟨htype, hnames, -, hplain⟩ := hv
  obtain ⟨n, hn⟩ := Option.isSome_iff_exists.mp hname
  rw [hlocation, hn] at hplain
  have hsymbols : v.symbols = v.type.symbols ++ [Symbol.word n] := by
    simp [Variable.symbols, Variable.words, hlocation, hn]
  have hisName := hnames n hn
  have hround : Parses (do
      let type ← Parser.typeName
      let n ← Parser.name
      Functor.discard (Parser.expect .semicolon)
      return some (vs ++ [{ type, name := some n }]))
      (v.symbols ++ (.semicolon, ";") :: ts) (some (vs ++ [v])) ts := by
    have hend : (headKind (Symbol.word n :: (.semicolon, ";") :: ts)).endsType = true :=
      Kind.endsType_of_isName hisName.2
    rw [hsymbols, List.append_assoc]
    refine (typeName htype hend).bind ?_
    refine (word_name hisName).bind (expect.bind ?_)
    rw [← hplain]
    exact pure' _
  refine kind_bind ?_
  have hkind := headKind_symbols htype ([Symbol.word n] ++ (.semicolon, ";") :: ts)
  rw [← List.append_assoc, ← hsymbols] at hkind
  generalize headKind (v.symbols ++ (.semicolon, ";") :: ts) = k at hkind
  cases k <;> simp [Kind.isName] at hkind <;> exact hround

theorem structMembers {vs : List Variable} (ts : List Symbol) (acc : List Variable)
    (hvs : ∀ v ∈ vs, v.Printable ∧ v.location = none ∧ v.name.isSome = true) :
    Loops Parser.structMemberRound acc
      (vs.flatMap (fun v => v.symbols ++ [(.semicolon, ";")]) ++ (.rbrace, "\x7d") :: ts) (acc ++ vs)
      ((.rbrace, "\x7d") :: ts) := by
  induction vs generalizing acc with
  | nil =>
    rw [List.append_nil]
    exact .stop (kind_bind (pure' none))
  | cons v vs ih =>
    obtain ⟨hv, hlocation, hname⟩ := hvs v (by simp)
    have hrest := ih (acc ++ [v]) fun w hw => hvs w (by simp [hw])
    rw [List.append_assoc] at hrest
    rw [List.flatMap_cons, List.append_assoc, List.append_assoc, List.singleton_append]
    exact .step (structMemberRound hv hlocation hname) (by simp; omega) hrest

theorem struct {d : StructDecl} (hd : d.Printable) :
    Parses Parser.struct (d.symbols ++ ts) d ts := by
  have hmembers := (structMembers ts [] hd.members).iterate
  have hsymbols : d.symbols ++ ts = Symbol.word "struct" :: Symbol.word d.name :: (.lbrace, "\x7b")
      :: (d.members.flatMap (fun v => v.symbols ++ [(.semicolon, ";")]) ++ (.rbrace, "\x7d") :: ts) := by
    simp [StructDecl.symbols]
  rw [hsymbols]
  refine expect.bind ((word_name hd.name).bind (expect.bind ?_))
  exact hmembers.bind (expect.bind (pure' _))

theorem enumMemberRound {n : String} {names : List String} (hn : IsName n)
    (hcomma : Parses Parser.skipComma ts () us) :
    Parses (Parser.enumMemberRound names) (Symbol.word n :: ts) (some (names ++ [n])) us := by
  have hround : Parses (do let n ← Parser.name; Parser.skipComma; return some (names ++ [n]))
      (Symbol.word n :: ts) (some (names ++ [n])) us :=
    (word_name hn).bind (hcomma.bind (pure' _))
  refine kind_bind ?_
  have hkind := hn.isName
  rw [headKind_cons]
  generalize (Symbol.word n).1 = k at hkind
  cases k <;> simp [Kind.isName] at hkind <;> exact hround

theorem enum {d : EnumDecl} (hd : d.Printable) : Parses Parser.enum (d.symbols ++ ts) d ts := by
  have hloop : Loops Parser.enumMemberRound []
      (commaSeparated (d.members.map fun n => [Symbol.word n]) ++ (.rbrace, "\x7d") :: ts)
      ([] ++ d.members) ((.rbrace, "\x7d") :: ts) := by
    refine commaLoop [] (fun acc => kind_bind (pure' none)) ?_ ?_ ?_
    · intro n hn acc
      exact enumMemberRound (hd.members n hn) (skipComma_other (by simp))
    · intro n hn acc us
      exact enumMemberRound (hd.members n hn) skipComma_comma
    · simp
  have hsymbols : d.symbols ++ ts = Symbol.word "enum" :: Symbol.word d.name :: (.lbrace, "\x7b")
      :: (commaSeparated (d.members.map fun n => [Symbol.word n]) ++ (.rbrace, "\x7d") :: ts) := by
    simp [EnumDecl.symbols]
  rw [hsymbols]
  refine expect.bind ((word_name hd.name).bind (expect.bind ?_))
  exact hloop.iterate.bind (expect.bind (pure' _))

theorem functionReturns {f : FunctionDecl} {vs : List Variable} (ts : List Symbol)
    (hf : f.returns = []) (hvs : ∀ v ∈ vs, v.Printable) :
    Loops Parser.functionAttributeRound f
      (FunctionDecl.resultSymbols vs ++ (.semicolon, ";") :: ts)
      { f with returns := vs } ((.semicolon, ";") :: ts) := by
  have hstop : ∀ g, Parses (Parser.functionAttributeRound g) ((.semicolon, ";") :: ts) none
      ((.semicolon, ";") :: ts) := fun g => kind_bind (pure' none)
  cases vs with
  | nil =>
    have hsame : { f with returns := [] } = f := by rw [← hf]
    rw [hsame]
    exact .stop (hstop f)
  | cons v vs =>
    have hsymbols : FunctionDecl.resultSymbols (v :: vs) ++ (.semicolon, ";") :: ts
        = Symbol.word "returns" :: (.lparen, "(") :: (commaSeparated ((v :: vs).map (·.symbols))
          ++ (.rparen, ")") :: (.semicolon, ";") :: ts) := by
      simp [FunctionDecl.resultSymbols]
    rw [hsymbols]
    refine .step (kind_bind (advance.bind ?_)) (by simp; omega) (.stop (hstop _))
    exact (parameterList hvs).bind (pure' _)

theorem functionMutability {f g : FunctionDecl} {m : Option StateMutability}
    (hf : f.mutability = none)
    (hloop : Loops Parser.functionAttributeRound { f with mutability := m } ts g us) :
    Loops Parser.functionAttributeRound f (FunctionDecl.mutabilitySymbols m ++ ts) g us := by
  cases m with
  | none =>
    rw [← hf] at hloop
    exact hloop
  | some m =>
    refine .step ?_ (by simp [FunctionDecl.mutabilitySymbols]) hloop
    cases m with
    | view => exact kind_bind (advance.bind (pure' _))
    | pure => exact kind_bind (advance.bind (pure' _))
    | payable => exact kind_bind (advance.bind (pure' _))

theorem functionTail {f g : FunctionDecl} {vs : List Variable} (hvs : ∀ v ∈ vs, v.Printable)
    (hloop : Loops Parser.functionAttributeRound { f with parameters := vs } ss g
      ((.semicolon, ";") :: ts)) :
    Parses (Parser.functionTail f)
      ((.lparen, "(") :: (commaSeparated (vs.map (·.symbols)) ++ (.rparen, ")") :: ss)) g ts :=
  (parameterList hvs).bind (hloop.iterate.bind
    (kind_bind (ite (fun h => absurd h (by simp)) fun _ => expect.bind (pure' _))))

theorem function {f : FunctionDecl} (hf : f.Printable) :
    Parses Parser.function (f.symbols ++ ts) f ts := by
  obtain ⟨⟨n, hn, hname⟩, hparameters, hreturns, hplain⟩ := hf
  obtain ⟨name, kind, parameters, returns, visibility, m, modifiers, isVirtual, isOverride⟩ := f
  simp only [FunctionDecl.mk.injEq, true_and] at hplain hn hparameters hreturns
  obtain ⟨rfl, rfl, rfl, rfl, rfl⟩ := hplain
  subst hn
  let f : FunctionDecl :=
    { name := some n, parameters, returns, visibility := .external, mutability := m }
  have hsymbols : f.symbols ++ ts = Symbol.word "function" :: Symbol.word n :: (.lparen, "(")
      :: (commaSeparated (parameters.map (·.symbols)) ++ (.rparen, ")") :: Symbol.word "external"
      :: (FunctionDecl.mutabilitySymbols m
      ++ (FunctionDecl.resultSymbols returns ++ (.semicolon, ";") :: ts))) := by
    simp [FunctionDecl.symbols, f]
  have hloop : Loops Parser.functionAttributeRound { name := some n, parameters }
      (Symbol.word "external" :: (FunctionDecl.mutabilitySymbols m
      ++ (FunctionDecl.resultSymbols returns ++ (.semicolon, ";") :: ts))) f
      ((.semicolon, ";") :: ts) :=
    .step (kind_bind (advance.bind (pure' _))) (by simp)
      (functionMutability rfl (functionReturns ts rfl hreturns))
  show Parses Parser.function (f.symbols ++ ts) f ts
  rw [hsymbols]
  refine expect.bind (kind_bind (ite (fun h => ?_) fun _ => ?_))
  · have hlparen := hname.2
    rw [show Word.kind n = .lparen from h] at hlparen
    simp [Kind.isName] at hlparen
  · refine (word_name hname).bind ?_
    simp only [hname.isEmpty, Bool.false_eq_true, if_false]
    exact functionTail hparameters hloop

/-! ## Contracts and files -/

theorem baseLoop {names : List String} (hne : names ≠ []) (hnames : ∀ n ∈ names, IsName n)
    (acc : List DottedName) :
    Loops Parser.baseRound (acc, true)
      (commaSeparated (names.map fun n => [Symbol.word n]) ++ (.lbrace, "\x7b") :: ts)
      (acc ++ names.map ([·]), false) ((.lbrace, "\x7b") :: ts) := by
  induction names generalizing acc with
  | nil => exact absurd rfl hne
  | cons n names ih =>
    have hname : ∀ us, headKind us ≠ .dot → Parses Parser.dottedName (Symbol.word n :: us) [n] us := by
      intro us hus
      have hone : ∀ m ∈ [n], IsName m := by simpa using hnames n (by simp)
      exact dottedName (by simp) hone hus
    cases names with
    | nil =>
      refine .step ?_ ?_ (.stop (pure' none))
      · refine (hname _ (by simp)).bind ((skipArguments_other (by simp)).bind (kind_bind ?_))
        exact ite (fun h => absurd h (by simp)) fun _ => pure' _
      · simp [commaSeparated]
    | cons m names =>
      have hrest := ih (by simp) (fun k hk => hnames k (by simp [hk])) (acc ++ [[n]])
      rw [List.append_assoc] at hrest
      refine .step ?_ ?_ hrest
      · refine (hname _ (by simp)).bind ((skipArguments_other (by simp)).bind (kind_bind ?_))
        exact ite (fun _ => advance.bind (pure' _)) fun h => absurd rfl h
      · exact Nat.lt_succ_of_lt (Nat.lt_succ_self _)

theorem baseList {names : List String} (hnames : ∀ n ∈ names, IsName n) :
    Parses Parser.baseList (baseSymbols names ++ (.lbrace, "\x7b") :: ts) (names.map ([·]))
      ((.lbrace, "\x7b") :: ts) := by
  cases names with
  | nil => exact kind_bind (pure' _)
  | cons n names =>
    refine kind_bind (advance.bind ?_)
    exact (baseLoop (by simp) hnames []).iterate.bind (pure' _)

theorem memberRound {m : Member} {members : List Member} (hm : m.Printable) :
    Parses (Parser.memberRound members) (m.symbols ++ ts) (some (members ++ [m])) ts := by
  match m, hm with
  | .function f, hf => exact kind_bind (Parses.bind (kind_bind ((function hf).bind (pure' _))) (pure' _))
  | .struct d, hd => exact kind_bind (Parses.bind (kind_bind ((struct hd).bind (pure' _))) (pure' _))
  | .enum d, hd => exact kind_bind (Parses.bind (kind_bind ((enum hd).bind (pure' _))) (pure' _))

theorem memberLoop {members : List Member} (ts : List Symbol) (acc : List Member)
    (hmembers : ∀ m ∈ members, m.Printable) :
    Loops Parser.memberRound acc (members.flatMap (·.symbols) ++ (.rbrace, "\x7d") :: ts)
      (acc ++ members) ((.rbrace, "\x7d") :: ts) := by
  induction members generalizing acc with
  | nil =>
    rw [List.append_nil]
    exact .stop (kind_bind (pure' none))
  | cons m members ih =>
    have hrest := ih (acc ++ [m]) fun n hn => hmembers n (by simp [hn])
    rw [List.append_assoc] at hrest
    rw [List.flatMap_cons, List.append_assoc]
    refine .step (memberRound (hmembers m (by simp))) ?_ hrest
    match m, hmembers m (by simp) with
    | .function f, _ => simp [Member.symbols, FunctionDecl.symbols]; omega
    | .struct d, _ => simp [Member.symbols, StructDecl.symbols]; omega
    | .enum d, _ => simp [Member.symbols, EnumDecl.symbols]; omega

theorem interface {name : String} {bases : List String} {members : List Member} (hname : IsName name)
    (hbases : ∀ n ∈ bases, IsName n) (hmembers : ∀ m ∈ members, m.Printable) :
    Parses Parser.contract (interfaceSymbols name bases members ++ ts)
      { name, kind := .interface, bases := bases.map ([·]), members } ts := by
  have hsymbols : interfaceSymbols name bases members ++ ts
      = Symbol.word "interface" :: Symbol.word name :: (baseSymbols bases ++ (.lbrace, "\x7b")
        :: (members.flatMap (·.symbols) ++ (.rbrace, "\x7d") :: ts)) := by
    simp [interfaceSymbols]
  rw [hsymbols]
  refine kind_bind (Parses.bind (kind_bind (advance.bind (pure' _))) ?_)
  refine (word_name hname).bind ((baseList hbases).bind (expect.bind ?_))
  exact (memberLoop ts [] hmembers).iterate.bind (expect.bind (pure' _))

theorem pragma (p : PragmaDirective) : Parses Parser.pragma (p.symbols ++ ts) p ts := by
  refine expect.bind (expect_bind fun name hname => expect_bind fun value hvalue => expect.bind ?_)
  rw [(Prod.mk.inj hname).2, (Prod.mk.inj hvalue).2]
  exact pure' _

theorem unquote_quoted (path : String) : Parser.unquote ("\x22" ++ path ++ "\x22") = path := by
  simp [Parser.unquote]

theorem importDirective (path : String) :
    Parses Parser.importDirective (importSymbols path ++ ts) { path } ts := by
  refine expect.bind (kind_bind (advance_bind fun file hfile => ?_))
  have halias : Parses Parser.alias? ((.semicolon, ";") :: ts) none ((.semicolon, ";") :: ts) := by
    refine current_bind fun t ht => ?_
    rw [(Prod.mk.inj ht).2]
    exact pure' none
  refine halias.bind (expect.bind ?_)
  rw [(Prod.mk.inj hfile).2, unquote_quoted]
  exact pure' _

theorem importLoop (paths : List String) {u v : SourceUnit}
    (hloop : Loops Parser.unitRound
      { u with imports := u.imports ++ paths.map fun path => { path } } ts v us) :
    Loops Parser.unitRound u (paths.flatMap importSymbols ++ ts) v us := by
  induction paths generalizing u with
  | nil => simpa using hloop
  | cons path paths ih =>
    rw [List.flatMap_cons, List.append_assoc]
    refine .step (kind_bind ((importDirective path).bind (pure' _))) (by simp [importSymbols]; omega) (ih ?_)
    simpa using hloop

/-- A file of one pragma, some imports and one interface. -/
theorem sourceUnit (p : PragmaDirective) (paths : List String) {name : String} {bases : List String}
    {members : List Member} (hname : IsName name) (hbases : ∀ n ∈ bases, IsName n)
    (hmembers : ∀ m ∈ members, m.Printable) :
    Parses Parser.sourceUnit
      (p.symbols ++ paths.flatMap importSymbols ++ interfaceSymbols name bases members)
      { pragmas := [p]
        imports := paths.map fun path => { path }
        contracts := [{ name, kind := .interface, bases := bases.map ([·]), members }] } [] := by
  refine Loops.iterate ?_
  rw [List.append_assoc]
  refine .step (kind_bind ((pragma p).bind (pure' _))) (by simp [PragmaDirective.symbols]; omega)
    (importLoop paths ?_)
  rw [← List.append_nil (interfaceSymbols name bases members)]
  refine .step (kind_bind ((interface hname hbases hmembers).bind (pure' _)))
    (by simp [interfaceSymbols]) (.stop ?_)
  exact kind_bind (pure' none)

end Parses

end SolidityInterface
