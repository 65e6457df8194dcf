import SolidityInterface.Proofs.Declaration.Spelled
import SolidityInterface.Proofs.Declaration.TypeSyntax
import SolidityInterface.Proofs.Token.Seamless

/-
  The texts of types, and what is read back from them. `TypeSyntax.render` is the text of a
  type, mappings with the names in them. Function types are left out here, since what stands
  between their parentheses is kept as symbols.

  1. The text is read as the symbols of the type (`Spelled.typeSyntax`), by induction on the
     type. The text of a length has no gaps, so the bracket behind it cannot change how it is
     read.
  2. The symbols are parsed as the type, whatever stands behind them
     (`Parses.typeSyntax`).
  3. The parser stops where the symbols of the type end (`Parses.ok_drop`).
-/

namespace SolidityInterface

open Token (Kind)

namespace TypeSyntax

/-- The text of a name behind the type of a key or a value, if it is given. -/
def nameText : Option String → String
  | none => ""
  | some n => " " ++ n

/-- The text of a type. -/
def render : TypeSyntax → String
  | elementary name => name
  | named path => path.render
  | function parameters attributes results =>
    "function(" ++ String.ofList (withSpaces parameters) ++ ")"
      ++ String.join (attributes.map (" " ++ ·))
      ++ (results.elim "" fun ss => " returns (" ++ String.ofList (withSpaces ss) ++ ")")
  | array base length => base.render ++ "[" ++ String.ofList (texts length) ++ "]"
  | mapping key keyName value valueName =>
    "mapping(" ++ key.render ++ nameText keyName ++ " => " ++ value.render ++ nameText valueName ++ ")"

/-- Whether the text of a length is read as the tokens that it is made of, all of which may
stand in one. -/
structure IsLength (length : List Symbol) : Prop where
  spells : symbols? (texts length) = some length
  parts : ∀ x ∈ length, x.1.isLengthPart = true

/-- Whether a type is made of elementary types, dotted names, arrays and mappings, with names
that are names and lengths that are lengths. -/
def Canonical : TypeSyntax → Prop
  | elementary name =>
    name = "address payable" ∨ (IsWord name.toList ∧ Word.kind name = .elementary)
  | named path => path ≠ [] ∧ ∀ n ∈ path, IsName n
  | function _ _ _ => False
  | array base length => base.Canonical ∧ IsLength length
  | mapping key keyName value valueName =>
    key.Canonical ∧ (∀ n ∈ keyName, IsName n) ∧ value.Canonical ∧ ∀ n ∈ valueName, IsName n

theorem Canonical.not_isFunction {T : TypeSyntax} (hT : T.Canonical) : T.isFunction ≠ true := by
  cases T with
  | function parameters attributes results => exact hT.elim
  | _ => simp [isFunction]

theorem Canonical.grammatical {T : TypeSyntax} (hT : T.Canonical) : T.Grammatical := by
  induction T with
  | elementary name => exact hT
  | named path => exact hT
  | function parameters attributes results => exact hT.elim
  | array base length ih =>
    refine ⟨ih hT.1, List.all_eq_true.mpr fun x hx => ?_⟩
    have hpart := hT.2.parts x hx
    rw [decide_eq_true_eq]
    rintro hk
    rw [hk] at hpart
    cases hpart
  | mapping key keyName value valueName ihKey ihValue =>
    obtain ⟨hkey, hkeyName, hvalue, hvalueName⟩ := hT
    exact ⟨ihKey hkey, hkeyName, ihValue hvalue, hvalueName⟩

end TypeSyntax

/-! ## Spelling -/

/-- A length in brackets is read as its symbols and the brackets. -/
theorem Closed.length {length : List Symbol} (h : TypeSyntax.IsLength length) :
    Closed ("[" ++ String.ofList (texts length) ++ "]")
      ((.lbracket, "[") :: (length ++ [(.rbracket, "]")])) := by
  have hseamless := Seamless.of_texts h.spells rfl h.parts
  have hdivider : Lexeme.isDivider ']' = true := rfl
  refine ⟨by simpa using hseamless.newline_not_mem, fun cs ts hcs => ?_⟩
  have hbracket : Spells (']' :: cs) ((.rbracket, "]") :: ts) := Spells.punctuation rfl (by decide) hcs
  have hinside : Spells (texts length ++ ']' :: cs) (length ++ (.rbracket, "]") :: ts) := by
    rw [spells_iff] at hbracket ⊢
    rw [hseamless.symbols?_append (Lexeme.setsApart_cons hdivider cs) (by simp [Lexeme.isOperatorPart,
      Lexeme.isOperator]), hbracket]
    rfl
  have hspells : Spells ('[' :: _) ((.lbracket, "[") :: _) := Spells.punctuation rfl (by decide) hinside
  simpa using hspells

theorem Closed.arrow : Closed " => " [(.arrow, "=>")] where
  line := by decide
  spells cs ts h := by
    have hafter : symbols? (' ' :: cs) = some ts := spells_iff.mp (h.blank (by decide))
    have hread : symbols? ('=' :: '>' :: ' ' :: cs) = some ((.arrow, "=>") :: ts) := by
      rw [symbols?_of_reading (p := {}) (by decide) .arrow, hafter]
      rfl
    exact (spells_iff.mpr hread).blank (by decide)

namespace Spelled

variable {v : String} {ss : List Symbol}

/-- A name goes on a text behind a blank. -/
theorem nameText (hv : Spelled v ss) {n : Option String} (hn : ∀ m ∈ n, IsName m) :
    Spelled (v ++ TypeSyntax.nameText n) (ss ++ nameSymbols n) := by
  cases n with
  | none => exact hv.append_empty
  | some m =>
    have hblank : Closed " " [] := .of_chars (by decide) rfl
    exact hv.append_of_divides (hblank.append_spelled (name (hn m rfl)))
      ⟨' ', m.toList, String.toList_append, rfl⟩

theorem typeSyntax {T : TypeSyntax} (hT : T.Canonical) : Spelled T.render T.symbols := by
  induction T with
  | elementary name =>
    have hname : (TypeName.elementary name).Printable := hT
    exact typeName hname
  | named path => exact dottedName hT.1 hT.2
  | function parameters attributes results => exact hT.elim
  | array base length ih =>
    have hbrackets := (ih hT.1).close (Closed.length hT.2)
      ⟨'[', _, by rw [String.toList_append, String.toList_append]; rfl, rfl⟩
    rw [← String.append_assoc, ← String.append_assoc] at hbrackets
    exact hbrackets.spelled
  | mapping key keyName value valueName ihKey ihValue =>
    obtain ⟨hkey, hkeyName, hvalue, hvalueName⟩ := hT
    have hopen : Closed "mapping(" [Symbol.word "mapping", (.lparen, "(")] :=
      (word (w := "mapping") (by decide) (by decide)).close
        (.of_chars (w := "(") (by decide) rfl) ⟨'(', [], rfl, rfl⟩
    have hclose : Closed ")" [(.rparen, ")")] := .of_chars (by decide) rfl
    have hkeyText := (hopen.append_spelled (ihKey hkey)).nameText hkeyName
    have hkeyClosed := hkeyText.close Closed.arrow ⟨' ', _, rfl, rfl⟩
    have hvalueText := (hkeyClosed.append_spelled (ihValue hvalue)).nameText hvalueName
    exact (hvalueText.close hclose ⟨')', _, rfl, rfl⟩).spelled

end Spelled

/-! ## Reading back -/

/-- A parser that stays within the stream stops where the symbols end that it is to take. -/
theorem Parses.ok_drop {α : Type} {typed : Bool} {p : Parser α} {a : α} {ss ts : List Symbol}
    {r : Reader} (h : Parses p (ss ++ ts) a ts) (hp : ∀ n, Stays typed n (fun _ => True) p)
    (hr : r.symbols = ss ++ ts) : p r = .ok a (r.drop ss.length) := by
  obtain ⟨r', hok, hts⟩ := h r hr
  obtain ⟨m, hm, ⟨b, hb⟩ | ⟨e, he, -⟩⟩ := hp (r.left + 1) r (Nat.lt_succ_self _) trivial
  · obtain ⟨rfl, rfl⟩ := EStateM.Result.ok.inj (hok.symm.trans hb)
    have hleft := congrArg List.length hr
    have hlength := congrArg List.length hts
    rw [r.length_symbols, List.length_append] at hleft
    rw [r.drop_symbols, List.length_drop, r.length_symbols] at hlength
    rw [hb, show m = ss.length by omega]
  · cases hok.symm.trans he

/-- Types are read back from their texts. Behind the text of a type and a blank may stand any
text that is read as some tokens, if the first of them is no dot, no opening bracket and not
`payable`: then the parser gives the type, without the names in its mappings, and stops at that
token. -/
theorem TypeSyntax.types_are_read_back {T : TypeSyntax} {rest : String} {t : TokenStream}
    (hT : T.Canonical) (ht : TokenStream.ofSource? rest = some t)
    (hend : (headKind t.symbols).endsType = true) :
    ∃ s, TokenStream.ofSource? (T.render ++ " " ++ rest) = some s ∧
      s.symbols = T.symbols ++ t.symbols ∧
      Parser.typeName (Reader.ofStream s) = .ok T.tree ((Reader.ofStream s).drop T.symbols.length) := by
  obtain ⟨hdot, hpayable, hbracket⟩ := Kind.ne_of_endsType hend
  have hrest : Spells (' ' :: rest.toList) t.symbols :=
    .blank (by decide) (spells_iff.mpr (congrArg (Option.map TokenStream.symbols) ht))
  have hblank : Word.isPart ' ' = false := rfl
  have hspells := (Spelled.typeSyntax hT).spells _ _ (by simpa using hblank) hrest
  obtain ⟨s, hs, hsymbols⟩ := hspells {}
  have hsource : (T.render ++ " " ++ rest).toList = T.render.toList ++ ' ' :: rest.toList := by
    simp
  refine ⟨s, by rw [TokenStream.ofSource?, hsource]; exact hs, hsymbols, ?_⟩
  have hends : T.EndsBefore (headKind t.symbols) :=
    ⟨hdot, hpayable, fun h => absurd h hT.not_isFunction⟩
  have hparses := Parses.typeSyntax hT.grammatical hends (.stop (Parses.bracketRound_stop hbracket))
  exact hparses.ok_drop (fun _ => Stays.typeName) hsymbols

/-- A mapping to arrays of arrays, with a name for its key. -/
def TypeSyntax.matrices : TypeSyntax :=
  .mapping (.elementary "address payable") (some "owner")
    (.array (.array (.named ["Lib", "error"])
      [(.identifier, "N"), (.star, "*"), (.number, "2")]) []) none

theorem TypeSyntax.matrices_are_read_back :
    matrices.render = "mapping(address payable owner => Lib.error[N*2][])" ∧ matrices.Canonical ∧
      ∃ t s, TokenStream.ofSource? "public m;" = some t ∧ (headKind t.symbols).endsType = true ∧
        TokenStream.ofSource? "mapping(address payable owner => Lib.error[N*2][]) public m;" = some s ∧
        s.symbols = matrices.symbols ++ t.symbols ∧
        Parser.typeName (Reader.ofStream s)
          = .ok (.mapping (.elementary "address payable")
              (.array (.array (.named ["Lib", "error"]) (some "N*2")) none))
            ((Reader.ofStream s).drop matrices.symbols.length) := by
  have hrender : matrices.render = "mapping(address payable owner => Lib.error[N*2][])" := by
    decide +kernel
  have hcanonical : matrices.Canonical := by
    refine ⟨.inl rfl, ?_, ⟨⟨⟨by simp, ?_⟩, ?_, ?_⟩, ?_, ?_⟩, by simp⟩
    all_goals decide +kernel
  have hsymbols : (TokenStream.ofSource? "public m;").map TokenStream.symbols
      = some [(.kwPublic, "public"), (.identifier, "m"), (.semicolon, ";")] := by decide +kernel
  obtain ⟨t, ht, htsymbols⟩ := Option.map_eq_some_iff.mp hsymbols
  have hend : (headKind t.symbols).endsType = true := by
    rw [htsymbols]
    rfl
  obtain ⟨s, hs, hsplit, hparse⟩ := types_are_read_back hcanonical ht hend
  rw [hrender] at hs
  exact ⟨hrender, hcanonical, t, s, ht, hend, hs, hsplit, hparse⟩

end SolidityInterface
