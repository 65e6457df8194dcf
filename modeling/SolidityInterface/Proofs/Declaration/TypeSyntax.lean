import SolidityInterface.Proofs.Declaration.Nesting
import SolidityInterface.Proofs.Declaration.Parsed
import SolidityInterface.Proofs.Declaration.Refusals

/-
  Types as they are written, and the types that they are parsed as. More is written than is
  kept: the names in mappings are dropped, and of a function type nothing is kept but that it
  is one. `Parses.typeSyntax` says that every type that is written by the grammar is parsed,
  whatever follows it, unless that could belong to the type. The induction carries the loop
  over the brackets behind a type, since in an array it goes on where the type of the items
  ends.
-/

namespace SolidityInterface

open Token (Kind)

/-- A type as it is written. -/
inductive TypeSyntax where
  /-- A built-in type, by its name. -/
  | elementary (name : String)
  /-- A type with a dotted name. -/
  | named (path : DottedName)
  /-- A function type, with what stands between the parentheses of its parameters, the words
  behind it, and what stands between the parentheses of its results, if they are given. -/
  | function (parameters : List Symbol) (attributes : List String) (results : Option (List Symbol))
  /-- An array, with what stands between its brackets. -/
  | array (base : TypeSyntax) (length : List Symbol)
  /-- A mapping, with the names of its key and its value, if they are given. -/
  | mapping (key : TypeSyntax) (keyName : Option String) (value : TypeSyntax)
      (valueName : Option String)

/-- Some symbols in parentheses. -/
def inParens (ss : List Symbol) : List Symbol := (.lparen, "(") :: (ss ++ [(.rparen, ")")])

/-- The symbols of a name, if it is given. -/
def nameSymbols (n : Option String) : List Symbol := (n.map Symbol.word).toList

/-- Whether a token of this class is a visibility or a promise about the state. -/
def Token.Kind.isTypeAttribute (k : Kind) : Bool :=
  (Parser.visibility? k).isSome || (Parser.stateMutability? k).isSome

/-- Whether a function type ends before a token of this class. -/
def Token.Kind.endsSignature (k : Kind) : Bool := !k.isTypeAttribute && k ≠ .kwReturns

namespace TypeSyntax

/-- The length of an array, as the texts between its brackets, if there are any. -/
def lengthText? (length : List Symbol) : Option String :=
  if (String.join (length.map (·.2))).isEmpty then none else some (String.join (length.map (·.2)))

/-- The type that is kept. -/
def tree : TypeSyntax → TypeName
  | elementary name => .elementary name
  | named path => .named path
  | function _ _ _ => .elementary "function"
  | array base length => .array base.tree (lengthText? length)
  | mapping key _ value _ => .mapping key.tree value.tree

/-- The symbols of the results of a function type. -/
def resultSymbols : Option (List Symbol) → List Symbol
  | none => []
  | some results => Symbol.word "returns" :: inParens results

/-- The symbols of a type. -/
def symbols : TypeSyntax → List Symbol
  | elementary name => (TypeName.elementary name).symbols
  | named path => path.symbols
  | function parameters attributes results =>
    Symbol.word "function" :: (inParens parameters ++ attributes.map Symbol.word ++ resultSymbols results)
  | array base length => base.symbols ++ (.lbracket, "[") :: (length ++ [(.rbracket, "]")])
  | mapping key keyName value valueName =>
    [Symbol.word "mapping", (.lparen, "(")] ++ key.symbols ++ nameSymbols keyName ++ [(.arrow, "=>")]
      ++ value.symbols ++ nameSymbols valueName ++ [(.rparen, ")")]

/-- Whether a type is a function type as a whole. -/
def isFunction : TypeSyntax → Bool
  | function _ _ _ => true
  | _ => false

/-- Whether a type is written by the grammar: names are names, the parentheses of function
types match, and lengths hold no brackets, as in expressions over constants. -/
def Grammatical : TypeSyntax → Prop
  | elementary name =>
    name = "address payable" ∨ (IsWord name.toList ∧ Word.kind name = .elementary)
  | named path => path ≠ [] ∧ ∀ n ∈ path, IsName n
  | function parameters attributes results =>
    Matched parameters ∧ (∀ w ∈ attributes, (Word.kind w).isTypeAttribute = true) ∧
      ∀ ss ∈ results, Matched ss
  | array base length => base.Grammatical ∧ length.all (·.1 ≠ .rbracket) = true
  | mapping key keyName value valueName =>
    key.Grammatical ∧ (∀ n ∈ keyName, IsName n) ∧ value.Grammatical ∧ ∀ n ∈ valueName, IsName n

end TypeSyntax

/-! ## What stands behind a type -/

namespace Token.Kind

variable {k : Kind}

theorem endsSignature_of_isName (h : k.isName = true) : k.endsSignature = true := by
  cases k <;> simp [isName] at h <;> rfl

end Token.Kind

/-- Whether a type ends before a token of this class, apart from brackets. -/
structure TypeSyntax.EndsBefore (T : TypeSyntax) (k : Kind) : Prop where
  dot : k ≠ .dot
  payable : k ≠ .kwPayable
  signature : T.isFunction = true → k.endsSignature = true

namespace TypeSyntax.EndsBefore

variable {T : TypeSyntax} {k : Kind}

theorem of_isName (h : k.isName = true) : T.EndsBefore k where
  dot := (Kind.ne_of_endsType (Kind.endsType_of_isName h)).1
  payable := (Kind.ne_of_endsType (Kind.endsType_of_isName h)).2.1
  signature _ := Kind.endsSignature_of_isName h

theorem arrow : T.EndsBefore .arrow := ⟨by simp, by simp, fun _ => rfl⟩

theorem rparen : T.EndsBefore .rparen := ⟨by simp, by simp, fun _ => rfl⟩

theorem lbracket : T.EndsBefore .lbracket := ⟨by simp, by simp, fun _ => rfl⟩

end TypeSyntax.EndsBefore

/-! ## Parsing -/

namespace Parses

variable {ts us : List Symbol}

/-- A type is what stands before the brackets and then the brackets. -/
theorem typeName_of_base {t u : TypeName} {ss : List Symbol}
    (hbase : Parses (Parser.baseType Parser.typeName) ss t ts)
    (hloop : Loops Parser.bracketRound t ts u us) : Parses Parser.typeName ss u us := by
  intro r hr
  rw [Parser.typeName_eq]
  exact hbase.bind hloop.iterate r hr

theorem typeAttributes {attributes : List String}
    (h : ∀ w ∈ attributes, (Word.kind w).isTypeAttribute = true)
    (hts : (headKind ts).isTypeAttribute = false) :
    Loops Parser.typeAttributeRound () (attributes.map Symbol.word ++ ts) () ts := by
  induction attributes with
  | nil =>
    refine .stop (kind_bind (ite (fun hk => ?_) fun _ => pure' none))
    exact Bool.noConfusion (hts.symm.trans hk)
  | cons w attributes ih =>
    have hrest := ih fun v hv => h v (by simp [hv])
    refine .step (kind_bind (ite (fun _ => advance.bind (pure' _)) fun hk => ?_)) (by simp) hrest
    exact absurd (h w (by simp)) hk

theorem functionType {parameters : List Symbol} {attributes : List String}
    {results : Option (List Symbol)} (h : (TypeSyntax.function parameters attributes results).Grammatical)
    (hts : (headKind ts).endsSignature = true) :
    Parses Parser.functionType
      ((TypeSyntax.function parameters attributes results).symbols ++ ts) (.elementary "function") ts := by
  obtain ⟨hparameters, hattributes, hresults⟩ := h
  simp only [Kind.endsSignature, Bool.and_eq_true, Bool.not_eq_true', decide_eq_true_eq] at hts
  have hnext : (headKind (TypeSyntax.resultSymbols results ++ ts)).isTypeAttribute = false := by
    cases results with
    | none => exact hts.1
    | some ss => rfl
  have hsymbols : (TypeSyntax.function parameters attributes results).symbols ++ ts
      = Symbol.word "function" :: (.lparen, "(") :: (parameters ++ (.rparen, ")")
        :: (attributes.map Symbol.word ++ (TypeSyntax.resultSymbols results ++ ts))) := by
    simp [TypeSyntax.symbols, inParens]
  rw [hsymbols]
  refine expect.bind ((skipGroup rfl hparameters).bind ?_)
  refine (typeAttributes hattributes hnext).iterate.bind (kind_bind ?_)
  cases results with
  | none => exact ite (fun h => absurd h hts.2) fun _ => pure' _
  | some ss =>
    have hresult : Matched ss := hresults ss rfl
    have hgroup : TypeSyntax.resultSymbols (some ss) ++ ts
        = Symbol.word "returns" :: (.lparen, "(") :: (ss ++ (.rparen, ")") :: ts) := by
      simp [TypeSyntax.resultSymbols, inParens]
    rw [hgroup]
    exact ite (fun _ => advance.bind ((skipGroup rfl hresult).bind (pure' _))) fun h => absurd rfl h

theorem skipName {n : Option String} (hn : ∀ m ∈ n, IsName m) (hts : (headKind ts).isName = false) :
    Parses Parser.skipName (nameSymbols n ++ ts) () ts := by
  cases n with
  | none => exact kind_bind (ite (fun h => Bool.noConfusion (hts.symm.trans h)) fun _ => pure' ())
  | some m => exact kind_bind (ite (fun _ => advance) fun h => absurd (hn m rfl).2 h)

/-- What stands behind a key or a value does not belong to its type. -/
theorem endsBefore_name {T : TypeSyntax} {n : Option String} (hn : ∀ m ∈ n, IsName m)
    (hts : T.EndsBefore (headKind ts)) : T.EndsBefore (headKind (nameSymbols n ++ ts)) := by
  cases n with
  | none => exact hts
  | some m => exact .of_isName (hn m rfl).2

theorem bracketLoop_stop {t : TypeName} {n : Option String} (hn : ∀ m ∈ n, IsName m)
    (hts : headKind ts ≠ .lbracket) :
    Loops Parser.bracketRound t (nameSymbols n ++ ts) t (nameSymbols n ++ ts) := by
  refine .stop (bracketRound_stop ?_)
  cases n with
  | none => exact hts
  | some m => exact (Kind.ne_of_endsType (Kind.endsType_of_isName (hn m rfl).2)).2.2

/-- A type that is written by the grammar is parsed as the type that is kept, up to where the
loop over the brackets behind it ends. -/
theorem typeSyntax {T : TypeSyntax} {u : TypeName} (hT : T.Grammatical)
    (hts : T.EndsBefore (headKind ts)) (hloop : Loops Parser.bracketRound T.tree ts u us) :
    Parses Parser.typeName (T.symbols ++ ts) u us := by
  induction T generalizing ts u us with
  | elementary name =>
    have hbase : (TypeName.elementary name).Printable := hT
    exact typeName_of_base (baseType hbase (by simp) hts.dot hts.payable) hloop
  | named path =>
    have hbase : (TypeName.named path).Printable := hT
    exact typeName_of_base (baseType hbase (by simp) hts.dot hts.payable) hloop
  | function parameters attributes results =>
    refine typeName_of_base (current_bind fun token htoken => ?_) hloop
    have hkind : token.kind = .kwFunction := congrArg Prod.fst htoken
    simp only [hkind]
    exact functionType hT (hts.signature rfl)
  | array base length ih =>
    -- The type of the items ends before a bracket, where the loop goes on over it.
    have hround := bracketRound base.tree hT.2 ts
    have hbase := ih hT.1 .lbracket (.step hround (by simp; omega) hloop)
    simpa [TypeSyntax.symbols] using hbase
  | mapping key keyName value valueName ihKey ihValue =>
    obtain ⟨hkey, hkeyName, hvalue, hvalueName⟩ := hT
    refine typeName_of_base (t := .mapping key.tree value.tree) ?_ hloop
    have hsymbols : (TypeSyntax.mapping key keyName value valueName).symbols ++ ts
        = Symbol.word "mapping" :: (.lparen, "(") :: (key.symbols ++ (nameSymbols keyName
          ++ (.arrow, "=>") :: (value.symbols ++ (nameSymbols valueName ++ (.rparen, ")") :: ts)))) := by
      simp [TypeSyntax.symbols]
    rw [hsymbols]
    refine current_bind fun token htoken => ?_
    have hkind : token.kind = .kwMapping := congrArg Prod.fst htoken
    simp only [hkind]
    refine expect.bind (expect.bind ?_)
    -- Behind the key and behind the value stands a name or what ends them, so no loop goes on.
    refine (ihKey hkey (endsBefore_name hkeyName .arrow) (bracketLoop_stop hkeyName (by simp))).bind ?_
    refine (skipName hkeyName rfl).bind (expect.bind ?_)
    refine (ihValue hvalue (endsBefore_name hvalueName .rparen)
      (bracketLoop_stop hvalueName (by simp))).bind ?_
    exact (skipName hvalueName rfl).bind (expect.bind (pure' _))

end Parses

end SolidityInterface
