import SolidityInterface.Proofs.Declaration.TypeSyntax

/-
  State variables as they are written, and the state variables that they are parsed as. A
  member of a contract is taken for a state variable if its first token announces nothing else:

  1. A state variable that is written by the grammar is parsed, with its attributes in any
     order and its initial value skipped (`Parses.stateVariable`).
  2. If the type, without the brackets behind it, is an elementary one, a mapping or one named
     by an identifier, then nothing else is announced, so a contract with this one member is
     parsed as one with this state variable (`Parses.contractMembers`).
  3. If it is a function type, then its first word announces a function, and what is parsed
     starts with a function or is an error (`Contract.starts_with_function`).
-/

namespace SolidityInterface

open Token (Kind)

/-! ## How state variables are written -/

/-- A word between the type and the name of a state variable. -/
inductive VariableAttribute where
  | pub | priv | internal
  | mode (m : StorageMode)
  /-- The word `override`, with what stands between the parentheses behind it, if they are
  given. -/
  | override (arguments : Option (List Symbol))

namespace VariableAttribute

/-- The symbols of an attribute. -/
def symbols : VariableAttribute → List Symbol
  | pub => [Symbol.word "public"]
  | priv => [Symbol.word "private"]
  | internal => [Symbol.word "internal"]
  | mode m => [Symbol.word m.word]
  | override none => [Symbol.word "override"]
  | override (some arguments) => Symbol.word "override" :: inParens arguments

/-- The visibility that an attribute gives. -/
def visibility? : VariableAttribute → Option Visibility
  | pub => some .pub
  | priv => some .priv
  | internal => some .internal
  | mode _ | override _ => none

/-- The mode of storage that an attribute gives. -/
def mode? : VariableAttribute → Option StorageMode
  | mode m => some m
  | _ => none

/-- What an attribute starts with does not go on a type, and is no list of arguments. -/
theorem exists_symbols (a : VariableAttribute) :
    ∃ x ss, a.symbols = x :: ss ∧ x.1.endsType = true ∧ x.1 ≠ .lparen := by
  match a with
  | pub | priv | internal => exact ⟨_, _, rfl, rfl, by decide⟩
  | mode .constant | mode .immutable | mode .transient => exact ⟨_, _, rfl, rfl, by decide⟩
  | override none | override (some _) => exact ⟨_, _, rfl, rfl, by decide⟩

end VariableAttribute

/-- A state variable as it is written. -/
structure VariableSyntax where
  type : TypeSyntax
  attributes : List VariableAttribute
  name : String
  /-- What stands between the equals sign and the semicolon, if there is one. -/
  initial : Option (List Symbol)

namespace VariableSyntax

/-- The symbols from the equals sign or the semicolon on. -/
def endSymbols : Option (List Symbol) → List Symbol
  | none => [(.semicolon, ";")]
  | some initial => (.eq, "=") :: (initial ++ [(.semicolon, ";")])

/-- The symbols of a state variable. -/
def symbols (V : VariableSyntax) : List Symbol :=
  V.type.symbols ++ (V.attributes.flatMap (·.symbols) ++ Symbol.word V.name :: endSymbols V.initial)

/-- The state variable that is kept: it is internal unless another visibility is given. -/
def tree (V : VariableSyntax) : Variable where
  type := V.type.tree
  name := some V.name
  visibility := (V.attributes.filterMap (·.visibility?)).getLastD .internal
  mode := (V.attributes.filterMap (·.mode?)).getLast?

end VariableSyntax

/-- The type before the brackets behind a type. -/
def TypeSyntax.innermost : TypeSyntax → TypeSyntax
  | array base _ => base.innermost
  | T => T

/-- Whether a state variable is written by the grammar. Brackets match, no semicolon stands in the
initial value outside of brackets, and if the type has a name of its own, its first segment is an
identifier. -/
structure VariableSyntax.Grammatical (V : VariableSyntax) : Prop where
  type : V.type.Grammatical
  first : ∀ path, V.type.innermost = .named path → ∀ n ∈ path.head?, Word.kind n = .identifier
  arguments : ∀ ss, .override (some ss) ∈ V.attributes → Matched ss
  name : IsName V.name
  initial : ∀ ss ∈ V.initial, Unbroken ss

/-- The class of the first symbol of a type says whether it is a function type, without the
brackets behind it. -/
theorem TypeSyntax.headKind_cases {T : TypeSyntax} (hT : T.Grammatical)
    (hfirst : ∀ path, T.innermost = .named path → ∀ n ∈ path.head?, Word.kind n = .identifier)
    (ts : List Symbol) :
    (T.innermost.isFunction = true ∧ headKind (T.symbols ++ ts) = .kwFunction) ∨
      (T.innermost.isFunction = false ∧ (headKind (T.symbols ++ ts) = .elementary ∨
        headKind (T.symbols ++ ts) = .identifier ∨ headKind (T.symbols ++ ts) = .kwMapping)) := by
  induction T generalizing ts with
  | elementary name =>
    refine .inr ⟨rfl, .inl ?_⟩
    show headKind ((TypeName.elementary name).symbols ++ ts) = .elementary
    rw [TypeName.symbols]
    split
    · rfl
    · exact (hT.resolve_left ‹_›).2
  | named path =>
    obtain ⟨n, path, rfl⟩ := List.exists_cons_of_ne_nil hT.1
    exact .inr ⟨rfl, .inr (.inl (hfirst _ rfl n rfl))⟩
  | function parameters attributes results => exact .inl ⟨rfl, rfl⟩
  | array base length ih =>
    rw [TypeSyntax.symbols, List.append_assoc]
    exact ih hT.1 hfirst _
  | mapping key keyName value valueName => exact .inr ⟨rfl, .inr (.inr rfl)⟩

theorem VariableSyntax.Grammatical.headKind_cases {V : VariableSyntax} (hV : V.Grammatical)
    (ts : List Symbol) :
    (V.type.innermost.isFunction = true ∧ headKind (V.symbols ++ ts) = .kwFunction) ∨
      (V.type.innermost.isFunction = false ∧ (headKind (V.symbols ++ ts) = .elementary ∨
        headKind (V.symbols ++ ts) = .identifier ∨ headKind (V.symbols ++ ts) = .kwMapping)) := by
  rw [VariableSyntax.symbols, List.append_assoc]
  exact V.type.headKind_cases hV.type hV.first _

/-! ## Parsing -/

namespace Parses

variable {ts us : List Symbol}

/-- A parser that keeps the current token. -/
theorem current_any {α : Type} {f : Token → Parser α} {ss : List Symbol} {a : α}
    (hf : ∀ t, Parses (f t) ss a ts) : Parses (Parser.current >>= f) ss a ts :=
  fun r hr => hf r.current r hr

theorem recovering {α : Type} {p : Parser α} {ss : List Symbol} {a : α} (hp : Parses p ss a ts) :
    Parses (Parser.recovering p) ss (some a) ts := by
  intro r hr
  obtain ⟨r', h, hts⟩ := hp r hr
  exact ⟨r', by rw [Parser.recovering, h], hts⟩

/-- The attributes of a state variable end before a name. -/
theorem variableWord_stop {v : Variable} (hts : (headKind ts).isName = true) :
    Parses (Parser.variableWordRound v) ts none ts := by
  refine kind_bind ?_
  generalize headKind ts = k at hts
  cases k <;> simp [Kind.isName] at hts <;> exact pure' none

/-- One attribute. What stands behind it does not belong to it. -/
theorem variableWord {a : VariableAttribute} {v : Variable}
    (ha : ∀ ss, a = .override (some ss) → Matched ss) (hts : headKind ts ≠ .lparen) :
    Parses (Parser.variableWordRound v) (a.symbols ++ ts)
      (some { v with visibility := a.visibility?.getD v.visibility, mode := a.mode?.or v.mode }) ts := by
  match a with
  | .pub | .priv | .internal => exact kind_bind (advance.bind (pure' _))
  | .mode .constant | .mode .immutable | .mode .transient => exact kind_bind (advance.bind (pure' _))
  | .override none => exact kind_bind (advance.bind ((skipArguments_other hts).bind (pure' _)))
  | .override (some ss) =>
    have hsymbols : (VariableAttribute.override (some ss)).symbols ++ ts
        = Symbol.word "override" :: (.lparen, "(") :: (ss ++ (.rparen, ")") :: ts) := by
      simp [VariableAttribute.symbols, inParens]
    rw [hsymbols]
    exact kind_bind (advance.bind ((skipArguments (ha ss rfl)).bind (pure' _)))

/-- What the first attribute or the name of a state variable starts with. -/
theorem headKind_attributes (as : List VariableAttribute) (hts : (headKind ts).isName = true) :
    (headKind (as.flatMap (·.symbols) ++ ts)).endsType = true ∧
      headKind (as.flatMap (·.symbols) ++ ts) ≠ .lparen := by
  cases as with
  | nil =>
    refine ⟨Kind.endsType_of_isName hts, fun h => ?_⟩
    rw [show headKind ts = .lparen from h] at hts
    cases hts
  | cons a as =>
    obtain ⟨x, ss, hsymbols, hx⟩ := a.exists_symbols
    rw [List.flatMap_cons, hsymbols]
    exact hx

theorem variableWords {as : List VariableAttribute} {v : Variable}
    (has : ∀ ss, .override (some ss) ∈ as → Matched ss) (hts : (headKind ts).isName = true) :
    Loops Parser.variableWordRound v (as.flatMap (·.symbols) ++ ts)
      { v with visibility := (as.filterMap (·.visibility?)).getLastD v.visibility
               mode := (as.filterMap (·.mode?)).getLast?.or v.mode } ts := by
  induction as generalizing v with
  | nil => exact .stop (variableWord_stop hts)
  | cons a as ih =>
    obtain ⟨x, ss, hsymbols, -⟩ := a.exists_symbols
    have hround := variableWord (v := v) (a := a) (fun ss h => has ss (by simp [h]))
      (headKind_attributes as hts).2
    have hrest := ih (v := { v with visibility := a.visibility?.getD v.visibility
                                    mode := a.mode?.or v.mode })
      fun ss h => has ss (by simp [h])
    have hvisibility : ((a :: as).filterMap (·.visibility?)).getLastD v.visibility
        = (as.filterMap (·.visibility?)).getLastD (a.visibility?.getD v.visibility) := by
      cases h : a.visibility? <;> simp [h, List.getLast?_cons]
    have hmode : ((a :: as).filterMap (·.mode?)).getLast?.or v.mode
        = (as.filterMap (·.mode?)).getLast?.or (a.mode?.or v.mode) := by
      cases h : a.mode? <;> cases hlast : (as.filterMap (·.mode?)).getLast? <;>
        simp [h, hlast, List.getLast?_cons]
    have hlength : (as.flatMap (·.symbols) ++ ts).length
        < (a.symbols ++ (as.flatMap (·.symbols) ++ ts)).length := by
      rw [hsymbols]
      exact Nat.lt_succ_of_le (List.suffix_append ss _).length_le
    rw [List.flatMap_cons, List.append_assoc, hvisibility, hmode]
    exact .step hround hlength hrest

/-- A state variable that is written by the grammar is parsed as the one that is kept, unless its
type as a whole is a function type, to which attributes could belong. -/
theorem stateVariable {V : VariableSyntax} (hV : V.Grammatical) (hfunction : V.type.isFunction = false) :
    Parses Parser.stateVariable (V.symbols ++ ts) V.tree ts := by
  have hname : (headKind (Symbol.word V.name :: (VariableSyntax.endSymbols V.initial ++ ts))).isName = true :=
    hV.name.2
  obtain ⟨hend, -⟩ := headKind_attributes V.attributes hname
  obtain ⟨hdot, hpayable, hbracket⟩ := Kind.ne_of_endsType hend
  have hends : V.type.EndsBefore _ := ⟨hdot, hpayable, fun h => Bool.noConfusion (hfunction.symm.trans h)⟩
  have htype := typeSyntax hV.type hends (.stop (bracketRound_stop hbracket))
  have hsymbols : V.symbols ++ ts = V.type.symbols ++ (V.attributes.flatMap (·.symbols)
      ++ Symbol.word V.name :: (VariableSyntax.endSymbols V.initial ++ ts)) := by
    simp [VariableSyntax.symbols]
  rw [hsymbols]
  have hwords := variableWords (v := { type := V.type.tree }) hV.arguments hname
  simp only [Option.or_none] at hwords
  refine current_any fun start => htype.bind (hwords.iterate.bind ?_)
  refine (word_name hV.name).bind (kind_bind ?_)
  cases hinitial : V.initial with
  | none =>
    refine ite (fun h => absurd h (by simp [VariableSyntax.endSymbols])) fun _ => ?_
    exact expect.bind (pure' _)
  | some ss =>
    -- The equals sign is skipped with what stands behind it.
    have hss : Unbroken ((.eq, "=") :: ss) := .plain rfl rfl (by simp) (hV.initial ss hinitial)
    have hsymbols : VariableSyntax.endSymbols (some ss) ++ ts
        = ((.eq, "=") :: ss) ++ (.semicolon, ";") :: ts := by
      simp [VariableSyntax.endSymbols]
    rw [hsymbols]
    exact ite (fun _ => (skipStatement hss).bind (pure' _)) fun h => absurd rfl h

/-- A member that is a state variable is parsed as one if nothing else is announced. -/
theorem variableMember {V : VariableSyntax} (hV : V.Grammatical)
    (hfunction : V.type.innermost.isFunction = false) (ms : List Member) :
    Parses (Parser.memberRound ms) (V.symbols ++ ts) (some (ms ++ [.state [V.tree]])) ts := by
  have htype : V.type.isFunction = false := by
    cases htype : V.type with
    | function parameters attributes results =>
      rw [htype] at hfunction
      cases hfunction
    | _ => rfl
  intro r hr
  have hkind : r.current.kind = .elementary ∨ r.current.kind = .identifier ∨
      r.current.kind = .kwMapping := by
    rw [r.current_kind, hr]
    exact ((hV.headKind_cases ts).resolve_left (by simp [hfunction])).2
  have hmore : r.current.kind ≠ .rbrace ∧ r.current.kind ≠ .eof := by
    rcases hkind with h | h | h <;> simp [h]
  have hstarts : r.startsVariable = true := by
    rcases hkind with h | h | h <;> simp [Reader.startsVariable, h]
  have hvariable : Parses Parser.variableMember (V.symbols ++ ts) (some (.state [V.tree])) ts :=
    (recovering (stateVariable hV htype)).bind (pure' _)
  obtain ⟨r', h, hts⟩ := hvariable r hr
  have hmember : Parser.member r = .ok (some (.state [V.tree])) r' := by
    rw [Parser.member_eq, if_pos hstarts, h]
  exact ⟨r', by rw [Parser.memberRound_eq ms hmore, Parser.bind_of_ok hmember]; rfl, hts⟩

/-- A contract with one state variable in its body, and nothing else. -/
theorem contractMembers {V : VariableSyntax} (hV : V.Grammatical)
    (hfunction : V.type.innermost.isFunction = false) (c : Contract) :
    Parses (Parser.contractMembers c) (V.symbols ++ (.rbrace, "\x7d") :: ts)
      { c with members := [.state [V.tree]] } ts := by
  have hstop : Loops Parser.memberRound [.state [V.tree]] ((.rbrace, "\x7d") :: ts) [.state [V.tree]]
      ((.rbrace, "\x7d") :: ts) := .stop (kind_bind (pure' none))
  have hloop := Loops.step (variableMember hV hfunction []) (by simp [VariableSyntax.symbols]; omega) hstop
  exact hloop.iterate.bind (expect.bind (pure' _))

end Parses

/-! ## Function types -/

/-- The loop over the members of a contract keeps those that it has. -/
theorem Parser.members_extend {ms ms' : List Member} {r r' : Reader}
    (h : Rounds memberRound ms r ms' r') : ms <+: ms' := by
  induction h with
  | refl => exact List.prefix_rfl
  | @step y z r₁ r₂ _ hround ih =>
    by_cases hk : r₁.current.kind ≠ .rbrace ∧ r₁.current.kind ≠ .eof
    · rw [memberRound_eq y hk] at hround
      obtain ⟨m?, s, -, hpure⟩ := Sound.bind_ok hround
      cases hpure
      exact ih.trans (List.prefix_append y _)
    · rw [memberRound_stop y hk] at hround
      cases hround

/-- A contract whose body starts with the word `function` starts with a function, if it is parsed
at all. -/
theorem Contract.starts_with_function {r body r' : Reader} {c c' : Contract}
    (hhead : Parser.contractHead r = .ok c body) (hk : body.current.kind = .kwFunction)
    (h : Parser.contract r = .ok c' r') : ∃ f ms, c'.members = .function f :: ms := by
  rw [Parser.contract_eq, Parser.bind_of_ok hhead] at h
  obtain ⟨ms, s, hms, h⟩ := Sound.bind_ok h
  obtain ⟨_, s', -, h⟩ := Sound.bind_ok h
  cases h
  -- The first round of the loop is the function, and the others keep it.
  rw [Rounds.iterate_eq_bind Agrees.memberRound] at hms
  obtain ⟨o, s₁, hround, hrest⟩ := Sound.bind_ok hms
  rw [Parser.memberRound_eq [] (by rw [hk]; decide)] at hround
  obtain ⟨m?, s₂, hmember, hround⟩ := Sound.bind_ok hround
  rw [Parser.member_function hk] at hmember
  obtain ⟨f, s₃, -, hmember⟩ := Sound.bind_ok hmember
  cases hmember
  cases hround
  obtain ⟨s₄, hrounds, -⟩ := Rounds.of_iterate hrest
  obtain ⟨rest, hmembers⟩ := Parser.members_extend hrounds
  exact ⟨f, rest, hmembers.symm⟩

/-- A state variable is recognised unless it is of a function type. Behind any head of a contract,
a body that consists of a state variable is parsed to just this state variable, if its type without
the brackets behind it is no function type, and only then. -/
theorem Contract.variables_are_recognised_but_for_function_types {V : VariableSyntax}
    (hV : V.Grammatical) {r body : Reader} {c : Contract} {ts : List Symbol}
    (hhead : Parser.contractHead r = .ok c body)
    (hbody : body.symbols = V.symbols ++ (.rbrace, "\x7d") :: ts) :
    (∃ r', Parser.contract r = .ok { c with members := [.state [V.tree]] } r' ∧ r'.symbols = ts) ↔
      V.type.innermost.isFunction = false := by
  constructor
  · rintro ⟨r', hr', -⟩
    rw [← Bool.not_eq_true]
    intro hfunction
    have hk : body.current.kind = .kwFunction := by
      rw [body.current_kind, hbody]
      exact ((hV.headKind_cases _).resolve_right (by simp [hfunction])).2
    obtain ⟨f, ms, hmembers⟩ := starts_with_function hhead hk hr'
    cases hmembers
  · intro hfunction
    obtain ⟨r', hr', hts⟩ := Parses.contractMembers hV hfunction c body hbody
    refine ⟨r', ?_, hts⟩
    rw [Parser.contract_eq, Parser.bind_of_ok hhead]
    exact hr'

/-- The symbols of a contract with a state variable and nothing else. -/
def VariableSyntax.inContract (V : VariableSyntax) : List Symbol :=
  [Symbol.word "contract", Symbol.word "C", (.lbrace, "\x7b")] ++ V.symbols ++ [(.rbrace, "\x7d")]

/-- A state variable of a function type, as it is written in `function() external f;`. -/
def VariableSyntax.callback : VariableSyntax where
  type := .function [] ["external"] none
  attributes := []
  name := "f"
  initial := none

/-- A state variable of a function type is taken for the fallback of an older contract, with its
name for a modifier. -/
theorem Contract.function_variable_is_read_as_fallback :
    VariableSyntax.callback.Grammatical ∧
      VariableSyntax.callback.tree = { type := .elementary "function", name := some "f" } ∧
      (TokenStream.ofSource? "contract C\x7bfunction() external f;\x7d").map TokenStream.symbols
        = some VariableSyntax.callback.inContract ∧
      SourceUnit.ofSource "contract C\x7bfunction() external f;\x7d" = .ok {
        contracts := [{ name := "C", kind := .contract,
                        members := [.function { name := none, kind := .special "fallback",
                                                visibility := .external, modifiers := [["f"]] }] }] } := by
  refine ⟨⟨⟨.nil, by decide +kernel, by simp⟩, ?_, ?_, by decide +kernel, ?_⟩, rfl, ?_, ?_⟩
  · intro path hpath
    cases hpath
  · simp [VariableSyntax.callback]
  · simp [VariableSyntax.callback]
  · decide +kernel
  · decide +kernel

/-- A state variable with function types in its type, attributes on both sides of its visibility,
and brackets and semicolons in its initial value. -/
def VariableSyntax.hooks : VariableSyntax where
  type := .array (.mapping (.elementary "uint") none
    (.function [(.elementary, "uint")] ["external"] (some [(.elementary, "bool")])) (some "hook")) []
  attributes := [.mode .constant, .pub, .override (some [(.identifier, "A"), (.comma, ","), (.identifier, "B")])]
  name := "hooks"
  initial := some ((.identifier, "f") :: (.lbrace, "\x7b") :: ([(.semicolon, ";")] ++ (.rbrace, "\x7d") :: []))

/-- The contract with these hooks. -/
def hookContract : TokenStream where
  tokens := VariableSyntax.hooks.inContract.map fun s => ⟨s.1, s.2, {}⟩
  stop := {}

theorem Contract.hooks_are_recognised :
    VariableSyntax.hooks.Grammatical ∧ VariableSyntax.hooks.type.innermost.isFunction = false ∧
      ∃ body r', Parser.contractHead (Reader.ofStream hookContract)
          = .ok { name := "C", kind := .contract } body ∧
        body.symbols = VariableSyntax.hooks.symbols ++ [(.rbrace, "\x7d")] ∧
        Parser.contract (Reader.ofStream hookContract) = .ok {
          name := "C", kind := .contract
          members := [.state [{
            type := .array (.mapping (.elementary "uint") (.elementary "function")) none
            name := some "hooks", visibility := .pub, mode := some .constant }]] } r' ∧
        r'.symbols = [] := by
  have htype : VariableSyntax.hooks.type.Grammatical := by
    refine ⟨⟨.inr (by decide +kernel), by simp, ⟨.plain rfl rfl .nil, by decide +kernel, ?_⟩, ?_⟩, rfl⟩
    · rintro ss ⟨⟩
      exact .plain rfl rfl .nil
    · rintro n ⟨⟩
      decide +kernel
  have hgrammatical : VariableSyntax.hooks.Grammatical := by
    refine ⟨htype, ?_, ?_, by decide +kernel, ?_⟩
    · rintro path ⟨⟩
    · intro ss hss
      obtain rfl : ss = [(.identifier, "A"), (.comma, ","), (.identifier, "B")] := by
        simpa [VariableSyntax.hooks] using hss
      exact .plain rfl rfl (.plain rfl rfl (.plain rfl rfl .nil))
    · rintro ss ⟨⟩
      exact .plain rfl rfl (by decide) (.group rfl (.plain rfl rfl .nil) .nil)
  obtain ⟨body, hhead, hbody⟩ : ∃ body, Parser.contractHead (Reader.ofStream hookContract)
      = .ok { name := "C", kind := .contract } body ∧
      body.symbols = VariableSyntax.hooks.symbols ++ [(.rbrace, "\x7d")] := ⟨_, rfl, rfl⟩
  obtain ⟨r', hr', hrest⟩ :=
    (variables_are_recognised_but_for_function_types hgrammatical hhead hbody).mpr rfl
  exact ⟨hgrammatical, rfl, body, r', hhead, hbody, hr', hrest⟩

end SolidityInterface
