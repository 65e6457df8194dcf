import SolidityInterface.Projection.Signature

/-
  Stubs: the declarations of a generated interface. A function that can be called
  from outside becomes the header of an external function, and a public state
  variable becomes the getter that the compiler makes for it. A stub is written
  on the side: its uses are kept only if the whole stub is. The structs and enums
  that the kept stubs use are declared again, enums first; a struct may use
  further ones, so there are rounds over the structs until one adds nothing.
-/

namespace SolidityInterface

namespace FunctionDecl

/-- The modifiers that hide a function. -/
def hidingModifiers : List DottedName := [["private"], ["internal"]]

/-- Whether a function can be called from outside: it has a name, it is not
declared to be internal or private, and no modifier says so either. -/
def isExposed (f : FunctionDecl) : Bool :=
  (f.name.any fun n => !n.isEmpty) &&
    (f.visibility = .external || f.visibility = .pub || f.visibility = .unspecified) &&
    f.modifiers.all fun m => m ∉ hidingModifiers

end FunctionDecl

/-- The variable that a statement makes a getter for: the first, if it is public. -/
def publicVariable? (vs : List Variable) : Option Variable :=
  vs.head?.filter fun v => v.visibility = .pub

namespace Record

/-- The functions that can be called from outside, in order. -/
def exposedFunctions (r : Record) : List FunctionDecl :=
  r.members.filterMap fun
    | .function f => if f.isExposed then some f else none
    | _ => none

/-- The variables with a getter, in order. -/
def publicVariables (r : Record) : List Variable :=
  r.members.filterMap fun
    | .state vs => publicVariable? vs
    | _ => none

end Record

namespace Scope

/-- Keeps the uses of a projection only if it has a result. It starts with the
bases alone. -/
def tentatively {α : Type} (s : Scope) (p : StateM Uses (Option α)) : StateM Uses (Option α) :=
  fun u =>
    match p s.baseUses with
    | (some a, scratch) => (some a, Distinct.addAll u scratch)
    | (none, _) => (none, u)

/-- The results of a projection of each item, without those that have none. -/
def each {α β : Type} (p : α → StateM Uses (Option β)) : List α → StateM Uses (List β)
  | [] => return []
  | a :: rest => do
    let b ← p a
    return b.toList ++ (← each p rest)

/-! ## Functions and getters -/

/-- The header of a function in an interface. -/
def functionHeader (f : FunctionDecl) (parameters returns : List String) : String :=
  let mutability := match f.mutability with
    | some m => " " ++ m.word
    | none => ""
  let results := if f.returns.isEmpty then "" else " returns (" ++ ", ".intercalate returns ++ ")"
  "function " ++ f.name.getD "" ++ "(" ++ ", ".intercalate parameters ++ ") external"
    ++ mutability ++ results ++ ";"

/-- The stub of a function. -/
def functionStub (s : Scope) (f : FunctionDecl) : StateM Uses (Option String) :=
  s.tentatively do
    let parameters ← s.parameterTexts f.parameters
    let returns ← s.parameterTexts f.returns
    return match parameters, returns with
      | some ps, some rs => some (functionHeader f ps rs)
      | _, _ => none

/-- The stub of the getter of a public state variable. -/
def getterStub (s : Scope) (v : Variable) : StateM Uses (Option String) :=
  s.tentatively do
    let keys ← s.keyTexts v.type
    let value ← s.typeText v.type v.location
    return match keys, value with
      | some ks, some t =>
        some ("function " ++ v.name.getD "" ++ "(" ++ ", ".intercalate ks
          ++ ") external view returns (" ++ t ++ ");")
      | _, _ => none

/-- The stubs of the functions, in order. -/
def functionStubs (s : Scope) : StateM Uses (List String) :=
  each s.functionStub s.record.exposedFunctions

/-- The stubs of the getters, in order. -/
def getterStubs (s : Scope) : StateM Uses (List String) :=
  each s.getterStub s.record.publicVariables

/-! ## Structs and enums -/

/-- The lines of the members of a struct. -/
def memberLines (s : Scope) : List Variable → StateM Uses (Option (List String))
  | [] => return some []
  | v :: rest => do
    match ← s.memberText v.type with
    | none => return none
    | some text =>
      return (← s.memberLines rest).map (("    " ++ text ++ " " ++ v.name.getD "" ++ ";") :: ·)

/-- The stub of a struct: all its members, or nothing. -/
def structStub (s : Scope) (d : StructDecl) : StateM Uses (Option String) :=
  s.tentatively do
    return (← s.memberLines d.members).map fun lines =>
      "\n".intercalate (["struct " ++ d.name ++ " \x7b"] ++ lines ++ ["\x7d"])

/-- The stub of an enum. -/
def enumStub (d : EnumDecl) : String :=
  "enum " ++ d.name ++ " \x7b " ++ ", ".intercalate d.members ++ " \x7d"

/-- The stubs of structs made so far, by name. -/
abbrev StructStubs := List (String × String)

/-- Makes the stub of a struct that is used and has none. -/
def projectStruct (s : Scope) (made : StructStubs) (d : StructDecl) : StateM Uses StructStubs := do
  if (made.lookup d.name).isSome || [d.name] ∉ (← get) then return made
  match ← s.structStub d with
  | some stub => return made ++ [(d.name, stub)]
  | none => return made

/-- One round over the structs. -/
def projectRound (s : Scope) : List StructDecl → StructStubs → StateM Uses StructStubs
  | [], made => return made
  | d :: rest, made => do s.projectRound rest (← s.projectStruct made d)

/-- Rounds over the structs until one makes no stub, or for a number of rounds. -/
def projectRounds (s : Scope) : Nat → StructStubs → StateM Uses StructStubs
  | 0, made => return made
  | n + 1, made => do
    let next ← s.projectRound s.record.structs made
    if next = made then return made else s.projectRounds n next

/-- The stubs of the local types in use. There are none if only built-in types may
appear. -/
def typeStubs (s : Scope) : StateM Uses (List String) := do
  if s.rawOnly then return []
  let made ← s.projectRounds s.record.structs.length []
  let used ← get
  let enums := s.record.enums.filter fun d => [d.name] ∈ used
  return enums.map enumStub ++ s.record.structs.filterMap fun d => made.lookup d.name

end Scope

end SolidityInterface
