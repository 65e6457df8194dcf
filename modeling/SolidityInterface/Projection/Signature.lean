import SolidityInterface.Projection.Scope

/-
  Types in the signature of an external function. A type of dynamic size carries
  a data location there, which belongs to the whole type and never to its parts;
  a pointer into storage cannot cross an external call and becomes one into
  memory. A type that has no such form has no text, and then the whole stub that
  needs it is dropped. The names a text refers to are added to the uses.
-/

namespace SolidityInterface

/-- The location that is written where the source gives none. -/
def DataLocation.fallback : DataLocation := .memory

/-- The location for an external signature. -/
def DataLocation.external : DataLocation → DataLocation
  | .storage => .memory
  | l => l

namespace Scope

/-- A type text with a location behind it. -/
def located (text : String) (location : DataLocation) : String := text ++ " " ++ location.word

/-- The text of a member of a struct, or of an element of an array: it has no
location, and no mapping is allowed. -/
def memberText (s : Scope) : TypeName → StateM Uses (Option String)
  | .named n => do
    if s.rawOnly then return none
    if s.isBlocked n then return none
    return some (← s.use n).render
  | .array base length => do
    let element ← s.memberText base
    return element.map fun e => e ++ "[" ++ length.getD "" ++ "]"
  | .mapping _ _ => return none
  | .elementary name => return if name = "function" then none else some name

/-- The text of a type with a location, which is written where it is needed. A
mapping stands for its values. -/
def locatedText (s : Scope) (location : Option DataLocation) : TypeName → StateM Uses (Option String)
  | .named n => do
    match ← s.memberText (.named n) with
    | none => return none
    | some text =>
      match location with
      | some l => return some (located text l)
      | none =>
        if s.isLocalStruct (s.localName n) then return some (located text .fallback)
        else return some text
  | .array base length => do
    let text ← s.memberText (.array base length)
    return text.map (located · (location.getD .fallback))
  | .mapping _ value => s.locatedText location value
  | .elementary name => do
    let text ← s.memberText (.elementary name)
    return text.map fun t =>
      if name = "string" || name = "bytes" then located t (location.getD .fallback) else t

/-- The text of a parameter, a return value or the value of a getter. -/
def typeText (s : Scope) (t : TypeName) (location : Option DataLocation) :
    StateM Uses (Option String) :=
  s.locatedText (location.map (·.external)) t

/-- The parameters of the getter of a type: the keys of its nested mappings. All
keys are tried, also behind one that has no text. -/
def keyTexts (s : Scope) : TypeName → StateM Uses (Option (List String))
  | .mapping key value => do
    let text ← s.typeText key none
    let rest ← s.keyTexts value
    return match text, rest with
      | some t, some ts => some (t :: ts)
      | _, _ => none
  | _ => return some []

/-- The text of a list of parameters. It ends at the first type without a text. -/
def parameterTexts (s : Scope) : List Variable → StateM Uses (Option (List String))
  | [] => return some []
  | v :: rest => do
    match ← s.typeText v.type v.location with
    | none => return none
    | some text =>
      let named := match v.name with
        | some name => if name.isEmpty then text else text ++ " " ++ name
        | none => text
      return (← s.parameterTexts rest).map (named :: ·)

end Scope

end SolidityInterface
