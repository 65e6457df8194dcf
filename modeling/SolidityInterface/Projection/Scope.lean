import SolidityInterface.Source.Record

/-
  The scope of a projection: the record of one file and whether only built-in
  types may appear. A name that is qualified by the contract itself is local. A
  local struct is blocked if it cannot be declared again with its whole layout:
  a mapping or a function among its members blocks it, and so does a member of a
  blocked struct. The names are found in rounds over the structs until a round adds
  none, so there are never more rounds than structs.
-/

namespace SolidityInterface

/-- The names of types that the kept stubs refer to, each once. -/
abbrev Uses := List DottedName

namespace Uses

/-- Whether one of some names is used. -/
def usesAny (u : Uses) (names : List DottedName) : Bool := names.any fun n => n ∈ u

end Uses

namespace TypeName

/-- The type of the elements, with all array layers taken off. -/
def element : TypeName → TypeName
  | array base _ => base.element
  | t => t

end TypeName

namespace Record

/-- Drops a qualifier that names the contract itself. -/
def localName (r : Record) (n : DottedName) : DottedName :=
  match n with
  | [contract, name] => if r.name = some contract then [name] else n
  | _ => n

/-- Whether a name is, as seen from the contract, one of some plain names. -/
def isAmong (r : Record) (names : List String) (n : DottedName) : Bool :=
  match r.localName n with
  | [name] => name ∈ names
  | _ => false

/-- Whether a member of a type blocks its struct, if some names are blocked. -/
def isBlocking (r : Record) (blocked : List String) (t : TypeName) : Bool :=
  match t.element with
  | .mapping _ _ => true
  | .named n => r.isAmong blocked n
  | .elementary name => name = "function"
  | .array _ _ => false

/-- Blocks one struct if a member does. -/
def blockStruct (r : Record) (blocked : List String) (d : StructDecl) : List String :=
  if d.name ∈ blocked then blocked
  else if d.members.any fun m => r.isBlocking blocked m.type then blocked ++ [d.name]
  else blocked

/-- One round over the structs. -/
def blockRound (r : Record) (blocked : List String) : List String :=
  r.structs.foldl r.blockStruct blocked

/-- Rounds over the structs until one changes nothing, or for a number of rounds. -/
def blockRounds (r : Record) : Nat → List String → List String
  | 0, blocked => blocked
  | n + 1, blocked =>
    let next := r.blockRound blocked
    if next = blocked then blocked else r.blockRounds n next

/-- The names of the local structs that cannot be declared again. -/
def blockedStructs (r : Record) : List String := r.blockRounds r.structs.length []

end Record

/-- What a projection depends on. -/
structure Scope where
  record : Record
  /-- Whether types that a source declares are ruled out. -/
  rawOnly : Bool := false
  /-- The local structs that cannot be declared again. -/
  blocked : List String := record.blockedStructs
  blocked_eq : blocked = record.blockedStructs := by rfl

namespace Scope

/-- Drops a qualifier that names the contract itself. -/
def localName (s : Scope) (n : DottedName) : DottedName := s.record.localName n

/-- Whether a name is that of a local struct. -/
def isLocalStruct (s : Scope) (n : DottedName) : Bool :=
  s.record.structNames.any fun name => n = [name]

/-- Whether a name is that of a local enum. -/
def isLocalEnum (s : Scope) (n : DottedName) : Bool :=
  s.record.enumNames.any fun name => n = [name]

/-- Whether a name is that of a local struct that cannot be declared again. -/
def isBlocked (s : Scope) (n : DottedName) : Bool := s.record.isAmong s.blocked n

/-- The uses a projection starts with: the bases of the contract. -/
def baseUses (s : Scope) : Uses := Distinct.ofList s.record.bases

/-- Registers a type and gives the name to write for it. A qualified name
registers its head too, so that the file that declares the head counts as used. -/
def use (s : Scope) (n : DottedName) : StateM Uses DottedName := fun u =>
  match s.localName n with
  | head :: second :: rest => (head :: second :: rest, Distinct.add (Distinct.add u (head :: second :: rest)) [head])
  | name => (name, Distinct.add u name)

end Scope

end SolidityInterface
