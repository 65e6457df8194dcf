import SolidityInterface.Projection.Stub

/-
  The outline of an interface: all stubs of a record and the names they use. The
  stubs of types come last, since they depend on what the others use.
-/

namespace SolidityInterface

/-- The stubs of a record. -/
structure Outline where
  getters : List String
  functions : List String
  types : List String
  /-- The bases and the names that the stubs refer to. -/
  uses : Uses

/-- The scope of the outline of a record. -/
def Record.scope (r : Record) (rawOnly : Bool) : Scope := { record := r, rawOnly }

namespace Outline

/-- Makes the stubs of a scope. -/
def build (s : Scope) : StateM Uses (List String × List String × List String) := do
  let getters ← s.getterStubs
  let functions ← s.functionStubs
  let types ← s.typeStubs
  return (getters, functions, types)

/-- The outline of the interface of a record. -/
def ofRecord (rawOnly : Bool) (record : Record) : Outline :=
  let s := record.scope rawOnly
  let ((getters, functions, types), uses) := build s s.baseUses
  { getters, functions, types, uses }

/-- Whether the stubs refer to something that a record declares. -/
def usesRecord (o : Outline) (r : Record) : Bool := o.uses.usesAny (r.declared.map ([·]))

end Outline

end SolidityInterface
