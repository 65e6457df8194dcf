import SolidityInterface.Interface.Document
import SolidityInterface.Interface.Import
import SolidityInterface.Projection.Outline

/-
  The interface of a contract, put together from its outline and its used imports.
-/

namespace SolidityInterface

/-- The interface of a record that is written into the given directory. -/
def Record.interface (r : Record) (l : Layout) (o : Outline) (directory : Path)
    (us : List UsedImport) : Interface :=
  let start : Interface := {
    name := r.interfaceName?.getD ""
    license := r.license.display
    pragma := r.pragma.getD ⟨"", ""⟩ }
  let lines := us.map (UsedImport.line l directory r.bases)
  let named := (lines.foldl Interface.addImport start).inherit (inheritedNames r.bases us)
  ((named.addGroup o.types true).addGroup o.getters).addGroup o.functions

end SolidityInterface
