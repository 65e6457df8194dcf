import SolidityInterface.Source.Record

/-
  Where an interface is written. A file under the modules root belongs to a
  package, and its interface goes below the output root of the file that the run
  started from. The interface of any other file goes to the target root, which is
  seen from the directory of the file unless it is absolute.
-/

namespace SolidityInterface

/-- The directory `target` as seen from the directory of a file, unless it is
absolute; then it has to be nameable. -/
def targetDirectory? (cwd target file : Path) : Option Path :=
  if target.isAbsolute then cwd.resolve? target else some (file.parent.join target)

/-- The places that decide where interfaces go. -/
structure Layout where
  /-- The working directory. -/
  cwd : Path
  /-- Where imports that are not relative are looked up. -/
  modulesRoot : Path
  /-- Where interfaces are written. -/
  targetRoot : Path

namespace Layout

/-- The modules root, as seen from the root of the disk. No file lies under one that
is not nameable. -/
def modules? (l : Layout) : Option Path := l.cwd.resolve? l.modulesRoot

/-- The package of a file whose path below the modules root is given: a scope and a
name, a name, or nothing for a file right in the modules root. -/
def packageOf : List String → List String
  | a :: b :: _ :: _ => if Text.startsWith a "@" then [a, b] else [a]
  | a :: _ :: _ => [a]
  | _ => []

/-- The package of a file, if it lies under the modules root. -/
def package? (l : Layout) (p : Path) : Option (List String) :=
  (l.modules?.bind p.below?).map packageOf

/-- The target root as seen from the directory of a file. -/
def targetFor? (l : Layout) (p : Path) : Option Path := targetDirectory? l.cwd l.targetRoot p

/-- The directory for the interface of a file. -/
def directory? (l : Layout) (p dependencyRoot : Path) : Option Path :=
  match l.package? p with
  | some package => some (dependencyRoot.join ⟨.relative, "dependencies" :: package⟩)
  | none => l.targetFor? p

/-- The file name of the interface of a record. -/
def fileName (r : Record) : String := r.interfaceName?.getD "None" ++ ".sol"

/-- The path under which a file is imported: that of its interface, if it gets one,
or else its own. -/
def outputPath? (l : Layout) (r : Record) (dependencyRoot : Path) : Option Path :=
  if r.needsInterface then
    (l.directory? r.path dependencyRoot).map (·.join ⟨.relative, [fileName r]⟩)
  else some r.path

/-- The text that imports `target` into a file in the directory `start`. -/
def relativeImport (l : Layout) (target start : Path) : String :=
  let text := (Path.relativeFrom l.cwd target start).render
  if Text.startsWith text "." then text else "./" ++ text

end Layout

end SolidityInterface
