import SolidityInterface.Glob.Pattern
import SolidityInterface.Host.Basic
import SolidityInterface.Distinct
import SolidityInterface.Text.Split

/-
  The files that a pattern stands for. The pattern is taken apart at its slashes,
  from the last on; two stars alone between slashes stand for any number of
  directories, none included. Names with a dot in front are found only by a pattern
  with a dot in front. The paths are spelled as the pattern spells them.
-/

namespace SolidityInterface.Glob

/-- The part of a path up to its last slash, and the part behind it. The first part
loses its slashes at the end, unless it has nothing else. -/
def splitLast (s : String) : String × String :=
  let back := s.toList.reverse
  let base := (back.takeWhile (· ≠ '/')).reverse
  let above := back.dropWhile (· ≠ '/')
  let trimmed := above.dropWhile (· = '/')
  (String.ofList (if trimmed.isEmpty then above else trimmed).reverse, String.ofList base)

/-- A name as seen from a directory. -/
def joined (directory name : String) : String :=
  if Text.startsWith name "/" then name
  else if directory.isEmpty || directory.toList.getLast? = some '/' then directory ++ name
  else directory ++ "/" ++ name

/-- A name as seen from a directory, where either may be nothing. -/
def joinedLoosely (directory name : String) : String :=
  if directory.isEmpty || name.isEmpty then directory ++ name else joined directory name

variable {m : Type → Type} [Monad m] [Host m]

/-- The names in a directory, with what they stand for; no text stands for the working
directory. A directory that the disk does not give has no names, but a null character
in its path is an error. -/
def entries (directory : String) : ExceptT DiskFault m (List (String × EntryKind)) := do
  let path := if directory.isEmpty then "." else directory
  match ← ExceptT.lift (Host.names path) with
  | .ok names => return names
  | .error .nullCharacter => throw .nullCharacter
  | .error _ => return []

/-- The names in a directory; only those of directories, if so wanted. -/
def listing (directory : String) (onlyDirectories : Bool) : ExceptT DiskFault m (List String) := do
  let found ← entries directory
  return (found.filter fun e => !onlyDirectories || e.2 = .directory).map (·.1)

/-- The names in a directory that match a pattern. -/
def matching (directory pattern : String) (onlyDirectories : Bool) :
    ExceptT DiskFault m (List String) := do
  let names ← listing directory onlyDirectories
  return names.filter fun n => (isHidden pattern || !isHidden n) && matchName pattern n

/-- A plain name, if it is there; no name stands for the directory itself. -/
def present (directory name : String) : m (List String) := do
  let found ← if name.isEmpty then Host.isDirectory directory
    else Host.isPresent (joinedLoosely directory name)
  return if found then [name] else []

/-- The paths below a directory, down to a depth, without hidden ones. -/
def below (onlyDirectories : Bool) : Nat → String → ExceptT DiskFault m (List String)
  | 0, _ => return []
  | depth + 1, directory => do
    let names := (← listing directory onlyDirectories).filter (!isHidden ·)
    let parts ← names.mapM fun n => do
      let inner ← below onlyDirectories depth (joinedLoosely directory n)
      return n :: inner.map (joinedLoosely n)
    return parts.flatten

/-- How far down directories are searched: no path is longer. -/
def maxDepth : Nat := DiskFault.maxPath

/-- A directory, be it there or not, and the paths below it. -/
def anyDepth (directory : String) (onlyDirectories : Bool) : ExceptT DiskFault m (List String) := do
  return "" :: (← below onlyDirectories maxDepth directory)

/-- The names in a directory that one part of a pattern stands for. -/
def findIn (directory part : String) (onlyDirectories : Bool) : ExceptT DiskFault m (List String) :=
  if part = "**" then anyDepth directory onlyDirectories
  else if hasMagic part then matching directory part onlyDirectories
  else ExceptT.lift (present directory part)

/-- The paths that a pattern of at most a number of characters stands for. -/
def findWithin : Nat → String → Bool → ExceptT DiskFault m (List String)
  | 0, _, _ => return []
  | n + 1, pattern, onlyDirectories => do
    let (directory, part) := splitLast pattern
    if directory.isEmpty then findIn "" part onlyDirectories
    else
      let directories ← if hasMagic directory then findWithin n directory true else pure [directory]
      let found ← directories.mapM fun d => do
        return (← findIn d part onlyDirectories).map (joined d)
      return found.flatten

/-- The paths that a pattern stands for. The working directory itself is not one. -/
def find (pattern : String) : ExceptT DiskFault m (List String) := do
  return (← findWithin (pattern.length + 1) pattern false).filter (!·.isEmpty)

/-- The sorted paths that a pattern stands for. A text that is no pattern stands for
itself. There is a complaint about a pattern without paths. -/
def pathsOf (pattern : String) : ExceptT DiskFault m (List String) := do
  if !hasMagic pattern then return [pattern]
  let paths := (← find pattern).mergeSort fun a b => decide (a ≤ b)
  if paths.isEmpty then
    ExceptT.lift (Host.complain ("Warning: No files match '" ++ pattern ++ "'"))
  return paths

/-- The paths that some patterns stand for, each once. -/
def expand (patterns : List String) : m (Except DiskFault (List String)) := do
  return (← (patterns.mapM pathsOf).run).map fun found => Distinct.ofList found.flatten

end SolidityInterface.Glob
