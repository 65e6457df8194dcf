import SolidityInterface.Declaration.Basic
import SolidityInterface.Distinct

/-
  The text of one interface file: licence, pragma, imports, and the interface with
  its groups of stubs in the order in which they were added. Groups are divided by
  blank lines, and so are the stubs of a spaced group. Imports and bases are named
  once, where they first came.
-/

namespace SolidityInterface

/-- A group of stubs. -/
structure StubGroup where
  stubs : List String
  /-- Whether a blank line stands between the stubs. -/
  isSpaced : Bool := false
deriving DecidableEq

/-- An interface file. -/
structure Interface where
  name : String
  license : String
  pragma : PragmaDirective
  bases : List String := []
  imports : List String := []
  groups : List StubGroup := []
deriving DecidableEq

namespace Interface

/-- Adds an import line. -/
def addImport (i : Interface) (line : String) : Interface :=
  { i with imports := Distinct.add i.imports line }

/-- Adds bases, one after the other. -/
def inherit (i : Interface) (names : List String) : Interface :=
  { i with bases := Distinct.addAll i.bases names }

/-- Adds a group of stubs. An empty one is no group. -/
def addGroup (i : Interface) (stubs : List String) (isSpaced : Bool := false) : Interface :=
  if stubs.isEmpty then i else { i with groups := i.groups ++ [⟨stubs, isSpaced⟩] }

/-- The line that opens the interface. -/
def header (i : Interface) : String :=
  let clause := if i.bases.isEmpty then "" else " is " ++ ", ".intercalate i.bases
  "interface " ++ i.name ++ clause ++ " \x7b"

/-- The indentation of the members. -/
def indent : String := "    "

/-- The lines of a stub in the body of an interface. -/
def stubLines (stub : String) : List String :=
  (Text.splitString '\n' stub).map (indent ++ ·)

/-- Blocks of lines with a blank line between them. -/
def spaced : List (List String) → List String
  | [] => []
  | [block] => block
  | block :: rest => block ++ [""] ++ spaced rest

/-- The lines of a group. -/
def groupLines (g : StubGroup) : List String :=
  if g.isSpaced then spaced (g.stubs.map stubLines) else g.stubs.flatMap stubLines

/-- The lines of an interface file. -/
def toLines (i : Interface) : List String :=
  ["// SPDX-License-Identifier: " ++ i.license,
    "pragma " ++ i.pragma.name ++ " " ++ i.pragma.value ++ ";", ""]
  ++ (if i.imports.isEmpty then [] else i.imports ++ [""])
  ++ [i.header] ++ spaced (i.groups.map groupLines) ++ ["\x7d"]

/-- The text of an interface file. -/
def render (i : Interface) : String := "\n".intercalate i.toLines ++ "\n"

end Interface

end SolidityInterface
