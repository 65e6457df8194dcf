import SolidityInterface.Path

/-
  Who waits for whom. An edge leads from a file to one whose artifact it waits for.
  A file waits on another if edges lead from the one to the other; the search for
  that takes each edge at most once.
-/

namespace SolidityInterface

/-- The edges from waiting files to the files they wait for, each once. -/
abbrev Waiting := List (Path × Path)

namespace Waiting

/-- The files that a file waits for. -/
def successors (w : Waiting) (p : Path) : List Path :=
  (w.filter fun e => e.1 = p).map (·.2)

/-- Whether a search from a stack of files meets the target. The files in `seen`
have been searched. -/
def search (w : Waiting) (target : Path) : Nat → List Path → List Path → Bool
  | 0, _, _ => false
  | _ + 1, [], _ => false
  | n + 1, p :: stack, seen =>
    if p = target then true
    else if p ∈ seen then w.search target n stack seen
    else w.search target n (w.successors p ++ stack) (p :: seen)

/-- Whether a file waits on another, directly or through others. -/
def waitsOn (w : Waiting) (start target : Path) : Bool :=
  w.search target (w.length + 1) [start] []

/-- Adds an edge. -/
def insert (w : Waiting) (waiter key : Path) : Waiting :=
  if (waiter, key) ∈ w then w else w ++ [(waiter, key)]

/-- Takes an edge away. -/
def discard (w : Waiting) (waiter key : Path) : Waiting := w.filter fun e => e ≠ (waiter, key)

end Waiting

end SolidityInterface
