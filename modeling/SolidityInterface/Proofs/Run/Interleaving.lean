import SolidityInterface.Run.Schedule
import Mathlib.Data.List.Induction
import Mathlib.Logic.Relation

/-
  Interleavings. A run makes moves that are due, one after the other and in any
  order; each is made whole, and the disk answers to some of them. `Session.Step` is
  one move with an answer of the disk, `Session.Reachable` what such moves and new
  requests lead to.

  A world joins a session to a disk, seen as what a look at each path finds. A
  write changes what is found at the path written to and at no other. `World.Run` is
  a run from one world to another, with the list of its moves; `World.play` makes
  given moves, so that a run can be tried out.
-/

namespace SolidityInterface

namespace Session

/-- The session after a move that does not wait for the disk. -/
def quickly (s : Session) : Move → Session
  | .ask i => s.ask i
  | .resume i => s.resume i
  | .start key => s.start key
  | .receive key => s.receive key
  | .gather key => s.gather key
  | .link key => s.link key
  | .fetch i => s.fetch i
  | .obtain i => s.obtain i
  | .look _ | .write _ => s

/-- One move that is due. A look finds something that `sees` allows, and the disk may
give any answer to a write. -/
inductive Step (sees : Path → Sighting → Prop) (s : Session) : Move → Session → Prop
  | quick {m : Move} (due : m ∈ s.due) (quick : m.isSlow = false) : Step sees s m (s.quickly m)
  | look {key : Path} {found : Sighting} (due : .look key ∈ s.due) (saw : sees key found) :
      Step sees s (.look key) (s.look key found)
  | write {key : Path} (due : .write key ∈ s.due) (answer : Except DiskFault Unit) :
      Step sees s (.write key) (s.wrote key answer)

/-- Where a move that is due comes from: a request or a load, a job, or a look that is on
its way. -/
theorem due_cases {s : Session} {m : Move} (h : m ∈ s.due) :
    (∃ i, m = .ask i ∨ m = .resume i ∨ m = .fetch i ∨ m = .obtain i) ∨
      (∃ k j, (k, j) ∈ s.jobs ∧ s.jobMove? k j = some m) ∨ ∃ k ∈ s.cache.pending, m = .look k := by
  simp only [due, List.mem_append, List.mem_filterMap, List.mem_map] at h
  rcases h with ((⟨⟨r, i⟩, -, h⟩ | ⟨⟨k, j⟩, hk, h⟩) | ⟨⟨f, i⟩, -, h⟩) | ⟨k, hk, h⟩
  · refine .inl ⟨i, ?_⟩
    unfold requestMove? at h
    split at h
    · exact .inl (Option.some.inj h).symm
    · split at h
      · exact .inr (.inl (Option.some.inj h).symm)
      · simp at h
    · simp at h
  · exact .inr (.inl ⟨k, j, hk, h⟩)
  · refine .inl ⟨i, ?_⟩
    unfold fetchMove? at h
    split at h
    · exact .inr (.inr (.inl (Option.some.inj h).symm))
    · split at h
      · exact .inr (.inr (.inr (Option.some.inj h).symm))
      · simp at h
    · simp at h
  · exact .inr (.inr ⟨k, hk, h.symm⟩)

/-- A request for a file from outside, made at any time. -/
def request (s : Session) (path : Path) : Session :=
  { s with requests := s.requests ++ [s.rootRequest path] }

/-- The sessions that requests from outside and moves lead to, whatever is on the disk. -/
inductive Reachable (o : Options) : Session → Prop
  | start : Reachable o { options := o }
  | request {s : Session} (path : Path) : Reachable o s → Reachable o (s.request path)
  | step {s t : Session} {m : Move} :
      Reachable o s → Step (fun _ _ => True) s m t → Reachable o t

end Session

/-- An interface that was written: its source, its place and its text. -/
structure Writing where
  source : Path
  output : Path
  text : String
deriving DecidableEq

/-- A session and the disk it works on. -/
structure World where
  session : Session
  /-- What a look at a path finds. -/
  disk : Path → Sighting
  /-- The interfaces that were written, in order. -/
  writings : List Writing := []

namespace World

/-- The world at the start of a run on some files. -/
def start (o : Options) (disk : Path → Sighting) (paths : List Path) : World :=
  { session := { options := o : Session }.enter paths, disk }

/-- One move that is due. A look finds what is on the disk, and a write that the disk
takes changes what is found at the path written to. The write to the disk and the entry of
its path in `written` are one step here, although a job makes the entry only after it has
waited for the disk: between the two the file lies there and is not listed yet. -/
inductive Step (w : World) : Move → World → Prop
  | quick {m : Move} (due : m ∈ w.session.due) (quick : m.isSlow = false) :
      Step w m { w with session := w.session.quickly m }
  | look {key : Path} (due : .look key ∈ w.session.due) :
      Step w (.look key) { w with session := w.session.look key (w.disk key) }
  | write {key : Path} {d : Draft} {text : String} {disk : Path → Sighting}
      (due : .write key ∈ w.session.due) (stage : w.session.stage? key = some (.writing d text))
      (others : ∀ p, p ≠ w.session.options.cwd.resolve d.output → disk p = w.disk p) :
      Step w (.write key)
        ⟨w.session.wrote key (.ok ()), disk, w.writings ++ [⟨key, d.output, text⟩]⟩
  | refuse {key : Path} (due : .write key ∈ w.session.due) (fault : DiskFault) :
      Step w (.write key) { w with session := w.session.wrote key (.error fault) }

/-- A run: its moves, and the world they lead to. -/
inductive Run (w : World) : List Move → World → Prop
  | nil : Run w [] w
  | snoc {trace : List Move} {v u : World} {m : Move} :
      Run w trace v → Step v m u → Run w (trace ++ [m]) u

/-- Whether no interface was written to a path that the run loaded. -/
def SparesSources (w : World) : Prop :=
  ∀ p ∈ w.session.written, w.session.options.cwd.resolve p ∉ Table.keys w.session.cache

instance (w : World) : Decidable w.SparesSources :=
  inferInstanceAs (Decidable (∀ p ∈ w.session.written,
    w.session.options.cwd.resolve p ∉ Table.keys w.session.cache))

theorem Step.session {w v : World} {m : Move} (h : Step w m v) :
    Session.Step (fun p found => found = w.disk p) w.session m v.session := by
  cases h with
  | quick due quick => exact .quick due quick
  | look due => exact .look due rfl
  | write due _ _ => exact .write due (.ok ())
  | refuse due fault => exact .write due (.error fault)

/-! ## Playing a list of moves -/

/-- The world after a move, on a disk that takes every write. -/
def made (w : World) (m : Move) : World :=
  match m with
  | .look key => { w with session := w.session.look key (w.disk key) }
  | .write key =>
    match w.session.stage? key with
    | some (.writing d text) =>
      { session := w.session.wrote key (.ok ())
        disk := fun p => if p = w.session.options.cwd.resolve d.output then .text text else w.disk p
        writings := w.writings ++ [⟨key, d.output, text⟩] }
    | _ => w
  | m => { w with session := w.session.quickly m }

/-- The world after some moves, if each of them is due when it is made. -/
def play (w : World) : List Move → Option World
  | [] => some w
  | m :: rest => if m ∈ w.session.due then (w.made m).play rest else none

theorem step_made {w : World} {m : Move} (due : m ∈ w.session.due) : Step w m (w.made m) := by
  cases m with
  | look key => exact .look due
  | write key =>
    simp only [made]
    split
    · rename_i d text hs
      exact .write due hs fun p hp => by simp [hp]
    · -- A write that is not on its way is as good as refused.
      rename_i hs
      have h := Step.refuse due .missing
      have hsame : w.session.wrote key (.error .missing) = w.session := by
        unfold Session.wrote
        split
        · rename_i d text hs'
          exact absurd hs' (hs d text)
        · rfl
      rwa [hsame] at h
  | _ => exact .quick due rfl

theorem Run.trans {w v u : World} {l k : List Move} (h : Run w l v) (h' : Run v k u) :
    Run w (l ++ k) u := by
  induction h' with
  | nil => simpa using h
  | snoc _ hstep ih =>
    rw [← List.append_assoc]
    exact .snoc ih hstep

/-- What is played is a run. -/
theorem run_of_play {w v : World} {l : List Move} (h : w.play l = some v) : Run w l v := by
  induction l generalizing w with
  | nil =>
    simp only [play, Option.some.injEq] at h
    exact h ▸ .nil
  | cons m rest ih =>
    simp only [play] at h
    split at h
    · rename_i due
      exact (Run.snoc .nil (step_made due)).trans (ih h)
    · simp at h

/-! ## Runs lead to reachable sessions -/

theorem reachable_enter (o : Options) (paths : List Path) :
    Session.Reachable o ({ options := o : Session }.enter paths) := by
  induction paths using List.reverseRecOn with
  | nil => exact .start
  | append_singleton paths p ih =>
    have h : { options := o : Session }.enter (paths ++ [p])
        = ({ options := o : Session }.enter paths).request p := by
      simp only [Session.enter, Session.request, List.map_append]
      rfl
    exact h ▸ ih.request p

theorem Run.reachable {o : Options} {disk : Path → Sighting} {paths : List Path} {l : List Move}
    {w : World} (h : Run (start o disk paths) l w) : Session.Reachable o w.session := by
  induction h with
  | nil => exact reachable_enter o paths
  | @snoc l v u m _ hstep ih =>
    have h : Session.Step (fun _ _ => True) v.session m u.session := by
      cases hstep with
      | quick due quick => exact .quick due quick
      | look due => exact .look due trivial
      | write due _ _ => exact .write due (.ok ())
      | refuse due fault => exact .write due (.error fault)
    exact ih.step h

/-! ## Two contracts that import each other -/

namespace Pair

/-- Settings for a run in the root directory. -/
def options : Options :=
  { cwd := ⟨.slash, []⟩, modulesRoot := some ⟨.relative, ["modules"]⟩
    targetRoot := some ⟨.relative, ["out"]⟩, license := .text "MIT", rawOnly := false, logs := false }

/-- The file of one of the two. -/
def left : Path := ⟨.slash, ["A.sol"]⟩

/-- The file of the other. -/
def right : Path := ⟨.slash, ["B.sol"]⟩

/-- A disk with the two files, each of which imports the other and inherits from it. -/
def disk (p : Path) : Sighting :=
  if p = left then .text "pragma solidity 1;import \x22./B.sol\x22;contract A is B\x7b\x7d"
  else if p = right then .text "pragma solidity 1;import \x22./A.sol\x22;contract B is A\x7b\x7d"
  else .absent

/-- The moves from the start of the run on the first file to where the second asks for
the first. -/
def approach : List Move :=
  [.ask 0, .start left, .look left, .receive left, .fetch 0, .look right, .obtain 0,
    .gather left, .ask 1, .start right, .fetch 1, .gather right]

/-- The moves from there to the end. -/
def rest : List Move :=
  [.ask 2, .link right, .write right, .resume 1, .link left, .write left, .resume 0]

/-- The moves of a run on both files in which the first of them waits for the second, and
the second works with the provisional artifact of the first. -/
def together (first second : Path) : List Move :=
  [.ask 0, .ask 1, .start first, .start second, .look first, .receive first, .fetch 0,
    .look second, .receive second, .obtain 0, .gather first, .ask 2, .fetch 1, .gather second,
    .ask 3, .link second, .write second, .resume 1, .resume 2, .link first, .write first,
    .resume 0]

end Pair

end World

end SolidityInterface
