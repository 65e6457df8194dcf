import SolidityInterface.Interface.Assembly
import SolidityInterface.Run.Cache
import SolidityInterface.Run.Waiting
import SolidityInterface.Settings

/-
  A session: the state of the work on some files. Every file whose interface is
  asked for has one job, which loads the record of the file, then the records of
  its imports, asks for the artifacts of the imports it uses, and writes the
  interface. Jobs take turns, one step at a time. A request that would make a file
  wait on a file that waits on it already is an import cycle: it is answered by the
  provisional artifact, which a job leaves before it asks for anything.

  The operations below are the steps between two waits. A step that is not due
  changes nothing.
-/

namespace SolidityInterface

/-- How far a piece of work has come. -/
inductive Progress (α : Type) where
  | fresh
  | waiting
  | done (outcome : Except Failure α)

namespace Progress

variable {α : Type}

/-- Whether nothing has been done. -/
def isFresh : Progress α → Bool
  | fresh => true
  | _ => false

/-- The failure it ended in. -/
def failure? : Progress α → Option Failure
  | done (.error f) => some f
  | _ => none

/-- The value it ended in. -/
def value? : Progress α → Option α
  | done (.ok a) => some a
  | _ => none

/-- The values of some pieces of work, or the first failure among them, or nothing
as long as one of them may still succeed or fail. Of several failures it takes the one
that stands first in the list, where a task that waits for all at once would be woken by
the one that came first in time. -/
def gather (l : List (Progress α)) : Option (Except Failure (List α)) :=
  match l.findSome? failure? with
  | some f => some (.error f)
  | none => (l.mapM value?).map .ok

end Progress

/-- The load of an imported file. -/
structure Fetch where
  importer : Path
  edge : ImportEdge
  progress : Progress Record := .fresh

/-- A request for the artifact of a file. Requests without a waiter are those that
the run was started with. -/
structure Request where
  waiter : Option Path
  key : Path
  /-- Where interfaces of packages go. -/
  dependencyRoot : Path
  progress : Progress (Option Artifact) := .fresh

/-- What a job knows once the record of its file is there. -/
structure Draft where
  record : Record
  layout : Layout
  /-- Where the interface goes. -/
  output : Path
  outline : Outline

namespace Draft

/-- What importers need to know while the interface is not written yet. -/
def provisional (d : Draft) (key : Path) : Artifact :=
  { source := key, output := d.output, name := d.record.interfaceName?.getD "" }

/-- The text of the interface. -/
def text (d : Draft) (us : List UsedImport) : String :=
  (d.record.interface d.layout d.outline d.output.parent us).render

/-- The artifact of a written interface. -/
def artifact (d : Draft) (key : Path) (text : String) : Artifact :=
  { d.provisional key with text := some text, uses := d.outline.uses, isEmitted := true }

end Draft

/-- The stages of a job. -/
inductive Stage where
  | queued
  /-- The record of the file is on its way. -/
  | loading
  /-- The records of the imports are on their way. -/
  | importing (draft : Draft)
  /-- The artifacts of the used imports are on their way. -/
  | linking (draft : Draft) (imports : List (ImportEdge × Record))
  /-- The interface is being written. -/
  | writing (draft : Draft) (text : String)
  | finished (outcome : Except Failure (Option Artifact))

/-- The work on one file. -/
structure Job where
  dependencyRoot : Path
  stage : Stage := .queued

/-- The result of a finished job. -/
def Job.outcome? (j : Job) : Option (Except Failure (Option Artifact)) :=
  match j.stage with
  | .finished outcome => some outcome
  | _ => none

/-- The state of the work. -/
structure Session where
  options : Options
  cache : Cache := []
  jobs : Table Path Job := []
  /-- The artifacts of files whose interfaces are not written yet. -/
  provisional : Table Path Artifact := []
  waiting : Waiting := []
  fetches : List Fetch := []
  requests : List Request := []
  /-- The interfaces that were written, in order. -/
  written : List Path := []
  report : Report := []
  /-- The lines about the progress of the work. -/
  log : List String := []

namespace Session

/-! ## Small changes -/

/-- The stage of the job of a file. -/
def stage? (s : Session) (key : Path) : Option Stage := (Table.get? key s.jobs).map (·.stage)

/-- Brings a job to a stage. -/
def setStage (s : Session) (key : Path) (stage : Stage) : Session :=
  match Table.get? key s.jobs with
  | some j => { s with jobs := Table.put key { j with stage } s.jobs }
  | none => s

/-- Ends a job. -/
def finish (s : Session) (key : Path) (outcome : Except Failure (Option Artifact)) : Session :=
  s.setStage key (.finished outcome)

/-- Adds a line on the progress, if such lines are wanted. -/
def tell (s : Session) (line : String) : Session :=
  if s.options.logs then { s with log := s.log ++ [line] } else s

/-- Adds a note. -/
def note (s : Session) (n : Note) : Session := { s with report := s.report ++ [n] }

/-- The loads for a file, in the order of its imports. -/
def fetchesOf (s : Session) (key : Path) : List Fetch := s.fetches.filter (·.importer = key)

/-- The requests of a file, in the order of its used imports. -/
def requestsOf (s : Session) (key : Path) : List Request :=
  s.requests.filter (·.waiter = some key)

/-- Sets the progress of a load. -/
def setFetch (s : Session) (i : Nat) (progress : Progress Record) : Session :=
  { s with fetches := s.fetches.modify i fun f => { f with progress } }

/-- Sets the progress of a request. -/
def setRequest (s : Session) (i : Nat) (progress : Progress (Option Artifact)) : Session :=
  { s with requests := s.requests.modify i fun r => { r with progress } }

/-! ## The disk answers -/

/-- Takes in what a look at the disk found. -/
def look (s : Session) (key : Path) (found : Sighting) : Session :=
  let (cache, notes) := s.cache.settle s.options.license key found
  { s with cache, report := s.report ++ notes }

/-- Takes in the answer of the disk to an interface. -/
def wrote (s : Session) (key : Path) (answer : Except DiskFault Unit) : Session :=
  match s.stage? key with
  | some (.writing d text) =>
    match answer with
    | .error fault => s.finish key (.error (.output d.output fault))
    | .ok () =>
      let s := { s with written := s.written ++ [d.output] }
      let s := (s.note (.written d.output.render key.render)).tell ("Written: " ++ d.output.render)
      s.finish key (.ok (some (d.artifact key text)))
  | _ => s

/-! ## The steps of a job -/

/-- Goes on with a job once all artifacts are there: the interface is put together. -/
def link (s : Session) (key : Path) : Session :=
  match s.stage? key with
  | some (.linking d imports) =>
    match Progress.gather ((s.requestsOf key).map (·.progress)) with
    | none => s
    | some (.error f) => s.finish key (.error f)
    | some (.ok artifacts) =>
      let us := (imports.zip artifacts).filterMap fun ((edge, target), artifact) =>
        artifact.map fun artifact => { edge, target, artifact : UsedImport }
      s.setStage key (.writing d (d.text us))
  | _ => s

/-- The imports that an outline uses. -/
def usedImports (o : Outline) (imports : List (ImportEdge × Record)) : List (ImportEdge × Record) :=
  imports.filter fun i => o.usesRecord i.2

/-- Goes on with a job once the records of its imports are there: the used imports
are asked for. -/
def gather (s : Session) (key : Path) : Session :=
  match Table.get? key s.jobs with
  | some { dependencyRoot, stage := .importing d } =>
    match Progress.gather ((s.fetchesOf key).map (·.progress)) with
    | none => s
    | some (.error f) => s.finish key (.error f)
    | some (.ok records) =>
      let used := usedImports d.outline (((s.fetchesOf key).map (·.edge)).zip records)
      let asked := used.map fun (_, r) => { waiter := some key, key := r.path, dependencyRoot : Request }
      let s := { s with requests := s.requests ++ asked }
      (s.setStage key (.linking d used)).link key
  | _ => s

/-- Starts the interface of a record: the provisional artifact is left and the
imports are to be loaded. -/
def draft (s : Session) (key : Path) (d : Draft) : Session :=
  let s := s.tell ("Interfacing: " ++ key.render)
  let s := { s with provisional := Table.put key (d.provisional key) s.provisional }
  match d.layout.edges? d.record with
  | none => s.finish key (.error (.unnameable key))
  | some edges =>
    let s := { s with fetches := s.fetches ++ edges.map (Fetch.mk key · .fresh) }
    (s.setStage key (.importing d)).gather key

/-- The draft of an interface, if the settings give it a place. -/
def draftOf (s : Session) (r : Record) (dependencyRoot : Path) : Except Failure Draft :=
  match s.options.layout? with
  | none => .error .unusableRoot
  | some layout =>
    match layout.outputPath? r dependencyRoot with
    | none => .error (.unnameable layout.targetRoot)
    | some output =>
      .ok { record := r, layout, output, outline := Outline.ofRecord s.options.rawOnly r }

/-- Goes on with a job whose record is there. -/
def place (s : Session) (key dependencyRoot : Path) (outcome : Except Failure Record) : Session :=
  match outcome with
  | .error f => s.finish key (.error f)
  | .ok r =>
    if !r.isPresent then s.finish key (.ok none)
    else if !r.needsInterface then
      (s.note (.reused key.render)).finish key
        (.ok (some { source := key, output := r.path, name := r.name.getD "" }))
    else match s.draftOf r dependencyRoot with
      | .error f => s.finish key (.error f)
      | .ok d => s.draft key d

/-- Takes up a job that waits for its record. -/
def receive (s : Session) (key : Path) : Session :=
  match Table.get? key s.jobs with
  | some { dependencyRoot, stage := .loading } =>
    match s.cache.outcome? key with
    | some outcome => s.place key dependencyRoot outcome
    | none => s
  | _ => s

/-- Starts a job. -/
def start (s : Session) (key : Path) : Session :=
  match s.stage? key with
  | some .queued =>
    ({ s with cache := s.cache.request key "" }.setStage key .loading).receive key
  | _ => s

/-! ## Loads and requests -/

/-- Ends a load whose record is there. -/
def obtain (s : Session) (i : Nat) : Session :=
  match s.fetches[i]? with
  | some { edge, progress := .waiting, .. } =>
    match s.cache.outcome? edge.target with
    | some outcome => s.setFetch i (.done outcome)
    | none => s
  | _ => s

/-- Starts a load. -/
def fetch (s : Session) (i : Nat) : Session :=
  match s.fetches[i]? with
  | some { importer, edge, progress := .fresh } =>
    ({ s with cache := s.cache.request edge.target importer.render }.setFetch i .waiting).obtain i
  | _ => s

/-- Starts a request. A file without a job gets one. A finished job answers at
once, and so does the provisional artifact of a file that waits on the waiter. -/
def ask (s : Session) (i : Nat) : Session :=
  match s.requests[i]? with
  | some { waiter, key, dependencyRoot, progress := .fresh } =>
    match (Table.get? key s.jobs).bind (·.outcome?) with
    | some outcome => s.setRequest i (.done outcome)
    | none =>
      let s := if Table.has key s.jobs then s
        else { s with jobs := Table.put key { dependencyRoot } s.jobs }
      match waiter with
      | none => s.setRequest i .waiting
      | some waiter =>
        if s.waiting.waitsOn key waiter then
          match Table.get? key s.provisional with
          | some a => s.setRequest i (.done (.ok (some a)))
          | none => s.setRequest i (.done (.error (.noProvisional key)))
        else { s with waiting := s.waiting.insert waiter key }.setRequest i .waiting
  | _ => s

/-- Ends a request whose job has finished. -/
def resume (s : Session) (i : Nat) : Session :=
  match s.requests[i]? with
  | some { waiter, key, progress := .waiting, .. } =>
    match (Table.get? key s.jobs).bind (·.outcome?) with
    | some outcome =>
      let waiting := match waiter with
        | some waiter => s.waiting.discard waiter key
        | none => s.waiting
      { s with waiting }.setRequest i (.done outcome)
    | none => s
  | _ => s

end Session

end SolidityInterface
