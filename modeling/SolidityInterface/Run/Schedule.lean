import SolidityInterface.Run.Session

/-
  Running a session. The moves that are due can be made in any order, and each is
  made whole. The schedule here makes them in rounds: the moves that are due at the
  start of a round, oldest first, and those that wait for the disk only if there is
  no other. The run ends when all its requests are answered, or soon after the first
  failure among them, which takes all unfinished work with it.
-/

namespace SolidityInterface

/-- A move in a session. -/
inductive Move where
  | ask (i : Nat)
  | resume (i : Nat)
  | start (key : Path)
  | receive (key : Path)
  | gather (key : Path)
  | link (key : Path)
  | write (key : Path)
  | fetch (i : Nat)
  | obtain (i : Nat)
  | look (key : Path)
deriving DecidableEq

/-- Whether a move has to wait for the disk. -/
def Move.isSlow : Move → Bool
  | .look _ | .write _ => true
  | _ => false

namespace Session

/-! ## Moves that are due -/

/-- The move that is due for a request. -/
def requestMove? (s : Session) (r : Request) (i : Nat) : Option Move :=
  match r.progress with
  | .fresh => some (.ask i)
  | .waiting =>
    if ((Table.get? r.key s.jobs).bind (·.outcome?)).isSome then some (.resume i) else none
  | .done _ => none

/-- The move that is due for a load. -/
def fetchMove? (s : Session) (f : Fetch) (i : Nat) : Option Move :=
  match f.progress with
  | .fresh => some (.fetch i)
  | .waiting => if (s.cache.outcome? f.edge.target).isSome then some (.obtain i) else none
  | .done _ => none

/-- The move that is due for a job. -/
def jobMove? (s : Session) (key : Path) (j : Job) : Option Move :=
  match j.stage with
  | .queued => some (.start key)
  | .loading => if (s.cache.outcome? key).isSome then some (.receive key) else none
  | .importing _ =>
    if (Progress.gather ((s.fetchesOf key).map (·.progress))).isSome then some (.gather key)
    else none
  | .linking _ _ =>
    if (Progress.gather ((s.requestsOf key).map (·.progress))).isSome then some (.link key)
    else none
  | .writing _ _ => some (.write key)
  | .finished _ => none

/-- The moves that are due. -/
def due (s : Session) : List Move :=
  s.requests.zipIdx.filterMap (fun (r, i) => s.requestMove? r i)
    ++ s.jobs.filterMap (fun (key, j) => s.jobMove? key j)
    ++ s.fetches.zipIdx.filterMap (fun (f, i) => s.fetchMove? f i)
    ++ s.cache.pending.map .look

variable {m : Type → Type} [Monad m] [Host m]

/-- Makes a move. One that is not due changes nothing. -/
def make (s : Session) : Move → m Session
  | .ask i => return s.ask i
  | .resume i => return s.resume i
  | .start key => return s.start key
  | .receive key => return s.receive key
  | .gather key => return s.gather key
  | .link key => return s.link key
  | .fetch i => return s.fetch i
  | .obtain i => return s.obtain i
  | .look key => do
    if s.cache.pending.contains key then return s.look key (← Sighting.take key) else return s
  | .write key => do
    match s.stage? key with
    | some (.writing d text) => return s.wrote key (← Host.write d.output text)
    | _ => return s

/-- Makes some moves, one after the other. -/
def makeAll (s : Session) : List Move → m Session
  | [] => return s
  | move :: rest => do (← s.make move).makeAll rest

/-! ## Rounds -/

/-- The moves that are due and do not wait for the disk. -/
def quickMoves (s : Session) : List Move := s.due.filter (!·.isSlow)

/-- The moves of the next round. The disk answers when nothing else is due. -/
def turn (s : Session) : List Move :=
  let due := s.due
  let quick := due.filter (!·.isSlow)
  if quick.isEmpty then due else quick

/-- Makes a round of moves, and prints the lines on the progress. -/
def round (s : Session) (moves : List Move) : m Session := do
  let next ← s.makeAll moves
  (next.log.drop s.log.length).forM Host.say
  return next

/-! ## Whole runs -/

/-- The request for a file that a run is started with. It fails if the path, or the
root where interfaces go, cannot be used. -/
def rootRequest (s : Session) (path : Path) : Request :=
  let failed (f : Failure) : Request :=
    { waiter := none, key := path, dependencyRoot := path, progress := .done (.error f) }
  match s.options.cwd.resolve? path, s.options.targetRoot with
  | none, _ => failed (.unnameable path)
  | some _, none => failed .unusableRoot
  | some key, some target =>
    match targetDirectory? s.options.cwd target key with
    | none => failed (.unnameable target)
    | some dependencyRoot => { waiter := none, key, dependencyRoot }

/-- Starts a run on some files. -/
def enter (s : Session) (paths : List Path) : Session :=
  { s with requests := paths.map s.rootRequest }

/-- The artifacts for the files that the run was started with, or a failure, once
there is one. -/
def outcome? (s : Session) : Option (Except Failure (List (Option Artifact))) :=
  Progress.gather ((s.requests.filter (·.waiter.isNone)).map (·.progress))

/-- Ends a run whose requests are answered. -/
def leave (s : Session) : Session := { s with requests := [], fetches := [] }

/-- Gives up on a job that has not finished. -/
def Job.cancel (j : Job) : Job :=
  match j.stage with
  | .finished _ => j
  | _ => { j with stage := .finished (.error .cancelled) }

/-- Ends a run that failed. Unfinished jobs are given up, and looks at the disk that
are on their way are forgotten. -/
def abort (s : Session) : Session :=
  { s.leave with
    cache := s.cache.dropPending, waiting := []
    jobs := s.jobs.map fun (key, j) => (key, Job.cancel j) }

/-- The interfaces that are being written. -/
def beingWritten (s : Session) : List (Path × String) :=
  s.jobs.filterMap fun (_, j) =>
    match j.stage with
    | .writing d text => some (d.output, text)
    | _ => none

/-- The rounds that the other jobs still make after a failure. -/
def lastRounds : Nat := 3

/-- Makes the last rounds of a run that failed. -/
def windDown : Nat → Session → m Session
  | 0, s => return s
  | n + 1, s => do windDown n (← s.round s.quickMoves)

/-- Ends a run after a failure. What is being written then is still written, but the
jobs do not learn of it. -/
def giveUp (s : Session) : m Session := do
  let s ← windDown lastRounds s
  s.beingWritten.forM fun (output, text) => do
    let _ ← Host.write output text
  return s.abort

/-- Makes rounds of moves, at most a number of them, until the run has ended. -/
def drive : Nat → Session → m (Except Failure (List (Option Artifact)) × Session)
  | 0, s => return (.error .cancelled, s.abort)
  | n + 1, s => do
    let s ← s.round s.turn
    match s.outcome? with
    | some (.ok artifacts) => return (.ok artifacts, s.leave)
    | some (.error f) => return (.error f, ← s.giveUp)
    | none => drive n s

/-- Runs a session on some files. -/
def run (rounds : Nat) (s : Session) (paths : List Path) :
    m (Except Failure (List (Option Artifact)) × Session) :=
  drive rounds (s.enter paths)

/-- The rounds that are enough for a run on a disk of a given size: each file has one
job, and each byte of a file stands for less than one import. -/
def roundsFor (size roots : Nat) : Nat := 10 * (size + roots) + 10

/-! ## Records alone -/

/-- What is known about a path before the disk is asked. -/
def known? (s : Session) (path : Path) : Option (Except Failure Record) :=
  match s.options.cwd.resolve? path with
  | none => some (.error (.unnameable path))
  | some key => s.cache.outcome? key

/-- The first failure among some paths that is known before the disk is asked. -/
def knownFailure? (s : Session) (paths : List Path) : Option Failure :=
  paths.findSome? fun p =>
    match s.known? p with
    | some (.error f) => some f
    | _ => none

/-- Looks at all paths that are asked for. -/
def lookAll (s : Session) : m Session := s.makeAll (s.cache.pending.map .look)

/-- The records of some paths. A failure that is known before the disk is asked comes
first, and then the disk is not asked. -/
def loadAll (s : Session) (paths : List Path) (importer : String) :
    m (Except Failure (List Record) × Session) := do
  match s.knownFailure? paths with
  | some f => return (.error f, s)
  | none =>
    let keys := paths.map s.options.cwd.resolve
    let s := { s with cache := keys.foldl (fun c key => c.request key importer) s.cache }
    let s ← s.lookAll
    let outcomes := keys.map fun key => (s.cache.outcome? key).getD (.error .cancelled)
    return (outcomes.mapM id, s)

end Session

end SolidityInterface
