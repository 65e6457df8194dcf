import SolidityInterface.Proofs.Run.Interleaving
import SolidityInterface.Proofs.Table

/-
  What a move can do. A move is made of small changes: a job goes on by one stage, a
  request or a load goes on, a record comes in. `Session.Change` lists them, each
  with the conditions under which it is made, and `Session.step_cases` says that every
  move is a row of such changes. The start of a job and a write that the disk takes
  are kept apart from the others, since they are counted.
-/

namespace SolidityInterface.Session

open Relation

/-- The result of the job of a file. -/
def result? (s : Session) (key : Path) : Option (Except Failure (Option Artifact)) :=
  (Table.get? key s.jobs).bind (·.outcome?)

/-- The jobs, with one for a file that has none. -/
def employ (s : Session) (key dependencyRoot : Path) : Table Path Job :=
  if Table.has key s.jobs then s.jobs else Table.put key { dependencyRoot } s.jobs

/-- The wait graph once a request waits. -/
def waitFor (s : Session) (r : Request) : Waiting :=
  match r.waiter with
  | some waiter => s.waiting.insert waiter r.key
  | none => s.waiting

/-- The wait graph once a request waits no more. -/
def waitOver (s : Session) (r : Request) : Waiting :=
  match r.waiter with
  | some waiter => s.waiting.discard waiter r.key
  | none => s.waiting

/-- The used imports with the artifacts they got. -/
def linked (imports : List (ImportEdge × Record)) (artifacts : List (Option Artifact)) :
    List UsedImport :=
  (imports.zip artifacts).filterMap fun ((edge, target), artifact) =>
    artifact.map fun artifact => { edge, target, artifact : UsedImport }

/-- The imports that a job uses, once their records are there. -/
def chosen (s : Session) (key : Path) (d : Draft) (records : List Record) :
    List (ImportEdge × Record) :=
  usedImports d.outline (((s.fetchesOf key).map (·.edge)).zip records)

/-- The requests of a job for its used imports. -/
def asked (key dependencyRoot : Path) (used : List (ImportEdge × Record)) : List Request :=
  used.map fun (_, r) => { waiter := some key, key := r.path, dependencyRoot : Request }

/-- The session with a job of a file in place of the one it had. -/
def withJob (s : Session) (key : Path) (j : Job) (stage : Stage) : Session :=
  { s with jobs := Table.put key { j with stage } s.jobs }

/-- The session after the start of a job. -/
def begun (s : Session) (key : Path) (j : Job) : Session :=
  { s with cache := s.cache.request key "" }.withJob key j .loading

/-- The session after an interface was written. -/
def emitted (s : Session) (key : Path) (j : Job) (d : Draft) (text : String) : Session :=
  { s with written := s.written ++ [d.output] }.withJob key j
    (.finished (.ok (some (d.artifact key text))))

/-- The small changes that moves are made of. A look may find what `sees` allows. -/
inductive Change (sees : Path → Sighting → Prop) (s : Session) : Session → Prop
  /-- Notes, and lines on the progress. -/
  | remark (report : Report) (log : List String) : Change sees s { s with report, log }
  /-- A request is answered by a job that has finished. -/
  | answer {i : Nat} {r : Request} {out : Except Failure (Option Artifact)}
      (hr : s.requests[i]? = some r) (fresh : r.progress = .fresh)
      (done : s.result? r.key = some out) : Change sees s (s.setRequest i (.done out))
  /-- A request has to wait. -/
  | await {i : Nat} {r : Request} (hr : s.requests[i]? = some r) (fresh : r.progress = .fresh)
      (unfinished : s.result? r.key = none)
      (free : ∀ a, r.waiter = some a → s.waiting.waitsOn r.key a = false) :
      Change sees s ({ s with jobs := s.employ r.key r.dependencyRoot, waiting := s.waitFor r
        }.setRequest i .waiting)
  /-- A request in an import cycle gets the provisional artifact. -/
  | provide {i : Nat} {r : Request} {a : Path} {artifact : Artifact}
      (hr : s.requests[i]? = some r) (fresh : r.progress = .fresh)
      (unfinished : s.result? r.key = none) (waiter : r.waiter = some a)
      (cycle : s.waiting.waitsOn r.key a = true)
      (found : Table.get? r.key s.provisional = some artifact) :
      Change sees s ({ s with jobs := s.employ r.key r.dependencyRoot }.setRequest i
        (.done (.ok (some artifact))))
  /-- A request in an import cycle finds no provisional artifact. -/
  | lack {i : Nat} {r : Request} {a : Path}
      (hr : s.requests[i]? = some r) (fresh : r.progress = .fresh)
      (unfinished : s.result? r.key = none) (waiter : r.waiter = some a)
      (cycle : s.waiting.waitsOn r.key a = true)
      (missing : Table.get? r.key s.provisional = none) :
      Change sees s ({ s with jobs := s.employ r.key r.dependencyRoot }.setRequest i
        (.done (.error (.noProvisional r.key))))
  /-- The job that a request waits for has finished. -/
  | resume {i : Nat} {r : Request} {out : Except Failure (Option Artifact)}
      (hr : s.requests[i]? = some r) (waiting : r.progress = .waiting)
      (done : s.result? r.key = some out) :
      Change sees s ({ s with waiting := s.waitOver r }.setRequest i (.done out))
  /-- A look at the disk is over. -/
  | settle {key : Path} {importer : String} {found : Sighting}
      (reading : Table.get? key s.cache = some (.reading importer)) (saw : sees key found) :
      Change sees s { s with
        cache := Table.put key (.settled (Cache.interpret s.options.license key found)) s.cache }
  /-- The load of an import starts. -/
  | fetch {i : Nat} {f : Fetch} (hf : s.fetches[i]? = some f) (fresh : f.progress = .fresh) :
      Change sees s
        ({ s with cache := s.cache.request f.edge.target f.importer.render }.setFetch i .waiting)
  /-- The load of an import ends. -/
  | obtain {i : Nat} {f : Fetch} {out : Except Failure Record}
      (hf : s.fetches[i]? = some f) (waiting : f.progress = .waiting)
      (known : s.cache.outcome? f.edge.target = some out) :
      Change sees s (s.setFetch i (.done out))
  /-- A job fails. -/
  | fail {key : Path} {j : Job} (f : Failure) (hj : Table.get? key s.jobs = some j)
      (begun : j.stage ≠ .queued) (unfinished : j.outcome? = none) :
      Change sees s (s.withJob key j (.finished (.error f)))
  /-- A job whose file is not there ends. -/
  | skip {key : Path} {j : Job} {r : Record} (hj : Table.get? key s.jobs = some j)
      (stage : j.stage = .loading) (known : s.cache.outcome? key = some (.ok r))
      (absent : r.isPresent = false) : Change sees s (s.withJob key j (.finished (.ok none)))
  /-- A job whose file is imported as it is ends. -/
  | reuse {key : Path} {j : Job} {r : Record} (hj : Table.get? key s.jobs = some j)
      (stage : j.stage = .loading) (known : s.cache.outcome? key = some (.ok r))
      (present : r.isPresent = true) (ready : r.needsInterface = false) :
      Change sees s (s.withJob key j (.finished
        (.ok (some { source := key, output := r.path, name := r.name.getD "" }))))
  /-- A job leaves its provisional artifact. -/
  | promise {key : Path} {j : Job} {r : Record} {d : Draft} (hj : Table.get? key s.jobs = some j)
      (stage : j.stage = .loading) (known : s.cache.outcome? key = some (.ok r))
      (needs : r.needsInterface = true) (hd : s.draftOf r j.dependencyRoot = .ok d) :
      Change sees s { s with provisional := Table.put key (d.provisional key) s.provisional }
  /-- A job turns to the loads of its imports. -/
  | survey {key : Path} {j : Job} {r : Record} {d : Draft} {edges : List ImportEdge}
      (hj : Table.get? key s.jobs = some j)
      (stage : j.stage = .loading) (known : s.cache.outcome? key = some (.ok r))
      (needs : r.needsInterface = true) (hd : s.draftOf r j.dependencyRoot = .ok d)
      (promised : Table.get? key s.provisional = some (d.provisional key))
      (he : d.layout.edges? d.record = some edges) :
      Change sees s ({ s with fetches := s.fetches ++ edges.map (Fetch.mk key · .fresh)
        }.withJob key j (.importing d))
  /-- A job asks for the artifacts of the imports it uses. -/
  | gather {key : Path} {j : Job} {d : Draft} {records : List Record}
      (hj : Table.get? key s.jobs = some j) (stage : j.stage = .importing d)
      (loaded : Progress.gather ((s.fetchesOf key).map (·.progress)) = some (.ok records)) :
      Change sees s ({ s with
        requests := s.requests ++ asked key j.dependencyRoot (s.chosen key d records)
        }.withJob key j (.linking d (s.chosen key d records)))
  /-- A job puts its interface together. -/
  | link {key : Path} {j : Job} {d : Draft} {imports : List (ImportEdge × Record)}
      {artifacts : List (Option Artifact)}
      (hj : Table.get? key s.jobs = some j) (stage : j.stage = .linking d imports)
      (answered : Progress.gather ((s.requestsOf key).map (·.progress)) = some (.ok artifacts)) :
      Change sees s (s.withJob key j (.writing d (d.text (linked imports artifacts))))

variable {sees : Path → Sighting → Prop} {s t : Session} {key : Path}

/-! ## Rewriting the small operations -/

theorem setStage_of_get? {j : Job} (hj : Table.get? key s.jobs = some j) (stage : Stage) :
    s.setStage key stage = s.withJob key j stage := by
  simp [setStage, withJob, hj]

theorem finish_of_get? {j : Job} (hj : Table.get? key s.jobs = some j)
    (out : Except Failure (Option Artifact)) :
    s.finish key out = s.withJob key j (.finished out) :=
  setStage_of_get? hj _

theorem get?_withJob {j : Job} {stage : Stage} (k : Path) :
    Table.get? k (s.withJob key j stage).jobs
      = if key = k then some { j with stage } else Table.get? k s.jobs :=
  Table.get?_put key k _ _

@[simp] theorem get?_withJob_self {j : Job} {stage : Stage} :
    Table.get? key (s.withJob key j stage).jobs = some { j with stage } := by
  simp [get?_withJob]

/-- The request for a used import waits on behalf of the job, and is not yet put. -/
theorem mem_asked {dependencyRoot : Path} {used : List (ImportEdge × Record)} {r : Request}
    (h : r ∈ asked key dependencyRoot used) :
    ∃ u ∈ used, r = { waiter := some key, key := u.2.path, dependencyRoot } := by
  obtain ⟨u, hu, rfl⟩ := List.mem_map.mp h
  exact ⟨u, hu, rfl⟩

theorem tell_eq (s : Session) (line : String) : ∃ log, s.tell line = { s with log } := by
  unfold tell
  split
  · exact ⟨_, rfl⟩
  · exact ⟨s.log, rfl⟩

theorem stage?_eq_some {stage : Stage} (h : s.stage? key = some stage) :
    ∃ j, Table.get? key s.jobs = some j ∧ j.stage = stage := by
  simpa [stage?] using h

/-! ## Moves are made of changes -/

/-- A row of changes. -/
abbrev Changes (sees : Path → Sighting → Prop) : Session → Session → Prop :=
  ReflTransGen (Change sees)

theorem changes_link (s : Session) (key : Path) : Changes sees s (s.link key) := by
  unfold link
  split
  · rename_i d imports hs
    obtain ⟨j, hj, hstage⟩ := stage?_eq_some hs
    split
    · exact .refl
    · rename_i f _
      rw [finish_of_get? hj]
      exact .single (.fail f hj (by simp [hstage]) (by simp [Job.outcome?, hstage]))
    · rename_i artifacts hg
      simp only [setStage_of_get? hj]
      exact .single (.link hj hstage hg)
  · exact .refl

theorem changes_gather (s : Session) (key : Path) : Changes sees s (s.gather key) := by
  unfold gather
  split
  · rename_i root d hj
    split
    · exact .refl
    · rename_i f _
      rw [finish_of_get? hj]
      exact .single (.fail f hj (by simp) rfl)
    · rename_i records hg
      refine .head (.gather hj rfl hg) ?_
      simp only [setStage, hj]
      exact changes_link _ key
  · exact .refl

theorem changes_draft {r : Record} {d : Draft} {j : Job} (hj : Table.get? key s.jobs = some j)
    (stage : j.stage = .loading) (known : s.cache.outcome? key = some (.ok r))
    (needs : r.needsInterface = true) (hd : s.draftOf r j.dependencyRoot = .ok d) :
    Changes sees s (s.draft key d) := by
  obtain ⟨log, hlog⟩ := s.tell_eq ("Interfacing: " ++ key.render)
  unfold draft
  simp only [hlog]
  refine .head (.remark s.report log) ?_
  refine .head (.promise (r := r) (d := d) hj stage known needs hd) ?_
  split
  · simp only [finish, setStage, hj]
    exact .single (.fail _ hj (by simp [stage]) (by simp [Job.outcome?, stage]))
  · rename_i edges he
    refine .head (.survey (r := r) (j := j) (d := d) hj stage known needs hd (by simp) he) ?_
    simp only [setStage, hj]
    exact changes_gather _ key

theorem changes_place {j : Job} {out : Except Failure Record}
    (hj : Table.get? key s.jobs = some j) (stage : j.stage = .loading)
    (known : s.cache.outcome? key = some out) :
    Changes sees s (s.place key j.dependencyRoot out) := by
  have begun : j.stage ≠ .queued := by simp [stage]
  have unfinished : j.outcome? = none := by simp [Job.outcome?, stage]
  unfold place
  split
  · rename_i f
    rw [finish_of_get? hj]
    exact .single (.fail f hj begun unfinished)
  · rename_i r
    split
    · rename_i habsent
      rw [finish_of_get? hj]
      exact .single (.skip hj stage known (by simpa using habsent))
    · rename_i hpresent
      split
      · rename_i hready
        refine .head (.remark (s.report ++ [.reused key.render]) s.log) ?_
        simp only [note, finish, setStage, hj]
        exact .single (.reuse hj stage known (by simpa using hpresent) (by simpa using hready))
      · rename_i hneeds
        have needs : r.needsInterface = true := by simpa using hneeds
        split
        · rename_i f _
          rw [finish_of_get? hj]
          exact .single (.fail f hj begun unfinished)
        · rename_i d hd
          exact changes_draft hj stage known needs hd

theorem changes_receive (s : Session) (key : Path) : Changes sees s (s.receive key) := by
  unfold receive
  split
  · rename_i root hj
    split
    · rename_i out known
      exact changes_place hj rfl known
    · exact .refl
  · exact .refl

theorem changes_obtain (s : Session) (i : Nat) : Changes sees s (s.obtain i) := by
  unfold Session.obtain
  split
  · rename_i importer edge hf
    split
    · rename_i out known
      exact .single (.obtain hf rfl known)
    · exact .refl
  · exact .refl

theorem changes_fetch (s : Session) (i : Nat) : Changes sees s (s.fetch i) := by
  unfold fetch
  split
  · rename_i importer edge hf
    exact .head (.fetch hf rfl) (changes_obtain _ i)
  · exact .refl

theorem changes_ask (s : Session) (i : Nat) : Changes sees s (s.ask i) := by
  unfold ask
  split
  · rename_i waiter k root hr
    split
    · rename_i out done
      exact .single (.answer hr rfl done)
    · rename_i unfinished
      have hemploy : (if Table.has k s.jobs = true then s
          else { s with jobs := Table.put k { dependencyRoot := root } s.jobs })
          = { s with jobs := s.employ k root } := by
        unfold employ
        split <;> rfl
      simp only [hemploy]
      cases waiter with
      | none => exact .single (.await hr rfl unfinished (by simp))
      | some a =>
        simp only
        cases hc : s.waiting.waitsOn k a with
        | false => exact .single (.await hr rfl unfinished (by simpa using hc))
        | true =>
          cases hp : Table.get? k s.provisional with
          | none => exact .single (.lack hr rfl unfinished rfl hc hp)
          | some artifact => exact .single (.provide hr rfl unfinished rfl hc hp)
  · exact .refl

theorem changes_resume (s : Session) (i : Nat) : Changes sees s (s.resume i) := by
  unfold resume
  split
  · rename_i waiter k root hr
    split
    · rename_i out done
      have h : Change sees s _ := .resume hr rfl done
      cases waiter <;> exact .single h
    · exact .refl
  · exact .refl

theorem changes_look {found : Sighting} (saw : sees key found) :
    Changes sees s (s.look key found) := by
  unfold look
  cases hk : Table.get? key s.cache with
  | none => simp only [Cache.settle, hk]; exact .single (.remark _ s.log)
  | some load =>
    cases load with
    | reading importer =>
      simp only [Cache.settle, hk]
      exact .head (.remark (s.report ++ Cache.noteOn key importer found) s.log)
        (.single (.settle hk saw))
    | settled out => simp only [Cache.settle, hk]; exact .single (.remark _ s.log)

/-- A write that the disk refuses. -/
theorem changes_wrote_error (s : Session) (key : Path) (fault : DiskFault) :
    Changes sees s (s.wrote key (.error fault)) := by
  unfold wrote
  split
  · rename_i d text hs
    obtain ⟨j, hj, hstage⟩ := stage?_eq_some hs
    simp only [finish_of_get? hj]
    exact .single (.fail _ hj (by simp [hstage]) (by simp [Job.outcome?, hstage]))
  · exact .refl

theorem changes_wrote_ok {j : Job} {d : Draft} {text : String}
    (hj : Table.get? key s.jobs = some j) (hstage : j.stage = .writing d text) :
    Changes sees (s.emitted key j d text) (s.wrote key (.ok ())) := by
  have hs : s.stage? key = some (.writing d text) := by simp [stage?, hj, hstage]
  unfold wrote
  simp only [hs, note]
  obtain ⟨log, hlog⟩ := tell_eq { s with
    written := s.written ++ [d.output]
    report := s.report ++ [.written d.output.render key.render] } ("Written: " ++ d.output.render)
  rw [hlog]
  simp only [finish, setStage, hj]
  exact .single (.remark (s.report ++ [.written d.output.render key.render]) log)

theorem changes_start {j : Job} (hj : Table.get? key s.jobs = some j) (hstage : j.stage = .queued) :
    Changes sees (s.begun key j) (s.start key) := by
  have hs : s.stage? key = some .queued := by simp [stage?, hj, hstage]
  unfold start
  simp only [hs, setStage, hj]
  exact changes_receive _ key

/-- What a move is made of. A job is started by its own move only, and an interface
is written only by the move that writes it. -/
theorem step_cases {m : Move} (h : Step sees s m t) :
    ((∀ k, m = .start k → s.stage? k ≠ some .queued) ∧ Changes sees s t) ∨
    (∃ k j, m = .start k ∧ Table.get? k s.jobs = some j ∧ j.stage = .queued ∧
      Changes sees (s.begun k j) t) ∨
    (∃ k j d text, m = .write k ∧ Table.get? k s.jobs = some j ∧ j.stage = .writing d text ∧
      Changes sees (s.emitted k j d text) t) := by
  cases h with
  | quick due quick =>
    cases m with
    | ask i => exact .inl ⟨by simp, changes_ask s i⟩
    | resume i => exact .inl ⟨by simp, changes_resume s i⟩
    | receive k => exact .inl ⟨by simp, changes_receive s k⟩
    | gather k => exact .inl ⟨by simp, changes_gather s k⟩
    | link k => exact .inl ⟨by simp, changes_link s k⟩
    | fetch i => exact .inl ⟨by simp, changes_fetch s i⟩
    | obtain i => exact .inl ⟨by simp, changes_obtain s i⟩
    | look k => simp [Move.isSlow] at quick
    | write k => simp [Move.isSlow] at quick
    | start k =>
      by_cases hs : s.stage? k = some .queued
      · obtain ⟨j, hj, hstage⟩ := stage?_eq_some hs
        exact .inr (.inl ⟨k, j, rfl, hj, hstage, changes_start hj hstage⟩)
      · refine .inl ⟨by simpa using hs, ?_⟩
        have : s.start k = s := by
          unfold start
          split
          · contradiction
          · rfl
        simp only [quickly, this]
        exact .refl
  | look due saw => exact .inl ⟨by simp, changes_look saw⟩
  | @write k due answer =>
    cases answer with
    | error fault => exact .inl ⟨by simp, changes_wrote_error s k fault⟩
    | ok u =>
      by_cases hs : ∃ d text, s.stage? k = some (.writing d text)
      · obtain ⟨d, text, hs⟩ := hs
        obtain ⟨j, hj, hstage⟩ := stage?_eq_some hs
        exact .inr (.inr ⟨k, j, d, text, rfl, hj, hstage, changes_wrote_ok hj hstage⟩)
      · refine .inl ⟨by simp, ?_⟩
        have : s.wrote k (.ok u) = s := by
          unfold wrote
          split
          · rename_i d text hs'
            exact absurd ⟨d, text, hs'⟩ hs
          · rfl
        rw [this]

/-- A change, the start of a job, or a write that the disk takes. -/
inductive Act (sees : Path → Sighting → Prop) (s : Session) : Session → Prop
  | change {t : Session} (h : Change sees s t) : Act sees s t
  | begin_ {key : Path} {j : Job} (hj : Table.get? key s.jobs = some j)
      (stage : j.stage = .queued) : Act sees s (s.begun key j)
  | emit {key : Path} {j : Job} {d : Draft} {text : String}
      (hj : Table.get? key s.jobs = some j) (stage : j.stage = .writing d text) :
      Act sees s (s.emitted key j d text)

/-- What every change keeps, a row of changes keeps. -/
theorem Changes.keeps {I : Session → Prop} (act : ∀ {s t}, I s → Act sees s t → I t)
    (h : Changes sees s t) (hs : I s) : I t := by
  induction h with
  | refl => exact hs
  | tail _ hc ih => exact act ih (.change hc)

/-- What every change, every start and every write keeps, every move keeps. -/
theorem Step.keeps {I : Session → Prop} {m : Move} (act : ∀ {s t}, I s → Act sees s t → I t)
    (h : Step sees s m t) (hs : I s) : I t := by
  rcases step_cases h with ⟨-, hc⟩ | ⟨k, j, -, hj, hq, hc⟩ | ⟨k, j, d, text, -, hj, hw, hc⟩
  · exact Changes.keeps act hc hs
  · exact Changes.keeps act hc (act hs (.begin_ hj hq))
  · exact Changes.keeps act hc (act hs (.emit hj hw))

end SolidityInterface.Session
