import SolidityInterface.Proofs.Run.Dependence
import SolidityInterface.Proofs.Run.Determinism

/-
  The life of a session over many runs. Beside the acts of a run there are requests from
  outside, the end of a run whose requests are answered, and the end of a run that is
  given up, which may come at any time; between the moves others may change the disk.
  `World.History` is any row of such events.

  1. A session in which no job is at work any more is a good start for further requests:
     whatever holds of a session in a run holds of it (`Ends.orderly`).
  2. A run that was given up leaves no job at work by force, and one that ended well has
     none: its jobs have owners, which are answered from the oldest on
     (`Orderly.finished_of_outcome`).
  3. So the invariants of single runs hold through the whole life of a session
     (`World.History.exists_orderly`), and all that is ever written was complete
     (`World.History.complete_of_mem_writings`).
-/

namespace SolidityInterface

/-! ## Jobs that are given up -/

theorem Session.Job.cancel_of_outcome? {j : Job} {out : Except Failure (Option Artifact)}
    (h : j.outcome? = some out) : Session.Job.cancel j = j := by
  have hstage := Session.Job.stage_of_outcome? h
  simp [Session.Job.cancel, hstage]

theorem Session.Job.cancel_of_open {j : Job} (h : j.outcome? = none) :
    Session.Job.cancel j = { j with stage := .finished (.error .cancelled) } := by
  unfold Session.Job.cancel
  split
  · rename_i hstage
    simp [Job.outcome?, hstage] at h
  · rfl

@[simp] theorem Session.Job.cancel_dependencyRoot (j : Job) :
    (Session.Job.cancel j).dependencyRoot = j.dependencyRoot := by
  unfold Session.Job.cancel
  split <;> rfl

/-- A job that was given up has a result: the one it had, or that it was given up. -/
theorem Session.Job.cancel_outcome? (j : Job) :
    (Session.Job.cancel j).outcome? = some (j.outcome?.getD (.error .cancelled)) := by
  cases h : j.outcome? with
  | none =>
    rw [cancel_of_open h]
    rfl
  | some out =>
    rw [cancel_of_outcome? h, h]
    rfl

/-- What holds of the stage of a job that was given up, and not of a failure, held of the
stage before. -/
theorem Session.Job.stage_of_cancel {p : Stage → Bool} {j : Job}
    (hfailed : p (.finished (.error .cancelled)) = false)
    (h : p (Session.Job.cancel j).stage = true) : p j.stage = true := by
  cases hout : j.outcome? with
  | none =>
    rw [cancel_of_open hout, hfailed] at h
    simp at h
  | some out => rwa [cancel_of_outcome? hout] at h

namespace Session

open Relation Plan

variable {o : Options} {disk : Path → Sighting} {sees sees' : Path → Sighting → Prop}
  {s t : Session} {k : Path}

/-! ## What can happen to a session -/

/-- What can happen to a session. -/
inductive Event (sees : Path → Sighting → Prop) (s : Session) : Session → Prop
  | act {t : Session} (h : Act sees s t) : Event sees s t
  /-- A request from outside. -/
  | request (path : Path) : Event sees s (s.request path)
  /-- The end of a run whose requests are answered. -/
  | leave {as : List (Option Artifact)} (h : s.outcome? = some (.ok as)) : Event sees s s.leave
  /-- The end of a run that is given up. -/
  | abort : Event sees s s.abort

/-- A row of events. -/
abbrev Events (sees : Path → Sighting → Prop) : Session → Session → Prop :=
  ReflTransGen (Event sees)

theorem Acts.events (h : Acts sees s t) : Events sees s t :=
  ReflTransGen.mono (fun _ _ ha => .act ha) s t h

theorem get?_abort (s : Session) (k : Path) :
    Table.get? k s.abort.jobs = (Table.get? k s.jobs).map Job.cancel :=
  Table.get?_map Job.cancel k s.jobs

/-- What is known is not forgotten with the looks that are on their way. -/
theorem outcome?_dropPending_of_some {c : Cache} {out : Except Failure Record}
    (h : c.outcome? k = some out) : c.dropPending.outcome? k = some out := by
  have hget : Table.get? k c = some (.settled out) := by
    unfold Cache.outcome? at h
    split at h
    · rename_i hget
      rw [hget, Option.some.inj h]
    · simp at h
  unfold Cache.outcome? Cache.dropPending
  rw [Table.get?_filter_of_get? hget rfl]

theorem outcome?_dropPending {c : Cache} (hc : (Table.keys c).Nodup) (k : Path) :
    c.dropPending.outcome? k = c.outcome? k := by
  unfold Cache.outcome? Cache.dropPending
  rw [Table.get?_filter hc]
  cases Table.get? k c with
  | none => rfl
  | some load => cases load <;> rfl

theorem Event.outcome?_kept (h : Event sees s t) {out : Except Failure Record}
    (hk : s.cache.outcome? k = some out) : t.cache.outcome? k = some out := by
  cases h with
  | act h => exact h.outcome?_kept hk
  | request | leave => exact hk
  | abort => exact outcome?_dropPending_of_some hk

/-- A result is never lost. -/
theorem Event.result_kept (h : Event sees s t) {out : Except Failure (Option Artifact)}
    (hk : s.result? k = some out) : t.result? k = some out := by
  cases h with
  | act h => exact h.result_kept hk
  | request | leave => exact hk
  | abort =>
    obtain ⟨j, hj, hout⟩ := result?_eq_some hk
    rw [result?, get?_abort, hj, Option.map_some, Job.cancel_of_outcome? hout]
    exact hout

theorem Event.options_eq (h : Event sees s t) : t.options = s.options := by
  cases h with
  | act h => exact h.options_eq
  | request | leave | abort => rfl

theorem Event.extends (h : Event sees s t) : Extends s t where
  options := h.options_eq
  records hk := h.outcome?_kept hk
  results hk := h.result_kept hk

theorem Events.extends (h : Events sees s t) : Extends s t := by
  induction h with
  | refl => exact .refl s
  | tail _ he ih => exact ih.trans he.extends

theorem Events.result_kept (h : Events sees s t) {out : Except Failure (Option Artifact)}
    (hk : s.result? k = some out) : t.result? k = some out := by
  induction h with
  | refl => exact hk
  | tail _ he ih => exact he.result_kept ih

/-- A path that is not settled has not been looked at, so anything may lie there. -/
theorem Events.update (h : Events (finds disk) s t) (hk : t.cache.outcome? k = none)
    (found : Sighting) : Events (finds (Function.update disk k found)) s t := by
  induction h with
  | refl => exact .refl
  | @tail u t _ he ih =>
    have hbefore : u.cache.outcome? k = none := by
      cases hout : u.cache.outcome? k with
      | none => rfl
      | some out =>
        rw [he.outcome?_kept hout] at hk
        simp at hk
    refine (ih hbefore).tail ?_
    cases he with
    | act ha => exact .act (ha.update hk found)
    | request path => exact .request path
    | leave h => exact .leave h
    | abort => exact .abort

/-! ## Sessions between runs -/

/-- Whether a file is done with: its job has finished, and asks for nothing. -/
def Retired (s : Session) (k : Path) : Prop :=
  (∃ out, s.result? k = some out) ∧ s.requestsOf k = []

/-- A session in whose life all went by the rules. -/
structure Orderly (o : Options) (disk : Path → Sighting) (s : Session) : Prop where
  faithful : Faithful o disk s
  safe : Safe s
  informed : Informed o disk s
  grounded : Grounded o disk s
  final : s.Final
  accounted : ∀ {k}, Table.has k s.jobs = true → s.Retired k ∨ s.Owner k
  single : (Table.keys s.cache).Nodup

theorem Act.nodup_cache (h : Act sees s t) (hs : (Table.keys s.cache).Nodup) :
    (Table.keys t.cache).Nodup := by
  cases h with
  | begin_ => exact nodup_request hs
  | emit => exact hs
  | change h =>
    cases h with
    | settle => exact Table.nodup_keys_put hs
    | fetch => exact nodup_request hs
    | remark | answer | await | provide | lack | resume | obtain | fail | skip | reuse | promise
    | survey | gather | link => exact hs

/-- A file that is done with stays so: only a job that imports asks for anything. -/
theorem Act.retired (h : Act sees s t) (hs : s.Retired k) : t.Retired k := by
  obtain ⟨⟨out, hout⟩, hnone⟩ := hs
  refine ⟨⟨out, h.result_kept hout⟩, ?_⟩
  have old : ∀ r ∈ s.requests, r.waiter ≠ some k := by
    intro r hr hw
    have hmem : r ∈ s.requestsOf k := List.mem_filter.mpr ⟨hr, by simpa using hw⟩
    rw [hnone] at hmem
    simp at hmem
  apply List.filter_eq_nil_iff.mpr
  intro r' hr'
  cases h.request_cases hr' with
  | same hr => simpa using old r' hr
  | waits hr _ _ _ _ e | answered hr _ _ e | provided hr _ _ _ _ e | lacks hr _ _ _ _ e =>
    subst e
    simpa using old _ hr
  | @new key j d records hj stage _ hnew =>
    obtain ⟨u, -, rfl⟩ := mem_asked hnew
    -- The job that asks is at work, and that of the file has finished.
    suffices hne : key ≠ k by simpa using hne
    rintro rfl
    obtain ⟨j', hj', hout'⟩ := result?_eq_some hout
    obtain rfl := Option.some.inj (hj.symm.trans hj')
    simp [Job.outcome?, stage] at hout'

theorem Orderly.act (hs : Orderly o disk s) (h : Act (finds disk) s t) : Orderly o disk t where
  faithful := h.faithful hs.faithful
  safe := h.safe hs.safe
  informed := h.informed hs.faithful hs.informed
  grounded := h.grounded hs.faithful hs.informed hs.grounded
  final := h.final hs.final
  single := h.nodup_cache hs.single
  accounted := by
    intro k hk
    cases hold : Table.has k s.jobs with
    | false => exact .inr (h.owner_new hs.faithful hs.safe hold hk)
    | true =>
      rcases hs.accounted hold with hretired | howner
      · exact .inl (h.retired hretired)
      · exact .inr (h.owner_kept hold howner)

/-! ## A request from outside -/

theorem mem_request {path : Path} {r : Request} (h : r ∈ (s.request path).requests) :
    r ∈ s.requests ∨ r = s.rootRequest path := by
  simpa [Session.request] using h

/-- A request from outside has no answer but a failure before it is asked. -/
theorem rootRequest_unanswered (s : Session) (path : Path) (a : Option Artifact) :
    (s.rootRequest path).progress ≠ .done (.ok a) := by
  rcases s.rootRequest_cases path with ⟨f, hf⟩ | ⟨key, target, root, -, -, -, he⟩
  · rw [hf]
    simp
  · rw [he]
    simp

theorem requestsOf_request (s : Session) (path k : Path) :
    (s.request path).requestsOf k = s.requestsOf k := by
  simp [requestsOf, Session.request, (s.rootRequest_waiter path).1]

/-- The course of a job depends on the jobs, the cache and what was asked for its file. -/
theorem OnCourse.congr (hs : OnCourse o disk s k) (cache : t.cache = s.cache)
    (jobs : t.jobs = s.jobs) (fetches : t.fetchesOf k = s.fetchesOf k)
    (requests : t.requestsOf k = s.requestsOf k) : OnCourse o disk t k := by
  have hidle : t.Idle k ↔ s.Idle k := by rw [Idle, Idle, fetches, requests]
  have hroot : t.rootOf = s.rootOf := by
    funext p
    rw [rootOf, rootOf, jobs]
  have hserved : s.Served k → t.Served k := by
    intro h r hr
    exact h r (requests ▸ hr)
  have hsupplied : Supplied o disk s k → Supplied o disk t k := fun h =>
    ⟨fun e he => cache ▸ h.cached e he, fun i hi => jobs ▸ h.employed i hi, hserved h.served⟩
  unfold OnCourse
  rw [jobs]
  cases hj : Table.get? k s.jobs with
  | none =>
    apply hidle.mpr
    simpa [OnCourse, hj] using hs
  | some j =>
    have hc := hs.of_get? hj
    show Course o disk t k j.dependencyRoot j.stage
    generalize j.stage = stage at hc ⊢
    cases hc with
    | queued idle => exact .queued (hidle.mpr idle)
    | loading idle => exact .loading (hidle.mpr idle)
    | importing drafted loads asks =>
      exact .importing drafted (fetches ▸ loads) (requests ▸ asks)
    | linking drafted cached used asks =>
      exact .linking drafted (cache ▸ cached) used (requests ▸ asks)
    | writing drafted supplied htext =>
      exact .writing drafted (hsupplied supplied) (hroot ▸ htext)
    | failed f => exact .failed f
    | plain hplain served ha => exact .plain hplain (hserved served) ha
    | emitted drafted supplied htext =>
      exact .emitted drafted (hsupplied supplied) (hroot ▸ htext)

theorem Orderly.request (hs : Orderly o disk s) (path : Path) : Orderly o disk (s.request path) := by
  have hwaiter := (s.rootRequest_waiter path).1
  constructor
  case safe => exact hs.safe.request path
  case single => exact hs.single
  case informed => exact { hs.informed with }
  case faithful =>
    refine { hs.faithful with answered := ?_, course := ?_ }
    · intro r hr a ha
      rcases mem_request hr with hr | rfl
      · exact hs.faithful.answered r hr a ha
      · exact absurd ha (s.rootRequest_unanswered path a)
    · intro k
      exact (hs.faithful.course k).congr rfl rfl rfl (s.requestsOf_request path k)
  case grounded =>
    refine { hs.grounded with asked := ?_, answered := ?_ }
    · intro r hr a ha
      rcases mem_request hr with hr | rfl
      · exact hs.grounded.asked r hr a ha
      · simp [hwaiter] at ha
    · intro r hr a x ha hx
      rcases mem_request hr with hr | rfl
      · exact hs.grounded.answered r hr a x ha hx
      · simp [hwaiter] at ha
  case final =>
    intro r hr hw a ha
    rcases mem_request hr with hr | rfl
    · exact hs.final r hr hw a ha
    · exact absurd ha (s.rootRequest_unanswered path a)
  case accounted =>
    intro k hk
    rcases hs.accounted hk with ⟨hout, hnone⟩ | ⟨r, hr, hkey, hstands, hage⟩
    · exact .inl ⟨hout, (s.requestsOf_request path k).trans hnone⟩
    · exact .inr ⟨r, List.mem_append_left _ hr, hkey, hstands, hage⟩

/-! ## The end of a run -/

/-- A session at the end of a run: what was loaded, promised and made is kept, and no job is
at work any more. -/
structure Ends (s t : Session) : Prop where
  options : t.options = s.options
  records : ∀ k, t.cache.outcome? k = s.cache.outcome? k
  single : (Table.keys t.cache).Nodup
  jobs : ∀ k, Table.get? k t.jobs = (Table.get? k s.jobs).map Job.cancel
  provisional : t.provisional = s.provisional
  waiting : ∀ a b, t.waiting.Edge a b → s.waiting.Edge a b
  fetches : t.fetches = []
  requests : t.requests = []

theorem Ends.extends (h : Ends s t) : Extends s t where
  options := h.options
  records hk := (h.records _).trans hk
  results hk := by
    obtain ⟨j, hj, hout⟩ := result?_eq_some hk
    rw [result?, h.jobs, hj, Option.map_some, Job.cancel_of_outcome? hout]
    exact hout

namespace Ends

variable (h : Ends s t)
include h

theorem get?_jobs {j' : Job} (hj' : Table.get? k t.jobs = some j') :
    ∃ j, Table.get? k s.jobs = some j ∧ Job.cancel j = j' := by
  rw [h.jobs] at hj'
  exact Option.map_eq_some_iff.mp hj'

theorem has_jobs (hk : Table.has k s.jobs = true) : Table.has k t.jobs = true := by
  obtain ⟨j, hj⟩ := Table.has_iff.mp hk
  exact Table.has_of_get? (by rw [h.jobs, hj]; rfl)

theorem rootOf_eq (k : Path) : t.rootOf k = s.rootOf k := by
  unfold rootOf
  rw [h.jobs]
  cases Table.get? k s.jobs <;> simp

theorem requestsOf_eq (k : Path) : t.requestsOf k = [] := by
  rw [requestsOf, h.requests]
  rfl

theorem served (k : Path) : t.Served k := by
  intro r hr
  rw [h.requestsOf_eq] at hr
  simp at hr

/-- The result of a job at the end of a run. -/
theorem exists_result (hk : Table.has k t.jobs = true) : ∃ out, t.result? k = some out := by
  obtain ⟨j', hj'⟩ := Table.has_iff.mp hk
  obtain ⟨j, -, rfl⟩ := h.get?_jobs hj'
  exact ⟨_, by rw [result?, hj']; exact Job.cancel_outcome? j⟩

theorem safe (hs : Safe s) : Safe t where
  acyclic := hs.acyclic.mono h.waiting
  edge_promised he := h.provisional ▸ hs.edge_promised (h.waiting _ _ he)
  waiter_promised := by simp [h.requests]
  draft_promised hj' hdrafted := by
    obtain ⟨j, hj, rfl⟩ := h.get?_jobs hj'
    rw [h.provisional]
    exact hs.draft_promised hj (Job.stage_of_cancel rfl hdrafted)
  waiting_job := by simp [h.requests]
  waiting_edge := by simp [h.requests]
  loading_cached hj' hl := by
    obtain ⟨j, hj, rfl⟩ := h.get?_jobs hj'
    have hout := Job.cancel_outcome? j
    simp [Job.outcome?, hl] at hout
  fetching_cached := by simp [h.fetches]

theorem informed (hs : Informed o disk s) : Informed o disk t where
  own hj' hrecord := by
    obtain ⟨j, hj, rfl⟩ := h.get?_jobs hj'
    rw [h.records]
    exact hs.own hj (Job.stage_of_cancel rfl hrecord)
  named hj' hrecord needs := by
    obtain ⟨j, hj, rfl⟩ := h.get?_jobs hj'
    exact hs.named hj (Job.stage_of_cancel rfl hrecord) needs
  loads := by simp [h.fetches]
  imports hj' himports needs e he := by
    obtain ⟨j, hj, rfl⟩ := h.get?_jobs hj'
    rw [h.records]
    exact hs.imports hj (Job.stage_of_cancel rfl himports) needs e he

theorem grounded (hs : Grounded o disk s) : Grounded o disk t where
  edge he := h.extends.uses (hs.edge (h.waiting _ _ he))
  asked := by simp [h.requests]
  answered := by simp [h.requests]
  made hj' hstage b hrelies := by
    obtain ⟨j, hj, rfl⟩ := h.get?_jobs hj'
    exact h.extends.met (hs.made hj (Job.stage_of_cancel rfl hstage) b hrelies)

/-- A job that ended well is on its course also when its loads and requests are gone. -/
theorem onCourse (hs : Faithful o disk s) (hinformed : Informed o disk s) (k : Path) :
    OnCourse o disk t k := by
  have hsupplied : ∀ {j : Job} {a : Option Artifact}, Table.get? k s.jobs = some j →
      j.stage = .finished (.ok a) → (seen o disk k).needsInterface = true →
      Supplied o disk s k → Supplied o disk t k := by
    intro j a hj hstage needs hsup
    refine ⟨?_, fun i hi => h.has_jobs (hsup.employed i hi), h.served k⟩
    intro e he
    obtain ⟨r, hr⟩ := hinformed.imports hj (by rw [hstage]; rfl) needs e he
    exact Cache.has_of_outcome? ((h.records _).trans hr)
  unfold OnCourse
  cases hj' : Table.get? k t.jobs with
  | none =>
    constructor
    · simp [fetchesOf, h.fetches]
    · simp [requestsOf, h.requests]
  | some j' =>
    obtain ⟨j, hj, rfl⟩ := h.get?_jobs hj'
    -- A job that was at work has failed, and one that had finished is on the course it had.
    cases hout : j.outcome? with
    | none =>
      rw [Job.cancel_of_open hout]
      exact .failed .cancelled
    | some out =>
      rw [Job.cancel_of_outcome? hout]
      have hc := (hs.course k).of_get? hj
      show Course o disk t k j.dependencyRoot j.stage
      generalize hst : j.stage = stage at hc ⊢
      cases hc with
      | queued | loading | importing | linking | writing => simp [Job.outcome?, hst] at hout
      | failed f => exact .failed f
      | plain hplain _ ha => exact .plain hplain (h.served k) ha
      | emitted drafted supplied htext =>
        refine .emitted drafted (hsupplied hj hst drafted.1 supplied) ?_
        rw [htext]
        exact textOf_congr fun i _ => (h.rootOf_eq _).symm

theorem faithful (hs : Faithful o disk s) (hinformed : Informed o disk s) : Faithful o disk t where
  options := h.options.trans hs.options
  known hk := hs.known ((h.records _).symm.trans hk)
  fetched := by simp [h.fetches]
  promised hk := by
    obtain ⟨hjob, hsketch⟩ := hs.promised (h.provisional ▸ hk)
    exact ⟨h.has_jobs hjob, by rw [h.rootOf_eq, hsketch]⟩
  answered := by simp [h.requests]
  course := h.onCourse hs hinformed

theorem orderly (hs : Orderly o disk s) : Orderly o disk t where
  faithful := h.faithful hs.faithful hs.informed
  safe := h.safe hs.safe
  informed := h.informed hs.informed
  grounded := h.grounded hs.grounded
  final := by simp [Final, h.requests]
  accounted hk := .inl ⟨h.exists_result hk, h.requestsOf_eq _⟩
  single := h.single

end Ends

theorem ends_abort (hs : (Table.keys s.cache).Nodup) : Ends s s.abort where
  options := rfl
  records := outcome?_dropPending hs
  single := hs.sublist (List.filter_sublist.map _)
  jobs := s.get?_abort
  provisional := rfl
  waiting a b he := by simp [Session.abort, Waiting.Edge] at he
  fetches := rfl
  requests := rfl

/-- Once the requests from outside are answered, no job is at work. -/
theorem Orderly.finished_of_outcome (hs : Orderly o disk s) {as : List (Option Artifact)}
    (h : s.outcome? = some (.ok as)) (hk : Table.has k s.jobs = true) :
    ∃ out, s.result? k = some out := by
  rcases hs.faithful.done_of_owned s.Retired (fun hretired => hretired.2) hs.accounted
    (answered_of_outcome h) hk with ⟨hout, -⟩ | ⟨a, ha⟩
  · exact hout
  · exact ⟨_, ha⟩

theorem Orderly.ends_leave (hs : Orderly o disk s) {as : List (Option Artifact)}
    (h : s.outcome? = some (.ok as)) : Ends s s.leave where
  options := rfl
  records _ := rfl
  single := hs.single
  provisional := rfl
  waiting _ _ he := he
  fetches := rfl
  requests := rfl
  jobs k := by
    -- No job is at work, so it makes no difference to give them all up.
    show Table.get? k s.jobs = (Table.get? k s.jobs).map Job.cancel
    cases hj : Table.get? k s.jobs with
    | none => rfl
    | some j =>
      obtain ⟨out, hout⟩ := hs.finished_of_outcome h (Table.has_of_get? hj)
      obtain ⟨j', hj', hres⟩ := result?_eq_some hout
      obtain rfl := Option.some.inj (hj.symm.trans hj')
      rw [Option.map_some, Job.cancel_of_outcome? hres]

theorem Orderly.event (hs : Orderly o disk s) (h : Event (finds disk) s t) : Orderly o disk t := by
  cases h with
  | act h => exact hs.act h
  | request path => exact hs.request path
  | leave h => exact (hs.ends_leave h).orderly hs
  | abort => exact (ends_abort hs.single).orderly hs

theorem orderly_blank (o : Options) (disk : Path → Sighting) :
    Orderly o disk { options := o } where
  faithful := World.faithful_enter o disk []
  safe := safe_start o
  informed := World.informed_enter o disk []
  grounded := World.grounded_enter o disk []
  final := by simp [Final]
  accounted hk := by simp [Table.has, Table.get?] at hk
  single := by simp [Table.keys]

theorem Events.orderly (h : Events (finds disk) { options := o } s) : Orderly o disk s := by
  induction h with
  | refl => exact orderly_blank o disk
  | tail _ he ih => exact ih.event he

end Session

namespace World

open Session Plan Relation

variable {o : Options} {disk : Path → Sighting} {paths : List Path} {w v : World}
  {trace : List Move} {k : Path}

/-! ## The life of a world -/

/-- What can happen to a world. A run that is given up may leave writes on their way, which
the disk takes although no job learns of it. -/
inductive Event (w : World) : World → Prop
  | step {m : Move} {v : World} (h : Step w m v) : Event w v
  | request (path : Path) : Event w { w with session := w.session.request path }
  | leave {as : List (Option Artifact)} (h : w.session.outcome? = some (.ok as)) :
      Event w { w with session := w.session.leave }
  | abort (late : List Writing)
      (h : ∀ x ∈ late, ∃ d, w.session.stage? x.source = some (.writing d x.text) ∧
        x.output = d.output) :
      Event w { w with session := w.session.abort, writings := w.writings ++ late }
  /-- Others change the disk. -/
  | disturb (disk : Path → Sighting) : Event w { w with disk }

/-- A row of events. -/
abbrev History : World → World → Prop := ReflTransGen Event

/-- A world in which nothing has been asked for. -/
def blank (o : Options) (disk : Path → Sighting) : World := { session := { options := o }, disk }

theorem Run.history (h : Run w trace v) : History w v := by
  induction h with
  | nil => exact .refl
  | snoc _ hstep ih => exact ih.tail (.step hstep)

/-- A run starts with requests, one after the other. -/
theorem history_enter (hw : w.session.requests = []) (paths : List Path) :
    History w { w with session := w.session.enter paths } := by
  induction paths using List.reverseRecOn with
  | nil =>
    have hsame : w.session.enter [] = w.session := by
      rw [enter, List.map_nil, ← hw]
    rw [hsame]
  | append_singleton paths p ih =>
    have henter : w.session.enter (paths ++ [p]) = (w.session.enter paths).request p := by
      simp only [enter, Session.request, List.map_append]
      rfl
    rw [henter]
    exact ih.tail (.request p)

/-- A run starts from a world in which nothing but its roots was asked for. -/
theorem history_start (o : Options) (disk : Path → Sighting) (paths : List Path) :
    History (blank o disk) (start o disk paths) :=
  history_enter rfl paths

theorem History.exists_events (h : History w v) :
    ∃ found, Events (finds found) w.session v.session := by
  induction h with
  | refl => exact ⟨w.disk, .refl⟩
  | tail _ he ih =>
    obtain ⟨found, hs⟩ := ih
    cases he with
    | step hstep =>
      rcases hstep.acts_cases found with hstep | ⟨key, x, hk, hstep⟩
      · exact ⟨found, hs.trans hstep.events⟩
      · exact ⟨_, (hs.update hk x).trans hstep.events⟩
    | request path => exact ⟨found, hs.tail (.request path)⟩
    | leave hend => exact ⟨found, hs.tail (.leave hend)⟩
    | abort => exact ⟨found, hs.tail .abort⟩
    | disturb => exact ⟨found, hs⟩

/-- In the whole life of a session all goes by the rules, on the disk that its looks
found. -/
theorem History.exists_orderly (h : History (blank o disk) w) :
    ∃ found, Orderly o found w.session := by
  obtain ⟨found, hs⟩ := h.exists_events
  exact ⟨found, hs.orderly⟩

/-- What an event is for the session of a world. -/
theorem Event.events (h : Event w v) : Events (finds w.disk) w.session v.session := by
  cases h with
  | step h => exact h.session.acts.events
  | request path => exact .single (.request path)
  | leave h => exact .single (.leave h)
  | abort => exact .single .abort
  | disturb => exact .refl

theorem History.result_kept (h : History w v) {out : Except Failure (Option Artifact)}
    (hk : w.session.result? k = some out) : v.session.result? k = some out := by
  induction h with
  | refl => exact hk
  | tail _ he ih => exact he.events.result_kept ih

/-- All that was ever written was complete, also what was on its way when a run was given
up. -/
theorem History.complete_of_mem_writings (h : History (blank o disk) w) {x : Writing}
    (hx : x ∈ w.writings) : w.session.Complete x.source := by
  induction h with
  | refl => simp [blank] at hx
  | @tail v w hv he ih =>
    have hext := he.events.extends
    have old : x ∈ v.writings → w.session.Complete x.source := fun hx => (ih hx).extends hext
    have new : ∀ {k d text}, v.session.stage? k = some (.writing d text) →
        w.session.Complete k := by
      intro k d text hstage
      obtain ⟨found, hs⟩ := History.exists_orderly hv
      obtain ⟨j, hj, hst⟩ := stage?_eq_some hstage
      have hcomplete := hs.grounded.complete hs.faithful hs.informed hj
        (by simp [hst, Stage.hasArtifacts])
      exact hcomplete.extends hext
    cases he with
    | request | leave | disturb => exact old hx
    | abort late hlate =>
      rcases List.mem_append.mp hx with hx | hx
      · exact old hx
      · obtain ⟨d, hd, -⟩ := hlate x hx
        exact new hd
    | step hstep =>
      cases hstep with
      | quick | look | refuse => exact old hx
      | write _ stage _ =>
        rcases List.mem_append.mp hx with hx | hx
        · exact old hx
        · obtain rfl := List.mem_singleton.mp hx
          exact new stage

end World

end SolidityInterface
