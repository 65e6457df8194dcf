import SolidityInterface.Proofs.Run.Counting
import SolidityInterface.Proofs.Run.Deadlock
import SolidityInterface.Proofs.Run.Steady

/-
  A run works on the files that it needs, and on no others. `Plan.Needed` is the least
  set of files that holds the roots and is closed under the imports that interfaces
  use. Jobs and requests lead to needed files only (`Act.spread`). In the other
  direction, every job has an owner: a request that waits for it, or has got its
  result, and that comes from outside or from a job that is older (`Session.Owner`).
  Once all requests from outside are answered, the owners are answered from the
  oldest job on, so every job has ended well (`Grown.all_done`), and such a job has
  seen the jobs of all files that it uses.
-/

namespace SolidityInterface

theorem mem_modify_self {α : Type} {l : List α} {a : α} {i : Nat} (h : l[i]? = some a)
    (f : α → α) : f a ∈ l.modify i f := by
  refine List.mem_iff_getElem?.mpr ⟨i, ?_⟩
  rw [List.getElem?_modify, h]
  simp

theorem mem_modify_of_mem {α : Type} {l : List α} {a : α} (h : a ∈ l) (i : Nat) (f : α → α) :
    a ∈ l.modify i f ∨ l[i]? = some a := by
  obtain ⟨n, hn⟩ := List.mem_iff_getElem?.mp h
  by_cases hin : i = n
  · subst hin
    exact .inr hn
  · refine .inl (List.mem_iff_getElem?.mpr ⟨n, ?_⟩)
    rw [List.getElem?_modify, hn]
    simp [hin]

namespace Session

open Plan

variable {o : Options} {disk : Path → Sighting} {sees : Path → Sighting → Prop}
  {s t : Session} {k key : Path}

/-! ## Where jobs and requests lead -/

/-- Whether a relation between files and output roots holds of all jobs, and of all
requests that are still to be asked. -/
structure Spread (P : Path → Path → Prop) (s : Session) : Prop where
  fresh : ∀ r ∈ s.requests, r.progress = .fresh → P r.key r.dependencyRoot
  job : ∀ {k j}, Table.get? k s.jobs = some j → P k j.dependencyRoot

theorem Act.spread {P : Path → Path → Prop} (h : Act sees s t) (hs : Faithful o disk s)
    (closed : ∀ {k root u}, P k root → Relies o disk k u → P u root) (hP : Spread P s) :
    Spread P t := by
  constructor
  case fresh =>
    intro r' hr' hfresh
    cases h.request_cases hr' with
    | same hr => exact hP.fresh r' hr hfresh
    | waits _ _ _ _ _ e | answered _ _ _ e | provided _ _ _ _ _ e | lacks _ _ _ _ _ e =>
      subst e
      simp at hfresh
    | new hj stage loaded hnew =>
      obtain ⟨drafted, hused, -, -⟩ := hs.chosen_eq hj stage loaded
      obtain ⟨i, hi, rfl⟩ := mem_asked (hused ▸ hnew)
      exact closed (hP.job hj) ⟨drafted.1, i, hi, (usedOf_path hi).symm⟩
  case job =>
    intro k j' hj'
    cases h.job_cases hj' with
    | same hj => exact hP.job hj
    | new hr fresh hk _ e =>
      subst e hk
      exact hP.fresh _ hr fresh
    | advanced hj _ e =>
      have hroot := hP.job hj
      rw [e]
      exact hroot

/-! ## Owners -/

/-- Whether a request has an answer to come, or has got the result of its job. -/
def Request.Stands (s : Session) (r : Request) : Prop :=
  r.progress = .waiting ∨ ∃ out, r.progress = .done out ∧ s.result? r.key = some out

/-- The place of a file in the order in which the jobs came. -/
def age (s : Session) (k : Path) : Nat := (Table.keys s.jobs).idxOf k

/-- Whether a request stands for a file that comes from outside or from an older job. -/
def Owner (s : Session) (k : Path) : Prop :=
  ∃ r ∈ s.requests, r.key = k ∧ Request.Stands s r ∧ ∀ a, r.waiter = some a → s.age a < s.age k

theorem keys_employ (s : Session) (key root : Path) :
    Table.keys (s.employ key root)
      = if Table.has key s.jobs then Table.keys s.jobs else Table.keys s.jobs ++ [key] := by
  unfold employ
  split
  · rfl
  · rename_i h
    rw [Table.keys_put, if_neg h]

theorem Act.keys_jobs (h : Act sees s t) : ∃ l, Table.keys t.jobs = Table.keys s.jobs ++ l := by
  have put : ∀ {key : Path} {j j' : Job}, Table.get? key s.jobs = some j →
      ∃ l, Table.keys (Table.put key j' s.jobs) = Table.keys s.jobs ++ l := by
    intro key j j' hj
    exact ⟨[], by rw [Table.keys_put_of_has (Table.has_of_get? hj), List.append_nil]⟩
  have employed : ∀ key root, ∃ l, Table.keys (s.employ key root) = Table.keys s.jobs ++ l := by
    intro key root
    rw [keys_employ]
    split
    · exact ⟨[], (List.append_nil _).symm⟩
    · exact ⟨[key], rfl⟩
  cases h with
  | begin_ hj | emit hj => exact put hj
  | change h =>
    cases h with
    | remark | answer | resume | settle | fetch | obtain | promise =>
      exact ⟨[], (List.append_nil _).symm⟩
    | await | provide | lack => exact employed _ _
    | fail _ hj | skip hj | reuse hj | survey hj | gather hj | link hj => exact put hj

theorem Act.age_eq (h : Act sees s t) (hk : Table.has k s.jobs = true) : t.age k = s.age k := by
  obtain ⟨l, hl⟩ := h.keys_jobs
  rw [age, age, hl]
  exact List.idxOf_append_of_mem (Table.mem_keys_iff.mpr hk)

theorem has_of_age_lt {a : Path} (hk : Table.has k s.jobs = true) (h : s.age a < s.age k) :
    Table.has a s.jobs = true := by
  have hlt : s.age k < (Table.keys s.jobs).length :=
    List.idxOf_lt_length_of_mem (Table.mem_keys_iff.mpr hk)
  exact Table.mem_keys_iff.mp (List.idxOf_lt_length_iff.mp (h.trans hlt))

/-- A request that stands goes on standing. -/
theorem Act.stands (h : Act sees s t) {r : Request} (hr : r ∈ s.requests)
    (hstands : Request.Stands s r) :
    ∃ r' ∈ t.requests, r'.key = r.key ∧ r'.waiter = r.waiter ∧ Request.Stands t r' := by
  have same : r ∈ t.requests →
      ∃ r' ∈ t.requests, r'.key = r.key ∧ r'.waiter = r.waiter ∧ Request.Stands t r' := by
    intro hmem
    refine ⟨r, hmem, rfl, rfl, ?_⟩
    rcases hstands with hw | ⟨out, hd, hres⟩
    · exact .inl hw
    · exact .inr ⟨out, hd, h.result_kept hres⟩
  -- Only a request that was not asked yet, or one that waits, is changed.
  have stale : ∀ {i : Nat} {r₂ : Request}, s.requests[i]? = some r₂ → r₂.progress = .fresh →
      s.requests[i]? ≠ some r := by
    rintro i r₂ hr₂ hfresh heq
    obtain rfl := Option.some.inj (hr₂.symm.trans heq)
    rcases hstands with hw | ⟨out, hd, -⟩ <;> simp_all
  have h' := h
  cases h with
  | begin_ | emit => exact same hr
  | change h =>
    cases h with
    | remark | settle | fetch | obtain | fail | skip | reuse | promise | survey | link =>
      exact same hr
    | gather => exact same (List.mem_append_left _ hr)
    | @answer i r₂ _ hr₂ fresh | @await i r₂ hr₂ fresh | @provide i r₂ _ _ hr₂ fresh
    | @lack i r₂ _ hr₂ fresh =>
      rcases mem_modify_of_mem hr i _ with hm | heq
      · exact same hm
      · exact absurd heq (stale hr₂ fresh)
    | @resume i r₂ out hr₂ waiting done =>
      rcases mem_modify_of_mem hr i _ with hm | heq
      · exact same hm
      · obtain rfl := Option.some.inj (hr₂.symm.trans heq)
        exact ⟨_, mem_modify_self hr₂ _, rfl, rfl, .inr ⟨out, rfl, h'.result_kept done⟩⟩

theorem Act.owner_kept (h : Act sees s t) (hk : Table.has k s.jobs = true) (hs : s.Owner k) :
    t.Owner k := by
  obtain ⟨r, hr, rfl, hstands, hage⟩ := hs
  obtain ⟨r', hr', hkey, hwaiter, hstands'⟩ := h.stands hr hstands
  refine ⟨r', hr', hkey, hstands', ?_⟩
  intro a ha
  rw [hwaiter] at ha
  have hlt := hage a ha
  rw [h.age_eq hk, h.age_eq (has_of_age_lt hk hlt)]
  exact hlt

theorem Faithful.has_waiter (hs : Faithful o disk s) (safe : Safe s) {r : Request}
    (hr : r ∈ s.requests) {a : Path} (ha : r.waiter = some a) : Table.has a s.jobs = true := by
  obtain ⟨p, hp⟩ := Table.has_iff.mp (safe.waiter_promised r hr a ha)
  exact (hs.promised hp).1

/-- The file in a cycle has a job already. -/
theorem Faithful.has_of_cycle (hs : Faithful o disk s) (safe : Safe s) {r : Request}
    (hr : r ∈ s.requests) {a : Path} (ha : r.waiter = some a)
    (cycle : s.waiting.waitsOn r.key a = true) : Table.has r.key s.jobs = true := by
  obtain ⟨p, hp⟩ := Table.has_iff.mp (safe.promised_of_waitsOn hr ha cycle)
  exact (hs.promised hp).1

/-- A file that is new among the jobs comes last, and is the one that was asked for. -/
theorem keys_employ_new {root : Path} (hold : Table.has k s.jobs = false)
    (hnew : Table.has k (s.employ key root) = true) :
    Table.keys (s.employ key root) = Table.keys s.jobs ++ [k] ∧ key = k := by
  rw [← Table.mem_keys_iff, keys_employ] at hnew
  rw [keys_employ]
  split at hnew
  · rw [Table.mem_keys_iff, hold] at hnew
    exact absurd hnew Bool.false_ne_true
  · rename_i hno
    rw [if_neg hno]
    rcases List.mem_append.mp hnew with hmem | hmem
    · rw [Table.mem_keys_iff, hold] at hmem
      exact absurd hmem Bool.false_ne_true
    · obtain rfl := List.mem_singleton.mp hmem
      exact ⟨rfl, rfl⟩

/-- A new job is owned by the request that brought it, whose waiter has an older one. -/
theorem Act.owner_new (h : Act sees s t) (hs : Faithful o disk s) (safe : Safe s)
    (hold : Table.has k s.jobs = false) (hnew : Table.has k t.jobs = true) : t.Owner k := by
  have put : ∀ {key : Path} {j j' : Job}, Table.get? key s.jobs = some j →
      Table.has k (Table.put key j' s.jobs) = true → False := by
    intro key j j' hj hk
    rw [← Table.mem_keys_iff, Table.keys_put_of_has (Table.has_of_get? hj),
      Table.mem_keys_iff, hold] at hk
    exact Bool.false_ne_true hk
  have unchanged : ∀ {key root : Path}, Table.has key s.jobs = true →
      Table.has k (s.employ key root) = true → False := by
    intro key root hkey hk
    rw [employ, if_pos hkey, hold] at hk
    exact Bool.false_ne_true hk
  cases h with
  | begin_ hj | emit hj => exact (put hj hnew).elim
  | change h =>
    cases h with
    | remark | answer | resume | settle | fetch | obtain | promise =>
      exact absurd (hold.symm.trans hnew) Bool.false_ne_true
    | fail _ hj | skip hj | reuse hj | survey hj | gather hj | link hj => exact (put hj hnew).elim
    | provide hr _ _ ha cycle | lack hr _ _ ha cycle =>
      exact (unchanged (hs.has_of_cycle safe (List.mem_of_getElem? hr) ha cycle) hnew).elim
    | @await i r hr fresh unfinished free =>
      obtain ⟨hkeys, hkey⟩ := keys_employ_new hold hnew
      refine ⟨_, mem_modify_self hr _, hkey, .inl rfl, ?_⟩
      intro a ha
      have hmem : a ∈ Table.keys s.jobs :=
        Table.mem_keys_iff.mpr (hs.has_waiter safe (List.mem_of_getElem? hr) ha)
      have hnot : k ∉ Table.keys s.jobs := by
        rw [Table.mem_keys_iff, hold]
        exact Bool.false_ne_true
      show (Table.keys (s.employ r.key r.dependencyRoot)).idxOf a
        < (Table.keys (s.employ r.key r.dependencyRoot)).idxOf k
      rw [hkeys, List.idxOf_append_of_mem hmem, List.idxOf_append_of_notMem hnot]
      have hlt := List.idxOf_lt_length_of_mem hmem
      omega

/-! ## What is cached -/

/-- Whether only files with jobs and their imports are cached, and all begun jobs are. -/
structure Stocked (o : Options) (disk : Path → Sighting) (s : Session) : Prop where
  loads : ∀ f ∈ s.fetches,
    Table.has f.importer s.jobs = true ∧ Imports o disk f.importer f.edge.target
  cached : ∀ {k}, Table.has k s.cache = true →
    Table.has k s.jobs = true ∨ ∃ m, Table.has m s.jobs = true ∧ Imports o disk m k
  begun : ∀ {k}, s.Begun k → Table.has k s.cache = true

/-- A path comes into the cache for its own job, or for a file that imports it. -/
theorem Act.cache_cases (h : Act sees s t) (hk : Table.has k t.cache = true) :
    Table.has k s.cache = true ∨ Table.has k s.jobs = true ∨ ∃ f ∈ s.fetches, f.edge.target = k := by
  cases h with
  | begin_ hj =>
    rcases has_request_cases hk with hk | rfl
    · exact .inl hk
    · exact .inr (.inl (Table.has_of_get? hj))
  | emit => exact .inl hk
  | change h =>
    cases h with
    | settle reading =>
      rw [← Table.mem_keys_iff, Table.keys_put_of_has (Table.has_of_get? reading),
        Table.mem_keys_iff] at hk
      exact .inl hk
    | @fetch i f hf =>
      rcases has_request_cases hk with hk | rfl
      · exact .inl hk
      · exact .inr (.inr ⟨f, List.mem_of_getElem? hf, rfl⟩)
    | remark | answer | await | provide | lack | resume | obtain | fail | skip | reuse | promise
    | survey | gather | link => exact .inl hk

theorem Act.stocked (h : Act sees s t) (hs : Faithful o disk s) (hstock : Stocked o disk s) :
    Stocked o disk t := by
  constructor
  case loads =>
    intro f' hf'
    have kept : ∀ {p q : Path}, Table.has p s.jobs = true ∧ Imports o disk p q →
        Table.has p t.jobs = true ∧ Imports o disk p q := by
      rintro p q ⟨hp, hq⟩
      exact ⟨h.has_job hp, hq⟩
    cases h.fetch_cases hf' with
    | same hf => exact kept (hstock.loads f' hf)
    | waits hf _ _ e | done hf _ _ e =>
      have hold := kept (hstock.loads _ hf)
      rw [e]
      exact hold
    | new hj stage known needs hd he hnew =>
      have drafted := hs.drafted known needs hd
      have hedges := edgesOf_of_draft drafted.2 he
      obtain ⟨e, hmem, rfl⟩ := List.mem_map.mp hnew
      exact kept ⟨Table.has_of_get? hj, drafted.1, e, hedges ▸ hmem, rfl⟩
  case cached =>
    intro k hk
    rcases h.cache_cases hk with hk | hk | ⟨f, hf, rfl⟩
    · rcases hstock.cached hk with hj | ⟨m, hm, himports⟩
      · exact .inl (h.has_job hj)
      · exact .inr ⟨m, h.has_job hm, himports⟩
    · exact .inl (h.has_job hk)
    · obtain ⟨hm, himports⟩ := hstock.loads f hf
      exact .inr ⟨f.importer, h.has_job hm, himports⟩
  case begun =>
    rintro k ⟨j', hj', hbegun⟩
    cases h.job_cases hj' with
    | same hj => exact h.has_cache (hstock.begun ⟨j', hj, hbegun⟩)
    | new _ _ _ _ e =>
      subst e
      exact absurd rfl hbegun
    | advanced hj advance e =>
      cases advance with
      | begin_ _ cached => exact cached
      | fail f begun => exact h.has_cache (hstock.begun ⟨_, hj, begun⟩)
      | skip stage | reuse stage | survey stage | gather stage | link stage | emit stage =>
        exact h.has_cache (hstock.begun ⟨_, hj, by simp [stage]⟩)

/-! ## Sessions that have grown from their roots -/

/-- A session that has done what the disk says, on needed files, with an owner for
every job. -/
structure Grown (o : Options) (disk : Path → Sighting) (paths : List Path) (s : Session) :
    Prop where
  faithful : Faithful o disk s
  safe : Safe s
  needed : Spread (fun k _ => Needed o disk paths k) s
  owned : ∀ {k}, Table.has k s.jobs = true → s.Owner k
  stocked : Stocked o disk s

variable {paths : List Path}

theorem Act.grown (h : Act (finds disk) s t) (hs : Grown o disk paths s) :
    Grown o disk paths t where
  faithful := h.faithful hs.faithful
  safe := h.safe hs.safe
  needed := h.spread hs.faithful (fun hk hu => .used hk hu) hs.needed
  owned := by
    intro k hk
    cases hold : Table.has k s.jobs with
    | true => exact h.owner_kept hold (hs.owned hold)
    | false => exact h.owner_new hs.faithful hs.safe hold hk
  stocked := h.stocked hs.faithful hs.stocked

/-- Whether all requests from outside have been answered by an artifact. -/
def Answered (s : Session) : Prop :=
  ∀ r ∈ s.requests, r.waiter = none → ∃ a, r.progress = .done (.ok a)

theorem answered_of_outcome {as : List (Option Artifact)} (h : s.outcome? = some (.ok as)) :
    s.Answered := by
  intro r hr hwaiter
  have hprogress := Progress.eq_of_gather h
  have hmem : r ∈ s.requests.filter (·.waiter.isNone) :=
    List.mem_filter.mpr ⟨hr, by simp [hwaiter]⟩
  have hp : r.progress ∈ as.map fun a => Progress.done (.ok a) :=
    hprogress ▸ List.mem_map_of_mem hmem
  obtain ⟨a, -, ha⟩ := List.mem_map.mp hp
  exact ⟨a, ha.symm⟩

theorem Faithful.served_of_result (hs : Faithful o disk s) {a : Option Artifact}
    (h : s.result? k = some (.ok a)) : s.Served k := by
  obtain ⟨j, -, hc⟩ := hs.course_of_result h
  cases hc with
  | plain _ served _ => exact served
  | emitted _ supplied _ => exact supplied.served

/-- Once the requests from outside are answered, every job has ended well, if it has an owner
or is left aside and asks for nothing. -/
theorem Faithful.done_of_owned (hs : Faithful o disk s) (aside : Path → Prop)
    (hidle : ∀ {k}, aside k → s.requestsOf k = [])
    (howned : ∀ {k}, Table.has k s.jobs = true → aside k ∨ s.Owner k) (hanswered : s.Answered)
    (hk : Table.has k s.jobs = true) : aside k ∨ ∃ a, s.result? k = some (.ok a) := by
  -- By induction on the age of the job: the owner comes from an older one.
  induction hn : s.age k using Nat.strong_induction_on generalizing k with
  | _ n ih =>
    subst hn
    rcases howned hk with haside | ⟨r, hr, rfl, hstands, hage⟩
    · exact .inl haside
    have hdone : ∃ a, r.progress = .done (.ok a) := by
      cases hwaiter : r.waiter with
      | none => exact hanswered r hr hwaiter
      | some b =>
        have hlt := hage b hwaiter
        have hmem : r ∈ s.requestsOf b := List.mem_filter.mpr ⟨hr, by simp [hwaiter]⟩
        rcases ih (s.age b) hlt (has_of_age_lt hk hlt) rfl with haside | ⟨a, ha⟩
        · rw [hidle haside] at hmem
          simp at hmem
        · exact hs.served_of_result ha r hmem
    obtain ⟨a, ha⟩ := hdone
    rcases hstands with hw | ⟨out, hout, hres⟩
    · rw [hw] at ha
      simp at ha
    · rw [hout] at ha
      exact .inr ⟨a, hres.trans (by rw [Progress.done.inj ha])⟩

/-- Once the requests from outside are answered, every job has ended well. -/
theorem Grown.all_done (hs : Grown o disk paths s) (hanswered : s.Answered)
    (hk : Table.has k s.jobs = true) : ∃ a, s.result? k = some (.ok a) := by
  have hdone := hs.faithful.done_of_owned (fun _ => False) (fun h => h.elim)
    (fun hk => .inr (hs.owned hk)) hanswered hk
  simpa using hdone

theorem Grown.begun (hs : Grown o disk paths s) (hanswered : s.Answered)
    (hk : Table.has k s.jobs = true) : s.Begun k := by
  obtain ⟨a, ha⟩ := hs.all_done hanswered hk
  obtain ⟨j, hj, hout⟩ := result?_eq_some ha
  refine ⟨j, hj, ?_⟩
  intro hstage
  simp [Job.outcome?, hstage] at hout

/-- A file that gets an interface has seen its imports in the cache, and the jobs of the
files that it relies on. -/
theorem Faithful.supplied_of_result (hs : Faithful o disk s) {a : Option Artifact}
    (h : s.result? k = some (.ok a)) (needs : (seen o disk k).needsInterface = true) :
    Supplied o disk s k := by
  obtain ⟨j, -, hc⟩ := hs.course_of_result h
  cases hc with
  | plain ready =>
    rw [needs] at ready
    simp at ready
  | emitted _ supplied _ => exact supplied

/-- A job that ended well on a file that needs an interface has written one. -/
theorem Faithful.written_of_needs (hs : Faithful o disk s) {a : Option Artifact}
    (h : s.result? k = some (.ok a)) (needs : (seen o disk k).needsInterface = true) :
    ∃ b text, a = some b ∧ b.isEmitted = true ∧ b.text = some text := by
  obtain ⟨j, -, hc⟩ := hs.course_of_result h
  cases hc with
  | plain ready =>
    rw [needs] at ready
    simp at ready
  | emitted _ _ _ => exact ⟨_, _, rfl, rfl, rfl⟩

/-- A job that ended well on a file that needs no interface has written none. -/
theorem Faithful.needs_of_written (hs : Faithful o disk s) {a : Artifact}
    (h : s.result? k = some (.ok (some a))) (ha : a.isEmitted = true) :
    (seen o disk k).needsInterface = true := by
  obtain ⟨j, -, hc⟩ := hs.course_of_result h
  generalize hout : some a = out at hc
  cases hc with
  | plain _ _ he =>
    subst hout
    have hbare : (some a).map Artifact.bare = some a := by
      rw [he]
      exact sketch_bare _ _
    have heq : a.bare = a := Option.some.inj hbare
    rw [← heq] at ha
    simp [Artifact.bare] at ha
  | emitted drafted _ _ => exact drafted.1

/-! ## Requests from outside -/

/-- A request from outside fails at once, or it asks for the file that its path leads
to. -/
theorem rootRequest_cases (s : Session) (p : Path) :
    (∃ f, (s.rootRequest p).progress = .done (.error f)) ∨
      ∃ key target root, s.options.cwd.resolve? p = some key ∧ s.options.targetRoot = some target ∧
        targetDirectory? s.options.cwd target key = some root ∧
        s.rootRequest p = { waiter := none, key, dependencyRoot := root } := by
  unfold rootRequest
  split
  · exact .inl ⟨_, rfl⟩
  · exact .inl ⟨_, rfl⟩
  · rename_i key target hkey htarget
    split
    · exact .inl ⟨_, rfl⟩
    · rename_i root hroot
      exact .inr ⟨key, target, root, hkey, htarget, hroot, rfl⟩

/-- A request that has ended stays as it is. -/
theorem Act.done_kept (h : Act sees s t) {r : Request} {out : Except Failure (Option Artifact)}
    (hr : r ∈ s.requests) (hout : r.progress = .done out) : r ∈ t.requests := by
  have stale : ∀ {i : Nat} {r₂ : Request} {f : Request → Request}, s.requests[i]? = some r₂ →
      r₂.progress = .fresh ∨ r₂.progress = .waiting → r ∈ s.requests.modify i f := by
    intro i r₂ f hr₂ hundone
    rcases mem_modify_of_mem hr i f with hm | heq
    · exact hm
    · obtain rfl := Option.some.inj (hr₂.symm.trans heq)
      rcases hundone with h | h <;> simp [h] at hout
  cases h with
  | begin_ | emit => exact hr
  | change h =>
    cases h with
    | remark | settle | fetch | obtain | fail | skip | reuse | promise | survey | link => exact hr
    | gather => exact List.mem_append_left _ hr
    | answer hr₂ fresh | await hr₂ fresh | provide hr₂ fresh | lack hr₂ fresh =>
      exact stale hr₂ (.inl fresh)
    | resume hr₂ waiting => exact stale hr₂ (.inr waiting)

/-- The files that were asked for from outside, in order. -/
def rootKeys (s : Session) : List Path := (s.requests.filter (·.waiter.isNone)).map (·.key)

theorem rootKeys_setRequest (s : Session) (i : Nat) (p : Progress (Option Artifact)) :
    (s.setRequest i p).rootKeys = s.rootKeys := by
  unfold rootKeys setRequest
  apply map_filter_modify
  · intro a
    rfl
  · intro a
    rfl

theorem Act.rootKeys_eq (h : Act sees s t) : t.rootKeys = s.rootKeys := by
  cases h with
  | begin_ | emit => rfl
  | change h =>
    cases h with
    | remark | settle | fetch | obtain | fail | skip | reuse | promise | survey | link => rfl
    | answer | await | provide | lack | resume => exact rootKeys_setRequest ..
    | gather =>
      simp [rootKeys, Session.withJob, asked, List.filter_map, Function.comp_def]

end Session

namespace World

open Session Plan

variable {o : Options} {disk : Path → Sighting} {paths : List Path} {w : World}
  {trace : List Move} {k p : Path}

theorem grown_enter (o : Options) (disk : Path → Sighting) (paths : List Path) :
    Grown o disk paths ({ options := o : Session }.enter paths) where
  faithful := faithful_enter o disk paths
  safe := (reachable_enter o paths).safe
  needed := by
    constructor
    case fresh =>
      intro r hr hfresh
      obtain ⟨p, hp, rfl⟩ := List.mem_map.mp hr
      rcases rootRequest_cases { options := o } p with ⟨f, hf⟩ | ⟨key, target, root, hkey, -, -, he⟩
      · rw [hf] at hfresh
        simp at hfresh
      · rw [he]
        exact .root hp hkey
    case job =>
      intro k j hj
      simp [enter, Table.get?] at hj
  owned := by
    intro k hk
    simp [enter, Table.has, Table.get?] at hk
  stocked := by
    constructor
    case loads => simp [enter]
    case cached =>
      intro k hk
      simp [enter, Table.has, Table.get?] at hk
    case begun =>
      rintro k ⟨j, hj, -⟩
      simp [enter, Table.get?] at hj

theorem Run.grown (h : Run (start o disk paths) trace w) (hw : w.SparesSources) :
    Grown o disk paths w.session :=
  h.keeps hw (fun hs ha => ha.grown hs) (grown_enter o disk paths)

theorem rootKeys_enter (o : Options) (paths : List Path) :
    ({ options := o : Session }.enter paths).rootKeys
      = paths.map fun p => ({ options := o : Session }.rootRequest p).key := by
  have hall : ∀ r ∈ paths.map ({ options := o : Session }.rootRequest), r.waiter.isNone = true := by
    intro r hr
    obtain ⟨p, -, rfl⟩ := List.mem_map.mp hr
    rw [(rootRequest_waiter _ p).1]
    rfl
  simp only [rootKeys, enter]
  rw [List.filter_eq_self.mpr hall, List.map_map]
  rfl

theorem Run.rootKeys_eq (h : Run (start o disk paths) trace w) (hw : w.SparesSources) :
    w.session.rootKeys = paths.map fun p => ({ options := o : Session }.rootRequest p).key := by
  have hkept : (fun s : Session => s.rootKeys = (start o disk paths).session.rootKeys) w.session :=
    h.keeps hw (fun hs ha => ha.rootKeys_eq.trans hs) rfl
  exact hkept.trans (rootKeys_enter o paths)

/-- In a run whose requests are answered every root had a request that was asked. -/
theorem Run.rootRequest_eq (h : Run (start o disk paths) trace w) (hw : w.SparesSources)
    (hanswered : w.session.Answered) (hp : p ∈ paths) :
    ∃ key target root, o.cwd.resolve? p = some key ∧ o.targetRoot = some target ∧
      targetDirectory? o.cwd target key = some root ∧
      { options := o : Session }.rootRequest p
        = { waiter := none, key, dependencyRoot := root } := by
  rcases rootRequest_cases { options := o } p with ⟨f, hf⟩ | hcase
  · -- A request that failed at once would still be there.
    have hkept : { options := o : Session }.rootRequest p ∈ w.session.requests := by
      refine h.keeps (I := fun s => { options := o : Session }.rootRequest p ∈ s.requests) hw
        (fun hs ha => ha.done_kept hs hf) ?_
      exact List.mem_map_of_mem hp
    obtain ⟨a, ha⟩ := hanswered _ hkept (rootRequest_waiter _ p).1
    rw [hf] at ha
    simp at ha
  · exact hcase

/-- The files with jobs are those that the run needs. -/
theorem Run.has_job_iff (h : Run (start o disk paths) trace w) (hw : w.SparesSources)
    (hanswered : w.session.Answered) :
    Table.has k w.session.jobs = true ↔ Needed o disk paths k := by
  have hs := h.grown hw
  constructor
  · intro hk
    obtain ⟨j, hj⟩ := Table.has_iff.mp hk
    exact hs.needed.job hj
  · intro hk
    induction hk with
    | @root p k hp hk =>
      obtain ⟨key, target, root, hkey, -, -, he⟩ := h.rootRequest_eq hw hanswered hp
      obtain rfl := Option.some.inj (hkey.symm.trans hk)
      have hmem : key ∈ w.session.rootKeys := by
        rw [h.rootKeys_eq hw]
        exact List.mem_map.mpr ⟨p, hp, by rw [he]⟩
      obtain ⟨r, hr, rfl⟩ := List.mem_map.mp hmem
      obtain ⟨hr, hwaiter⟩ := List.mem_filter.mp hr
      obtain ⟨a, ha⟩ := hanswered r hr (by simpa using hwaiter)
      exact (hs.faithful.answered r hr a ha).1
    | @used k t _ ht ih =>
      obtain ⟨needs, i, hi, rfl⟩ := ht
      obtain ⟨a, ha⟩ := hs.all_done hanswered ih
      rw [← usedOf_path hi]
      exact (hs.faithful.supplied_of_result ha needs).employed i hi

/-- The files with an interface are the needed ones whose files need one. -/
theorem Run.emitted_iff (h : Run (start o disk paths) trace w) (hw : w.SparesSources)
    (hanswered : w.session.Answered) :
    (∃ a, w.session.result? k = some (.ok (some a)) ∧ a.isEmitted = true) ↔
      Needed o disk paths k ∧ (seen o disk k).needsInterface = true := by
  have hs := h.grown hw
  constructor
  · rintro ⟨a, ha, hemitted⟩
    have hjob := (hs.faithful.artifact ha).1
    exact ⟨(h.has_job_iff hw hanswered).mp hjob, hs.faithful.needs_of_written ha hemitted⟩
  · rintro ⟨hk, needs⟩
    obtain ⟨a, ha⟩ := hs.all_done hanswered ((h.has_job_iff hw hanswered).mpr hk)
    obtain ⟨b, text, rfl, hb, -⟩ := hs.faithful.written_of_needs ha needs
    exact ⟨b, ha, hb⟩

theorem Run.mem_sources_iff (h : Run (start o disk paths) trace w) (hw : w.SparesSources)
    (hanswered : w.session.Answered) :
    k ∈ w.writings.map (·.source) ↔
      Needed o disk paths k ∧ (seen o disk k).needsInterface = true := by
  rw [← h.emitted_iff hw hanswered]
  obtain ⟨-, hiff⟩ := h.writings_iff
  constructor
  · intro hk
    obtain ⟨⟨k', output, text⟩, hmem, rfl⟩ := List.mem_map.mp hk
    obtain ⟨a, ha, hemitted, -, -⟩ := (hiff k' output text).mp hmem
    exact ⟨a, ha, hemitted⟩
  · rintro ⟨a, ha, hemitted⟩
    have needs := (h.faithful hw).needs_of_written ha hemitted
    obtain ⟨b, text, hb, -, htext⟩ := (h.faithful hw).written_of_needs ha needs
    obtain rfl := Option.some.inj hb
    have hmem := (hiff k a.output text).mpr ⟨a, ha, hemitted, rfl, htext⟩
    exact List.mem_map.mpr ⟨_, hmem, rfl⟩

/-- The cached files are the needed ones, and what those of them that get an interface
import. -/
theorem Run.cached_iff (h : Run (start o disk paths) trace w) (hw : w.SparesSources)
    (hanswered : w.session.Answered) :
    k ∈ Table.keys w.session.cache ↔
      Needed o disk paths k ∨ ∃ m, Needed o disk paths m ∧ Imports o disk m k := by
  have hs := h.grown hw
  rw [Table.mem_keys_iff]
  constructor
  · intro hk
    rcases hs.stocked.cached hk with hjob | ⟨m, hm, himports⟩
    · exact .inl ((h.has_job_iff hw hanswered).mp hjob)
    · exact .inr ⟨m, (h.has_job_iff hw hanswered).mp hm, himports⟩
  · rintro (hk | ⟨m, hm, needs, e, he, rfl⟩)
    · exact hs.stocked.begun (hs.begun hanswered ((h.has_job_iff hw hanswered).mpr hk))
    · obtain ⟨a, ha⟩ := hs.all_done hanswered ((h.has_job_iff hw hanswered).mpr hm)
      exact (hs.faithful.supplied_of_result ha needs).cached e he

/-! ## A run does what is needed, each file once -/

/-- In a run that ends without a failure and writes over no source, the files that get
an interface are the needed contracts; a needed file is started once, and no other is;
a needed contract is written once, and no other; and what is cached is what is needed
and what needed contracts import. -/
theorem run_does_what_is_needed_once (o : Options) (disk : Path → Sighting) (paths : List Path)
    (trace : List Move) (w : World) (as : List (Option Artifact))
    (hrun : Run (start o disk paths) trace w) (hend : w.session.outcome? = some (.ok as))
    (hspares : w.SparesSources) :
    (∀ k, (∃ a, w.session.result? k = some (.ok (some a)) ∧ a.isEmitted = true) ↔
      Needed o disk paths k ∧ (seen o disk k).needsInterface = true) ∧
    (∀ k, Needed o disk paths k → trace.count (.start k) = 1) ∧
    (∀ k, ¬ Needed o disk paths k → trace.count (.start k) = 0) ∧
    (∀ k, Needed o disk paths k → (seen o disk k).needsInterface = true →
      (w.writings.map (·.source)).count k = 1) ∧
    (∀ x ∈ w.writings,
      Needed o disk paths x.source ∧ (seen o disk x.source).needsInterface = true) ∧
    (∀ k, k ∈ Table.keys w.session.cache ↔
      Needed o disk paths k ∨ ∃ m, Needed o disk paths m ∧ Imports o disk m k) := by
  have hanswered := answered_of_outcome hend
  have hjobs : ∀ k, Table.has k w.session.jobs = true ↔ Needed o disk paths k :=
    fun k => hrun.has_job_iff hspares hanswered
  have hsources : ∀ k, k ∈ w.writings.map (·.source) ↔ _ :=
    fun k => hrun.mem_sources_iff hspares hanswered
  refine ⟨fun k => hrun.emitted_iff hspares hanswered, ?_, ?_, ?_, ?_,
    fun k => hrun.cached_iff hspares hanswered⟩
  · intro k hk
    exact (hrun.count_start k).1 ((hrun.grown hspares).begun hanswered ((hjobs k).mpr hk))
  · intro k hk
    apply (hrun.count_start k).2
    rintro ⟨j, hj, -⟩
    exact hk ((hjobs k).mp (Table.has_of_get? hj))
  · intro k hk needs
    exact List.count_eq_one_of_mem hrun.writings_iff.1 ((hsources k).mpr ⟨hk, needs⟩)
  · intro x hx
    exact (hsources x.source).mp (List.mem_map_of_mem hx)

/-- A run on one of two contracts that import each other: the other, which nobody asked
for, is needed, is started once and written once. -/
theorem imported_contract_is_written_once :
    ∃ trace w as, Run (start Pair.options Pair.disk [Pair.left]) trace w ∧
      w.session.outcome? = some (.ok as) ∧ w.SparesSources ∧
      Needed Pair.options Pair.disk [Pair.left] Pair.right ∧
      trace.count (.start Pair.right) = 1 ∧ (w.writings.map (·.source)).count Pair.right = 1 := by
  have hplay : ((start Pair.options Pair.disk [Pair.left]).play (Pair.approach ++ Pair.rest)).any
      (fun w => (w.session.outcome?.any fun out => out.toOption.isSome) &&
        decide w.SparesSources && (w.writings.map (·.source)).contains Pair.right) = true := by
    decide +kernel
  obtain ⟨w, hw, h⟩ := (Option.any_eq_true ..).mp hplay
  simp only [Bool.and_eq_true, decide_eq_true_eq, List.contains_iff_mem] at h
  obtain ⟨⟨hend, hspares⟩, hwritten⟩ := h
  obtain ⟨out, hout, hok⟩ := (Option.any_eq_true ..).mp hend
  have hrun := run_of_play hw
  cases out with
  | error f => simp [Except.toOption] at hok
  | ok as =>
    obtain ⟨-, hstarted, -, hcount, hneeded, -⟩ :=
      run_does_what_is_needed_once _ _ _ _ w as hrun hout hspares
    obtain ⟨x, hx, hsource⟩ := List.mem_map.mp hwritten
    have hright := hneeded x hx
    rw [hsource] at hright
    exact ⟨_, w, as, hrun, hout, hspares, hright.1, hstarted _ hright.1,
      hcount _ hright.1 hright.2⟩

end World

end SolidityInterface
