import SolidityInterface.Proofs.Run.Plan

/-
  A session on a disk that does not change does what `Plan` says. `Session.Course` is
  how far the loads and the requests of a file have come at each stage of its job, and
  what the job has made of them; `Session.Faithful` is that for all files, together
  with what is cached, promised and answered. Every change keeps it
  (`Act.faithful`), so a job that ends well has the artifact that the disk and the
  settings say (`Faithful.artifact`), whatever the order of the moves was.

  The one thing that depends on the order is the output root of a file, which is that
  of the request that came first. It is read off the session (`Session.rootOf`).
-/

namespace SolidityInterface

theorem Progress.eq_of_gather {α : Type} {l : List (Progress α)} {vs : List α}
    (h : Progress.gather l = some (.ok vs)) : l = vs.map fun v => .done (.ok v) := by
  unfold Progress.gather at h
  split at h
  · simp at h
  · obtain ⟨us, hus, hok⟩ := Option.map_eq_some_iff.mp h
    obtain rfl := Except.ok.inj hok
    clear h hok
    induction l generalizing us with
    | nil =>
      simp only [List.mapM_nil, Option.pure_def, Option.some.injEq] at hus
      simp [← hus]
    | cons p rest ih =>
      rename_i hnone
      rw [List.findSome?_cons] at hnone
      cases p with
      | done out =>
        cases out with
        | ok v =>
          simp only [List.mapM_cons, Progress.value?, Option.pure_def, Option.bind_eq_bind,
            Option.bind_some, Option.bind_eq_some_iff, Option.some.injEq] at hus
          obtain ⟨ws, hws, rfl⟩ := hus
          rw [ih (by simpa [Progress.failure?] using hnone) ws hws, List.map_cons]
        | error f => simp [Progress.failure?] at hnone
      | fresh | waiting => simp [Progress.value?] at hus

/-- A part of some elements of a list is the same after a change to one element that
touches neither the choice nor the part. -/
theorem map_filter_modify {α β : Type} {p : α → Bool} {g : α → β} {f : α → α}
    (hp : ∀ a, p (f a) = p a) (hg : ∀ a, g (f a) = g a) (l : List α) (i : Nat) :
    ((l.modify i f).filter p).map g = (l.filter p).map g := by
  induction l generalizing i with
  | nil => simp
  | cons a rest ih =>
    cases i with
    | zero => cases ha : p a <;> simp [hp, hg, ha]
    | succ i => cases ha : p a <;> simp [ha, ih i]

namespace Session

open Plan

/-- The output root that a file got from the first request for it. -/
def rootOf (s : Session) (k : Path) : Path :=
  ((Table.get? k s.jobs).map (·.dependencyRoot)).getD k

/-- A look that finds what is on a disk. -/
abbrev finds (disk : Path → Sighting) (p : Path) (found : Sighting) : Prop := found = disk p

/-- Whether nothing was loaded or asked for on behalf of a file. -/
def Idle (s : Session) (k : Path) : Prop :=
  (s.fetchesOf k).map (·.edge) = [] ∧ (s.requestsOf k).map (·.key) = []

/-- Whether all requests of a file were answered by an artifact. -/
def Served (s : Session) (k : Path) : Prop :=
  ∀ r ∈ s.requestsOf k, ∃ a, r.progress = .done (.ok a)

section

variable (o : Options) (disk : Path → Sighting)

/-- Whether a file gets an interface, with the given draft. -/
def Drafted (k root : Path) (d : Draft) : Prop :=
  (seen o disk k).needsInterface = true ∧ draftFor o (seen o disk k) root = .ok d

/-- Whether all that the interface of a file is made of is there. -/
structure Supplied (s : Session) (k : Path) : Prop where
  cached : ∀ e ∈ edgesOf o (seen o disk k), Table.has e.target s.cache = true
  employed : ∀ i ∈ usedOf o disk k, Table.has i.2.path s.jobs = true
  served : s.Served k

/-- How far the loads and requests of a file are at each stage of its job, and what the
stage holds. -/
inductive Course (s : Session) (k root : Path) : Stage → Prop
  | queued (idle : s.Idle k) : Course s k root .queued
  | loading (idle : s.Idle k) : Course s k root .loading
  | importing {d : Draft} (drafted : Drafted o disk k root d)
      (loads : (s.fetchesOf k).map (·.edge) = edgesOf o (seen o disk k))
      (asks : (s.requestsOf k).map (·.key) = []) : Course s k root (.importing d)
  | linking {d : Draft} {imports : List (ImportEdge × Record)} (drafted : Drafted o disk k root d)
      (cached : ∀ e ∈ edgesOf o (seen o disk k), Table.has e.target s.cache = true)
      (used : imports = usedOf o disk k)
      (asks : (s.requestsOf k).map (·.key) = imports.map (·.2.path)) :
      Course s k root (.linking d imports)
  | writing {d : Draft} {text : String} (drafted : Drafted o disk k root d)
      (supplied : Supplied o disk s k) (htext : text = textOf o disk s.rootOf k d) :
      Course s k root (.writing d text)
  | failed (f : Failure) : Course s k root (.finished (.error f))
  | plain {a : Option Artifact} (plain : (seen o disk k).needsInterface = false)
      (served : s.Served k) (ha : a = sketch o disk root k) : Course s k root (.finished (.ok a))
  | emitted {d : Draft} {text : String} (drafted : Drafted o disk k root d)
      (supplied : Supplied o disk s k) (htext : text = textOf o disk s.rootOf k d) :
      Course s k root (.finished (.ok (some (d.artifact k text))))

/-- Whether the job of a file is on its course; a file without a job is idle. -/
def OnCourse (s : Session) (k : Path) : Prop :=
  match Table.get? k s.jobs with
  | none => s.Idle k
  | some j => Course o disk s k j.dependencyRoot j.stage

/-- A session that does what the disk and the settings say. -/
structure Faithful (s : Session) : Prop where
  options : s.options = o
  known : ∀ {k out}, s.cache.outcome? k = some out → out = recordAt o disk k
  fetched : ∀ f ∈ s.fetches, ∀ out, f.progress = .done out →
    Table.has f.edge.target s.cache = true ∧ out = recordAt o disk f.edge.target
  promised : ∀ {k a}, Table.get? k s.provisional = some a →
    Table.has k s.jobs = true ∧ sketch o disk (s.rootOf k) k = some a
  answered : ∀ r ∈ s.requests, ∀ a, r.progress = .done (.ok a) →
    Table.has r.key s.jobs = true ∧ a.map Artifact.bare = sketch o disk (s.rootOf r.key) r.key
  course : ∀ k, OnCourse o disk s k

end

variable {o : Options} {disk : Path → Sighting} {sees : Path → Sighting → Prop}
  {s t : Session} {k key : Path}

/-! ## Output roots -/

theorem rootOf_of_get? {j : Job} (hj : Table.get? k s.jobs = some j) :
    s.rootOf k = j.dependencyRoot := by
  simp [rootOf, hj]

theorem Act.rootOf_eq (h : Act sees s t) (hk : Table.has k s.jobs = true) :
    t.rootOf k = s.rootOf k := by
  obtain ⟨j, hj⟩ := Table.has_iff.mp hk
  obtain ⟨j', hj', hroot, -⟩ := h.job_kept hj
  rw [rootOf_of_get? hj, rootOf_of_get? hj', hroot]

theorem textOf_congr {roots roots' : Path → Path} {d : Draft}
    (h : ∀ i ∈ usedOf o disk k, roots i.2.path = roots' i.2.path) :
    textOf o disk roots k d = textOf o disk roots' k d := by
  unfold textOf
  congr 2
  apply List.map_congr_left
  intro i hi
  rw [h i hi]

/-! ## Loads and requests keep their order -/

theorem fetchesOf_setFetch (s : Session) (i : Nat) (p : Progress Record) (k : Path) :
    ((s.setFetch i p).fetchesOf k).map (·.edge) = (s.fetchesOf k).map (·.edge) := by
  unfold fetchesOf setFetch
  apply map_filter_modify
  · intro a
    rfl
  · intro a
    rfl

theorem requestsOf_setRequest (s : Session) (i : Nat) (p : Progress (Option Artifact)) (k : Path) :
    ((s.setRequest i p).requestsOf k).map (·.key) = (s.requestsOf k).map (·.key) := by
  unfold requestsOf setRequest
  apply map_filter_modify
  · intro a
    rfl
  · intro a
    rfl

/-- The loads that a job starts are those of its own file. -/
theorem fetchesOf_survey (j : Job) (stage : Stage) (edges : List ImportEdge) (k : Path) :
    ({ s with fetches := s.fetches ++ edges.map (Fetch.mk key · .fresh)
      }.withJob key j stage).fetchesOf k
      = s.fetchesOf k ++ if key = k then edges.map (Fetch.mk key · .fresh) else [] := by
  unfold fetchesOf withJob
  simp only [List.filter_append]
  by_cases hk : key = k <;> simp [hk, List.filter_map, Function.comp_def]

/-- The requests that a job makes are those of its own file. -/
theorem requestsOf_gather (j : Job) (stage : Stage) (root : Path)
    (used : List (ImportEdge × Record)) (k : Path) :
    ({ s with requests := s.requests ++ asked key root used }.withJob key j stage).requestsOf k
      = s.requestsOf k ++ if key = k then asked key root used else [] := by
  unfold requestsOf withJob
  simp only [List.filter_append]
  by_cases hk : key = k <;> simp [asked, hk, List.filter_map, Function.comp_def]

theorem asked_keys (root : Path) (used : List (ImportEdge × Record)) :
    (asked key root used).map (·.key) = used.map (·.2.path) := by
  simp [asked, Function.comp_def]

/-! ## What a change leaves as it was -/

theorem Act.served (h : Act sees s t) {j : Job} (hj : Table.get? k s.jobs = some j)
    (hstage : ∀ d, j.stage ≠ .importing d) (hs : s.Served k) : t.Served k := by
  intro r' hr'
  obtain ⟨hmem, hwaiter⟩ := List.mem_filter.mp hr'
  -- A request that was changed had no answer, and new ones come from a job that imports.
  have old : ∀ {r : Request}, r ∈ s.requests → r.waiter = some k →
      ∃ a, r.progress = .done (.ok a) := by
    intro r hr hw
    exact hs r (List.mem_filter.mpr ⟨hr, by simpa using hw⟩)
  cases h.request_cases hmem with
  | same hr => exact old hr (by simpa using hwaiter)
  | waits hr fresh _ _ _ e | provided hr fresh _ _ _ e | lacks hr fresh _ _ _ e =>
    subst e
    obtain ⟨a, ha⟩ := old hr (by simpa using hwaiter)
    simp [fresh] at ha
  | answered hr undone _ e =>
    subst e
    obtain ⟨a, ha⟩ := old hr (by simpa using hwaiter)
    rcases undone with h | h <;> simp [h] at ha
  | new hj' stage _ hnew =>
    obtain ⟨u, -, rfl⟩ := mem_asked hnew
    simp only [Option.some.injEq, decide_eq_true_eq] at hwaiter
    subst hwaiter
    obtain rfl := Option.some.inj (hj.symm.trans hj')
    exact absurd stage (hstage _)

theorem Act.supplied (h : Act sees s t) {j : Job} (hj : Table.get? k s.jobs = some j)
    (hstage : ∀ d, j.stage ≠ .importing d) (hs : Supplied o disk s k) : Supplied o disk t k where
  cached e he := h.has_cache (hs.cached e he)
  employed i hi := h.has_job (hs.employed i hi)
  served := h.served hj hstage hs.served

theorem Act.textOf_eq (h : Act sees s t) (hs : Supplied o disk s k) (d : Draft) :
    textOf o disk t.rootOf k d = textOf o disk s.rootOf k d := by
  apply textOf_congr
  intro i hi
  exact h.rootOf_eq (hs.employed i hi)

/-- A job that a change does not touch stays on its course. -/
theorem Course.kept (h : Act sees s t) {j : Job} (hj : Table.get? k s.jobs = some j)
    (loads : (t.fetchesOf k).map (·.edge) = (s.fetchesOf k).map (·.edge))
    (asks : (t.requestsOf k).map (·.key) = (s.requestsOf k).map (·.key))
    (hc : Course o disk s k j.dependencyRoot j.stage) :
    Course o disk t k j.dependencyRoot j.stage := by
  have idle : s.Idle k → t.Idle k := fun hi => ⟨loads.trans hi.1, asks.trans hi.2⟩
  generalize hst : j.stage = stage at hc
  cases hc with
  | queued hi => exact .queued (idle hi)
  | loading hi => exact .loading (idle hi)
  | importing drafted hl ha => exact .importing drafted (loads.trans hl) (asks.trans ha)
  | linking drafted cached used ha =>
    exact .linking drafted (fun e he => h.has_cache (cached e he)) used (asks.trans ha)
  | writing drafted supplied htext =>
    have hs := h.supplied hj (by simp [hst]) supplied
    exact .writing drafted hs (htext.trans (h.textOf_eq supplied _).symm)
  | failed f => exact .failed f
  | plain hplain served ha => exact .plain hplain (h.served hj (by simp [hst]) served) ha
  | emitted drafted supplied htext =>
    have hs := h.supplied hj (by simp [hst]) supplied
    exact .emitted drafted hs (htext.trans (h.textOf_eq supplied _).symm)

theorem OnCourse.of_get? (hs : OnCourse o disk s k) {j : Job} (hj : Table.get? k s.jobs = some j) :
    Course o disk s k j.dependencyRoot j.stage := by
  simpa [OnCourse, hj] using hs

theorem OnCourse.kept (h : Act sees s t) (hs : OnCourse o disk s k)
    (hjob : Table.get? k t.jobs = Table.get? k s.jobs)
    (loads : (t.fetchesOf k).map (·.edge) = (s.fetchesOf k).map (·.edge))
    (asks : (t.requestsOf k).map (·.key) = (s.requestsOf k).map (·.key)) :
    OnCourse o disk t k := by
  unfold OnCourse
  rw [hjob]
  cases hj : Table.get? k s.jobs with
  | none =>
    have hidle : s.Idle k := by simpa [OnCourse, hj] using hs
    exact ⟨loads.trans hidle.1, asks.trans hidle.2⟩
  | some j => exact Course.kept h hj loads asks (hs.of_get? hj)

/-- A change that gives a new file a job. -/
theorem OnCourse.employ {root : Path} (h : Act sees s t) (hs : OnCourse o disk s k)
    (hjobs : t.jobs = s.employ key root)
    (loads : (t.fetchesOf k).map (·.edge) = (s.fetchesOf k).map (·.edge))
    (asks : (t.requestsOf k).map (·.key) = (s.requestsOf k).map (·.key)) :
    OnCourse o disk t k := by
  rcases s.get?_employ key root k with hk | ⟨rfl, hnone, hk⟩
  · exact hs.kept h (hjobs ▸ hk) loads asks
  · have hidle : s.Idle key := by simpa [OnCourse, hnone] using hs
    unfold OnCourse
    rw [hjobs, hk]
    exact .queued ⟨loads.trans hidle.1, asks.trans hidle.2⟩

/-- A change that moves the job of one file on. -/
theorem OnCourse.withJob {j : Job} {stage : Stage} (h : Act sees s t) (hs : OnCourse o disk s k)
    (hjobs : t.jobs = Table.put key { j with stage } s.jobs)
    (loads : key ≠ k → (t.fetchesOf k).map (·.edge) = (s.fetchesOf k).map (·.edge))
    (asks : key ≠ k → (t.requestsOf k).map (·.key) = (s.requestsOf k).map (·.key))
    (hc : Course o disk t key j.dependencyRoot stage) : OnCourse o disk t k := by
  by_cases hk : key = k
  · subst hk
    unfold OnCourse
    rw [hjobs, Table.get?_put_self]
    exact hc
  · refine hs.kept h ?_ (loads hk) (asks hk)
    rw [hjobs, Table.get?_put_of_ne hk]

/-! ## The steps of a job -/

theorem Served.of_idle (hs : s.Idle k) (ht : t.requests = s.requests) : t.Served k := by
  have hnil : t.requestsOf k = [] := by
    rw [requestsOf, ht]
    exact List.map_eq_nil_iff.mp hs.2
  intro r hr
  rw [hnil] at hr
  simp at hr

theorem Course.idle_of_loading {root : Path} (hc : Course o disk s k root .loading) : s.Idle k := by
  cases hc with
  | loading idle => exact idle

/-- The records that the loads of a file ended in are those of its imports. -/
theorem Faithful.records_eq (hs : Faithful o disk s) {records : List Record}
    (loads : (s.fetchesOf key).map (·.edge) = edgesOf o (seen o disk key))
    (loaded : Progress.gather ((s.fetchesOf key).map (·.progress)) = some (.ok records)) :
    ((s.fetchesOf key).map (·.edge)).zip records = importsOf o disk key ∧
      ∀ e ∈ edgesOf o (seen o disk key), Table.has e.target s.cache = true := by
  have hprogress := Progress.eq_of_gather loaded
  have hmem : ∀ f ∈ s.fetchesOf key, f ∈ s.fetches := fun f hf => (List.mem_filter.mp hf).1
  -- The loads, one by one, against the records.
  have hzip : ∀ (l : List Fetch) (rs : List Record), (∀ f ∈ l, f ∈ s.fetches) →
      l.map (·.progress) = rs.map (fun r => .done (.ok r)) →
      (l.map (·.edge)).zip rs = (l.map (·.edge)).map (fun e => (e, seen o disk e.target)) ∧
        ∀ e ∈ l.map (·.edge), Table.has e.target s.cache = true := by
    intro l
    induction l with
    | nil => intro rs _ _; simp
    | cons f rest ih =>
      intro rs hl hp
      cases rs with
      | nil => simp at hp
      | cons r rs =>
        simp only [List.map_cons, List.cons.injEq] at hp
        obtain ⟨hcached, hrecord⟩ := hs.fetched f (hl f (by simp)) _ hp.1
        have hseen := seen_of_recordAt hrecord.symm
        obtain ⟨hrest, hrestcached⟩ := ih rs (fun f hf => hl f (List.mem_cons_of_mem _ hf)) hp.2
        constructor
        · simp only [List.map_cons, List.zip_cons_cons, hrest, hseen]
        · intro e he
          rcases List.mem_cons.mp he with rfl | he
          · exact hcached
          · exact hrestcached e he
  obtain ⟨hz, hc⟩ := hzip (s.fetchesOf key) records hmem hprogress
  rw [loads] at hz hc
  rw [loads]
  exact ⟨hz, hc⟩

/-- The text that a job puts together is the one that the disk and the settings say. -/
theorem Faithful.text_eq (hs : Faithful o disk s) {d : Draft} {artifacts : List (Option Artifact)}
    (asks : (s.requestsOf key).map (·.key) = (usedOf o disk key).map (·.2.path))
    (answered : Progress.gather ((s.requestsOf key).map (·.progress)) = some (.ok artifacts)) :
    d.text (linked (usedOf o disk key) artifacts) = textOf o disk s.rootOf key d := by
  have hprogress := Progress.eq_of_gather answered
  have hmem : ∀ r ∈ s.requestsOf key, r ∈ s.requests := fun r hr => (List.mem_filter.mp hr).1
  -- The requests, one by one, against the artifacts.
  have hbare : ∀ (l : List Request) (as : List (Option Artifact)), (∀ r ∈ l, r ∈ s.requests) →
      l.map (·.progress) = as.map (fun a => .done (.ok a)) →
      as.map (Option.map Artifact.bare)
        = (l.map (·.key)).map (fun p => sketch o disk (s.rootOf p) p) := by
    intro l
    induction l with
    | nil => intro as _ hp; simpa using hp
    | cons r rest ih =>
      intro as hl hp
      cases as with
      | nil => simp at hp
      | cons a as =>
        simp only [List.map_cons, List.cons.injEq] at hp
        obtain ⟨-, hsketch⟩ := hs.answered r (hl r (by simp)) a hp.1
        have hrest := ih as (fun r hr => hl r (List.mem_cons_of_mem _ hr)) hp.2
        simp only [List.map_cons, hsketch, hrest]
  have hartifacts := hbare (s.requestsOf key) artifacts hmem hprogress
  rw [asks, List.map_map] at hartifacts
  apply text_linked_congr
  rw [hartifacts, List.map_map]
  apply List.map_congr_left
  intro i _
  exact (sketch_bare _ _).symm

theorem Faithful.supplied (hs : Faithful o disk s) {artifacts : List (Option Artifact)}
    (cached : ∀ e ∈ edgesOf o (seen o disk key), Table.has e.target s.cache = true)
    (asks : (s.requestsOf key).map (·.key) = (usedOf o disk key).map (·.2.path))
    (answered : Progress.gather ((s.requestsOf key).map (·.progress)) = some (.ok artifacts)) :
    Supplied o disk s key := by
  have hprogress := Progress.eq_of_gather answered
  have served : s.Served key := by
    intro r hr
    have hp : r.progress ∈ artifacts.map fun a => Progress.done (.ok a) :=
      hprogress ▸ List.mem_map_of_mem hr
    obtain ⟨a, -, ha⟩ := List.mem_map.mp hp
    exact ⟨a, ha.symm⟩
  refine ⟨cached, ?_, served⟩
  intro i hi
  have hkey : i.2.path ∈ (s.requestsOf key).map (·.key) := asks ▸ List.mem_map_of_mem hi
  obtain ⟨r, hr, hrkey⟩ := List.mem_map.mp hkey
  obtain ⟨a, ha⟩ := served r hr
  rw [← hrkey]
  exact (hs.answered r (List.mem_filter.mp hr).1 a ha).1

theorem Faithful.course_of (hs : Faithful o disk s) {j : Job} {stage : Stage}
    (hj : Table.get? k s.jobs = some j) (hstage : j.stage = stage) :
    Course o disk s k j.dependencyRoot stage :=
  hstage ▸ (hs.course k).of_get? hj

theorem Faithful.recordAt_eq (hs : Faithful o disk s) {r : Record}
    (known : s.cache.outcome? k = some (.ok r)) : recordAt o disk k = .ok r :=
  (hs.known known).symm

theorem Faithful.drafted (hs : Faithful o disk s) {r : Record} {root : Path} {d : Draft}
    (known : s.cache.outcome? k = some (.ok r)) (needs : r.needsInterface = true)
    (hd : s.draftOf r root = .ok d) : Drafted o disk k root d := by
  rw [draftFor_of_options hs.options] at hd
  exact draft_of_needs (hs.recordAt_eq known) needs hd

/-- What a job asks for once the records of its imports are there is what its interface
uses. -/
theorem Faithful.chosen_eq (hs : Faithful o disk s) {j : Job} {d : Draft} {records : List Record}
    (hj : Table.get? key s.jobs = some j) (stage : j.stage = .importing d)
    (loaded : Progress.gather ((s.fetchesOf key).map (·.progress)) = some (.ok records)) :
    Drafted o disk key j.dependencyRoot d ∧ s.chosen key d records = usedOf o disk key ∧
      (∀ e ∈ edgesOf o (seen o disk key), Table.has e.target s.cache = true) ∧
      (s.requestsOf key).map (·.key) = [] := by
  cases hs.course_of hj stage with
  | importing drafted loads asks =>
    obtain ⟨hzip, hcached⟩ := hs.records_eq loads loaded
    have houtline := (draftFor_spec drafted.2).2.2.1
    have hused : s.chosen key d records = usedOf o disk key := by
      rw [chosen, hzip, houtline, usedOf]
    exact ⟨drafted, hused, hcached, asks⟩

/-- The job of a file that is imported as it is, or is not there, ends with the sketch of
the file. -/
theorem Faithful.course_plain (hs : Faithful o disk s) {j : Job} {r : Record} {a : Option Artifact}
    (hj : Table.get? key s.jobs = some j) (stage : j.stage = .loading)
    (known : s.cache.outcome? key = some (.ok r)) (ready : r.needsInterface = false)
    (ha : a = if r.isPresent then some { source := key, output := r.path, name := r.name.getD "" }
      else none) (ht : t.requests = s.requests) :
    Course o disk t key j.dependencyRoot (.finished (.ok a)) := by
  have hseen := seen_of_recordAt (hs.recordAt_eq known)
  have hready : (seen o disk key).needsInterface = false := by rw [hseen, ready]
  have hserved := Served.of_idle (hs.course_of hj stage).idle_of_loading ht
  exact .plain hready hserved (by simp [sketch, hseen, ready, ha])

/-- Every change leaves every job on its course. -/
theorem Act.onCourse (h : Act sees s t) (hs : Faithful o disk s) (k : Path) :
    OnCourse o disk t k := by
  have hk := hs.course k
  have h' := h
  cases h with
  | @begin_ key j hj stage =>
    have hidle : s.Idle key := by
      cases hs.course_of hj stage with
      | queued idle => exact idle
    exact hk.withJob h' rfl (fun _ => rfl) (fun _ => rfl) (.loading hidle)
  | @emit key j d text hj stage =>
    cases hs.course_of hj stage with
    | writing drafted supplied htext =>
      have htext' := htext.trans (h'.textOf_eq supplied d).symm
      exact hk.withJob h' rfl (fun _ => rfl) (fun _ => rfl)
        (.emitted drafted (h'.supplied hj (by simp [stage]) supplied) htext')
  | change h =>
    cases h with
    | remark | settle | promise => exact hk.kept h' rfl rfl rfl
    | answer | resume => exact hk.kept h' rfl rfl (requestsOf_setRequest ..)
    | fetch | obtain => exact hk.kept h' rfl (fetchesOf_setFetch ..) rfl
    | await | provide | lack => exact hk.employ h' rfl rfl (requestsOf_setRequest ..)
    | fail f hj =>
      exact hk.withJob h' rfl (fun _ => rfl) (fun _ => rfl) (.failed f)
    | @skip key j r hj stage known absent =>
      have ready : r.needsInterface = false := by simp [Record.needsInterface, absent]
      exact hk.withJob h' rfl (fun _ => rfl) (fun _ => rfl)
        (hs.course_plain hj stage known ready (by simp [absent]) rfl)
    | @reuse key j r hj stage known present ready =>
      exact hk.withJob h' rfl (fun _ => rfl) (fun _ => rfl)
        (hs.course_plain hj stage known ready (by simp [present]) rfl)
    | @survey key j r d edges hj stage known needs hd promised he =>
      have hdrafted := hs.drafted known needs hd
      have hidle := (hs.course_of hj stage).idle_of_loading
      have hedges := edgesOf_of_draft hdrafted.2 he
      refine hk.withJob h' rfl ?_ (fun _ => rfl) (.importing hdrafted ?_ hidle.2)
      · intro hne
        rw [fetchesOf_survey, if_neg hne, List.append_nil]
      · rw [fetchesOf_survey, if_pos rfl, List.map_append, hidle.1, hedges]
        simp [Function.comp_def]
    | @gather key j d records hj stage loaded =>
      obtain ⟨drafted, hused, hcached, asks⟩ := hs.chosen_eq hj stage loaded
      refine hk.withJob h' rfl (fun _ => rfl) ?_ (.linking drafted hcached hused ?_)
      · intro hne
        rw [requestsOf_gather, if_neg hne, List.append_nil]
      · rw [requestsOf_gather, if_pos rfl, List.map_append, asks, asked_keys, List.nil_append]
    | @link key j d imports artifacts hj stage answered =>
      cases hs.course_of hj stage with
      | linking drafted cached used asks =>
        subst used
        have hsupplied := hs.supplied cached asks answered
        have htext := (hs.text_eq (d := d) asks answered).trans (h'.textOf_eq hsupplied d).symm
        exact hk.withJob h' rfl (fun _ => rfl) (fun _ => rfl)
          (.writing drafted (h'.supplied hj (by simp [stage]) hsupplied) htext)

/-! ## What is known, promised and answered -/

theorem Cache.has_of_outcome? {c : Cache} {out : Except Failure Record}
    (h : c.outcome? k = some out) : Table.has k c = true := by
  unfold Cache.outcome? at h
  split at h
  · rename_i hk
    exact Table.has_of_get? hk
  · simp at h

/-- What a change adds to the cache is what is on the disk. -/
theorem Act.known_cases (h : Act (finds disk) s t) {out : Except Failure Record}
    (hk : t.cache.outcome? k = some out) :
    s.cache.outcome? k = some out ∨ out = Cache.interpret s.options.license k (disk k) := by
  cases h with
  | begin_ =>
    rw [begun, withJob, outcome?_request] at hk
    exact .inl hk
  | emit => exact .inl hk
  | change h =>
    cases h with
    | @settle key importer found reading saw =>
      by_cases hkey : key = k
      · subst hkey
        simp only [Cache.outcome?, Table.get?_put_self, Option.some.injEq] at hk
        exact .inr (by rw [← hk, saw])
      · simp only [Cache.outcome?, Table.get?_put_of_ne hkey] at hk
        exact .inl hk
    | fetch =>
      simp only [setFetch, outcome?_request] at hk
      exact .inl hk
    | remark | answer | await | provide | lack | resume | obtain | fail | skip | reuse | promise
    | survey | gather | link => exact .inl hk

/-- What a change promises is the sketch of a file. -/
theorem Act.promise_cases (h : Act sees s t) (hs : Faithful o disk s) {a : Artifact}
    (hk : Table.get? k t.provisional = some a) :
    Table.get? k s.provisional = some a ∨
      (Table.has k s.jobs = true ∧ sketch o disk (s.rootOf k) k = some a) := by
  cases h with
  | begin_ | emit => exact .inl hk
  | change h =>
    cases h with
    | @promise key j r d hj stage known needs hd =>
      by_cases hkey : key = k
      · subst hkey
        have hdrafted := hs.drafted known needs hd
        simp only [Table.get?_put_self, Option.some.injEq] at hk
        refine .inr ⟨Table.has_of_get? hj, ?_⟩
        simp [sketch, hdrafted.1, rootOf_of_get? hj, hdrafted.2, hk]
      · rw [Table.get?_put_of_ne hkey] at hk
        exact .inl hk
    | remark | answer | await | provide | lack | resume | settle | fetch | obtain | fail | skip
    | reuse | survey | gather | link => exact .inl hk

theorem Faithful.course_of_result (hs : Faithful o disk s) {a : Option Artifact}
    (h : s.result? k = some (.ok a)) :
    ∃ j, Table.get? k s.jobs = some j ∧ Course o disk s k j.dependencyRoot (.finished (.ok a)) := by
  obtain ⟨j, hj, hout⟩ := result?_eq_some h
  exact ⟨j, hj, hs.course_of hj (Job.stage_of_outcome? hout)⟩

/-- The artifact of a job that ended well. -/
theorem Faithful.artifact (hs : Faithful o disk s) {a : Option Artifact}
    (h : s.result? k = some (.ok a)) :
    Table.has k s.jobs = true ∧ a = artifactOf o disk s.rootOf k := by
  obtain ⟨j, hj, hc⟩ := hs.course_of_result h
  refine ⟨Table.has_of_get? hj, ?_⟩
  have hroot := rootOf_of_get? hj
  cases hc with
  | plain hplain served ha =>
    rw [ha]
    simp [artifactOf, hplain, hroot]
  | emitted drafted supplied htext =>
    simp [artifactOf, drafted.1, hroot, drafted.2, htext]

theorem Faithful.bare_of_result (hs : Faithful o disk s) {a : Option Artifact}
    (h : s.result? k = some (.ok a)) :
    Table.has k s.jobs = true ∧ a.map Artifact.bare = sketch o disk (s.rootOf k) k := by
  obtain ⟨hjob, rfl⟩ := hs.artifact h
  exact ⟨hjob, artifactOf_bare s.rootOf k⟩

/-- A file that has a job keeps its output root, and so its sketch. -/
theorem Act.sketch_kept (h : Act sees s t) {p : Path} {b : Option Artifact}
    (hb : Table.has p s.jobs = true ∧ b = sketch o disk (s.rootOf p) p) :
    Table.has p t.jobs = true ∧ b = sketch o disk (t.rootOf p) p :=
  ⟨h.has_job hb.1, by rw [h.rootOf_eq hb.1, hb.2]⟩

theorem Act.fetched (h : Act sees s t) (hs : Faithful o disk s) {f' : Fetch} (hf' : f' ∈ t.fetches)
    {out : Except Failure Record} (hout : f'.progress = .done out) :
    Table.has f'.edge.target t.cache = true ∧ out = recordAt o disk f'.edge.target := by
  cases h.fetch_cases hf' with
  | same hf =>
    obtain ⟨hcached, hrecord⟩ := hs.fetched f' hf out hout
    exact ⟨h.has_cache hcached, hrecord⟩
  | waits _ _ _ e =>
    subst e
    simp at hout
  | done hf _ known e =>
    subst e
    obtain rfl := Progress.done.inj hout
    exact ⟨h.has_cache (Cache.has_of_outcome? known), hs.known known⟩
  | new _ _ _ _ _ _ hnew =>
    simp only [List.mem_map] at hnew
    obtain ⟨e, -, rfl⟩ := hnew
    simp at hout

/-- An answer is the sketch of a file, whether it is the result of the job or a provisional
artifact. -/
theorem Act.answered (h : Act sees s t) (hs : Faithful o disk s) {r' : Request}
    (hr' : r' ∈ t.requests) {a : Option Artifact} (ha : r'.progress = .done (.ok a)) :
    Table.has r'.key t.jobs = true ∧
      a.map Artifact.bare = sketch o disk (t.rootOf r'.key) r'.key := by
  cases h.request_cases hr' with
  | same hr => exact h.sketch_kept (hs.answered r' hr a ha)
  | waits _ _ _ _ _ e =>
    subst e
    simp at ha
  | answered hr _ done e =>
    subst e
    obtain rfl := Progress.done.inj ha
    exact h.sketch_kept (hs.bare_of_result done)
  | @provided r artifact hr _ _ _ found e =>
    subst e
    obtain rfl := Except.ok.inj (Progress.done.inj ha)
    obtain ⟨hjob, hsketch⟩ := hs.promised found
    have hbare : (sketch o disk (s.rootOf r.key) r.key).map Artifact.bare
        = sketch o disk (s.rootOf r.key) r.key := sketch_bare _ _
    rw [hsketch] at hbare
    exact h.sketch_kept ⟨hjob, by rw [hbare, hsketch]⟩
  | lacks _ _ _ _ _ e =>
    subst e
    simp at ha
  | new _ _ _ hnew =>
    obtain ⟨u, -, rfl⟩ := mem_asked hnew
    simp at ha

/-- Every change keeps a session faithful. -/
theorem Act.faithful (h : Act (finds disk) s t) (hs : Faithful o disk s) : Faithful o disk t := by
  constructor
  case options => rw [h.options_eq, hs.options]
  case course => exact h.onCourse hs
  case known =>
    intro k out hk
    rcases h.known_cases hk with hk | hk
    · exact hs.known hk
    · rw [hk, hs.options, recordAt]
  case fetched => exact fun f' hf' out hout => h.fetched hs hf' hout
  case promised =>
    intro k a hk
    have hold : Table.has k s.jobs = true ∧ some a = sketch o disk (s.rootOf k) k := by
      rcases h.promise_cases hs hk with hk | ⟨hjob, hsketch⟩
      · exact (hs.promised hk).imp_right Eq.symm
      · exact ⟨hjob, hsketch.symm⟩
    exact (h.sketch_kept hold).imp_right Eq.symm
  case answered => exact fun r' hr' a ha => h.answered hs hr' ha

end Session

end SolidityInterface
