import SolidityInterface.Proofs.Run.Change
import SolidityInterface.Proofs.Run.Waiting

/-
  What the small acts of a move do to the parts of a session. Provisional artifacts,
  cached paths, jobs and results are never lost (`Act.has_provisional` and its
  companions). A request keeps its waiter and its file and only goes on
  (`Act.request_cases`), and so does a load (`Act.fetch_cases`); a job keeps its output
  root and goes on by one stage at a time (`Act.job_cases`).
-/

namespace SolidityInterface

/-- An element of a list with one entry replaced is an old one, or the new one. -/
theorem mem_modify_cases {α : Type} {l : List α} {i : Nat} {f : α → α} {a : α}
    (h : a ∈ l.modify i f) : a ∈ l ∨ ∃ b, l[i]? = some b ∧ a = f b := by
  obtain ⟨n, hn⟩ := List.mem_iff_getElem?.mp h
  rw [List.getElem?_modify] at hn
  obtain ⟨b, hb, rfl⟩ := Option.map_eq_some_iff.mp hn
  by_cases hin : i = n
  · subst hin
    exact .inr ⟨b, hb, by simp⟩
  · exact .inl (by simpa [hin] using List.mem_of_getElem? hb)

namespace Session

open Relation

variable {sees : Path → Sighting → Prop} {s t : Session} {k key : Path}

/-! ## The cache -/

theorem has_request {c : Cache} {importer : String} (h : Table.has k c = true) :
    Table.has k (c.request key importer) = true := by
  unfold Cache.request
  split
  · exact h
  · exact Table.has_put_of_has h

theorem has_request_self (c : Cache) (key : Path) (importer : String) :
    Table.has key (c.request key importer) = true := by
  unfold Cache.request
  split
  · assumption
  · exact Table.has_of_get? (Table.get?_put_self ..)

theorem has_request_cases {c : Cache} {importer : String}
    (h : Table.has k (c.request key importer) = true) : Table.has k c = true ∨ k = key := by
  unfold Cache.request at h
  split at h
  · exact .inl h
  · rw [← Table.mem_keys_iff, Table.keys_put] at h
    split at h
    · exact .inl (Table.mem_keys_iff.mp h)
    · rcases List.mem_append.mp h with h | h
      · exact .inl (Table.mem_keys_iff.mp h)
      · exact .inr (List.mem_singleton.mp h)

theorem nodup_request {c : Cache} {importer : String} (hc : (Table.keys c).Nodup) :
    (Table.keys (c.request key importer)).Nodup := by
  unfold Cache.request
  split
  · exact hc
  · exact Table.nodup_keys_put hc

/-- A request for a path leaves what is known about any path as it was. -/
theorem outcome?_request (c : Cache) (key k : Path) (importer : String) :
    (c.request key importer).outcome? k = c.outcome? k := by
  unfold Cache.request
  split
  · rfl
  · rename_i h
    have hnone : Table.get? key c = none := Table.get?_eq_none_iff.mpr (by simpa using h)
    unfold Cache.outcome?
    rw [Table.get?_put]
    by_cases hk : key = k
    · subst hk
      simp [hnone]
    · simp [hk]

/-! ## Jobs -/

theorem get?_employ (s : Session) (key root k : Path) :
    Table.get? k (s.employ key root) = Table.get? k s.jobs ∨
      (key = k ∧ Table.get? k s.jobs = none ∧
        Table.get? k (s.employ key root) = some { dependencyRoot := root }) := by
  unfold employ
  split
  · exact .inl rfl
  · rename_i h
    by_cases hk : key = k
    · subst hk
      exact .inr ⟨rfl, Table.get?_eq_none_iff.mpr (by simpa using h), Table.get?_put_self ..⟩
    · exact .inl (Table.get?_put_of_ne hk)

theorem has_employ_self (s : Session) (key root : Path) :
    Table.has key (s.employ key root) = true := by
  unfold employ
  split
  · assumption
  · exact Table.has_of_get? (Table.get?_put_self ..)

/-- The ways in which the job of a file goes on. -/
inductive Advance (s t : Session) (key : Path) (j : Job) : Stage → Prop
  | begin_ (stage : j.stage = .queued) (cached : Table.has key t.cache = true) :
      Advance s t key j .loading
  | fail (f : Failure) (begun : j.stage ≠ .queued) (unfinished : j.outcome? = none) :
      Advance s t key j (.finished (.error f))
  | skip {r : Record} (stage : j.stage = .loading) (known : s.cache.outcome? key = some (.ok r))
      (absent : r.isPresent = false) : Advance s t key j (.finished (.ok none))
  | reuse {r : Record} (stage : j.stage = .loading) (known : s.cache.outcome? key = some (.ok r))
      (present : r.isPresent = true) (ready : r.needsInterface = false) :
      Advance s t key j
        (.finished (.ok (some { source := key, output := r.path, name := r.name.getD "" })))
  | survey {r : Record} {d : Draft} {edges : List ImportEdge} (stage : j.stage = .loading)
      (known : s.cache.outcome? key = some (.ok r)) (needs : r.needsInterface = true)
      (hd : s.draftOf r j.dependencyRoot = .ok d)
      (promised : Table.get? key s.provisional = some (d.provisional key))
      (he : d.layout.edges? d.record = some edges) :
      Advance s t key j (.importing d)
  | gather {d : Draft} {records : List Record} (stage : j.stage = .importing d)
      (loaded : Progress.gather ((s.fetchesOf key).map (·.progress)) = some (.ok records)) :
      Advance s t key j (.linking d (s.chosen key d records))
  | link {d : Draft} {imports : List (ImportEdge × Record)} {artifacts : List (Option Artifact)}
      (stage : j.stage = .linking d imports)
      (answered : Progress.gather ((s.requestsOf key).map (·.progress)) = some (.ok artifacts)) :
      Advance s t key j (.writing d (d.text (linked imports artifacts)))
  | emit {d : Draft} {text : String} (stage : j.stage = .writing d text) :
      Advance s t key j (.finished (.ok (some (d.artifact key text))))

theorem get?_withJob_cases {j : Job} {stage : Stage} (hj : Table.get? key s.jobs = some j)
    {j' : Job} (h : Table.get? k (s.withJob key j stage).jobs = some j') :
    Table.get? k s.jobs = some j' ∨ (k = key ∧ Table.get? k s.jobs = some j ∧
      j' = { j with stage }) := by
  rw [get?_withJob] at h
  by_cases hk : key = k
  · subst hk
    simp only [if_true, Option.some.injEq] at h
    exact .inr ⟨rfl, hj, h.symm⟩
  · simp only [hk, if_false] at h
    exact .inl h

/-- How a file comes to have a given job by a change: it had it, or it had none, or its
job has gone on. -/
inductive Becomes (s t : Session) (key : Path) (j' : Job) : Prop
  | same (hj : Table.get? key s.jobs = some j')
  | new {r : Request} (hr : r ∈ s.requests) (fresh : r.progress = .fresh) (hk : r.key = key)
      (none : Table.get? key s.jobs = none) (hj : j' = { dependencyRoot := r.dependencyRoot })
  | advanced {j : Job} {stage : Stage} (hj : Table.get? key s.jobs = some j)
      (advance : Advance s t key j stage) (hj' : j' = { j with stage })

theorem becomes_of_employ {i : Nat} {r : Request} {j' : Job} (hr : s.requests[i]? = some r)
    (fresh : r.progress = .fresh) (h : Table.get? k (s.employ r.key r.dependencyRoot) = some j') :
    Becomes s t k j' := by
  rcases s.get?_employ r.key r.dependencyRoot k with hk | ⟨rfl, hnone, hk⟩
  · exact .same (hk ▸ h)
  · rw [hk] at h
    exact .new (List.mem_of_getElem? hr) fresh rfl hnone (by simpa using h.symm)

theorem becomes_of_withJob {j j' : Job} {stage : Stage} (hj : Table.get? key s.jobs = some j)
    (ha : Advance s t key j stage) (h : Table.get? k (s.withJob key j stage).jobs = some j') :
    Becomes s t k j' := by
  rcases get?_withJob_cases hj h with h | ⟨rfl, hj, rfl⟩
  · exact .same h
  · exact .advanced hj ha rfl

theorem Act.job_cases (h : Act sees s t) {j' : Job}
    (hj' : Table.get? k t.jobs = some j') : Becomes s t k j' := by
  cases h with
  | begin_ hj stage => exact becomes_of_withJob hj (.begin_ stage (has_request_self ..)) hj'
  | emit hj stage => exact becomes_of_withJob hj (.emit stage) hj'
  | change h =>
    cases h with
    | remark | answer | resume | settle | fetch | obtain | promise => exact .same hj'
    | await hr fresh | provide hr fresh | lack hr fresh => exact becomes_of_employ hr fresh hj'
    | fail f hj begun unfinished => exact becomes_of_withJob hj (.fail f begun unfinished) hj'
    | skip hj stage known absent => exact becomes_of_withJob hj (.skip stage known absent) hj'
    | reuse hj stage known present ready =>
      exact becomes_of_withJob hj (.reuse stage known present ready) hj'
    | survey hj stage known needs hd promised he =>
      exact becomes_of_withJob hj (.survey stage known needs hd promised he) hj'
    | gather hj stage loaded => exact becomes_of_withJob hj (.gather stage loaded) hj'
    | link hj stage answered => exact becomes_of_withJob hj (.link stage answered) hj'

/-- A file that has a job keeps one, with its output root. -/
theorem Act.job_kept (h : Act sees s t) {j : Job} (hj : Table.get? k s.jobs = some j) :
    ∃ j', Table.get? k t.jobs = some j' ∧ j'.dependencyRoot = j.dependencyRoot ∧
      (j.outcome?.isSome → j' = j) := by
  have kept : ∀ {key : Path} {i : Job} {stage : Stage}, Table.get? key s.jobs = some i →
      i.outcome? = none → ∃ j', Table.get? k (s.withJob key i stage).jobs = some j' ∧
        j'.dependencyRoot = j.dependencyRoot ∧ (j.outcome?.isSome → j' = j) := by
    intro key i stage hi hopen
    by_cases hk : key = k
    · subst hk
      obtain rfl : i = j := Option.some.inj (hi.symm.trans hj)
      exact ⟨_, get?_withJob_self, rfl, by simp [hopen]⟩
    · exact ⟨j, by rw [get?_withJob, if_neg hk, hj], rfl, fun _ => rfl⟩
  have employed : ∀ key root, Table.get? k (s.employ key root) = some j := by
    intro key root
    rcases s.get?_employ key root k with h | ⟨-, hnone, -⟩
    · exact h.trans hj
    · rw [hj] at hnone
      simp at hnone
  cases h with
  | begin_ hi stage | emit hi stage => exact kept hi (by simp [Job.outcome?, stage])
  | change h =>
    cases h with
    | remark | answer | resume | settle | fetch | obtain | promise =>
      exact ⟨j, hj, rfl, fun _ => rfl⟩
    | await | provide | lack => exact ⟨j, employed _ _, rfl, fun _ => rfl⟩
    | fail f hi _ unfinished => exact kept hi unfinished
    | skip hi stage | reuse hi stage | survey hi stage | gather hi stage | link hi stage =>
      exact kept hi (by simp [Job.outcome?, stage])

theorem Act.has_job (h : Act sees s t) (hk : Table.has k s.jobs = true) :
    Table.has k t.jobs = true := by
  obtain ⟨j, hj⟩ := Table.has_iff.mp hk
  obtain ⟨j', hj', -⟩ := h.job_kept hj
  exact Table.has_of_get? hj'

theorem Job.stage_of_outcome? {j : Job} {out : Except Failure (Option Artifact)}
    (h : j.outcome? = some out) : j.stage = .finished out := by
  unfold Job.outcome? at h
  split at h
  · rename_i hstage
    rw [hstage, Option.some.inj h]
  · simp at h

theorem result?_eq_some {out : Except Failure (Option Artifact)} (h : s.result? k = some out) :
    ∃ j, Table.get? k s.jobs = some j ∧ j.outcome? = some out := by
  simpa [result?, Option.bind_eq_some_iff] using h

theorem Act.result_kept (h : Act sees s t) {out : Except Failure (Option Artifact)}
    (hk : s.result? k = some out) : t.result? k = some out := by
  obtain ⟨j, hj, hout⟩ := result?_eq_some hk
  obtain ⟨j', hj', -, hsame⟩ := h.job_kept hj
  obtain rfl := hsame (by simp [hout])
  simp [result?, hj', hout]

/-! ## Provisional artifacts and the cache -/

theorem Act.has_provisional (h : Act sees s t) (hk : Table.has k s.provisional = true) :
    Table.has k t.provisional = true := by
  cases h with
  | begin_ | emit => exact hk
  | change h =>
    cases h with
    | promise => exact Table.has_put_of_has hk
    | remark | answer | await | provide | lack | resume | settle | fetch | obtain | fail | skip
    | reuse | survey | gather | link => exact hk

theorem Act.has_cache (h : Act sees s t) (hk : Table.has k s.cache = true) :
    Table.has k t.cache = true := by
  cases h with
  | begin_ => exact has_request hk
  | emit => exact hk
  | change h =>
    cases h with
    | settle => exact Table.has_put_of_has hk
    | fetch => exact has_request hk
    | remark | answer | await | provide | lack | resume | obtain | fail | skip | reuse | promise
    | survey | gather | link => exact hk

theorem Act.options_eq (h : Act sees s t) : t.options = s.options := by
  cases h with
  | begin_ | emit => rfl
  | change h => cases h <;> rfl

/-! ## Requests and loads -/

/-- How a request comes to stand in a session by a change. -/
inductive RequestBecomes (s t : Session) (r' : Request) : Prop
  | same (hr : r' ∈ s.requests)
  | waits {r : Request} (hr : r ∈ s.requests) (fresh : r.progress = .fresh)
      (unfinished : s.result? r.key = none) (job : Table.has r.key t.jobs = true)
      (edge : ∀ a, r.waiter = some a → t.waiting.Edge a r.key)
      (h : r' = { r with progress := .waiting })
  | answered {r : Request} {out : Except Failure (Option Artifact)} (hr : r ∈ s.requests)
      (undone : r.progress = .fresh ∨ r.progress = .waiting) (done : s.result? r.key = some out)
      (h : r' = { r with progress := .done out })
  | provided {r : Request} {artifact : Artifact} (hr : r ∈ s.requests)
      (fresh : r.progress = .fresh)
      (cycle : s.result? r.key = none ∧ ∃ a, r.waiter = some a ∧ s.waiting.waitsOn r.key a = true)
      (job : Table.has r.key t.jobs = true)
      (found : Table.get? r.key s.provisional = some artifact)
      (h : r' = { r with progress := .done (.ok (some artifact)) })
  | lacks {r : Request} {a : Path} (hr : r ∈ s.requests) (fresh : r.progress = .fresh)
      (waiter : r.waiter = some a) (cycle : s.waiting.waitsOn r.key a = true)
      (missing : Table.get? r.key s.provisional = none)
      (h : r' = { r with progress := .done (.error (.noProvisional r.key)) })
  | new {key : Path} {j : Job} {d : Draft} {records : List Record}
      (hj : Table.get? key s.jobs = some j) (stage : j.stage = .importing d)
      (loaded : Progress.gather ((s.fetchesOf key).map (·.progress)) = some (.ok records))
      (h : r' ∈ asked key j.dependencyRoot (s.chosen key d records))

theorem Act.request_cases (h : Act sees s t) {r' : Request} (hr' : r' ∈ t.requests) :
    RequestBecomes s t r' := by
  cases h with
  | begin_ | emit => exact .same hr'
  | change h =>
    cases h with
    | remark | settle | fetch | obtain | fail | skip | reuse | promise | survey | link =>
      exact .same hr'
    | answer hr fresh done =>
      rcases mem_modify_cases hr' with h | ⟨r, hr₂, rfl⟩
      · exact .same h
      · obtain rfl := Option.some.inj (hr.symm.trans hr₂)
        exact .answered (List.mem_of_getElem? hr) (.inl fresh) done rfl
    | await hr fresh unfinished free =>
      rcases mem_modify_cases hr' with h | ⟨r, hr₂, rfl⟩
      · exact .same h
      · obtain rfl := Option.some.inj (hr.symm.trans hr₂)
        refine .waits (List.mem_of_getElem? hr) fresh unfinished (has_employ_self ..) ?_ rfl
        intro a ha
        simp only [setRequest, waitFor, ha]
        exact Waiting.edge_insert.mpr (.inr ⟨rfl, rfl⟩)
    | provide hr fresh unfinished waiter cycle found =>
      rcases mem_modify_cases hr' with h | ⟨r, hr₂, rfl⟩
      · exact .same h
      · obtain rfl := Option.some.inj (hr.symm.trans hr₂)
        exact .provided (List.mem_of_getElem? hr) fresh ⟨unfinished, _, waiter, cycle⟩
          (has_employ_self ..) found rfl
    | lack hr fresh _ waiter cycle missing =>
      rcases mem_modify_cases hr' with h | ⟨r, hr₂, rfl⟩
      · exact .same h
      · obtain rfl := Option.some.inj (hr.symm.trans hr₂)
        exact .lacks (List.mem_of_getElem? hr) fresh waiter cycle missing rfl
    | resume hr waiting done =>
      rcases mem_modify_cases hr' with h | ⟨r, hr₂, rfl⟩
      · exact .same h
      · obtain rfl := Option.some.inj (hr.symm.trans hr₂)
        exact .answered (List.mem_of_getElem? hr) (.inr waiting) done rfl
    | gather hj stage loaded =>
      rcases List.mem_append.mp hr' with h | h
      · exact .same h
      · exact .new hj stage loaded h

/-- How a load comes to stand in a session by a change. -/
inductive FetchBecomes (s t : Session) (f' : Fetch) : Prop
  | same (hf : f' ∈ s.fetches)
  | waits {f : Fetch} (hf : f ∈ s.fetches) (fresh : f.progress = .fresh)
      (cached : Table.has f.edge.target t.cache = true) (h : f' = { f with progress := .waiting })
  | done {f : Fetch} {out : Except Failure Record} (hf : f ∈ s.fetches)
      (waiting : f.progress = .waiting) (known : s.cache.outcome? f.edge.target = some out)
      (h : f' = { f with progress := .done out })
  | new {key : Path} {j : Job} {r : Record} {d : Draft} {edges : List ImportEdge}
      (hj : Table.get? key s.jobs = some j) (stage : j.stage = .loading)
      (known : s.cache.outcome? key = some (.ok r)) (needs : r.needsInterface = true)
      (hd : s.draftOf r j.dependencyRoot = .ok d) (he : d.layout.edges? d.record = some edges)
      (h : f' ∈ edges.map (Fetch.mk key · .fresh))

theorem Act.fetch_cases (h : Act sees s t) {f' : Fetch} (hf' : f' ∈ t.fetches) :
    FetchBecomes s t f' := by
  cases h with
  | begin_ | emit => exact .same hf'
  | change h =>
    cases h with
    | fetch hf fresh =>
      rcases mem_modify_cases hf' with h | ⟨f, hf₂, rfl⟩
      · exact .same h
      · obtain rfl := Option.some.inj (hf.symm.trans hf₂)
        exact .waits (List.mem_of_getElem? hf) fresh (has_request_self ..) rfl
    | obtain hf waiting known =>
      rcases mem_modify_cases hf' with h | ⟨f, hf₂, rfl⟩
      · exact .same h
      · obtain rfl := Option.some.inj (hf.symm.trans hf₂)
        exact .done (List.mem_of_getElem? hf) waiting known rfl
    | survey hj stage known needs hd _ he =>
      rcases List.mem_append.mp hf' with h | h
      · exact .same h
      · exact .new hj stage known needs hd he h
    | remark | answer | await | provide | lack | resume | settle | fail | skip | reuse | promise
    | gather | link => exact .same hf'

/-! ## The wait graph -/

/-- An edge that a change adds is that of a request. -/
theorem Act.edge_cases (h : Act sees s t) {a b : Path} (he : t.waiting.Edge a b) :
    s.waiting.Edge a b ∨ ∃ r ∈ s.requests, r.waiter = some a ∧ r.key = b := by
  cases h with
  | begin_ | emit => exact .inl he
  | change h =>
    cases h with
    | @await i r hr _ _ _ =>
      simp only [setRequest, waitFor] at he
      split at he
      · rename_i a' ha'
        rcases Waiting.edge_insert.mp he with he | ⟨rfl, rfl⟩
        · exact .inl he
        · exact .inr ⟨r, List.mem_of_getElem? hr, ha', rfl⟩
      · exact .inl he
    | @resume i r out hr _ _ =>
      simp only [setRequest, waitOver] at he
      split at he
      · exact .inl (Waiting.edge_discard.mp he).1
      · exact .inl he
    | remark | answer | provide | lack | settle | fetch | obtain | fail | skip | reuse | promise
    | survey | gather | link => exact .inl he

/-- An edge is taken away only when the job it leads to has finished. -/
theorem Act.edge_kept (h : Act sees s t) {a b : Path} (he : s.waiting.Edge a b)
    (hb : s.result? b = none) : t.waiting.Edge a b := by
  cases h with
  | begin_ | emit => exact he
  | change h =>
    cases h with
    | @await i r hr _ _ _ =>
      simp only [setRequest, waitFor]
      split
      · exact Waiting.edge_insert.mpr (.inl he)
      · exact he
    | @resume i r out hr _ done =>
      simp only [setRequest, waitOver]
      split
      · refine Waiting.edge_discard.mpr ⟨he, ?_⟩
        rintro ⟨-, rfl⟩
        rw [hb] at done
        simp at done
      · exact he
    | remark | answer | provide | lack | settle | fetch | obtain | fail | skip | reuse | promise
    | survey | gather | link => exact he

theorem Act.acyclic (h : Act sees s t) (hs : s.waiting.Acyclic) : t.waiting.Acyclic := by
  cases h with
  | begin_ | emit => exact hs
  | change h =>
    cases h with
    | @await i r hr _ _ free =>
      simp only [setRequest, waitFor]
      split
      · rename_i a ha
        exact hs.insert (free a ha)
      · exact hs
    | @resume i r out hr _ _ =>
      simp only [setRequest, waitOver]
      split
      · exact hs.discard _ _
      · exact hs
    | remark | answer | provide | lack | settle | fetch | obtain | fail | skip | reuse | promise
    | survey | gather | link => exact hs

end Session

end SolidityInterface
