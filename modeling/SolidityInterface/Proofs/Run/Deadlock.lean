import SolidityInterface.Proofs.Run.Effect
import SolidityInterface.Proofs.Traverse

/-
  Import cycles never block a run. `Session.Safe` is what all moves keep: the wait
  graph has no cycle, a file that others may find waiting has left its provisional
  artifact, and a request that waits for an unfinished job has its edge in the graph.

  From this follow that the search for a cycle never asks for a provisional artifact
  that is not there, that some unfinished job waits for no other, and that a move is
  due as long as a job is unfinished.
-/

namespace SolidityInterface

namespace Session

open Relation

variable {sees : Path → Sighting → Prop} {s t : Session} {k : Path}

/-- Whether a file has a job that has not finished. -/
def Unfinished (s : Session) (key : Path) : Prop :=
  ∃ j, Table.get? key s.jobs = some j ∧ j.outcome? = none

/-- Whether the job of a file waits for the result of another. -/
def Awaits (s : Session) (a b : Path) : Prop :=
  ∃ r ∈ s.requests, r.waiter = some a ∧ r.key = b ∧ r.progress = .waiting

/-- Whether a job has left its provisional artifact and not finished yet. -/
def Stage.isDrafted : Stage → Bool
  | .importing _ | .linking _ _ | .writing _ _ => true
  | .queued | .loading | .finished _ => false

/-- What holds between the parts of a session. -/
structure Safe (s : Session) : Prop where
  acyclic : s.waiting.Acyclic
  edge_promised : ∀ {a b}, s.waiting.Edge a b → Table.has a s.provisional = true
  waiter_promised : ∀ r ∈ s.requests, ∀ a, r.waiter = some a → Table.has a s.provisional = true
  draft_promised : ∀ {k j}, Table.get? k s.jobs = some j → Stage.isDrafted j.stage = true →
    Table.has k s.provisional = true
  waiting_job : ∀ r ∈ s.requests, r.progress = .waiting → Table.has r.key s.jobs = true
  waiting_edge : ∀ r ∈ s.requests, r.progress = .waiting → s.result? r.key = none →
    ∀ a, r.waiter = some a → s.waiting.Edge a r.key
  loading_cached : ∀ {k j}, Table.get? k s.jobs = some j → j.stage = .loading →
    Table.has k s.cache = true
  fetching_cached : ∀ f ∈ s.fetches, f.progress = .waiting →
    Table.has f.edge.target s.cache = true

theorem unfinished_iff (h : Table.has k s.jobs = true) : s.Unfinished k ↔ s.result? k = none := by
  obtain ⟨j, hj⟩ := Table.has_iff.mp h
  simp [Unfinished, result?, hj]

theorem Act.unfinished_before (h : Act sees s t) (hk : t.result? k = none) : s.result? k = none := by
  cases hs : s.result? k with
  | none => rfl
  | some out =>
    have := h.result_kept hs
    rw [hk] at this
    simp at this

/-- Whoever waits has left its provisional artifact: a job asks only once it has a draft. -/
theorem Act.waiter_promised (h : Act sees s t) (hs : Safe s) {r' : Request} (hr' : r' ∈ t.requests)
    {a : Path} (ha : r'.waiter = some a) : Table.has a t.provisional = true := by
  apply h.has_provisional
  cases h.request_cases hr' with
  | same hr => exact hs.waiter_promised r' hr a ha
  | waits hr _ _ _ _ e | answered hr _ _ e | provided hr _ _ _ _ e | lacks hr _ _ _ _ e =>
    subst e
    exact hs.waiter_promised _ hr a ha
  | new hj stage _ hnew =>
    obtain ⟨u, -, rfl⟩ := mem_asked hnew
    obtain rfl := Option.some.inj ha
    exact hs.draft_promised hj (by simp [Stage.isDrafted, stage])

theorem Act.draft_promised (h : Act sees s t) (hs : Safe s) {j' : Job}
    (hj' : Table.get? k t.jobs = some j') (hdrafted : Stage.isDrafted j'.stage = true) :
    Table.has k t.provisional = true := by
  apply h.has_provisional
  cases h.job_cases hj' with
  | same hj => exact hs.draft_promised hj hdrafted
  | new _ _ _ _ e =>
    subst e
    simp [Stage.isDrafted] at hdrafted
  | advanced hj advance e =>
    subst e
    cases advance with
    | survey _ _ _ _ promised => exact Table.has_of_get? promised
    | gather stage => exact hs.draft_promised hj (by simp [Stage.isDrafted, stage])
    | link stage => exact hs.draft_promised hj (by simp [Stage.isDrafted, stage])
    | begin_ | fail | skip | reuse | emit => simp [Stage.isDrafted] at hdrafted

theorem Act.waiting_job (h : Act sees s t) (hs : Safe s) {r' : Request} (hr' : r' ∈ t.requests)
    (hw : r'.progress = .waiting) : Table.has r'.key t.jobs = true := by
  cases h.request_cases hr' with
  | same hr => exact h.has_job (hs.waiting_job r' hr hw)
  | waits hr _ _ job _ e =>
    subst e
    exact job
  | answered _ _ _ e | provided _ _ _ _ _ e | lacks _ _ _ _ _ e =>
    subst e
    simp at hw
  | new _ _ _ hnew =>
    obtain ⟨u, -, rfl⟩ := mem_asked hnew
    simp at hw

theorem Act.waiting_edge (h : Act sees s t) (hs : Safe s) {r' : Request} (hr' : r' ∈ t.requests)
    (hw : r'.progress = .waiting) (hopen : t.result? r'.key = none) {a : Path}
    (ha : r'.waiter = some a) : t.waiting.Edge a r'.key := by
  cases h.request_cases hr' with
  | same hr =>
    have hopen := h.unfinished_before hopen
    exact h.edge_kept (hs.waiting_edge r' hr hw hopen a ha) hopen
  | waits hr _ _ _ edge e =>
    subst e
    exact edge a ha
  | answered _ _ _ e | provided _ _ _ _ _ e | lacks _ _ _ _ _ e =>
    subst e
    simp at hw
  | new _ _ _ hnew =>
    obtain ⟨u, -, rfl⟩ := mem_asked hnew
    simp at hw

theorem Act.loading_cached (h : Act sees s t) (hs : Safe s) {j' : Job}
    (hj' : Table.get? k t.jobs = some j') (hl : j'.stage = .loading) :
    Table.has k t.cache = true := by
  cases h.job_cases hj' with
  | same hj => exact h.has_cache (hs.loading_cached hj hl)
  | new _ _ _ _ e =>
    subst e
    simp at hl
  | advanced hj advance e =>
    subst e
    cases advance with
    | begin_ _ cached => exact cached
    | survey | gather | link | fail | skip | reuse | emit => simp at hl

theorem Act.fetching_cached (h : Act sees s t) (hs : Safe s) {f' : Fetch} (hf' : f' ∈ t.fetches)
    (hw : f'.progress = .waiting) : Table.has f'.edge.target t.cache = true := by
  cases h.fetch_cases hf' with
  | same hf => exact h.has_cache (hs.fetching_cached f' hf hw)
  | waits hf _ cached e =>
    subst e
    exact cached
  | done _ _ _ e =>
    subst e
    simp at hw
  | new _ _ _ _ _ _ hnew =>
    simp only [List.mem_map] at hnew
    obtain ⟨e, -, rfl⟩ := hnew
    simp at hw

/-- Every change keeps a session safe. -/
theorem Act.safe (h : Act sees s t) (hs : Safe s) : Safe t where
  acyclic := h.acyclic hs.acyclic
  edge_promised he := by
    rcases h.edge_cases he with he | ⟨r, hr, ha, -⟩
    · exact h.has_provisional (hs.edge_promised he)
    · exact h.has_provisional (hs.waiter_promised r hr _ ha)
  waiter_promised _ hr _ ha := h.waiter_promised hs hr ha
  draft_promised hj hdrafted := h.draft_promised hs hj hdrafted
  waiting_job _ hr hw := h.waiting_job hs hr hw
  waiting_edge _ hr hw hopen _ ha := h.waiting_edge hs hr hw hopen ha
  loading_cached hj hl := h.loading_cached hs hj hl
  fetching_cached _ hf hw := h.fetching_cached hs hf hw

theorem safe_start (o : Options) : Safe { options := o } where
  acyclic := Waiting.acyclic_nil
  edge_promised he := by simp [Waiting.Edge] at he
  waiter_promised := by simp
  draft_promised hj := by simp [Table.get?] at hj
  waiting_job := by simp
  waiting_edge := by simp
  loading_cached hj := by simp [Table.get?] at hj
  fetching_cached := by simp

/-- A request from outside has no waiter, and does not wait before it is asked. -/
theorem rootRequest_waiter (s : Session) (path : Path) :
    (s.rootRequest path).waiter = none ∧ (s.rootRequest path).progress ≠ .waiting := by
  unfold rootRequest
  split
  · simp
  · simp
  · split <;> simp

theorem Safe.request (hs : Safe s) (path : Path) : Safe (s.request path) := by
  obtain ⟨hwaiter, hprogress⟩ := s.rootRequest_waiter path
  have cases : ∀ r ∈ (s.request path).requests, r ∈ s.requests ∨ r = s.rootRequest path := by
    intro r hr
    simpa [Session.request] using hr
  refine { hs with waiter_promised := ?_, waiting_job := ?_, waiting_edge := ?_ }
  · intro r hr a ha
    rcases cases r hr with hr | rfl
    · exact hs.waiter_promised r hr a ha
    · simp [hwaiter] at ha
  · intro r hr hw
    rcases cases r hr with hr | rfl
    · exact hs.waiting_job r hr hw
    · exact absurd hw hprogress
  · intro r hr hw hopen a ha
    rcases cases r hr with hr | rfl
    · exact hs.waiting_edge r hr hw hopen a ha
    · exact absurd hw hprogress

theorem Reachable.safe {o : Options} (h : Reachable o s) : Safe s := by
  induction h with
  | start => exact safe_start o
  | request path _ ih => exact ih.request path
  | step _ hstep ih => exact hstep.keeps (fun hs h => h.safe hs) ih

/-! ## A cycle finds its provisional artifact -/

/-- Whoever is found to wait on the waiter of a request has left its provisional
artifact: it is the waiter itself, or it waits for something. -/
theorem Safe.promised_of_waitsOn (hs : Safe s) {r : Request} (hr : r ∈ s.requests) {a : Path}
    (ha : r.waiter = some a) (h : s.waiting.waitsOn r.key a = true) :
    Table.has r.key s.provisional = true := by
  rcases (Waiting.waitsOn_iff.mp h).cases_head with heq | ⟨b, he, -⟩
  · rw [heq]
    exact hs.waiter_promised r hr a ha
  · exact hs.edge_promised he

/-! ## Some job can go on -/

theorem Safe.edge_of_awaits (hs : Safe s) {a b : Path} (h : s.Awaits a b) (hb : s.Unfinished b) :
    s.waiting.Edge a b := by
  obtain ⟨r, hr, ha, rfl, hw⟩ := h
  have hopen := (unfinished_iff (hs.waiting_job r hr hw)).mp hb
  exact hs.waiting_edge r hr hw hopen a ha

theorem finite_unfinished (s : Session) : {k | s.Unfinished k}.Finite := by
  refine (List.finite_toSet (Table.keys s.jobs)).subset ?_
  rintro k ⟨j, hj, -⟩
  exact Table.mem_keys_iff.mpr (Table.has_of_get? hj)

theorem Safe.exists_free (hs : Safe s) (h : ∃ k, s.Unfinished k) :
    ∃ k, s.Unfinished k ∧ ∀ b, s.Awaits k b → ¬ s.Unfinished b := by
  obtain ⟨k, hk, hfree⟩ := hs.acyclic.exists_sink s.finite_unfinished h
  exact ⟨k, hk, fun b hab hb => hfree b hb (hs.edge_of_awaits hab hb)⟩

/-! ## A move is due -/

/-- Pieces of work that have no result together hold one that has not ended. -/
theorem exists_undone_of_gather {α : Type} {l : List (Progress α)} (h : Progress.gather l = none) :
    ∃ p ∈ l, p = .fresh ∨ p = .waiting := by
  by_contra hall
  push Not at hall
  unfold Progress.gather at h
  split at h
  · simp at h
  · rename_i hfail
    have hvalue : ∀ p ∈ l, p.value?.isSome := by
      intro p hp
      have hf := List.findSome?_eq_none_iff.mp hfail p hp
      cases p with
      | fresh => exact absurd rfl (hall _ hp).1
      | waiting => exact absurd rfl (hall _ hp).2
      | done out => cases out <;> simp_all [Progress.failure?, Progress.value?]
    obtain ⟨vs, hvs⟩ := Option.isSome_iff_exists.mp (isSome_mapM hvalue)
    simp [hvs] at h

theorem due_of_request {r : Request} {i : Nat} {m : Move} (hr : s.requests[i]? = some r)
    (h : s.requestMove? r i = some m) : m ∈ s.due := by
  simp only [due, List.mem_append, List.mem_filterMap]
  exact .inl (.inl (.inl ⟨(r, i), List.mem_zipIdx_iff_getElem?.mpr hr, h⟩))

theorem due_of_fetch {f : Fetch} {i : Nat} {m : Move} (hf : s.fetches[i]? = some f)
    (h : s.fetchMove? f i = some m) : m ∈ s.due := by
  simp only [due, List.mem_append, List.mem_filterMap]
  exact .inl (.inr ⟨(f, i), List.mem_zipIdx_iff_getElem?.mpr hf, h⟩)

theorem due_of_job {j : Job} {m : Move} (hj : Table.get? k s.jobs = some j)
    (h : s.jobMove? k j = some m) : m ∈ s.due := by
  simp only [due, List.mem_append, List.mem_filterMap]
  exact .inl (.inl (.inr ⟨(k, j), Table.mem_of_get? hj, h⟩))

theorem due_of_cached (hc : Table.has k s.cache = true) (h : s.cache.outcome? k = none) :
    .look k ∈ s.due := by
  obtain ⟨load, hl⟩ := Table.has_iff.mp hc
  cases load with
  | settled out => simp [Cache.outcome?, hl] at h
  | reading importer =>
    simp only [due, List.mem_append, List.mem_map]
    refine .inr ⟨k, ?_, rfl⟩
    simp only [Cache.pending, List.mem_filterMap]
    exact ⟨(k, .reading importer), Table.mem_of_get? hl, rfl⟩

/-- A job whose loads have not all ended leaves a move that is due. -/
theorem Safe.due_of_fetching (hs : Safe s)
    (h : Progress.gather ((s.fetchesOf k).map (·.progress)) = none) : ∃ m, m ∈ s.due := by
  obtain ⟨p, hp, hundone⟩ := exists_undone_of_gather h
  obtain ⟨f, hf, rfl⟩ := List.mem_map.mp hp
  have hmem : f ∈ s.fetches := (List.mem_filter.mp hf).1
  obtain ⟨i, hi⟩ := List.mem_iff_getElem?.mp hmem
  rcases hundone with hfresh | hwait
  · exact ⟨.fetch i, due_of_fetch hi (by simp [fetchMove?, hfresh])⟩
  · cases ho : s.cache.outcome? f.edge.target with
    | none => exact ⟨_, due_of_cached (hs.fetching_cached f hmem hwait) ho⟩
    | some out => exact ⟨.obtain i, due_of_fetch hi (by simp [fetchMove?, hwait, ho])⟩

/-- A job whose requests have not all been answered, and wait for no unfinished job,
leaves a move that is due. -/
theorem due_of_asking (hfree : ∀ b, s.Awaits k b → ¬ s.Unfinished b) (hs : Safe s)
    (h : Progress.gather ((s.requestsOf k).map (·.progress)) = none) : ∃ m, m ∈ s.due := by
  obtain ⟨p, hp, hundone⟩ := exists_undone_of_gather h
  obtain ⟨r, hr, rfl⟩ := List.mem_map.mp hp
  obtain ⟨hmem, hwaiter⟩ := List.mem_filter.mp hr
  obtain ⟨i, hi⟩ := List.mem_iff_getElem?.mp hmem
  rcases hundone with hfresh | hwait
  · exact ⟨.ask i, due_of_request hi (by simp [requestMove?, hfresh])⟩
  · have hdone := hfree r.key ⟨r, hmem, by simpa using hwaiter, rfl, hwait⟩
    rw [unfinished_iff (hs.waiting_job r hmem hwait), ← ne_eq, Option.ne_none_iff_isSome] at hdone
    refine ⟨.resume i, due_of_request hi ?_⟩
    simp only [requestMove?, hwait]
    exact if_pos hdone

/-- As long as a job is unfinished, a move is due. -/
theorem Safe.exists_due (hs : Safe s) (h : ∃ k, s.Unfinished k) : ∃ m, m ∈ s.due := by
  obtain ⟨k, ⟨j, hj, hopen⟩, hfree⟩ := hs.exists_free h
  -- The stage of a job that waits for no unfinished one says which move is due.
  cases hstage : j.stage with
  | queued => exact ⟨.start k, due_of_job hj (by simp [jobMove?, hstage])⟩
  | loading =>
    cases ho : s.cache.outcome? k with
    | none => exact ⟨.look k, due_of_cached (hs.loading_cached hj hstage) ho⟩
    | some out => exact ⟨.receive k, due_of_job hj (by simp [jobMove?, hstage, ho])⟩
  | importing d =>
    cases hg : Progress.gather ((s.fetchesOf k).map (·.progress)) with
    | none => exact hs.due_of_fetching hg
    | some out => exact ⟨.gather k, due_of_job hj (by simp [jobMove?, hstage, hg])⟩
  | linking d imports =>
    cases hg : Progress.gather ((s.requestsOf k).map (·.progress)) with
    | none => exact due_of_asking hfree hs hg
    | some out => exact ⟨.link k, due_of_job hj (by simp [jobMove?, hstage, hg])⟩
  | writing d text => exact ⟨.write k, due_of_job hj (by simp [jobMove?, hstage])⟩
  | finished out => simp [Job.outcome?, hstage] at hopen

/-! ## Import cycles never block -/

/-- In every session that requests and moves lead to, the wait graph has no cycle, a
request that would close one finds its provisional artifact, and as long as a job is
unfinished some unfinished job waits for no other and a move is due. -/
theorem import_cycles_never_block (o : Options) (s : Session) (h : Reachable o s) :
    s.waiting.Acyclic ∧
    (∀ r ∈ s.requests, ∀ a, r.waiter = some a → s.waiting.waitsOn r.key a = true →
      Table.has r.key s.provisional = true) ∧
    ((∃ k, s.Unfinished k) → ∃ k, s.Unfinished k ∧ ∀ b, s.Awaits k b → ¬ s.Unfinished b) ∧
    ((∃ k, s.Unfinished k) → ∃ m, m ∈ s.due) := by
  have hs := h.safe
  exact ⟨hs.acyclic, fun r hr a ha hw => hs.promised_of_waitsOn hr ha hw, hs.exists_free,
    hs.exists_due⟩

open World.Pair in
/-- Two files that import each other: when the second asks for the first, which waits
for it, the wait graph has an edge and no cycle, the provisional artifact of the first
is there, and a move is due. -/
theorem import_cycle_of_two_is_cut :
    ∃ s r, Reachable World.Pair.options s ∧ s.waiting.Edge left right ∧ s.Unfinished left ∧
      r ∈ s.requests ∧ r.waiter = some right ∧ s.waiting.waitsOn r.key right = true ∧
      s.waiting.Acyclic ∧ Table.has r.key s.provisional = true ∧ ∃ m, m ∈ s.due := by
  have hplay : ((World.start World.Pair.options disk [left]).play approach).any (fun w =>
      w.session.waiting.contains (left, right) &&
      (Table.get? left w.session.jobs).any (·.outcome?.isNone) &&
      w.session.requests.any fun r => r.waiter = some right && w.session.waiting.waitsOn r.key right)
      = true := by decide +kernel
  obtain ⟨w, hw, h⟩ := (Option.any_eq_true ..).mp hplay
  simp only [Bool.and_eq_true, List.any_eq_true, List.contains_iff_mem, decide_eq_true_eq] at h
  obtain ⟨⟨hedge, hjob⟩, r, hr, hwaiter, hcycle⟩ := h
  obtain ⟨j, hj, hopen⟩ := (Option.any_eq_true ..).mp hjob
  have hreach := (World.run_of_play hw).reachable
  have hleft : w.session.Unfinished left := ⟨j, hj, by simpa using hopen⟩
  obtain ⟨hacyclic, hpromised, -, hdue⟩ := import_cycles_never_block World.Pair.options _ hreach
  exact ⟨w.session, r, hreach, hedge, hleft, hr, hwaiter, hcycle, hacyclic,
    hpromised r hr right hwaiter hcycle, hdue ⟨left, hleft⟩⟩

end Session

end SolidityInterface
