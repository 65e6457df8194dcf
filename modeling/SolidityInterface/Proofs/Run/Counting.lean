import SolidityInterface.Proofs.Run.Interleaving
import SolidityInterface.Proofs.Run.Effect

/-
  What a run does once. A job leaves the queue by its own start and never comes back,
  so no file is started twice (`World.Run.count_start`). A job that has written its
  interface is finished, so no interface is written twice, and the interfaces that
  were written are those of the jobs that ended with one (`World.Run.writings_iff`).
-/

namespace SolidityInterface

namespace Session

variable {sees : Path → Sighting → Prop} {s t : Session} {k key : Path}

/-- Whether the job of a file was started. -/
def Begun (s : Session) (k : Path) : Prop :=
  ∃ j, Table.get? k s.jobs = some j ∧ j.stage ≠ .queued

/-- Whether the job of a file ended with an interface at a place and with a text. -/
def Emitted (s : Session) (k output : Path) (text : String) : Prop :=
  ∃ a, s.result? k = some (.ok (some a)) ∧ a.isEmitted = true ∧ a.output = output ∧
    a.text = some text

/-! ## Jobs have one entry each -/

theorem nodup_employ {root : Path} (h : (Table.keys s.jobs).Nodup) :
    (Table.keys (s.employ key root)).Nodup := by
  unfold employ
  split
  · exact h
  · exact Table.nodup_keys_put h

theorem Act.nodup_jobs (h : Act sees s t) (hs : (Table.keys s.jobs).Nodup) :
    (Table.keys t.jobs).Nodup := by
  cases h with
  | begin_ | emit => exact Table.nodup_keys_put hs
  | change h =>
    cases h with
    | remark | answer | resume | settle | fetch | obtain | promise => exact hs
    | await | provide | lack => exact nodup_employ hs
    | fail | skip | reuse | survey | gather | link => exact Table.nodup_keys_put hs

/-- A start is due for a job in the queue only. -/
theorem queued_of_start_due (hs : (Table.keys s.jobs).Nodup) (h : .start k ∈ s.due) :
    s.stage? k = some .queued := by
  rcases due_cases h with ⟨i, h⟩ | ⟨q, j, hq, h⟩ | ⟨q, -, h⟩
  · simp at h
  · unfold jobMove? at h
    split at h
    · rename_i hstage
      obtain rfl : q = k := by simpa using h
      simp [stage?, Table.get?_of_mem hs hq, hstage]
    · split at h <;> simp at h
    · split at h <;> simp at h
    · split at h <;> simp at h
    · simp at h
    · simp at h
  · simp at h

/-! ## Starts -/

theorem begun_of_same {j : Job} {stage : Stage} (hj : Table.get? key s.jobs = some j)
    (hbegun : j.stage ≠ .queued) (hstage : stage ≠ .queued) :
    (s.withJob key j stage).Begun k ↔ s.Begun k := by
  unfold Begun
  rw [get?_withJob]
  by_cases hk : key = k
  · subst hk
    simp [hj, hbegun, hstage]
  · simp [hk]

theorem begun_employ {root : Path} :
    (∃ j, Table.get? k (s.employ key root) = some j ∧ j.stage ≠ .queued) ↔ s.Begun k := by
  rcases s.get?_employ key root k with h | ⟨rfl, hnone, h⟩
  · rw [h]
    rfl
  · rw [h]
    simp [Begun, hnone]

theorem Change.begun_iff (h : Change sees s t) : t.Begun k ↔ s.Begun k := by
  cases h with
  | remark | answer | resume | settle | fetch | obtain | promise => rfl
  | await | provide | lack => exact begun_employ
  | fail _ hj begun => exact begun_of_same hj begun (by simp)
  | skip hj stage | reuse hj stage | gather hj stage | link hj stage | survey hj stage =>
    exact begun_of_same hj (by simp [stage]) (by simp)

theorem Changes.begun_iff (h : Changes sees s t) : t.Begun k ↔ s.Begun k := by
  induction h with
  | refl => rfl
  | tail _ hc ih => exact hc.begun_iff.trans ih

theorem begun_begun {j : Job} : (s.begun key j).Begun k ↔ s.Begun k ∨ key = k := by
  unfold Begun begun
  rw [get?_withJob]
  by_cases hk : key = k
  · simp [hk]
  · simp [hk]

/-! ## Interfaces that were written -/

theorem emitted_of_unwritten {j : Job} {stage : Stage} {output : Path} {text : String}
    (hj : Table.get? key s.jobs = some j) (unfinished : j.outcome? = none)
    (hstage : ∀ a, stage = .finished (.ok (some a)) → a.isEmitted = false) :
    (s.withJob key j stage).Emitted k output text ↔ s.Emitted k output text := by
  unfold Emitted result?
  rw [get?_withJob]
  by_cases hk : key = k
  · subst hk
    simp only [if_true, hj, Option.bind_some, unfinished]
    constructor
    · rintro ⟨a, ha, hemitted, -, -⟩
      have hfalse := hstage a (Job.stage_of_outcome? ha)
      simp [hfalse] at hemitted
    · rintro ⟨a, ha, -⟩
      simp at ha
  · simp [hk]

theorem emitted_employ {root output : Path} {text : String} :
    (∃ a, (Table.get? k (s.employ key root)).bind (·.outcome?) = some (.ok (some a)) ∧
      a.isEmitted = true ∧ a.output = output ∧ a.text = some text) ↔ s.Emitted k output text := by
  rcases s.get?_employ key root k with h | ⟨rfl, hnone, h⟩
  · rw [h]
    rfl
  · rw [h]
    simp [Emitted, result?, hnone, Job.outcome?]

theorem Change.emitted_iff (h : Change sees s t) {output : Path} {text : String} :
    t.Emitted k output text ↔ s.Emitted k output text := by
  cases h with
  | remark | answer | resume | settle | fetch | obtain | promise => rfl
  | await | provide | lack => exact emitted_employ
  | fail _ hj _ unfinished => exact emitted_of_unwritten hj unfinished (by simp)
  | skip hj stage | gather hj stage | link hj stage | survey hj stage =>
    exact emitted_of_unwritten hj (by simp [Job.outcome?, stage]) (by simp)
  | reuse hj stage =>
    refine emitted_of_unwritten hj (by simp [Job.outcome?, stage]) ?_
    rintro a ha
    obtain rfl := Option.some.inj (Except.ok.inj (Stage.finished.inj ha))
    rfl

theorem Changes.emitted_iff (h : Changes sees s t) {output : Path} {text : String} :
    t.Emitted k output text ↔ s.Emitted k output text := by
  induction h with
  | refl => rfl
  | tail _ hc ih => exact hc.emitted_iff.trans ih

theorem emitted_begun {j : Job} (hj : Table.get? key s.jobs = some j) (stage : j.stage = .queued)
    {output : Path} {text : String} :
    (s.begun key j).Emitted k output text ↔ s.Emitted k output text :=
  emitted_of_unwritten hj (by simp [Job.outcome?, stage]) (by simp)

theorem emitted_emitted {j : Job} {d : Draft} {text : String}
    (hj : Table.get? key s.jobs = some j) (stage : j.stage = .writing d text) {output : Path}
    {text' : String} :
    (s.emitted key j d text).Emitted k output text' ↔
      s.Emitted k output text' ∨ (k = key ∧ output = d.output ∧ text' = text) := by
  unfold Emitted result? emitted
  rw [get?_withJob]
  by_cases hk : key = k
  · subst hk
    have hopen : j.outcome? = none := by simp [Job.outcome?, stage]
    simp only [if_true, hj, Option.bind_some, hopen]
    constructor
    · rintro ⟨a, ha, -, hout, htext⟩
      obtain rfl : d.artifact key text = a := by simpa [Job.outcome?] using ha
      exact .inr ⟨trivial, hout.symm, Option.some.inj htext.symm⟩
    · rintro (⟨a, ha, -⟩ | ⟨-, rfl, rfl⟩)
      · simp at ha
      · exact ⟨d.artifact key text', rfl, rfl, rfl, rfl⟩
  · simp [hk, Ne.symm hk]

end Session

namespace World

open Session

variable {o : Options} {disk : Path → Sighting} {paths : List Path} {w v : World}
  {trace : List Move} {m : Move} {k : Path}

/-- What a step does to a world: changes only, a start, or a write. -/
theorem Step.world_cases (h : Step w m v) :
    (v.writings = w.writings ∧ (∀ k, m = .start k → w.session.stage? k ≠ some .queued) ∧
      Changes (fun _ _ => True) w.session v.session) ∨
    (∃ k j, m = .start k ∧ v.writings = w.writings ∧ Table.get? k w.session.jobs = some j ∧
      j.stage = .queued ∧ Changes (fun _ _ => True) (w.session.begun k j) v.session) ∨
    (∃ k j d text, m = .write k ∧ v.writings = w.writings ++ [⟨k, d.output, text⟩] ∧
      Table.get? k w.session.jobs = some j ∧ j.stage = .writing d text ∧
      Changes (fun _ _ => True) (w.session.emitted k j d text) v.session) := by
  cases h with
  | quick due quick =>
    have hstep : Session.Step (fun _ _ => True) w.session m (w.session.quickly m) :=
      .quick due quick
    rcases step_cases hstep with ⟨hm, hc⟩ | ⟨k, j, hm, hj, hq, hc⟩ | ⟨k, j, d, text, hm, -⟩
    · exact .inl ⟨rfl, hm, hc⟩
    · exact .inr (.inl ⟨k, j, hm, rfl, hj, hq, hc⟩)
    · subst hm
      simp [Move.isSlow] at quick
  | look due => exact .inl ⟨rfl, by simp, changes_look trivial⟩
  | @write key d text disk' due stage others =>
    obtain ⟨j, hj, hstage⟩ := stage?_eq_some stage
    exact .inr (.inr ⟨key, j, d, text, rfl, rfl, hj, hstage, changes_wrote_ok hj hstage⟩)
  | @refuse key due fault =>
    exact .inl ⟨rfl, by simp, changes_wrote_error w.session key fault⟩

theorem Run.nodup_jobs (h : Run (start o disk paths) trace w) :
    (Table.keys w.session.jobs).Nodup := by
  induction h with
  | nil => simp [start, enter, Table.keys]
  | snoc _ hstep ih => exact hstep.session.keeps (fun hs ha => ha.nodup_jobs hs) ih

/-- A file is started once, if at all. -/
theorem Run.count_start (h : Run (start o disk paths) trace w) (k : Path) :
    (w.session.Begun k → trace.count (.start k) = 1) ∧
      (¬ w.session.Begun k → trace.count (.start k) = 0) := by
  induction h with
  | nil =>
    refine ⟨?_, fun _ => by simp⟩
    rintro ⟨j, hj, -⟩
    simp [start, enter, Table.get?] at hj
  | @snoc trace v u m hrun hstep ih =>
    rw [List.count_append]
    rcases hstep.world_cases with ⟨-, hm, hc⟩ | ⟨k', j, rfl, -, hj, hq, hc⟩ |
      ⟨k', j, d, text, rfl, -, hj, hstage, hc⟩
    · -- A start that is due finds its job in the queue, so the move is no start.
      have hne : m ≠ .start k := by
        rintro rfl
        have hdue : .start k ∈ v.session.due := by
          cases hstep with
          | quick due _ => exact due
        exact hm k rfl (queued_of_start_due hrun.nodup_jobs hdue)
      rw [hc.begun_iff, List.count_singleton, if_neg (by simpa using hne)]
      simpa using ih
    · rw [hc.begun_iff, begun_begun]
      by_cases hk : k' = k
      · subst hk
        have hno : ¬ v.session.Begun k' := by
          rintro ⟨j', hj', hne⟩
          obtain rfl := Option.some.inj (hj.symm.trans hj')
          exact hne hq
        simp [ih.2 hno]
      · have hne : Move.start k' ≠ .start k := by simpa using hk
        rw [List.count_singleton, if_neg (by simpa using hne)]
        simpa [hk] using ih
    · have hbegun : (v.session.emitted k' j d text).Begun k ↔ v.session.Begun k :=
        begun_of_same hj (by simp [hstage]) (by simp)
      rw [hc.begun_iff, hbegun, List.count_singleton, if_neg (by simp)]
      simpa using ih

/-- The interfaces that were written are those of the jobs that ended with one, each
once. -/
theorem Run.writings_iff (h : Run (start o disk paths) trace w) :
    (w.writings.map (·.source)).Nodup ∧ ∀ k output text,
      ⟨k, output, text⟩ ∈ w.writings ↔ w.session.Emitted k output text := by
  induction h with
  | nil =>
    refine ⟨by simp [start], ?_⟩
    intro k output text
    simp [start, enter, Emitted, result?, Table.get?]
  | @snoc trace v u m hrun hstep ih =>
    obtain ⟨hnodup, hiff⟩ := ih
    rcases hstep.world_cases with ⟨hw, -, hc⟩ | ⟨k', j, -, hw, hj, hq, hc⟩ |
      ⟨k', j, d, text', -, hw, hj, hstage, hc⟩
    · refine ⟨hw ▸ hnodup, ?_⟩
      intro k output text
      rw [hw, hc.emitted_iff, hiff]
    · refine ⟨hw ▸ hnodup, ?_⟩
      intro k output text
      rw [hw, hc.emitted_iff, emitted_begun hj hq, hiff]
    · rw [hw]
      constructor
      · -- A file that was written has a finished job.
        rw [List.map_append, List.nodup_append]
        refine ⟨hnodup, by simp, ?_⟩
        intro p hp q hq hpq
        obtain ⟨⟨k, output, text⟩, hmem, rfl⟩ := List.mem_map.mp hp
        have hqk : q = k' := by simpa using hq
        have hk : k = k' := hpq.trans hqk
        subst hk
        obtain ⟨a, ha, -⟩ := (hiff k output text).mp hmem
        obtain ⟨j', hj', hout⟩ := result?_eq_some ha
        obtain rfl := Option.some.inj (hj.symm.trans hj')
        simp [Job.outcome?, hstage] at hout
      · intro k output text
        rw [hc.emitted_iff, emitted_emitted hj hstage, List.mem_append, hiff]
        simp

end World

end SolidityInterface
