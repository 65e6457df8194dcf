import SolidityInterface.Proofs.Run.Faithful

/-
  Runs that write over no source. The files that such a run loads are on the disk at
  every look as they were at its start, so its session does what the disk at the start
  says (`World.Run.faithful`). What is kept by every change that sees that disk is
  kept by the run (`World.Run.keeps`).
-/

namespace SolidityInterface

namespace Session

variable {sees : Path → Sighting → Prop} {s t : Session} {p : Path}

theorem Act.mem_written (h : Act sees s t) (hp : p ∈ s.written) : p ∈ t.written := by
  cases h with
  | begin_ => exact hp
  | emit => exact List.mem_append_left _ hp
  | change h => cases h <;> exact hp

theorem Step.mem_written {m : Move} (h : Step sees s m t) (hp : p ∈ s.written) : p ∈ t.written :=
  h.keeps (fun hs ha => ha.mem_written hs) hp

theorem Step.has_cache {m : Move} {k : Path} (h : Step sees s m t)
    (hk : Table.has k s.cache = true) : Table.has k t.cache = true :=
  h.keeps (fun hs ha => ha.has_cache hs) hk

theorem Step.options_eq {m : Move} (h : Step sees s m t) : t.options = s.options := by
  have hkept : (fun u : Session => u.options = s.options) t :=
    h.keeps (fun hs ha => ha.options_eq.trans hs) rfl
  exact hkept

theorem has_of_mem_pending {c : Cache} {k : Path} (h : k ∈ c.pending) : Table.has k c = true := by
  unfold Cache.pending at h
  obtain ⟨e, he, hk⟩ := List.mem_filterMap.mp h
  apply Table.mem_keys_iff.mp
  split at hk
  · obtain rfl := Option.some.inj hk
    exact List.mem_map_of_mem he
  · simp at hk

/-- Only paths that were asked for are looked at. -/
theorem cached_of_look_due {k : Path} (h : .look k ∈ s.due) : Table.has k s.cache = true := by
  rcases due_cases h with ⟨i, h⟩ | ⟨q, j, -, h⟩ | ⟨q, hq, h⟩
  · simp at h
  · unfold jobMove? at h
    split at h
    · simp at h
    · split at h <;> simp at h
    · split at h <;> simp at h
    · split at h <;> simp at h
    · simp at h
    · simp at h
  · obtain rfl := Move.look.inj h
    exact has_of_mem_pending hq

end Session

namespace World

open Session

variable {o : Options} {disk : Path → Sighting} {paths : List Path} {w v u : World}
  {trace : List Move} {m : Move}

/-- A path is found as it was before a step, unless the step wrote to it. -/
theorem Step.disk_cases (h : Step w m v) (p : Path) :
    v.disk p = w.disk p ∨ ∃ q ∈ v.session.written, p = w.session.options.cwd.resolve q := by
  cases h with
  | quick | look | refuse => exact .inl rfl
  | @write key d text disk' due stage others =>
    by_cases hp : p = w.session.options.cwd.resolve d.output
    · obtain ⟨j, hj, hstage⟩ := stage?_eq_some stage
      have hc : Changes (fun _ _ => True) (w.session.emitted key j d text)
        (w.session.wrote key (.ok ())) := changes_wrote_ok hj hstage
      have hwritten : d.output ∈ (w.session.wrote key (.ok ())).written :=
        hc.keeps (fun hs ha => ha.mem_written hs) (by simp [emitted, withJob])
      exact .inr ⟨d.output, hwritten, hp⟩
    · exact .inl (others p hp)

/-- A path is found as it was at the start of a run, unless the run wrote to it. -/
theorem Run.disk_cases (h : Run w trace v) (p : Path) :
    v.session.options = w.session.options ∧
      (v.disk p = w.disk p ∨ ∃ q ∈ v.session.written, p = w.session.options.cwd.resolve q) := by
  induction h with
  | nil => exact ⟨rfl, .inl rfl⟩
  | snoc _ hstep ih =>
    obtain ⟨hoptions, hdisk⟩ := ih
    refine ⟨hstep.session.options_eq.trans hoptions, ?_⟩
    rcases hstep.disk_cases p with hp | hp
    · rcases hdisk with hd | ⟨q, hq, hp'⟩
      · exact .inl (hp.trans hd)
      · exact .inr ⟨q, hstep.session.mem_written hq, hp'⟩
    · rw [hoptions] at hp
      exact .inr hp

/-- A run that has spared the sources has done so at every moment. -/
theorem SparesSources.before (h : Step w m v) (hv : v.SparesSources) : w.SparesSources := by
  intro p hp hcached
  have hcached' := h.session.has_cache (Table.mem_keys_iff.mp hcached)
  have hnot := hv p (h.session.mem_written hp)
  rw [h.session.options_eq] at hnot
  exact hnot (Table.mem_keys_iff.mpr hcached')

/-- As long as a run has spared the sources, its next step looks at the disk as it was at the
start. -/
theorem Run.step_finds (h : Run w trace v) (hv : v.SparesSources) (hstep : Step v m u) :
    Session.Step (finds w.disk) v.session m u.session := by
  cases hstep with
  | quick due quick => exact .quick due quick
  | @look key due =>
    refine .look due ?_
    obtain ⟨hoptions, hdisk | ⟨q, hq, hkey⟩⟩ := h.disk_cases key
    · exact hdisk
    · -- The path would have been written to, and it is in the cache.
      have hcached := Table.mem_keys_iff.mpr (cached_of_look_due due)
      have hnot := hv q hq
      rw [hoptions, ← hkey] at hnot
      exact absurd hcached hnot
  | write due _ _ => exact .write due (.ok ())
  | refuse due fault => exact .write due (.error fault)

/-- What every change on the disk of the start keeps, a run that spares the sources
keeps. -/
theorem Run.keeps {I : Session → Prop} (h : Run w trace v) (hv : v.SparesSources)
    (act : ∀ {s t}, I s → Act (finds w.disk) s t → I t) (hw : I w.session) : I v.session := by
  induction h with
  | nil => exact hw
  | snoc hrun hstep ih =>
    have hbefore := hv.before hstep
    exact (hrun.step_finds hbefore hstep).keeps act (ih hbefore)

theorem faithful_enter (o : Options) (disk : Path → Sighting) (paths : List Path) :
    Faithful o disk ({ options := o : Session }.enter paths) := by
  have root : ∀ r ∈ ({ options := o : Session }.enter paths).requests,
      r.waiter = none ∧ ∀ a, r.progress ≠ .done (.ok a) := by
    intro r hr
    obtain ⟨p, -, rfl⟩ := List.mem_map.mp hr
    unfold rootRequest
    split
    · simp
    · simp
    · split <;> simp
  constructor
  case options => rfl
  case known =>
    intro k out hk
    simp [enter, Cache.outcome?, Table.get?] at hk
  case fetched => simp [enter]
  case promised =>
    intro k a hk
    simp [enter, Table.get?] at hk
  case answered =>
    intro r hr a ha
    exact absurd ha ((root r hr).2 a)
  case course =>
    intro k
    have hnone : ({ options := o : Session }.enter paths).requestsOf k = [] := by
      apply List.filter_eq_nil_iff.mpr
      intro r hr
      simp [(root r hr).1]
    simp [OnCourse, enter, Table.get?, Idle, fetchesOf]
    exact hnone

theorem Run.faithful (h : Run (start o disk paths) trace w) (hw : w.SparesSources) :
    Faithful o disk w.session :=
  h.keeps hw (fun hs ha => ha.faithful hs) (faithful_enter o disk paths)

end World

end SolidityInterface
