import SolidityInterface.Proofs.Run.Closure

/-
  Every run, also one that writes over its sources, does what some disk that does not
  change says. A path is looked at once, so what the looks of a run found can be put
  together to one disk (`World.Run.exists_found`). What is proved of runs on a steady
  disk is thereby known of all runs, with the records that the run has loaded in the
  place of those on the disk (`World.Run.exists_grown`).
-/

namespace SolidityInterface

/-- Whether a stage comes after the record of its file was received, and is no failure. -/
def Stage.hasRecord : Stage → Bool
  | .queued | .loading | .finished (.error _) => false
  | .importing _ | .linking _ _ | .writing _ _ | .finished (.ok _) => true

/-- Whether a stage comes after the records of the imports were received, and is no
failure. -/
def Stage.hasImports : Stage → Bool
  | .queued | .loading | .importing _ | .finished (.error _) => false
  | .linking _ _ | .writing _ _ | .finished (.ok _) => true

namespace Session

open Relation Plan

variable {o : Options} {disk : Path → Sighting} {sees sees' : Path → Sighting → Prop}
  {s t : Session} {k : Path}

/-- A row of acts. -/
abbrev Acts (sees : Path → Sighting → Prop) : Session → Session → Prop := ReflTransGen (Act sees)

theorem Step.acts {m : Move} (h : Step sees s m t) : Acts sees s t :=
  h.keeps (I := Acts sees s) (fun hs ha => hs.tail ha) .refl

theorem Acts.keeps {I : Session → Prop} (act : ∀ {s t}, I s → Act sees s t → I t)
    (h : Acts sees s t) (hs : I s) : I t := by
  induction h with
  | refl => exact hs
  | tail _ ha ih => exact act ih ha

/-! ## What is known stays known -/

theorem Act.outcome?_kept (h : Act sees s t) {out : Except Failure Record}
    (hk : s.cache.outcome? k = some out) : t.cache.outcome? k = some out := by
  cases h with
  | begin_ =>
    rw [begun, withJob, outcome?_request]
    exact hk
  | emit => exact hk
  | change h =>
    cases h with
    | @settle key importer found reading =>
      by_cases hkey : key = k
      · subst hkey
        simp [Cache.outcome?, reading] at hk
      · simp only [Cache.outcome?, Table.get?_put_of_ne hkey]
        exact hk
    | fetch =>
      simp only [setFetch, outcome?_request]
      exact hk
    | remark | answer | await | provide | lack | resume | obtain | fail | skip | reuse | promise
    | survey | gather | link => exact hk

/-- An act depends on what may be found only if it settles a path. -/
theorem Act.of_settled (h : Act sees s t)
    (hsees : ∀ key found, sees key found → t.cache.outcome? key ≠ none → sees' key found) :
    Act sees' s t := by
  cases h with
  | begin_ hj stage => exact .begin_ hj stage
  | emit hj stage => exact .emit hj stage
  | change h =>
    refine .change ?_
    cases h with
    | @settle key _ _ reading saw =>
      exact .settle reading (hsees key _ saw (by simp [Cache.outcome?]))
    | remark report log => exact .remark report log
    | answer hr fresh done => exact .answer hr fresh done
    | await hr fresh unfinished free => exact .await hr fresh unfinished free
    | provide hr fresh unfinished waiter cycle found =>
      exact .provide hr fresh unfinished waiter cycle found
    | lack hr fresh unfinished waiter cycle missing =>
      exact .lack hr fresh unfinished waiter cycle missing
    | resume hr waiting done => exact .resume hr waiting done
    | fetch hf fresh => exact .fetch hf fresh
    | obtain hf waiting known => exact .obtain hf waiting known
    | fail f hj begun unfinished => exact .fail f hj begun unfinished
    | skip hj stage known absent => exact .skip hj stage known absent
    | reuse hj stage known present ready => exact .reuse hj stage known present ready
    | promise hj stage known needs hd => exact .promise hj stage known needs hd
    | survey hj stage known needs hd promised he =>
      exact .survey hj stage known needs hd promised he
    | gather hj stage loaded => exact .gather hj stage loaded
    | link hj stage answered => exact .link hj stage answered

/-- A path that is not settled has not been looked at, so anything may lie there. -/
theorem Act.update (h : Act (finds disk) s t) (hk : t.cache.outcome? k = none) (found : Sighting) :
    Act (finds (Function.update disk k found)) s t := by
  apply h.of_settled
  intro key x hx hsettled
  have hne : key ≠ k := by
    rintro rfl
    exact hsettled hk
  rw [finds, Function.update_of_ne hne]
  exact hx

theorem Act.unsettled_before (h : Act sees s t) (hk : t.cache.outcome? k = none) :
    s.cache.outcome? k = none := by
  cases hout : s.cache.outcome? k with
  | none => rfl
  | some out =>
    rw [h.outcome?_kept hout] at hk
    simp at hk

theorem Acts.update (h : Acts (finds disk) s t) (hk : t.cache.outcome? k = none) (found : Sighting) :
    Acts (finds (Function.update disk k found)) s t := by
  induction h with
  | refl => exact .refl
  | tail _ ha ih => exact (ih (ha.unsettled_before hk)).tail (ha.update hk found)

theorem acts_look_of_settled {out : Except Failure Record} (hk : s.cache.outcome? k = some out)
    (found : Sighting) : Acts sees s (s.look k found) := by
  have hget : Table.get? k s.cache = some (.settled out) := by
    unfold Cache.outcome? at hk
    split at hk
    · rename_i hget
      rw [hget, Option.some.inj hk]
    · simp at hk
  unfold look
  simp only [Cache.settle, hget]
  exact .single (.change (.remark _ s.log))

/-! ## Jobs that know their records -/

theorem Faithful.seen_eq (hs : Faithful o disk s) {r : Record}
    (h : s.cache.outcome? k = some (.ok r)) : seen o disk k = r :=
  seen_of_recordAt (hs.recordAt_eq h)

/-- Whether what jobs and loads have received is in the cache. -/
structure Informed (o : Options) (disk : Path → Sighting) (s : Session) : Prop where
  own : ∀ {k j}, Table.get? k s.jobs = some j → j.stage.hasRecord = true →
    ∃ r, s.cache.outcome? k = some (.ok r)
  loads : ∀ f ∈ s.fetches, ∀ out, f.progress = .done out →
    s.cache.outcome? f.edge.target = some out
  named : ∀ {k j}, Table.get? k s.jobs = some j → j.stage.hasRecord = true →
    (seen o disk k).needsInterface = true → (o.layout?.bind (·.edges? (seen o disk k))).isSome = true
  imports : ∀ {k j}, Table.get? k s.jobs = some j → j.stage.hasImports = true →
    (seen o disk k).needsInterface = true →
    ∀ e ∈ edgesOf o (seen o disk k), ∃ r, s.cache.outcome? e.target = some (.ok r)

theorem Act.informed_own (h : Act sees s t) (hs : Informed o disk s) {j' : Job}
    (hj' : Table.get? k t.jobs = some j') (hrecord : j'.stage.hasRecord = true) :
    ∃ r, t.cache.outcome? k = some (.ok r) := by
  have kept : ∀ {r}, s.cache.outcome? k = some (.ok r) → ∃ r, t.cache.outcome? k = some (.ok r) :=
    fun hr => ⟨_, h.outcome?_kept hr⟩
  cases h.job_cases hj' with
  | same hj =>
    obtain ⟨r, hr⟩ := hs.own hj hrecord
    exact kept hr
  | new _ _ _ _ e =>
    subst e
    simp [Stage.hasRecord] at hrecord
  | advanced hj advance e =>
    subst e
    cases advance with
    | begin_ | fail => simp [Stage.hasRecord] at hrecord
    | skip _ known | reuse _ known | survey _ known => exact kept known
    | gather stage | link stage | emit stage =>
      obtain ⟨r, hr⟩ := hs.own hj (by simp [stage, Stage.hasRecord])
      exact kept hr

/-- A job goes on to the imports of its file only if they can be named. -/
theorem Act.informed_named (h : Act sees s t) (faithful : Faithful o disk s)
    (hs : Informed o disk s) {j' : Job} (hj' : Table.get? k t.jobs = some j')
    (hrecord : j'.stage.hasRecord = true) (needs : (seen o disk k).needsInterface = true) :
    (o.layout?.bind (·.edges? (seen o disk k))).isSome = true := by
  cases h.job_cases hj' with
  | same hj => exact hs.named hj hrecord needs
  | new _ _ _ _ e =>
    subst e
    simp [Stage.hasRecord] at hrecord
  | advanced hj advance e =>
    subst e
    cases advance with
    | begin_ | fail => simp [Stage.hasRecord] at hrecord
    | skip _ known absent =>
      rw [faithful.seen_eq known] at needs
      simp [Record.needsInterface, absent] at needs
    | reuse _ known _ ready =>
      rw [faithful.seen_eq known, ready] at needs
      simp at needs
    | survey _ known needs hd _ he =>
      obtain ⟨hdrecord, hl, -, -⟩ := draftFor_spec (faithful.drafted known needs hd).2
      rw [hdrecord] at he
      simp [hl, he]
    | gather stage | link stage | emit stage =>
      exact hs.named hj (by simp [stage, Stage.hasRecord]) needs

/-- The loads of a file that have all ended well have left its imports in the cache. -/
theorem Informed.of_loaded (hs : Informed o disk s) {edges : List ImportEdge} {records : List Record}
    (loads : (s.fetchesOf k).map (·.edge) = edges)
    (loaded : Progress.gather ((s.fetchesOf k).map (·.progress)) = some (.ok records)) :
    ∀ e ∈ edges, ∃ r, s.cache.outcome? e.target = some (.ok r) := by
  intro e he
  rw [← loads] at he
  obtain ⟨f, hf, rfl⟩ := List.mem_map.mp he
  have hprogress : f.progress ∈ records.map fun r => Progress.done (.ok r) :=
    Progress.eq_of_gather loaded ▸ List.mem_map_of_mem hf
  obtain ⟨r, -, hr⟩ := List.mem_map.mp hprogress
  exact ⟨r, hs.loads f (List.mem_filter.mp hf).1 _ hr.symm⟩

theorem Act.informed_imports (h : Act sees s t) (faithful : Faithful o disk s)
    (hs : Informed o disk s) {j' : Job} (hj' : Table.get? k t.jobs = some j')
    (himports : j'.stage.hasImports = true) (needs : (seen o disk k).needsInterface = true) :
    ∀ e ∈ edgesOf o (seen o disk k), ∃ r, t.cache.outcome? e.target = some (.ok r) := by
  intro e he
  have kept : (∀ e ∈ edgesOf o (seen o disk k), ∃ r, s.cache.outcome? e.target = some (.ok r)) →
      ∃ r, t.cache.outcome? e.target = some (.ok r) := by
    intro hold
    obtain ⟨r, hr⟩ := hold e he
    exact ⟨r, h.outcome?_kept hr⟩
  cases h.job_cases hj' with
  | same hj => exact kept (hs.imports hj himports needs)
  | new _ _ _ _ e =>
    subst e
    simp [Stage.hasImports] at himports
  | advanced hj advance e =>
    subst e
    cases advance with
    | begin_ | fail | survey => simp [Stage.hasImports] at himports
    | skip _ known absent =>
      rw [faithful.seen_eq known] at needs
      simp [Record.needsInterface, absent] at needs
    | reuse _ known _ ready =>
      rw [faithful.seen_eq known, ready] at needs
      simp at needs
    | gather stage loaded =>
      cases faithful.course_of hj stage with
      | importing _ loads _ => exact kept (hs.of_loaded loads loaded)
    | link stage | emit stage => exact kept (hs.imports hj (by simp [stage, Stage.hasImports]) needs)

theorem Act.informed (h : Act sees s t) (faithful : Faithful o disk s) (hs : Informed o disk s) :
    Informed o disk t where
  own := h.informed_own hs
  named := h.informed_named faithful hs
  imports := h.informed_imports faithful hs
  loads := by
    intro f' hf' out hout
    cases h.fetch_cases hf' with
    | same hf => exact h.outcome?_kept (hs.loads f' hf out hout)
    | waits _ _ _ e =>
      subst e
      simp at hout
    | done _ _ known e =>
      subst e
      obtain rfl := Progress.done.inj hout
      exact h.outcome?_kept known
    | new _ _ _ _ _ _ hnew =>
      obtain ⟨e, -, rfl⟩ := List.mem_map.mp hnew
      simp at hout

/-- What a file whose job ended well has left in the cache. -/
theorem Informed.of_result (hs : Informed o disk s) {a : Option Artifact}
    (h : s.result? k = some (.ok a)) :
    (∃ r, s.cache.outcome? k = some (.ok r)) ∧ ((seen o disk k).needsInterface = true →
      ∀ e ∈ edgesOf o (seen o disk k), ∃ r, s.cache.outcome? e.target = some (.ok r)) := by
  obtain ⟨j, hj, hout⟩ := result?_eq_some h
  have hstage := Job.stage_of_outcome? hout
  exact ⟨hs.own hj (by rw [hstage]; rfl), hs.imports hj (by rw [hstage]; rfl)⟩

/-- What holds of the files from outside, and passes on to the files they use, holds of all
files of a run. -/
theorem Acts.spread {P : Path → Path → Prop} {paths : List Path}
    (outside : ∀ p ∈ paths, ∀ key target root, o.cwd.resolve? p = some key →
      o.targetRoot = some target → targetDirectory? o.cwd target key = some root → P key root)
    (closed : ∀ {k root u}, P k root → Relies o disk k u → P u root)
    (h : Acts (finds disk) ({ options := o : Session }.enter paths) s) : Spread P s := by
  -- A step spreads it only from a faithful state, so both are carried along.
  have hboth : Faithful o disk s ∧ Spread P s := by
    refine h.keeps (I := fun s => Faithful o disk s ∧ Spread P s) ?_ ?_
    · rintro s t ⟨hs, hP⟩ ha
      exact ⟨ha.faithful hs, ha.spread hs closed hP⟩
    · refine ⟨World.faithful_enter o disk paths, ?_, ?_⟩
      · intro q hq hfresh
        obtain ⟨p, hp, rfl⟩ := List.mem_map.mp hq
        rcases rootRequest_cases { options := o } p with
          ⟨f, hf⟩ | ⟨key, target, root, hkey, htarget, hroot, he⟩
        · rw [hf] at hfresh
          simp at hfresh
        · rw [he]
          exact outside p hp key target root hkey htarget hroot
      · intro k j hj
        simp [enter, Table.get?] at hj
  exact hboth.2

end Session

namespace World

open Session Plan Relation

variable {o : Options} {disk : Path → Sighting} {paths : List Path} {w v : World}
  {trace : List Move}

/-- A step is a row of acts on the disk that was found so far, or on that disk with what
lies at a path that was not looked at before. -/
theorem Step.acts_cases {m : Move} (h : Step w m v) (found : Path → Sighting) :
    Acts (finds found) w.session v.session ∨ ∃ key x, w.session.cache.outcome? key = none ∧
      Acts (finds (Function.update found key x)) w.session v.session := by
  have same : ∀ {t}, Session.Step (finds found) w.session m t → Acts (finds found) w.session t :=
    fun ht => ht.acts
  cases h with
  | quick due quick => exact .inl (same (.quick due quick))
  | write due _ _ => exact .inl (same (.write due (.ok ())))
  | refuse due fault => exact .inl (same (.write due (.error fault)))
  | @look key due =>
    cases hk : w.session.cache.outcome? key with
    | some out => exact .inl (acts_look_of_settled hk _)
    | none =>
      have hstep : Session.Step (finds (Function.update found key (w.disk key))) w.session
          (.look key) (w.session.look key (w.disk key)) :=
        .look due (by rw [finds, Function.update_self])
      exact .inr ⟨key, w.disk key, hk, hstep.acts⟩

/-- What the looks of a run found can be put together to one disk. -/
theorem Run.exists_found (h : Run w trace v) : ∃ found, Acts (finds found) w.session v.session := by
  induction h with
  | nil => exact ⟨w.disk, .refl⟩
  | snoc _ hstep ih =>
    obtain ⟨found, hacts⟩ := ih
    rcases hstep.acts_cases found with hstep | ⟨key, x, hk, hstep⟩
    · exact ⟨found, hacts.trans hstep⟩
    · exact ⟨_, (hacts.update hk x).trans hstep⟩

theorem informed_enter (o : Options) (disk : Path → Sighting) (paths : List Path) :
    Informed o disk ({ options := o : Session }.enter paths) where
  own hj := by simp [enter, Table.get?] at hj
  named hj := by simp [enter, Table.get?] at hj
  loads := by simp [enter]
  imports hj := by simp [enter, Table.get?] at hj

/-- What has come about by acts on a disk has grown from its roots there. -/
theorem grown_of_acts {found : Path → Sighting} {s : Session}
    (h : Acts (finds found) ({ options := o : Session }.enter paths) s) :
    Grown o found paths s ∧ Informed o found s := by
  refine h.keeps (I := fun s => Grown o found paths s ∧ Informed o found s) ?_ ?_
  · rintro s t ⟨hgrown, hinformed⟩ ha
    exact ⟨ha.grown hgrown, ha.informed hgrown.faithful hinformed⟩
  · exact ⟨grown_enter o found paths, informed_enter o found paths⟩

/-- Every run has grown from its roots, on the disk that its looks found. -/
theorem Run.exists_grown (h : Run (start o disk paths) trace w) :
    ∃ found, Acts (finds found) ({ options := o : Session }.enter paths) w.session ∧
      Grown o found paths w.session ∧ Informed o found w.session := by
  obtain ⟨found, hacts⟩ := h.exists_found
  exact ⟨found, hacts, grown_of_acts hacts⟩

/-- A run that spares the sources is a row of acts on the disk as it was at the start. -/
theorem Run.acts (h : Run (start o disk paths) trace w) (hw : w.SparesSources) :
    Acts (finds disk) ({ options := o : Session }.enter paths) w.session :=
  h.keeps hw (fun hs ha => hs.tail ha) .refl

end World

end SolidityInterface
