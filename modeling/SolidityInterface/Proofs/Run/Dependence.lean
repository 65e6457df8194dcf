import SolidityInterface.Proofs.Run.Outputs

/-
  Interfaces are written in the order in which they depend on each other. A file uses
  another if it is a contract, imports the other and refers to something that the other
  declares; `Session.Uses` says so of the records that a session has loaded, which are
  never loaded again.

  1. The wait graph follows the files in use, so a file that is found to wait on a
     requester leads back to it by files in use, and a request is answered by the result
     of its job or across such a cycle (`Session.Grounded`, kept by every act).
  2. A job that has put its interface together therefore has seen every file it uses end
     well, unless that file leads back to it (`Grounded.complete`).
  3. At the moment in which an interface is written, those of the files it uses are
     written already (`World.used_interfaces_are_written_first`).
-/

namespace SolidityInterface

/-- Whether a stage comes after the artifacts of the used imports were received, and is no
failure. -/
def Stage.hasArtifacts : Stage → Bool
  | .queued | .loading | .importing _ | .linking _ _ | .finished (.error _) => false
  | .writing _ _ | .finished (.ok _) => true

namespace Session

open Relation Plan

variable {o : Options} {disk : Path → Sighting} {sees : Path → Sighting → Prop}
  {s t : Session} {a b k : Path}

/-- Whether the interface of a file uses another, by the records that were loaded. -/
def Uses (s : Session) (a b : Path) : Prop :=
  ∃ r t, s.cache.outcome? a = some (.ok r) ∧ r.needsInterface = true ∧
    s.cache.outcome? b = some (.ok t) ∧ (∃ e ∈ edgesOf s.options r, e.target = b) ∧
    (Outline.ofRecord s.options.rawOnly r).usesRecord t = true

/-- Whether what a file needs of another is there: the job of the other has ended well, or
files in use lead from the other back to the file. -/
def Met (s : Session) (a b : Path) : Prop :=
  (∃ x, s.result? b = some (.ok x)) ∨ TransGen s.Uses b a

/-- Whether all that the interface of a file is made of is there: its imports were named and
loaded, and what it needs of the files it uses is met. -/
def Complete (s : Session) (k : Path) : Prop :=
  ∃ r, s.cache.outcome? k = some (.ok r) ∧ (r.needsInterface = true →
    (s.options.layout?.bind (·.edges? r)).isSome = true ∧
      (∀ e ∈ edgesOf s.options r, ∃ t, s.cache.outcome? e.target = some (.ok t)) ∧
      ∀ b, s.Uses k b → s.Met k b)

/-- Whether a session knows at least what another knows. -/
structure Extends (s t : Session) : Prop where
  options : t.options = s.options
  records : ∀ {k out}, s.cache.outcome? k = some out → t.cache.outcome? k = some out
  results : ∀ {k x}, s.result? k = some (.ok x) → t.result? k = some (.ok x)

theorem Act.extends (h : Act sees s t) : Extends s t where
  options := h.options_eq
  records hk := h.outcome?_kept hk
  results hk := h.result_kept hk

theorem Extends.trans {u : Session} (h : Extends s t) (h' : Extends t u) : Extends s u where
  options := h'.options.trans h.options
  records hk := h'.records (h.records hk)
  results hk := h'.results (h.results hk)

theorem Extends.refl (s : Session) : Extends s s := ⟨rfl, id, id⟩

theorem Extends.record_eq (h : Extends s t) {r q : Record} (hr : s.cache.outcome? k = some (.ok r))
    (hq : t.cache.outcome? k = some (.ok q)) : r = q :=
  Except.ok.inj (Option.some.inj ((h.records hr).symm.trans hq))

theorem Extends.uses (h : Extends s t) (hu : s.Uses a b) : t.Uses a b := by
  obtain ⟨r, q, hr, needs, hq, hedge, hused⟩ := hu
  rw [← h.options] at hedge hused
  exact ⟨r, q, h.records hr, needs, h.records hq, hedge, hused⟩

theorem Extends.leads (h : Extends s t) (hu : TransGen s.Uses a b) : TransGen t.Uses a b :=
  TransGen.mono (fun _ _ => h.uses) a b hu

theorem Extends.met (h : Extends s t) (hm : s.Met a b) : t.Met a b := by
  rcases hm with ⟨x, hx⟩ | hleads
  · exact .inl ⟨x, h.results hx⟩
  · exact .inr (h.leads hleads)

/-- What a file uses is known once its imports were loaded. -/
theorem Complete.uses_before (hs : s.Complete a) (h : Extends s t) (hu : t.Uses a b) :
    s.Uses a b := by
  obtain ⟨r, hr, hall⟩ := hs
  obtain ⟨r', q, hr', needs, hq, ⟨e, he, rfl⟩, hused⟩ := hu
  obtain rfl := h.record_eq hr hr'
  rw [h.options] at he hused
  obtain ⟨q', hq'⟩ := (hall needs).2.1 e he
  obtain rfl := h.record_eq hq' hq
  exact ⟨r, q', hr, needs, hq', ⟨e, he, rfl⟩, hused⟩

theorem Complete.extends (hs : s.Complete a) (h : Extends s t) : t.Complete a := by
  obtain ⟨r, hr, hall⟩ := hs
  refine ⟨r, h.records hr, fun needs => ⟨h.options ▸ (hall needs).1, ?_, ?_⟩⟩
  · intro e he
    rw [h.options] at he
    obtain ⟨q, hq⟩ := (hall needs).2.1 e he
    exact ⟨q, h.records hq⟩
  · intro b hu
    exact h.met ((hall needs).2.2 b (Complete.uses_before ⟨r, hr, hall⟩ h hu))

/-! ## Files in use, and what the disk says -/

/-- What the loaded records say is what the disk says. -/
theorem Uses.relies (h : s.Uses a b) (hs : Faithful o disk s) : Relies o disk a b := by
  obtain ⟨r, q, hr, needs, hq, ⟨e, he, rfl⟩, hused⟩ := h
  have hseen := hs.seen_eq hr
  have hseen' := hs.seen_eq hq
  rw [hs.options] at he hused
  refine ⟨hseen ▸ needs, (e, q), ?_, rfl⟩
  rw [usedOf, usedImports, List.mem_filter, importsOf, hseen]
  exact ⟨List.mem_map.mpr ⟨e, he, by rw [hseen']⟩, hused⟩

/-- What the disk says is what the loaded records say, once the imports were loaded. -/
theorem Faithful.uses (hs : Faithful o disk s) (hown : ∃ r, s.cache.outcome? a = some (.ok r))
    (himports : ∀ e ∈ edgesOf o (seen o disk a), ∃ t, s.cache.outcome? e.target = some (.ok t))
    (h : Relies o disk a b) : s.Uses a b := by
  obtain ⟨r, hr⟩ := hown
  obtain ⟨needs, i, hi, rfl⟩ := h
  obtain ⟨hrecord, hedge⟩ := usedOf_target hi
  obtain ⟨q, hq⟩ := himports i.1 hedge
  have hused : (Outline.ofRecord o.rawOnly (seen o disk a)).usesRecord i.2 = true :=
    (List.mem_filter.mp hi).2
  rw [hs.seen_eq hr] at needs hedge hused
  rw [hrecord, hs.seen_eq hq] at hused
  rw [← hs.options] at hedge hused
  exact ⟨r, q, hr, needs, hq, ⟨i.1, hedge, rfl⟩, hused⟩

theorem Informed.uses (hi : Informed o disk s) (hs : Faithful o disk s) {x : Option Artifact}
    (hx : s.result? a = some (.ok x)) (h : Relies o disk a b) : s.Uses a b := by
  obtain ⟨hown, himports⟩ := hi.of_result hx
  exact hs.uses hown (himports h.1) h

/-! ## Waiting and answers follow the files in use -/

/-- A session whose wait graph and requests follow the files in use, and whose answers were
results, or went round a cycle of files in use. -/
structure Grounded (o : Options) (disk : Path → Sighting) (s : Session) : Prop where
  edge : ∀ {a b}, s.waiting.Edge a b → s.Uses a b
  asked : ∀ r ∈ s.requests, ∀ a, r.waiter = some a → s.Uses a r.key
  answered : ∀ r ∈ s.requests, ∀ a x, r.waiter = some a → r.progress = .done (.ok x) →
    s.Met a r.key
  made : ∀ {k j}, Table.get? k s.jobs = some j → j.stage.hasArtifacts = true →
    ∀ b, Relies o disk k b → s.Met k b

/-- A file that waits on the waiter of a request leads back to it. -/
theorem Grounded.leads_of_waitsOn (hs : Grounded o disk s) {r : Request} (hr : r ∈ s.requests)
    (ha : r.waiter = some a) (h : s.waiting.waitsOn r.key a = true) : TransGen s.Uses r.key a := by
  have hreach : ReflTransGen s.Uses r.key a :=
    ReflTransGen.mono (fun _ _ => hs.edge) r.key a (Waiting.waitsOn_iff.mp h)
  rcases reflTransGen_iff_eq_or_transGen.mp hreach with heq | hleads
  · -- A file that asks for itself uses itself.
    have hself := hs.asked r hr a ha
    rw [heq] at hself ⊢
    exact .single hself
  · exact hleads

/-- What the requests of a job were answered with is all that its interface relies on. -/
theorem Grounded.met_of_answered (hs : Grounded o disk s) {artifacts : List (Option Artifact)}
    (asks : (s.requestsOf k).map (·.key) = (usedOf o disk k).map (·.2.path))
    (answered : Progress.gather ((s.requestsOf k).map (·.progress)) = some (.ok artifacts))
    (h : Relies o disk k b) : s.Met k b := by
  obtain ⟨-, i, hi, rfl⟩ := h
  have hkey : i.1.target ∈ (s.requestsOf k).map (·.key) := by
    rw [asks, ← usedOf_path hi]
    exact List.mem_map_of_mem hi
  obtain ⟨r, hr, hrkey⟩ := List.mem_map.mp hkey
  have hprogress : r.progress ∈ artifacts.map fun a => Progress.done (.ok a) :=
    Progress.eq_of_gather answered ▸ List.mem_map_of_mem hr
  obtain ⟨x, -, hx⟩ := List.mem_map.mp hprogress
  obtain ⟨hmem, hwaiter⟩ := List.mem_filter.mp hr
  rw [← hrkey]
  exact hs.answered r hmem k x (by simpa using hwaiter) hx.symm

theorem Act.grounded_asked (h : Act sees s t) (faithful : Faithful o disk s)
    (informed : Informed o disk s) (hs : Grounded o disk s) {r' : Request}
    (hr' : r' ∈ t.requests) (ha : r'.waiter = some a) : t.Uses a r'.key := by
  apply h.extends.uses
  cases h.request_cases hr' with
  | same hr => exact hs.asked r' hr a ha
  | waits hr _ _ _ _ e | answered hr _ _ e | provided hr _ _ _ _ e | lacks hr _ _ _ _ e =>
    subst e
    exact hs.asked _ hr a ha
  | new hj stage loaded hnew =>
    -- The loads of the job have ended, so the records that show the use are in the cache.
    obtain ⟨drafted, hused, -, -⟩ := faithful.chosen_eq hj stage loaded
    obtain ⟨i, hi, rfl⟩ := mem_asked (hused ▸ hnew)
    obtain rfl := Option.some.inj ha
    have hown := informed.own hj (by simp [stage, Stage.hasRecord])
    cases faithful.course_of hj stage with
    | importing _ loads _ =>
      exact faithful.uses hown (informed.of_loaded loads loaded)
        ⟨drafted.1, i, hi, (usedOf_path hi).symm⟩

theorem Act.grounded_answered (h : Act sees s t) (hs : Grounded o disk s) {r' : Request}
    (hr' : r' ∈ t.requests) (ha : r'.waiter = some a) {x : Option Artifact}
    (hx : r'.progress = .done (.ok x)) : t.Met a r'.key := by
  cases h.request_cases hr' with
  | same hr => exact h.extends.met (hs.answered r' hr a x ha hx)
  | waits _ _ _ _ _ e | lacks _ _ _ _ _ e =>
    subst e
    simp at hx
  | answered _ _ done e =>
    subst e
    obtain rfl := Progress.done.inj hx
    exact .inl ⟨x, h.result_kept done⟩
  | provided hr _ cycle _ _ e =>
    -- The search met the waiter, and every edge it took is one of files in use.
    obtain ⟨-, c, hc, hcycle⟩ := cycle
    have hleads := h.extends.leads (hs.leads_of_waitsOn hr hc hcycle)
    subst e
    obtain rfl := Option.some.inj (hc.symm.trans ha)
    exact .inr hleads
  | new _ _ _ hnew =>
    obtain ⟨u, -, rfl⟩ := mem_asked hnew
    simp at hx

theorem Act.grounded_made (h : Act sees s t) (faithful : Faithful o disk s)
    (hs : Grounded o disk s) {j' : Job} (hj' : Table.get? k t.jobs = some j')
    (hstage : j'.stage.hasArtifacts = true) (hrelies : Relies o disk k b) : t.Met k b := by
  apply h.extends.met
  cases h.job_cases hj' with
  | same hj => exact hs.made hj hstage b hrelies
  | new _ _ _ _ e =>
    subst e
    simp [Stage.hasArtifacts] at hstage
  | advanced hj advance e =>
    subst e
    cases advance with
    | begin_ | fail | survey | gather => simp [Stage.hasArtifacts] at hstage
    | skip _ known absent =>
      have needs := hrelies.1
      rw [faithful.seen_eq known] at needs
      simp [Record.needsInterface, absent] at needs
    | reuse _ known _ ready =>
      have needs := hrelies.1
      rw [faithful.seen_eq known, ready] at needs
      simp at needs
    | link stage answered =>
      cases faithful.course_of hj stage with
      | linking _ _ used asks =>
        subst used
        exact hs.met_of_answered asks answered hrelies
    | emit stage => exact hs.made hj (by simp [stage, Stage.hasArtifacts]) b hrelies

theorem Act.grounded (h : Act sees s t) (faithful : Faithful o disk s)
    (informed : Informed o disk s) (hs : Grounded o disk s) : Grounded o disk t where
  edge he := by
    rcases h.edge_cases he with he | ⟨r, hr, ha, rfl⟩
    · exact h.extends.uses (hs.edge he)
    · exact h.extends.uses (hs.asked r hr _ ha)
  asked _ hr' _ ha := h.grounded_asked faithful informed hs hr' ha
  answered _ hr' _ _ ha hx := h.grounded_answered hs hr' ha hx
  made hj' hstage _ hrelies := h.grounded_made faithful hs hj' hstage hrelies

/-- A job that has its artifacts has seen all that its file imports and uses. -/
theorem Grounded.complete (hs : Grounded o disk s) (faithful : Faithful o disk s)
    (informed : Informed o disk s) {j : Job} (hj : Table.get? k s.jobs = some j)
    (hstage : j.stage.hasArtifacts = true) : s.Complete k := by
  obtain ⟨hrecord, himports⟩ : j.stage.hasRecord = true ∧ j.stage.hasImports = true := by
    cases hst : j.stage with
    | finished out => cases out <;> simp_all [Stage.hasArtifacts, Stage.hasRecord, Stage.hasImports]
    | queued | loading | importing | linking | writing =>
      simp_all [Stage.hasArtifacts, Stage.hasRecord, Stage.hasImports]
  obtain ⟨r, hr⟩ := informed.own hj hrecord
  have hseen := faithful.seen_eq hr
  refine ⟨r, hr, fun needs => ⟨?_, ?_, ?_⟩⟩
  · rw [faithful.options, ← hseen]
    exact informed.named hj hrecord (hseen ▸ needs)
  · intro e he
    rw [faithful.options, ← hseen] at he
    exact informed.imports hj himports (hseen ▸ needs) e he
  · intro b hu
    exact hs.made hj hstage b (hu.relies faithful)

theorem Grounded.complete_of_result (hs : Grounded o disk s) (faithful : Faithful o disk s)
    (informed : Informed o disk s) {x : Option Artifact} (hx : s.result? k = some (.ok x)) :
    s.Complete k := by
  obtain ⟨j, hj, hout⟩ := result?_eq_some hx
  exact hs.complete faithful informed hj (by rw [Job.stage_of_outcome? hout]; rfl)

end Session

namespace World

open Session Plan Relation

/-! ## A contract beside two that import each other -/

namespace Vault

/-- The file of a contract outside a cycle. -/
def vault : Path := ⟨.slash, ["V.sol"]⟩

/-- A disk with a contract that inherits from one of two that import each other. -/
def disk (p : Path) : Sighting :=
  if p = vault then .text "pragma solidity 1;import \x22./A.sol\x22;contract V is A\x7b\x7d"
  else Pair.disk p

/-- The moves of a run on that contract. -/
def moves : List Move :=
  [.ask 0, .start vault, .look vault, .receive vault, .fetch 0, .look Pair.left, .obtain 0,
    .gather vault, .ask 1, .start Pair.left, .fetch 1, .look Pair.right, .obtain 1,
    .gather Pair.left, .ask 2, .start Pair.right, .fetch 2, .gather Pair.right, .ask 3,
    .link Pair.right, .write Pair.right, .resume 2, .link Pair.left, .write Pair.left, .resume 1,
    .link vault, .write vault, .resume 0]

end Vault

variable {o : Options} {disk : Path → Sighting} {paths : List Path} {w v : World}
  {trace : List Move} {m : Move} {k : Path} {y : Writing}

theorem grounded_enter (o : Options) (disk : Path → Sighting) (paths : List Path) :
    Grounded o disk ({ options := o : Session }.enter paths) := by
  have root : ∀ r ∈ ({ options := o : Session }.enter paths).requests, r.waiter = none := by
    intro r hr
    obtain ⟨p, -, rfl⟩ := List.mem_map.mp hr
    exact (rootRequest_waiter _ p).1
  constructor
  case edge =>
    intro a b he
    simp [enter, Waiting.Edge] at he
  case asked =>
    intro r hr a ha
    simp [root r hr] at ha
  case answered =>
    intro r hr a x ha
    simp [root r hr] at ha
  case made =>
    intro k j hj
    simp [enter, Table.get?] at hj

/-- Every run is grounded, on the disk that its looks found. -/
theorem Run.exists_grounded (h : Run (start o disk paths) trace w) :
    ∃ found, Grown o found paths w.session ∧ Informed o found w.session ∧
      Grounded o found w.session := by
  obtain ⟨found, hacts, hgrown, hinformed⟩ := h.exists_grown
  refine ⟨found, hgrown, hinformed, ?_⟩
  have hall : Faithful o found w.session ∧ Informed o found w.session ∧
      Grounded o found w.session := by
    refine hacts.keeps (I := fun s => Faithful o found s ∧ Informed o found s ∧
      Grounded o found s) ?_ ?_
    · rintro s t ⟨hf, hi, hg⟩ ha
      exact ⟨ha.faithful hf, ha.informed hf hi, ha.grounded hf hi hg⟩
    · exact ⟨faithful_enter o found paths, informed_enter o found paths,
        grounded_enter o found paths⟩
  exact hall.2.2

/-! ## The moment in which an interface is written -/

theorem Step.extends (h : Step w m v) : Extends w.session v.session :=
  h.session.keeps (I := Extends w.session) (fun hs ha => hs.trans ha.extends) (.refl _)

/-- An interface that a run has written was the last one at the moment after its write. -/
theorem Run.exists_moment (h : Run w trace v) (hold : y ∉ w.writings) (hy : y ∈ v.writings) :
    ∃ l u before, Run w l u ∧ u.writings = before ++ [y] ∧ u.writings <+: v.writings ∧
      Extends u.session v.session := by
  induction h with
  | nil => exact absurd hy hold
  | @snoc trace v v' m hrun hstep ih =>
    have earlier : y ∈ v.writings → v.writings <+: v'.writings →
        ∃ l u before, Run w l u ∧ u.writings = before ++ [y] ∧ u.writings <+: v'.writings ∧
          Extends u.session v'.session := by
      intro hy hpre
      obtain ⟨l, u, before, hu, hlast, hle, hext⟩ := ih hy
      exact ⟨l, u, before, hu, hlast, hle.trans hpre, hext.trans hstep.extends⟩
    rcases hstep.world_cases with ⟨hw, -, -⟩ | ⟨k, j, -, hw, -, -, -⟩ | ⟨k, j, d, text, -, hw, -, -, -⟩
    · rw [hw] at hy
      exact earlier hy (hw ▸ List.prefix_rfl)
    · rw [hw] at hy
      exact earlier hy (hw ▸ List.prefix_rfl)
    · rw [hw] at hy
      rcases List.mem_append.mp hy with hy | hy
      · exact earlier hy (hw ▸ List.prefix_append ..)
      · obtain rfl := List.mem_singleton.mp hy
        exact ⟨_, v', v.writings, hrun.snoc hstep, hw, List.prefix_rfl, .refl _⟩

/-- A file whose job ended well in a run, and whose record asks for an interface, was
written. -/
theorem Run.exists_writing (h : Run (start o disk paths) trace w) {z : Option Artifact}
    {r : Record} (hz : w.session.result? k = some (.ok z))
    (hr : w.session.cache.outcome? k = some (.ok r)) (needs : r.needsInterface = true) :
    ∃ x ∈ w.writings, x.source = k := by
  obtain ⟨found, hgrown, -, -⟩ := h.exists_grounded
  have hneeds : (seen o found k).needsInterface = true := by
    rw [hgrown.faithful.seen_eq hr]
    exact needs
  obtain ⟨b, text, rfl, hb, htext⟩ := hgrown.faithful.written_of_needs hz hneeds
  exact ⟨⟨k, b.output, text⟩, (h.writings_iff.2 _ _ _).mpr ⟨b, hz, hb, rfl, htext⟩, rfl⟩

/-! ## Interfaces are written after those that they use -/

/-- In a run that ends without a failure, in whatever order its moves come: a contract that
uses another, to which no files in use lead back, is written after that other. What
was written is listed in the order of the writes, and each source once. -/
theorem used_interfaces_are_written_first (o : Options) (disk : Path → Sighting)
    (paths : List Path) (trace : List Move) (w : World) (as : List (Option Artifact))
    (hrun : Run (start o disk paths) trace w) (hend : w.session.outcome? = some (.ok as)) :
    w.session.written = w.writings.map (·.output) ∧ (w.writings.map (·.source)).Nodup ∧
    ∀ a b, Table.has a w.session.jobs = true → w.session.Uses a b →
      (∃ t, w.recordAt? b = some t ∧ t.needsInterface = true) →
      ¬ TransGen w.session.Uses b a →
      ∃ x y, x.source = b ∧ y.source = a ∧ [x, y].Sublist w.writings := by
  refine ⟨hrun.written_eq, hrun.writings_iff.1, ?_⟩
  rintro a b hjob huses ⟨t, ht, hneeds⟩ hfree
  obtain ⟨found, hgrown, -, -⟩ := hrun.exists_grounded
  obtain ⟨z, hz⟩ := hgrown.all_done (answered_of_outcome hend) hjob
  obtain ⟨r, -, hr, needs, -⟩ := id huses
  obtain ⟨y, hy, rfl⟩ := hrun.exists_writing hz hr needs
  -- The state right after the interface of the user was written.
  obtain ⟨l, u, before, hrun', hlast, hpre, hext⟩ :=
    hrun.exists_moment (by simp [start]) hy
  obtain ⟨found', hgrown', hinformed', hgrounded'⟩ := hrun'.exists_grounded
  have hyu : y ∈ u.writings := by simp [hlast]
  obtain ⟨c, hc, -⟩ := (hrun'.writings_iff.2 y.source y.output y.text).mp hyu
  have hcomplete := hgrounded'.complete_of_result hgrown'.faithful hinformed' hc
  have huses' := hcomplete.uses_before hext huses
  obtain ⟨r', hr', hall⟩ := hcomplete
  obtain rfl := hext.record_eq hr' hr
  rcases (hall needs).2.2 b huses' with ⟨z', hz'⟩ | hleads
  · obtain ⟨-, q, -, -, hq, -⟩ := huses'
    obtain rfl := hext.record_eq hq (recordAt?_eq_some.mp ht)
    obtain ⟨x, hx, rfl⟩ := hrun'.exists_writing hz' hq hneeds
    have hbefore : x ∈ before := by
      rw [hlast] at hx
      rcases List.mem_append.mp hx with hx | hx
      · exact hx
      · obtain rfl := List.mem_singleton.mp hx
        exact absurd (.single huses) hfree
    refine ⟨x, y, rfl, rfl, ?_⟩
    calc [x, y].Sublist (before ++ [y]) := (List.singleton_sublist.mpr hbefore).append_right [y]
      _ = u.writings := hlast.symm
      List.Sublist _ w.writings := hpre.sublist
  · exact absurd (hext.leads hleads) hfree

/-- A contract that inherits from one of two in a cycle is written after that one. -/
theorem vault_is_written_after_its_base :
    ∃ w as x y, Run (start Pair.options Vault.disk [Vault.vault]) Vault.moves w ∧
      w.session.outcome? = some (.ok as) ∧ w.session.Uses Vault.vault Pair.left ∧
      ¬ TransGen w.session.Uses Pair.left Vault.vault ∧
      x.source = Pair.left ∧ y.source = Vault.vault ∧ [x, y].Sublist w.writings := by
  have hplay : ((start Pair.options Vault.disk [Vault.vault]).play Vault.moves).any (fun w =>
      (w.session.outcome?.any fun out => out.toOption.isSome) &&
      decide (Table.has Vault.vault w.session.jobs = true ∧
        ∃ r ∈ w.recordAt? Vault.vault, ∃ t ∈ w.recordAt? Pair.left, ∃ q ∈ w.recordAt? Pair.right,
          r.needsInterface = true ∧ t.needsInterface = true ∧
          (∃ e ∈ edgesOf w.session.options r, e.target = Pair.left) ∧
          (Outline.ofRecord w.session.options.rawOnly r).usesRecord t = true ∧
          (∀ e ∈ edgesOf w.session.options t, e.target = Pair.right) ∧
          ∀ e ∈ edgesOf w.session.options q, e.target = Pair.left)) = true := by
    decide +kernel
  obtain ⟨w, as, hrun, hend, hcheck⟩ := exists_run_of_any hplay
  obtain ⟨hjob, r, hr, t, ht, q, hq, needs, hneeds, hedge, hused, hleft, hright⟩ :=
    of_decide_eq_true hcheck
  have huses : w.session.Uses Vault.vault Pair.left :=
    ⟨r, t, recordAt?_eq_some.mp hr, needs, recordAt?_eq_some.mp ht, hedge, hused⟩
  -- Files in use lead from the one of the two to the other and back, and never out.
  have hclosed : ∀ c, TransGen w.session.Uses Pair.left c → c = Pair.left ∨ c = Pair.right := by
    have hstep : ∀ {b c}, b = Pair.left ∨ b = Pair.right → w.session.Uses b c →
        c = Pair.left ∨ c = Pair.right := by
      rintro b c (rfl | rfl) ⟨r', -, hr', -, -, ⟨e, he, rfl⟩, -⟩
      · obtain rfl := Option.some.inj ((recordAt?_eq_some.mpr hr').symm.trans ht)
        exact .inr (hleft e he)
      · obtain rfl := Option.some.inj ((recordAt?_eq_some.mpr hr').symm.trans hq)
        exact .inl (hright e he)
    intro c hc
    induction hc with
    | single h => exact hstep (.inl rfl) h
    | tail _ h ih => exact hstep ih h
  have hfree : ¬ TransGen w.session.Uses Pair.left Vault.vault := by
    intro h
    have hcases := hclosed _ h
    revert hcases
    decide
  obtain ⟨-, -, hall⟩ := used_interfaces_are_written_first _ _ _ _ w as hrun hend
  obtain ⟨x, y, hx, hy, hsub⟩ := hall _ _ hjob huses ⟨t, ht, hneeds⟩ hfree
  exact ⟨w, as, x, y, hrun, hend, huses, hfree, hx, hy, hsub⟩

end World

end SolidityInterface
