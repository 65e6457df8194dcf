import SolidityInterface.Proofs.Run.Closure

/-
  The results of a run do not depend on the order of its moves. In a run that writes
  over no source the artifact of a file is what the disk at the start, the settings and
  the output roots of the files say (`Faithful.artifact`). The output roots are the
  only part of this that the order of the moves has a say in, and if all roots of a
  run have the same one, so have all files (`Run.rootOf_unique`).
-/

namespace SolidityInterface

/-- Where the interfaces of packages go if a run starts from the given file. -/
def Options.dependencyRoot? (o : Options) (p : Path) : Option Path :=
  (o.cwd.resolve? p).bind fun key => o.targetRoot.bind fun target =>
    targetDirectory? o.cwd target key

theorem Options.dependencyRoot?_eq {o : Options} {p key target root : Path}
    (hkey : o.cwd.resolve? p = some key) (htarget : o.targetRoot = some target)
    (hroot : targetDirectory? o.cwd target key = some root) : o.dependencyRoot? p = some root := by
  simp [dependencyRoot?, hkey, htarget, hroot]

namespace Plan

variable {o : Options} {disk : Path → Sighting}

theorem Needed.perm {ps qs : List Path} (h : ps.Perm qs) {k : Path} (hk : Needed o disk ps k) :
    Needed o disk qs k := by
  induction hk with
  | root hp hkey => exact .root (h.mem_iff.mp hp) hkey
  | used _ ht ih => exact .used ih ht

theorem Needed.exists_root {ps : List Path} {k : Path} (hk : Needed o disk ps k) : ∃ p, p ∈ ps := by
  induction hk with
  | root hp _ => exact ⟨_, hp⟩
  | used _ _ ih => exact ih

theorem artifactOf_congr {roots roots' : Path → Path} {k : Path} (hk : roots k = roots' k)
    (hused : (seen o disk k).needsInterface = true →
      ∀ i ∈ usedOf o disk k, roots i.2.path = roots' i.2.path) :
    artifactOf o disk roots k = artifactOf o disk roots' k := by
  unfold artifactOf
  rw [hk]
  simp only
  split
  · rename_i needs
    split
    · rw [Session.textOf_congr (hused needs)]
    · rfl
  · rfl

end Plan

namespace Session

open Plan

variable {o : Options} {disk : Path → Sighting} {sees : Path → Sighting → Prop} {s t : Session}

/-- Whether an answer to a request from outside is the result of its job. -/
def Final (s : Session) : Prop :=
  ∀ r ∈ s.requests, r.waiter = none → ∀ a, r.progress = .done (.ok a) →
    s.result? r.key = some (.ok a)

/-- Provisional artifacts are for requests of jobs, and never for those from outside. -/
theorem Act.final (h : Act sees s t) (hs : s.Final) : t.Final := by
  intro r' hr' hwaiter a ha
  apply h.result_kept
  cases h.request_cases hr' with
  | same hr => exact hs r' hr hwaiter a ha
  | waits _ _ _ _ _ e =>
    subst e
    simp at ha
  | answered _ _ done e =>
    subst e
    obtain rfl := Progress.done.inj ha
    exact done
  | provided _ _ cycle _ _ e =>
    subst e
    obtain ⟨-, b, hb, -⟩ := cycle
    rw [hb] at hwaiter
    simp at hwaiter
  | lacks _ _ _ _ _ e =>
    subst e
    simp at ha
  | new _ _ _ hnew =>
    obtain ⟨u, -, rfl⟩ := mem_asked hnew
    simp at hwaiter

end Session

namespace World

open Session Plan

variable {o : Options} {disk : Path → Sighting} {paths ps qs : List Path} {w v : World}
  {trace l : List Move} {k p : Path}

theorem Run.final (h : Run (start o disk paths) trace w) (hw : w.SparesSources) :
    w.session.Final := by
  refine h.keeps (I := Session.Final) hw (fun hs ha => ha.final hs) ?_
  intro r hr _ a ha
  obtain ⟨p, -, rfl⟩ := List.mem_map.mp hr
  rcases rootRequest_cases { options := o } p with ⟨f, hf⟩ | ⟨key, target, root, -, -, -, he⟩
  · rw [hf] at ha
    simp at ha
  · rw [he] at ha
    simp at ha

/-- If all roots of a run have the same output root, all its files have that. -/
theorem Run.rootOf_unique (h : Run (start o disk paths) trace w) (hw : w.SparesSources)
    (hsame : ∀ p ∈ paths, ∀ q ∈ paths, o.dependencyRoot? p = o.dependencyRoot? q)
    (hk : Table.has k w.session.jobs = true) (hp : p ∈ paths) :
    o.dependencyRoot? p = some (w.session.rootOf k) := by
  have hspread : Faithful o disk w.session ∧
      Spread (fun _ root => ∀ p ∈ paths, o.dependencyRoot? p = some root) w.session := by
    refine h.keeps (I := fun s => Faithful o disk s ∧
      Spread (fun _ root => ∀ p ∈ paths, o.dependencyRoot? p = some root) s) hw ?_ ?_
    · rintro s t ⟨hs, hP⟩ ha
      exact ⟨ha.faithful hs, ha.spread hs (fun hroot _ => hroot) hP⟩
    · refine ⟨faithful_enter o disk paths, ?_, ?_⟩
      · intro r hr hfresh q hq
        obtain ⟨p, hp, rfl⟩ := List.mem_map.mp hr
        rcases rootRequest_cases { options := o } p with
          ⟨f, hf⟩ | ⟨key, target, root, hkey, htarget, hroot, he⟩
        · rw [hf] at hfresh
          simp at hfresh
        · rw [hsame q hq p hp, he]
          exact Options.dependencyRoot?_eq hkey htarget hroot
      · intro k j hj
        simp [start, enter, Table.get?] at hj
  obtain ⟨j, hj⟩ := Table.has_iff.mp hk
  rw [rootOf_of_get? hj]
  exact hspread.2.job hj p hp

/-- The results of the same file in two runs that end well. -/
theorem Run.result_eq (h : Run (start o disk ps) trace w) (hw : w.SparesSources)
    (hwdone : w.session.Answered) (h' : Run (start o disk qs) l v) (hv : v.SparesSources)
    (hvdone : v.session.Answered) (hperm : ps.Perm qs)
    (hsame : ∀ p ∈ ps, ∀ q ∈ ps, o.dependencyRoot? p = o.dependencyRoot? q)
    {a : Option Artifact} (ha : w.session.result? k = some (.ok a)) :
    v.session.result? k = some (.ok a) := by
  have hsame' : ∀ p ∈ qs, ∀ q ∈ qs, o.dependencyRoot? p = o.dependencyRoot? q := by
    intro p hp q hq
    exact hsame p (hperm.mem_iff.mpr hp) q (hperm.mem_iff.mpr hq)
  have hjob : ∀ {k}, Table.has k w.session.jobs = true → Table.has k v.session.jobs = true := by
    intro k hk
    exact (h'.has_job_iff hv hvdone).mpr (((h.has_job_iff hw hwdone).mp hk).perm hperm)
  have hroots : ∀ {k}, Table.has k w.session.jobs = true →
      w.session.rootOf k = v.session.rootOf k := by
    intro k hk
    obtain ⟨p, hp⟩ := ((h.has_job_iff hw hwdone).mp hk).exists_root
    have hroot := h.rootOf_unique hw hsame hk hp
    have hroot' := h'.rootOf_unique hv hsame' (hjob hk) (hperm.mem_iff.mp hp)
    exact Option.some.inj (hroot.symm.trans hroot')
  obtain ⟨hk, rfl⟩ := (h.faithful hw).artifact ha
  obtain ⟨b, hb⟩ := (h'.grown hv).all_done hvdone (hjob hk)
  obtain ⟨-, rfl⟩ := (h'.faithful hv).artifact hb
  rw [hb]
  congr 2
  refine (artifactOf_congr (hroots hk) ?_).symm
  intro needs i hi
  exact hroots (((h.faithful hw).supplied_of_result ha needs).employed i hi)

theorem Run.mem_writings (h : Run (start o disk ps) trace w) (hw : w.SparesSources)
    (hwdone : w.session.Answered) (h' : Run (start o disk qs) l v) (hv : v.SparesSources)
    (hvdone : v.session.Answered) (hperm : ps.Perm qs)
    (hsame : ∀ p ∈ ps, ∀ q ∈ ps, o.dependencyRoot? p = o.dependencyRoot? q) {x : Writing}
    (hx : x ∈ w.writings) : x ∈ v.writings := by
  obtain ⟨a, ha, hrest⟩ := (h.writings_iff.2 x.source x.output x.text).mp hx
  have ha' := h.result_eq hw hwdone h' hv hvdone hperm hsame ha
  exact (h'.writings_iff.2 x.source x.output x.text).mpr ⟨a, ha', hrest⟩

/-- The answers of a run that ends well, in the order of its roots. -/
theorem Run.result_of_mem_zip (h : Run (start o disk paths) trace w) (hw : w.SparesSources)
    {as : List (Option Artifact)} (hend : w.session.outcome? = some (.ok as)) :
    as.length = paths.length ∧ ∀ p a, (p, a) ∈ paths.zip as →
      ∃ key, o.cwd.resolve? p = some key ∧ w.session.result? key = some (.ok a) := by
  have hanswered := answered_of_outcome hend
  have hprogress := Progress.eq_of_gather hend
  have hkeys := h.rootKeys_eq hw
  unfold rootKeys at hkeys
  generalize hl : w.session.requests.filter (·.waiter.isNone) = requests at hprogress hkeys
  have hlength : requests.length = as.length := by simpa using congrArg List.length hprogress
  have hlength' : requests.length = paths.length := by simpa using congrArg List.length hkeys
  refine ⟨by omega, ?_⟩
  intro p a hmem
  obtain ⟨i, hi⟩ := List.mem_iff_getElem?.mp hmem
  rw [List.getElem?_zip_eq_some] at hi
  obtain ⟨hpi, hai⟩ := hi
  have hlt : i < requests.length := by
    have := (List.getElem?_eq_some_iff.mp hai).1
    omega
  -- The request at the place of the path has its file and the answer.
  have hr := List.getElem?_eq_getElem hlt
  generalize requests[i] = r at hr
  have hkey : r.key = ({ options := o : Session }.rootRequest p).key := by
    have := congrArg (·[i]?) hkeys
    simpa [hr, hpi] using this
  have hdone : r.progress = .done (.ok a) := by
    have := congrArg (·[i]?) hprogress
    simpa [hr, hai] using this
  have hrmem : r ∈ w.session.requests.filter (·.waiter.isNone) := hl ▸ List.mem_of_getElem? hr
  obtain ⟨hrmem, hwaiter⟩ := List.mem_filter.mp hrmem
  have hresult := h.final hw r hrmem (by simpa using hwaiter) a hdone
  have hp : p ∈ paths := List.mem_of_getElem? hpi
  obtain ⟨key, target, root, hresolve, -, -, he⟩ := h.rootRequest_eq hw hanswered hp
  rw [hkey, he] at hresult
  exact ⟨key, hresolve, hresult⟩

/-! ## Results do not depend on the order of the moves -/

/-- Two runs on the same roots, in any two orders of the roots and of the moves, that end
without a failure and write over no source, where all roots have the same output root:
both answer every root with the same artifact, and both write the same interfaces, with
the same texts to the same places. A root that is a contract is answered by the
artifact of an interface that was written. -/
theorem results_do_not_depend_on_order (o : Options) (disk : Path → Sighting) (ps qs : List Path)
    (trace l : List Move) (w v : World) (as bs : List (Option Artifact)) (hperm : ps.Perm qs)
    (hsame : ∀ p ∈ ps, ∀ q ∈ ps, o.dependencyRoot? p = o.dependencyRoot? q)
    (hrun : Run (start o disk ps) trace w) (hend : w.session.outcome? = some (.ok as))
    (hspares : w.SparesSources)
    (hrun' : Run (start o disk qs) l v) (hend' : v.session.outcome? = some (.ok bs))
    (hspares' : v.SparesSources) :
    as.length = ps.length ∧ bs.length = qs.length ∧
    (∀ p a b, (p, a) ∈ ps.zip as → (p, b) ∈ qs.zip bs → a = b) ∧
    (∀ x, x ∈ w.writings ↔ x ∈ v.writings) ∧
    (∀ p a key, (p, a) ∈ ps.zip as → o.cwd.resolve? p = some key →
      (seen o disk key).needsInterface = true →
      ∃ b text, a = some b ∧ b.isEmitted = true ∧ b.text = some text ∧
        ⟨key, b.output, text⟩ ∈ w.writings) := by
  have hdone := answered_of_outcome hend
  have hdone' := answered_of_outcome hend'
  have hsame' : ∀ p ∈ qs, ∀ q ∈ qs, o.dependencyRoot? p = o.dependencyRoot? q := by
    intro p hp q hq
    exact hsame p (hperm.mem_iff.mpr hp) q (hperm.mem_iff.mpr hq)
  obtain ⟨hlength, hresult⟩ := hrun.result_of_mem_zip hspares hend
  obtain ⟨hlength', hresult'⟩ := hrun'.result_of_mem_zip hspares' hend'
  refine ⟨hlength, hlength', ?_, ?_, ?_⟩
  · intro p a b hpa hpb
    obtain ⟨key, hkey, ha⟩ := hresult p a hpa
    obtain ⟨key', hkey', hb⟩ := hresult' p b hpb
    obtain rfl := Option.some.inj (hkey.symm.trans hkey')
    have ha' := hrun.result_eq hspares hdone hrun' hspares' hdone' hperm hsame ha
    exact Except.ok.inj (Option.some.inj (ha'.symm.trans hb))
  · intro x
    constructor
    · exact hrun.mem_writings hspares hdone hrun' hspares' hdone' hperm hsame
    · exact hrun'.mem_writings hspares' hdone' hrun hspares hdone hperm.symm hsame'
  · intro p a key hpa hkey needs
    obtain ⟨key', hkey', ha⟩ := hresult p a hpa
    obtain rfl := Option.some.inj (hkey.symm.trans hkey')
    obtain ⟨b, text, rfl, hb, htext⟩ := (hrun.faithful hspares).written_of_needs ha needs
    exact ⟨b, text, rfl, hb, htext, (hrun.writings_iff.2 key b.output text).mpr
      ⟨b, ha, hb, rfl, htext⟩⟩

/-- Two contracts that import each other: whichever of them is worked on first, and
waits while the other makes do with a provisional artifact, the same interfaces are
written. -/
theorem cycle_partners_write_the_same :
    ∃ w v as bs,
      Run (start Pair.options Pair.disk [Pair.left, Pair.right])
        (Pair.together Pair.left Pair.right) w ∧
      Run (start Pair.options Pair.disk [Pair.right, Pair.left])
        (Pair.together Pair.right Pair.left) v ∧
      w.session.outcome? = some (.ok as) ∧ v.session.outcome? = some (.ok bs) ∧
      w.SparesSources ∧ v.SparesSources ∧
      w.writings ≠ v.writings ∧ ∀ x, x ∈ w.writings ↔ x ∈ v.writings := by
  have hplay : ((start Pair.options Pair.disk [Pair.left, Pair.right]).play
      (Pair.together Pair.left Pair.right)).any (fun w =>
        ((start Pair.options Pair.disk [Pair.right, Pair.left]).play
          (Pair.together Pair.right Pair.left)).any fun v =>
            (w.session.outcome?.any fun out => out.toOption.isSome) &&
            (v.session.outcome?.any fun out => out.toOption.isSome) &&
            decide w.SparesSources && decide v.SparesSources &&
            decide (w.writings ≠ v.writings)) = true := by
    decide +kernel
  obtain ⟨w, hw, h⟩ := (Option.any_eq_true ..).mp hplay
  obtain ⟨v, hv, h⟩ := (Option.any_eq_true ..).mp h
  simp only [Bool.and_eq_true, decide_eq_true_eq] at h
  obtain ⟨⟨⟨⟨hend, hend'⟩, hspares⟩, hspares'⟩, hne⟩ := h
  obtain ⟨out, hout, hok⟩ := (Option.any_eq_true ..).mp hend
  obtain ⟨out', hout', hok'⟩ := (Option.any_eq_true ..).mp hend'
  have hrun := run_of_play hw
  have hrun' := run_of_play hv
  cases out with
  | error f => simp [Except.toOption] at hok
  | ok as =>
    cases out' with
    | error f => simp [Except.toOption] at hok'
    | ok bs =>
      obtain ⟨-, -, -, hwritings, -⟩ := results_do_not_depend_on_order Pair.options Pair.disk
        [Pair.left, Pair.right] [Pair.right, Pair.left] _ _ w v as bs (by decide) (by decide +kernel)
        hrun hout hspares hrun' hout' hspares'
      exact ⟨w, v, as, bs, hrun, hrun', hout, hout', hspares, hspares', hne, hwritings⟩

end World

end SolidityInterface
