import SolidityInterface.Proofs.Run.History

/-
  Failures spread and leave no output. A contract is bound to fail if an import of its
  file cannot be named or loaded, or if it uses a file whose job has failed and which does
  not lead back to it (`Session.Doomed`). That is the opposite of all that its interface is
  made of being there, and everything else follows from it, through the whole life of
  a session:

  1. What is written was complete, so a file that is bound to fail is never written, not
     even late (`Complete.not_doomed`).
  2. A job of such a file does not end well, and as long as it is at work a move is due.
  3. A provisional artifact of such a file goes round a cycle of files in use, and never to
     anyone else.
  4. A failed job stays failed, and it is what every later request is answered with
     (`Session.Refuses`).
-/

namespace SolidityInterface

namespace Session

open Relation Plan

variable {o : Options} {disk : Path → Sighting} {s : Session} {a k : Path} {f : Failure}

/-- Whether the interface of a contract cannot come about: an import cannot be named, or was
loaded in vain, or a file it uses has failed that does not lead back to it. -/
def Doomed (s : Session) (a : Path) : Prop :=
  ∃ r, s.cache.outcome? a = some (.ok r) ∧ r.needsInterface = true ∧
    (s.options.layout?.bind (·.edges? r) = none ∨
      (∃ e ∈ edgesOf s.options r, ∃ f, s.cache.outcome? e.target = some (.error f)) ∨
      ∃ b f, s.Uses a b ∧ s.result? b = some (.error f) ∧ ¬ TransGen s.Uses b a)

/-- Whether every request for a file that is not answered yet is due to be answered by a
failure. -/
def Refuses (s : Session) (k : Path) (f : Failure) : Prop :=
  ∀ i r, s.requests[i]? = some r → r.key = k →
    (r.progress = .fresh → .ask i ∈ s.due ∧
      (s.ask i).requests[i]? = some { r with progress := .done (.error f) }) ∧
    (r.progress = .waiting → .resume i ∈ s.due ∧
      (s.resume i).requests[i]? = some { r with progress := .done (.error f) })

theorem Complete.not_doomed (hs : s.Complete a) : ¬ s.Doomed a := by
  rintro ⟨r, hr, needs, hcases⟩
  obtain ⟨r', hr', hall⟩ := hs
  obtain rfl := (Extends.refl s).record_eq hr' hr
  obtain ⟨hnamed, hloaded, hmet⟩ := hall needs
  rcases hcases with hnone | ⟨e, he, f, hf⟩ | ⟨b, f, huses, hf, hfree⟩
  · simp [hnone] at hnamed
  · obtain ⟨t, ht⟩ := hloaded e he
    simp [ht] at hf
  · rcases hmet b huses with ⟨x, hx⟩ | hleads
    · simp [hx] at hf
    · exact hfree hleads

/-! ## Jobs of files that are bound to fail -/

theorem Orderly.error_of_result (hs : Orderly o disk s) (hdoomed : s.Doomed a)
    {out : Except Failure (Option Artifact)} (h : s.result? a = some out) :
    ∃ f, out = .error f := by
  cases out with
  | error f => exact ⟨f, rfl⟩
  | ok x =>
    have hcomplete := hs.grounded.complete_of_result hs.faithful hs.informed h
    exact absurd hdoomed hcomplete.not_doomed

theorem Orderly.stage_ne_writing (hs : Orderly o disk s) (hdoomed : s.Doomed a) (d : Draft)
    (text : String) : s.stage? a ≠ some (.writing d text) := by
  intro hstage
  obtain ⟨j, hj, hst⟩ := stage?_eq_some hstage
  have hcomplete := hs.grounded.complete hs.faithful hs.informed hj
    (by simp [hst, Stage.hasArtifacts])
  exact hcomplete.not_doomed hdoomed

/-- A job that is at work leaves something to do, and its run has not ended. -/
theorem Orderly.at_work (hs : Orderly o disk s) (hk : Table.has k s.jobs = true)
    (hopen : s.result? k = none) :
    (∃ m, m ∈ s.due) ∧ (∀ as, s.outcome? ≠ some (.ok as)) ∧
      s.abort.result? k = some (.error .cancelled) := by
  refine ⟨hs.safe.exists_due ⟨k, (unfinished_iff hk).mpr hopen⟩, ?_, ?_⟩
  · intro as hend
    obtain ⟨out, hout⟩ := hs.finished_of_outcome hend hk
    rw [hopen] at hout
    simp at hout
  · obtain ⟨j, hj⟩ := Table.has_iff.mp hk
    have hj' : j.outcome? = none := by simpa [result?, hj] using hopen
    rw [result?, get?_abort, hj, Option.map_some, Option.bind_some, Job.cancel_outcome?, hj']
    rfl

/-- An artifact of a file that is bound to fail is a provisional one, for a file in a cycle
with it. -/
theorem Orderly.cycle_of_answered (hs : Orderly o disk s) (hdoomed : s.Doomed a) {r : Request}
    (hr : r ∈ s.requests) (hkey : r.key = a) {x : Option Artifact}
    (hx : r.progress = .done (.ok x)) :
    ∃ c, r.waiter = some c ∧ s.Uses c a ∧ TransGen s.Uses a c := by
  subst hkey
  have failed : ∀ {y}, s.result? r.key ≠ some (.ok y) := by
    intro y hy
    obtain ⟨f, hf⟩ := hs.error_of_result hdoomed hy
    simp at hf
  cases hwaiter : r.waiter with
  | none => exact absurd (hs.final r hr hwaiter x hx) failed
  | some c =>
    refine ⟨c, rfl, hs.grounded.asked r hr c hwaiter, ?_⟩
    rcases hs.grounded.answered r hr c x hwaiter hx with ⟨y, hy⟩ | hleads
    · exact absurd hy failed
    · exact hleads

/-! ## Requests for a file whose job has failed -/

/-- The result of a job is what a request for its file is answered with. -/
theorem refuses_of_result (h : s.result? k = some (.error f)) : s.Refuses k f := by
  intro i r hr hkey
  subst hkey
  have hmodify : ∀ out, (s.requests.modify i fun r => { r with progress := out })[i]?
      = some { r with progress := out } := by
    intro out
    rw [List.getElem?_modify, hr]
    simp
  have hfinished : (Table.get? r.key s.jobs).bind (·.outcome?) = some (.error f) := h
  obtain ⟨waiter, key, root, progress⟩ := r
  refine ⟨?_, ?_⟩
  · rintro rfl
    refine ⟨due_of_request hr rfl, ?_⟩
    unfold ask
    simp only [hr, hfinished]
    exact hmodify _
  · rintro rfl
    refine ⟨due_of_request hr ?_, ?_⟩
    · simp only [requestMove?, hfinished]
      rfl
    · unfold resume
      simp only [hr, hfinished]
      exact hmodify _

end Session

namespace World

open Session Plan Relation

/-! ## A file with a malformed import, and one that uses it -/

namespace Shaken

/-- The file of a contract that uses another. -/
def tower : Path := ⟨.slash, ["A.sol"]⟩

/-- The file of the other, which imports a third. -/
def floor : Path := ⟨.slash, ["B.sol"]⟩

/-- The third, which names no version. -/
def ground : Path := ⟨.slash, ["C.sol"]⟩

/-- A disk with the three. -/
def disk (p : Path) : Sighting :=
  if p = tower then .text "pragma solidity 1;import \x22./B.sol\x22;contract A is B\x7b\x7d"
  else if p = floor then .text "pragma solidity 1;import \x22./C.sol\x22;contract B\x7b\x7d"
  else if p = ground then .text "contract C\x7b\x7d"
  else .absent

/-- The moves of a run on the first, to where it fails. -/
def moves : List Move :=
  [.ask 0, .start tower, .look tower, .receive tower, .fetch 0, .look floor, .obtain 0,
    .gather tower, .ask 1, .start floor, .fetch 1, .look ground, .obtain 1, .gather floor,
    .resume 1, .link tower, .resume 0]

end Shaken

/-! ## Failures spread and leave no output -/

/-- At every moment in the life of a session, for a contract that is bound to fail: it was
never written and is not about to be; its job, if it has one, has failed, or it is still
at work, and then a move is due, the run has not ended well, and if it is given up the
job has failed; an artifact of it was given only to files in a cycle with it; and
once its job has failed, it stays so, and every request is answered by that failure,
whatever happens to the disk and however runs begin and end. -/
theorem failures_spread_and_leave_no_output (o : Options) (disk : Path → Sighting) (w : World)
    (a : Path) (hw : History (blank o disk) w) (hdoomed : w.session.Doomed a) :
    (a ∉ w.writings.map (·.source) ∧ ∀ d text, w.session.stage? a ≠ some (.writing d text)) ∧
    (Table.has a w.session.jobs = true → (∃ f, w.session.result? a = some (.error f)) ∨
      (w.session.result? a = none ∧ (∃ m, m ∈ w.session.due) ∧
        (∀ as, w.session.outcome? ≠ some (.ok as)) ∧
        w.session.abort.result? a = some (.error .cancelled))) ∧
    (∀ r ∈ w.session.requests, r.key = a → ∀ x, r.progress = .done (.ok x) →
      ∃ c, r.waiter = some c ∧ w.session.Uses c a ∧ TransGen w.session.Uses a c) ∧
    ∀ f v, w.session.result? a = some (.error f) → History w v →
      v.session.result? a = some (.error f) ∧ v.session.Refuses a f := by
  obtain ⟨found, hs⟩ := hw.exists_orderly
  refine ⟨⟨?_, hs.stage_ne_writing hdoomed⟩, ?_, ?_, ?_⟩
  · intro hmem
    obtain ⟨x, hx, rfl⟩ := List.mem_map.mp hmem
    exact (hw.complete_of_mem_writings hx).not_doomed hdoomed
  · intro hk
    cases hres : w.session.result? a with
    | none => exact .inr ⟨rfl, hs.at_work hk hres⟩
    | some out =>
      obtain ⟨f, rfl⟩ := hs.error_of_result hdoomed hres
      exact .inl ⟨f, rfl⟩
  · intro r hr hkey x hx
    exact hs.cycle_of_answered hdoomed hr hkey hx
  · intro f v hf hv
    have hkept := hv.result_kept hf
    exact ⟨hkept, refuses_of_result hkept⟩

/-- A contract whose base imports a malformed file: both fail, neither is written, and after
the run was given up the contract is asked for again in vain. -/
theorem tower_falls_with_its_ground :
    ∃ w v f r, History (blank Pair.options Shaken.disk) w ∧
      w.session.Doomed Shaken.floor ∧ w.session.Doomed Shaken.tower ∧
      w.session.result? Shaken.tower = some (.error f) ∧
      Shaken.tower ∉ w.writings.map (·.source) ∧
      History w v ∧ v.session.requests = [r] ∧ r.key = Shaken.tower ∧
      (v.session.ask 0).requests[0]? = some { r with progress := .done (.error f) } := by
  have hplay : ((start Pair.options Shaken.disk [Shaken.tower]).play Shaken.moves).any (fun w =>
      decide (∃ r ∈ w.recordAt? Shaken.tower, ∃ t ∈ w.recordAt? Shaken.floor,
        r.needsInterface = true ∧ t.needsInterface = true ∧
        (∃ e ∈ edgesOf w.session.options r, e.target = Shaken.floor) ∧
        (Outline.ofRecord w.session.options.rawOnly r).usesRecord t = true ∧
        (∃ e ∈ edgesOf w.session.options t, e.target = Shaken.ground) ∧
        (∀ e ∈ edgesOf w.session.options t, e.target = Shaken.ground)) &&
      (w.session.cache.outcome? Shaken.ground).any (·.toOption.isNone) &&
      (w.session.result? Shaken.floor).any (·.toOption.isNone) &&
      (w.session.result? Shaken.tower).any (·.toOption.isNone) &&
      (w.session.rootRequest Shaken.tower).progress.isFresh &&
      decide ((w.session.rootRequest Shaken.tower).key = Shaken.tower)) = true := by
    decide +kernel
  have failed : ∀ {α : Type} {x : Option (Except Failure α)}, x.any (·.toOption.isNone) = true →
      ∃ f, x = some (.error f) := by
    intro α x hx
    rcases x with _ | _ | a
    · simp at hx
    · exact ⟨_, rfl⟩
    · simp [Except.toOption] at hx
  obtain ⟨w, hw, h⟩ := (Option.any_eq_true ..).mp hplay
  simp only [Bool.and_eq_true, decide_eq_true_eq] at h
  obtain ⟨⟨⟨⟨⟨⟨r, hr, t, ht, needs, hneeds, hedge, hused, hdown, honly⟩, hground⟩, hfloor⟩, htower⟩,
    hfresh⟩, hkey⟩ := h
  obtain ⟨g, hg⟩ := failed hground
  obtain ⟨f', hf'⟩ := failed hfloor
  obtain ⟨f, hf⟩ := failed htower
  have hr := recordAt?_eq_some.mp hr
  have ht := recordAt?_eq_some.mp ht
  have hhistory := (history_start _ _ _).trans (run_of_play hw).history
  -- The base uses nothing, since its only import was loaded in vain.
  have hnone : ∀ c, ¬ w.session.Uses Shaken.floor c := by
    rintro c ⟨t', q, ht', -, hq, ⟨e, he, rfl⟩, -⟩
    obtain rfl := (Extends.refl w.session).record_eq ht' ht
    rw [honly e he, hg] at hq
    simp at hq
  have hdoomed : w.session.Doomed Shaken.tower := by
    refine ⟨r, hr, needs, .inr (.inr ⟨Shaken.floor, f', ⟨r, t, hr, needs, ht, hedge, hused⟩, hf', ?_⟩)⟩
    intro hleads
    obtain ⟨c, hc, -⟩ := TransGen.head'_iff.mp hleads
    exact hnone c hc
  have hdoomed' : w.session.Doomed Shaken.floor := by
    obtain ⟨e, he, htarget⟩ := hdown
    exact ⟨t, ht, hneeds, .inr (.inl ⟨e, he, g, htarget ▸ hg⟩)⟩
  obtain ⟨⟨hunwritten, -⟩, -, -, hlater⟩ :=
    failures_spread_and_leave_no_output _ _ w _ hhistory hdoomed
  have hafter : History w { w with
      session := w.session.abort.request Shaken.tower, writings := w.writings ++ [] } :=
    (ReflTransGen.single (.abort [] (by simp))).tail (.request Shaken.tower)
  obtain ⟨-, hrefuses⟩ := hlater f _ hf hafter
  have hfresh : (w.session.rootRequest Shaken.tower).progress = .fresh := by
    cases hp : (w.session.rootRequest Shaken.tower).progress <;> simp_all [Progress.isFresh]
  exact ⟨w, _, f, w.session.rootRequest Shaken.tower, hhistory, hdoomed', hdoomed, hf, hunwritten,
    hafter, rfl, hkey, ((hrefuses 0 _ rfl hkey).1 hfresh).2⟩

end World

end SolidityInterface
