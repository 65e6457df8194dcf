import SolidityInterface.Proofs.Run.History
import Mathlib

/-
  The schedule makes runs. Whatever a host answers, each move of the schedule is a step, or
  is not due and changes nothing. What is proved of all runs and of all histories is
  therefore true of what the schedule comes to.

  1. On any host, also one whose files others change, the schedule makes a history. Each part
     of it keeps to what a history can come to, whatever the answers are
     (`SatisfiesM`, `World.run_makes_history`).
  2. On a host that keeps a disk the schedule makes a run, and the disk of the host is at
     any time the one of the run. It is enough that this holds of the paths that a
     run looks at, which are all resolved (`World.run_makes_run`).
-/

namespace SolidityInterface

namespace Session

open Relation

variable {s t : Session} {sees : Path → Sighting → Prop}

/-! ## Moves that are not due -/

theorem due_of_ask {i : Nat} (h : s.ask i ≠ s) : .ask i ∈ s.due := by
  unfold ask at h
  split at h
  · rename_i waiter key root hr
    exact due_of_request hr rfl
  · exact absurd rfl h

theorem due_of_resume {i : Nat} (h : s.resume i ≠ s) : .resume i ∈ s.due := by
  unfold resume at h
  split at h
  · rename_i waiter key root hr
    split at h
    · rename_i out done
      exact due_of_request hr (by simp [requestMove?, done])
    · exact absurd rfl h
  · exact absurd rfl h

theorem due_of_fetching {i : Nat} (h : s.fetch i ≠ s) : .fetch i ∈ s.due := by
  unfold fetch at h
  split at h
  · rename_i importer edge hf
    exact due_of_fetch hf rfl
  · exact absurd rfl h

theorem due_of_obtain {i : Nat} (h : s.obtain i ≠ s) : .obtain i ∈ s.due := by
  unfold Session.obtain at h
  split at h
  · rename_i importer edge hf
    split at h
    · rename_i out known
      exact due_of_fetch hf (by simp [fetchMove?, known])
    · exact absurd rfl h
  · exact absurd rfl h

theorem due_of_start {k : Path} (h : s.start k ≠ s) : .start k ∈ s.due := by
  unfold start at h
  split at h
  · rename_i hs
    obtain ⟨j, hj, hstage⟩ := stage?_eq_some hs
    exact due_of_job hj (by simp [jobMove?, hstage])
  · exact absurd rfl h

theorem due_of_receive {k : Path} (h : s.receive k ≠ s) : .receive k ∈ s.due := by
  unfold receive at h
  split at h
  · rename_i root hj
    split at h
    · rename_i out known
      exact due_of_job hj (by simp [jobMove?, known])
    · exact absurd rfl h
  · exact absurd rfl h

theorem due_of_gather {k : Path} (h : s.gather k ≠ s) : .gather k ∈ s.due := by
  unfold gather at h
  split at h
  · rename_i root d hj
    split at h
    · exact absurd rfl h
    · rename_i f hg
      exact due_of_job hj (by simp [jobMove?, hg])
    · rename_i records hg
      exact due_of_job hj (by simp [jobMove?, hg])
  · exact absurd rfl h

theorem due_of_link {k : Path} (h : s.link k ≠ s) : .link k ∈ s.due := by
  unfold link at h
  split at h
  · rename_i d imports hs
    obtain ⟨j, hj, hstage⟩ := stage?_eq_some hs
    split at h
    · exact absurd rfl h
    · rename_i f hg
      exact due_of_job hj (by simp [jobMove?, hstage, hg])
    · rename_i artifacts hg
      exact due_of_job hj (by simp [jobMove?, hstage, hg])
  · exact absurd rfl h

/-- A move that changes something is due, if it does not wait for the disk. -/
theorem due_of_quickly {move : Move} (h : s.quickly move ≠ s) : move ∈ s.due := by
  cases move with
  | ask i => exact due_of_ask h
  | resume i => exact due_of_resume h
  | start k => exact due_of_start h
  | receive k => exact due_of_receive h
  | gather k => exact due_of_gather h
  | link k => exact due_of_link h
  | fetch i => exact due_of_fetching h
  | obtain i => exact due_of_obtain h
  | look k | write k => exact absurd rfl h

/-! ## The moves of the schedule -/

/-- What the schedule does after a round, with some rounds left. -/
def conclude {m : Type → Type} [Monad m] [Host m] (n : Nat) (s : Session) :
    m (Except Failure (List (Option Artifact)) × Session) :=
  match s.outcome? with
  | some (.ok artifacts) => return (.ok artifacts, s.leave)
  | some (.error f) => return (.error f, ← s.giveUp)
  | none => drive n s

theorem drive_succ {m : Type → Type} [Monad m] [Host m] (n : Nat) (s : Session) :
    drive (n + 1) s = (s.round s.turn >>= conclude n : m _) := rfl

theorem run_giveUp {σ : Type} [Host (StateM σ)] (s : Session) (a : σ) :
    ∃ b, (s.giveUp : StateM σ Session).run a
      = (((windDown lastRounds s : StateM σ Session).run a).1.abort, b) := by
  rw [giveUp, StateT.run_bind]
  rcases (windDown lastRounds s : StateM σ Session).run a with ⟨t, b⟩
  exact ⟨_, rfl⟩

/-- How a run ends that has come to a session: with its artifacts, or given up. -/
inductive Ended (s : Session) : Except Failure (List (Option Artifact)) × Session → Prop
  | leave {as : List (Option Artifact)} (h : s.outcome? = some (.ok as)) : Ended s (.ok as, s.leave)
  | abort (f : Failure) : Ended s (.error f, s.abort)

section

variable {m : Type → Type} [Monad m] [Host m]

theorem make_of_quick (s : Session) {move : Move} (h : move.isSlow = false) :
    s.make move = (pure (s.quickly move) : m Session) := by
  cases move <;> first | rfl | simp [Move.isSlow] at h

theorem make_look_of_not_mem (s : Session) {key : Path} (h : key ∉ s.cache.pending) :
    s.make (.look key) = (pure s : m Session) := by
  simp [make, h]

theorem make_write_of_ne (s : Session) {key : Path}
    (h : ∀ d text, s.stage? key ≠ some (.writing d text)) :
    s.make (.write key) = (pure s : m Session) := by
  simp [make]

variable [LawfulMonad m]

theorem make_look (s : Session) {key : Path} (h : key ∈ s.cache.pending) :
    s.make (.look key) = (s.look key <$> Sighting.take key : m Session) := by
  simp [make, h]

theorem make_write (s : Session) {key : Path} {d : Draft} {text : String}
    (h : s.stage? key = some (.writing d text)) :
    s.make (.write key) = (s.wrote key <$> Host.write d.output text : m Session) := by
  simp [make, h]

end

theorem due_of_pending {key : Path} (h : key ∈ s.cache.pending) : .look key ∈ s.due :=
  List.mem_append_right _ (List.mem_map_of_mem h)

theorem due_of_writing {key : Path} {d : Draft} {text : String}
    (h : s.stage? key = some (.writing d text)) : .write key ∈ s.due := by
  obtain ⟨j, hj, hstage⟩ := stage?_eq_some h
  exact due_of_job hj (by simp [jobMove?, hstage])

end Session

namespace World

open Session Relation

variable {o : Options} {w v : World} {t : Session} {paths : List Path} {trace : List Move}

/-! ## Any host -/

/-- Whether a history can come to a session. -/
def ComesTo (w : World) (t : Session) : Prop := ∃ v, History w v ∧ v.session = t

section

variable {m : Type → Type} [Monad m] [LawfulMonad m] [Host m]

theorem ComesTo.make (h : w.ComesTo t) (move : Move) :
    SatisfiesM w.ComesTo (t.make move : m Session) := by
  obtain ⟨v, hv, rfl⟩ := h
  cases hslow : move.isSlow with
  | false =>
    rw [make_of_quick _ hslow]
    apply SatisfiesM.pure
    by_cases hsame : v.session.quickly move = v.session
    · exact ⟨v, hv, hsame.symm⟩
    · exact ⟨_, hv.tail (.step (.quick (due_of_quickly hsame) hslow)), rfl⟩
  | true =>
    cases move with
    | look key =>
      by_cases hpending : key ∈ v.session.cache.pending
      · rw [make_look _ hpending]
        -- Others may have put there what the look finds.
        exact SatisfiesM.trivial.map fun {found} _ =>
          ⟨_, (hv.tail (.disturb fun _ => found)).tail (.step (.look (due_of_pending hpending))), rfl⟩
      · rw [make_look_of_not_mem _ hpending]
        exact .pure ⟨v, hv, rfl⟩
    | write key =>
      by_cases hstage : ∃ d text, v.session.stage? key = some (.writing d text)
      · obtain ⟨d, text, hstage⟩ := hstage
        rw [make_write _ hstage]
        refine SatisfiesM.trivial.map fun {answer} _ => ?_
        have hdue := due_of_writing hstage
        cases answer with
        | ok => exact ⟨_, hv.tail (.step (.write hdue hstage fun _ _ => rfl)), rfl⟩
        | error fault => exact ⟨_, hv.tail (.step (.refuse hdue fault)), rfl⟩
      · rw [make_write_of_ne _ (by simpa using hstage)]
        exact .pure ⟨v, hv, rfl⟩
    | ask | resume | start | receive | gather | link | fetch | obtain => simp [Move.isSlow] at hslow

theorem ComesTo.makeAll (h : w.ComesTo t) (moves : List Move) :
    SatisfiesM w.ComesTo (t.makeAll moves : m Session) := by
  induction moves generalizing t with
  | nil => exact .pure h
  | cons move rest ih => exact (h.make move).bind fun _ hu => ih hu

theorem ComesTo.round (h : w.ComesTo t) (moves : List Move) :
    SatisfiesM w.ComesTo (t.round moves : m Session) :=
  (h.makeAll moves).bind fun _ hu => SatisfiesM.trivial.bind fun _ _ => .pure hu

theorem ComesTo.windDown (h : w.ComesTo t) (n : Nat) :
    SatisfiesM w.ComesTo (windDown n t : m Session) := by
  induction n generalizing t with
  | zero => exact .pure h
  | succ n ih => exact (h.round _).bind fun _ hu => ih hu

theorem ComesTo.giveUp (h : w.ComesTo t) :
    SatisfiesM (fun t => ∃ u, w.ComesTo u ∧ t = u.abort) (t.giveUp : m Session) :=
  (h.windDown lastRounds).bind fun u hu => SatisfiesM.trivial.bind fun _ _ => .pure ⟨u, hu, rfl⟩

/-- The schedule goes on with a history, and then ends the run. -/
theorem ComesTo.drive (h : w.ComesTo t) (rounds : Nat) :
    SatisfiesM (fun r => ∃ u, w.ComesTo u ∧ u.Ended r)
      (drive rounds t : m (Except Failure (List (Option Artifact)) × Session)) := by
  induction rounds generalizing t with
  | zero => exact .pure ⟨t, h, .abort .cancelled⟩
  | succ n ih =>
    refine (h.round t.turn).bind fun u hu => ?_
    split
    · rename_i as hend
      exact .pure ⟨u, hu, .leave hend⟩
    · rename_i f _
      refine hu.giveUp.bind fun t ht => ?_
      obtain ⟨v, hv, rfl⟩ := ht
      exact .pure ⟨v, hv, .abort f⟩
    · exact ih hu

/-- On any host, a session that is run on some files makes a history. It can be run again
afterwards, and the histories go on from each other. -/
theorem run_makes_history (w : World) (hw : w.session.requests = []) (paths : List Path)
    (rounds : Nat) :
    SatisfiesM (fun r => ∃ v, History w v ∧ v.session = r.2 ∧ v.session.requests = [])
      (w.session.run rounds paths : m _) := by
  have henter : w.ComesTo (w.session.enter paths) := ⟨_, history_enter hw paths, rfl⟩
  refine (henter.drive rounds).imp fun hr => ?_
  obtain ⟨_, ⟨v, hv, rfl⟩, hend⟩ := hr
  cases hend with
  | leave hend => exact ⟨_, hv.tail (.leave hend), rfl, rfl⟩
  | abort f => exact ⟨_, hv.tail (.abort [] (by simp)), rfl, rfl⟩

end

/-! ## Hosts that keep a disk -/

/-- Whether two disks are the same as far as resolved paths go. -/
def Agree (cwd : Path) (disk disk' : Path → Sighting) : Prop :=
  ∀ q : Path, q.Plain → cwd.resolve q = q → disk q = disk' q

/-- Whether the state of a host keeps a disk. A look finds what is on it; a write that is taken
changes it at the path written to and at no other; and nothing else changes it. This is so
for a disk without links on which no name is too long. -/
structure Keeps {σ : Type} [Host (StateM σ)] (cwd : Path) (disk : σ → Path → Sighting) : Prop where
  found : ∀ {key : Path} {found : Sighting} {a b : σ}, key.Plain → cwd.resolve key = key →
    (Sighting.take key : StateM σ _).run a = (found, b) → found = disk a key ∧ Agree cwd (disk a) (disk b)
  taken : ∀ {p : Path} {text : String} {a b : σ}, p.Plain →
    (Host.write p text : StateM σ _).run a = (.ok (), b) → ∀ q : Path, q.Plain → cwd.resolve q = q →
      q ≠ cwd.resolve p → disk a q = disk b q
  refused : ∀ {p : Path} {text : String} {fault : DiskFault} {a b : σ}, p.Plain →
    (Host.write p text : StateM σ _).run a = (.error fault, b) → Agree cwd (disk a) (disk b)
  said : ∀ {line : String} {a b : σ},
    (Host.say line : StateM σ _).run a = ((), b) → Agree cwd (disk a) (disk b)

theorem Agree.trans {cwd : Path} {d d' d'' : Path → Sighting} (h : Agree cwd d d')
    (h' : Agree cwd d' d'') : Agree cwd d d'' :=
  fun q hplain hresolved => (h q hplain hresolved).trans (h' q hplain hresolved)

/-- Disks that agree go on to agree if both are changed at one path. -/
theorem Agree.update {cwd p : Path} {d e e' : Path → Sighting} (h : Agree cwd d e)
    (hothers : ∀ q : Path, q.Plain → cwd.resolve q = q → q ≠ p → e q = e' q) :
    Agree cwd (Function.update d p (e' p)) e' := by
  intro q hplain hresolved
  by_cases hq : q = p
  · rw [hq, Function.update_self]
  · rw [Function.update_of_ne hq, h q hplain hresolved, hothers q hplain hresolved hq]

/-- What a run has in its cache has a plain path and a resolved one. -/
theorem Run.plain_of_cached {disk : Path → Sighting} (h : Run (start o disk paths) trace w)
    (ho : o.Plain) (hpaths : ∀ p ∈ paths, p.Plain) {q : Path}
    (hq : Table.has q w.session.cache = true) : q.Plain ∧ o.cwd.resolve q = q := by
  obtain ⟨found, hacts, hs, -⟩ := h.exists_grown
  have hplain := hacts.plain ho hpaths
  rcases hs.stocked.cached hq with hjob | ⟨m, hm, -, e, he, rfl⟩
  · have hfile := plain_rootOf hplain hjob
    exact ⟨hfile.file, hfile.resolved⟩
  · obtain ⟨l, directive, hl, -, hedge⟩ := Plan.mem_edgesOf he
    rw [Plan.seen_path] at hedge
    have htarget := Layout.edge?_target (ho.layout hl) (plain_rootOf hplain hm).file hedge
    rwa [(Options.layout?_eq_some hl).1] at htarget

/-- What a run writes has a plain path. -/
theorem Run.plain_of_writing {disk : Path → Sighting} (h : Run (start o disk paths) trace w)
    (ho : o.Plain) (hpaths : ∀ p ∈ paths, p.Plain) {key : Path} {d : Draft} {text : String}
    (hstage : w.session.stage? key = some (.writing d text)) : d.output.Plain := by
  obtain ⟨found, hacts, hs, -⟩ := h.exists_grown
  obtain ⟨j, hj, hst⟩ := stage?_eq_some hstage
  cases hs.faithful.course_of hj hst with
  | writing drafted => exact drafted.plain ho ((hacts.plain ho hpaths).job hj)

section

variable {σ : Type} [Host (StateM σ)] {disk : σ → Path → Sighting} {found : Path → Sighting} {a : σ}

/-- Whether a run on some files has come to a session, on the disk that a state of the host
keeps. -/
def Mirrors (o : Options) (disk : σ → Path → Sighting) (found : Path → Sighting) (paths : List Path)
    (r : Session × σ) : Prop :=
  ∃ trace w, Run (start o found paths) trace w ∧ w.session = r.1 ∧ Agree o.cwd w.disk (disk r.2)

variable (hkeeps : Keeps o.cwd disk)

include hkeeps

/-- Lines that are printed leave the disk as it is. -/
theorem Mirrors.say {t : Session} (h : Mirrors o disk found paths (t, a)) (lines : List String) :
    Mirrors o disk found paths (t, ((lines.forM Host.say : StateM σ Unit).run a).2) := by
  induction lines generalizing a with
  | nil => exact h
  | cons line rest ih =>
    obtain ⟨trace, w, hrun, hsession, hagree⟩ := h
    exact ih ⟨trace, w, hrun, hsession, hagree.trans (hkeeps.said rfl)⟩

variable (ho : o.Plain) (hpaths : ∀ p ∈ paths, p.Plain)

include ho hpaths

theorem Mirrors.make {t : Session} (h : Mirrors o disk found paths (t, a)) (move : Move) :
    Mirrors o disk found paths ((t.make move : StateM σ Session).run a) := by
  obtain ⟨trace, w, hrun, rfl, hagree⟩ := h
  dsimp only at hagree
  cases hslow : move.isSlow with
  | false =>
    rw [make_of_quick _ hslow]
    by_cases hsame : w.session.quickly move = w.session
    · exact ⟨trace, w, hrun, hsame.symm, hagree⟩
    · exact ⟨_, _, hrun.snoc (.quick (due_of_quickly hsame) hslow), rfl, hagree⟩
  | true =>
    cases move with
    | look key =>
      by_cases hpending : key ∈ w.session.cache.pending
      · rw [make_look _ hpending, StateT.run_map]
        obtain ⟨hplain, hresolved⟩ := hrun.plain_of_cached ho hpaths (has_of_mem_pending hpending)
        rcases hlook : (Sighting.take key : StateM σ _).run a with ⟨saw, b⟩
        obtain ⟨rfl, hafter⟩ := hkeeps.found hplain hresolved hlook
        refine ⟨_, _, hrun.snoc (.look (due_of_pending hpending)), ?_, hagree.trans hafter⟩
        rw [hagree key hplain hresolved]
        rfl
      · rw [make_look_of_not_mem _ hpending]
        exact ⟨trace, w, hrun, rfl, hagree⟩
    | write key =>
      by_cases hstage : ∃ d text, w.session.stage? key = some (.writing d text)
      · obtain ⟨d, text, hstage⟩ := hstage
        rw [make_write _ hstage, StateT.run_map]
        have hdue := due_of_writing hstage
        have hplain := hrun.plain_of_writing ho hpaths hstage
        rcases hanswer : (Host.write d.output text : StateM σ _).run a with ⟨fault | ⟨⟩, b⟩
        · exact ⟨_, _, hrun.snoc (.refuse hdue fault), rfl, hagree.trans (hkeeps.refused hplain hanswer)⟩
        · obtain ⟨_, -, hs, -⟩ := hrun.exists_grown
          refine ⟨_, _, hrun.snoc (.write hdue hstage fun q hq => ?_), rfl,
            hagree.update (hkeeps.taken hplain hanswer)⟩
          rw [hs.faithful.options] at hq
          exact Function.update_of_ne hq ..
      · rw [make_write_of_ne _ (by simpa using hstage)]
        exact ⟨trace, w, hrun, rfl, hagree⟩
    | ask | resume | start | receive | gather | link | fetch | obtain => simp [Move.isSlow] at hslow

theorem Mirrors.makeAll {t : Session} (h : Mirrors o disk found paths (t, a)) (moves : List Move) :
    Mirrors o disk found paths ((t.makeAll moves : StateM σ Session).run a) := by
  induction moves generalizing t a with
  | nil => exact h
  | cons move rest ih => exact ih (h.make hkeeps ho hpaths move)

theorem Mirrors.round {t : Session} (h : Mirrors o disk found paths (t, a)) (moves : List Move) :
    Mirrors o disk found paths ((t.round moves : StateM σ Session).run a) :=
  (h.makeAll hkeeps ho hpaths moves).say hkeeps _

theorem Mirrors.windDown {t : Session} (h : Mirrors o disk found paths (t, a)) (n : Nat) :
    Mirrors o disk found paths ((windDown n t : StateM σ Session).run a) := by
  induction n generalizing t a with
  | zero => exact h
  | succ n ih => exact ih (h.round hkeeps ho hpaths _)

/-- The schedule goes on with a run, and then ends it. Only a run that is given up changes the
disk at its end. -/
theorem Mirrors.drive {t : Session} (h : Mirrors o disk found paths (t, a)) (rounds : Nat) :
    ∃ u b, Mirrors o disk found paths (u, b) ∧ u.Ended ((drive rounds t : StateM σ _).run a).1 ∧
      ∀ as, ((drive rounds t : StateM σ _).run a).1.1 = .ok as →
        ((drive rounds t : StateM σ _).run a).2 = b := by
  induction rounds generalizing t a with
  | zero => exact ⟨t, a, h, .abort .cancelled, fun _ _ => rfl⟩
  | succ n ih =>
    have hround := h.round hkeeps ho hpaths t.turn
    rcases hnext : (t.round t.turn : StateM σ Session).run a with ⟨v, b⟩
    rw [hnext] at hround
    have hdrive : (Session.drive (n + 1) t : StateM σ _).run a = (conclude n v : StateM σ _).run b := by
      rw [drive_succ, StateT.run_bind, hnext]
      rfl
    rw [hdrive, conclude]
    split
    · rename_i as hend
      exact ⟨v, b, hround, .leave hend, fun _ _ => rfl⟩
    · rename_i f _
      have hdown := hround.windDown hkeeps ho hpaths lastRounds
      obtain ⟨c, hlast⟩ := run_giveUp v b
      -- The last rounds go on with the run. What is written after them is not part of it.
      rcases hrest : (Session.windDown lastRounds v : StateM σ Session).run b with ⟨u, e⟩
      rw [hrest] at hdown hlast
      rw [StateT.run_bind, hlast]
      exact ⟨u, e, hdown, .abort f, fun _ h => nomatch h⟩
    · exact ih hround

end

/-- On a host that keeps a disk, a session that is run on some files makes a run on that disk and
then ends it. If all went well, then the host keeps the disk that the run has led to. -/
theorem run_makes_run {σ : Type} [Host (StateM σ)] (settings : Settings) (cwd : String)
    (disk : σ → Path → Sighting) (roots : List String) (rounds : Nat) (a : σ)
    (hkeeps : Keeps (Path.ofString cwd) disk) :
    let o := settings.options (Path.ofString cwd)
    let paths := roots.map Path.ofString
    let r := (Session.run rounds { options := o } paths : StateM σ _).run a
    ∃ trace w, Run (start o (disk a) paths) trace w ∧ w.session.Ended r.1 ∧
      ∀ as, r.1.1 = .ok as → Agree o.cwd w.disk (disk r.2) := by
  intro o paths r
  have hstart : Mirrors o disk (disk a) paths (({ options := o } : Session).enter paths, a) :=
    ⟨[], start o (disk a) paths, .nil, rfl, fun _ _ _ => rfl⟩
  obtain ⟨u, b, ⟨trace, w, hrun, rfl, hagree⟩, hend, hlast⟩ :=
    hstart.drive hkeeps (settings.plain_options cwd) (Path.plain_map_ofString roots) rounds
  exact ⟨trace, w, hrun, hend, fun as has => hlast as has ▸ hagree⟩

end World

end SolidityInterface
