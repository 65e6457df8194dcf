import SolidityInterface.Proofs.Run.Dependence
import SolidityInterface.Proofs.Run.Determinism

/-
  Where interfaces go, and what the order of the roots has to do with it. The interface of
  a file in a package goes below the output root of the request that came first, and
  requests hand on the output root of the root that they come from.

  1. The output root of a file is that of a root from which files in use lead to it
     (`Session.Descends`, spread over all requests and jobs).
  2. So the place of an artifact is the one that such a root gives it (`Run.exists_place`).
  3. Two runs on the same roots put a file of which they have the same record to the same
     place, unless it is a contract in a package and roots with different output roots lead
     to it. There the order does matter.
-/

namespace SolidityInterface

/-- Where the artifact of a file is, by its record and an output root: a contract gets its
place from the settings, and any other file keeps its own. -/
def Options.Places (o : Options) (r : Record) (root place : Path) : Prop :=
  (r.needsInterface = true ∧ ∃ l, o.layout? = some l ∧ l.outputPath? r root = some place) ∨
    (r.needsInterface = false ∧ place = r.path)

/-- The place of a file outside of packages does not depend on the output root. -/
theorem Layout.outputPath?_of_package?_eq_none {l : Layout} {r : Record}
    (h : l.package? r.path = none) (root root' : Path) :
    l.outputPath? r root = l.outputPath? r root' := by
  simp [outputPath?, directory?, h]

/-- Whether the output root has no say in the place of a file: it is no contract, or lies in
no package. -/
def Options.IsFixed (o : Options) (r : Record) : Prop :=
  r.needsInterface = false ∨ ∀ l, o.layout? = some l → l.package? r.path = none

theorem Options.Places.unique {o : Options} {r : Record} {root root' place place' : Path}
    (h : o.Places r root place) (h' : o.Places r root' place')
    (hsame : o.IsFixed r ∨ root = root') : place = place' := by
  rcases h with ⟨needs, l, hl, hplace⟩ | ⟨ready, rfl⟩
  · rcases h' with ⟨-, l', hl', hplace'⟩ | ⟨ready, -⟩
    · obtain rfl := Option.some.inj (hl.symm.trans hl')
      have heq : l.outputPath? r root = l.outputPath? r root' := by
        rcases hsame with (ready | hfree) | rfl
        · simp [needs] at ready
        · exact Layout.outputPath?_of_package?_eq_none (hfree l hl) root root'
        · rfl
      rw [heq] at hplace
      exact Option.some.inj (hplace.symm.trans hplace')
    · simp [needs] at ready
  · rcases h' with ⟨needs, -⟩ | ⟨-, rfl⟩
    · simp [ready] at needs
    · rfl

namespace Session

open Relation Plan

variable {o : Options} {found : Path → Sighting} {paths : List Path}
  {sees : Path → Sighting → Prop} {s t : Session} {k root : Path}

/-- Whether a file has its output root from a root from which files in use lead to it. -/
def Descends (o : Options) (found : Path → Sighting) (paths : List Path) (k root : Path) : Prop :=
  ∃ p ∈ paths, o.dependencyRoot? p = some root ∧
    ∃ key, o.cwd.resolve? p = some key ∧ ReflTransGen (Relies o found) key k

theorem Descends.relies (h : Descends o found paths k root) {u : Path} (hu : Relies o found k u) :
    Descends o found paths u root := by
  obtain ⟨p, hp, hroot, key, hkey, hreach⟩ := h
  exact ⟨p, hp, hroot, key, hkey, hreach.tail hu⟩

theorem Acts.descends (h : Acts (finds found) ({ options := o : Session }.enter paths) s) :
    Spread (Descends o found paths) s := by
  refine h.spread ?_ fun hk hu => hk.relies hu
  intro p hp key target root hkey htarget hroot
  exact ⟨p, hp, Options.dependencyRoot?_eq hkey htarget hroot, key, hkey, .refl⟩

theorem Acts.rootKeys_eq (h : Acts sees s t) : t.rootKeys = s.rootKeys :=
  h.keeps (I := fun u => u.rootKeys = s.rootKeys) (fun hs ha => ha.rootKeys_eq.trans hs) rfl

/-- The place of the artifact of a job that ended well. -/
theorem Faithful.places (hs : Faithful o found s) {r : Record} {a : Artifact} {j : Job}
    (hr : s.cache.outcome? k = some (.ok r)) (hj : Table.get? k s.jobs = some j)
    (ha : s.result? k = some (.ok (some a))) : o.Places r j.dependencyRoot a.output := by
  have hbare := (hs.bare_of_result ha).2
  rw [rootOf_of_get? hj] at hbare
  have hseen := hs.seen_eq hr
  have hpath : r.path = k := by rw [← hseen, seen_path]
  obtain ⟨-, -, hcases⟩ := sketch_eq_some hbare.symm
  rw [hseen] at hcases
  rcases hcases with ⟨needs, -, d, hd, houtput⟩ | ⟨ready, -, houtput⟩
  · obtain ⟨-, hl, -, hplace⟩ := draftFor_spec hd
    exact .inl ⟨needs, d.layout, hl, by rw [hplace]; exact congrArg some houtput.symm⟩
  · exact .inr ⟨ready, by rw [hpath]; exact houtput⟩

end Session

namespace World

open Session Plan Relation

/-- The place of the artifact of a file whose job ended well. -/
def placeOf? (w : World) (k : Path) : Option Path :=
  match w.session.result? k with
  | some (.ok (some a)) => some a.output
  | _ => none

theorem placeOf?_eq_some {w : World} {k place : Path} (h : w.placeOf? k = some place) :
    ∃ a, w.session.result? k = some (.ok (some a)) ∧ a.output = place := by
  unfold placeOf? at h
  split at h
  · rename_i a ha
    exact ⟨a, ha, Option.some.inj h⟩
  · simp at h

/-! ## Two contracts in different directories that share a package -/

namespace Crossroads

/-- The file of a contract. -/
def east : Path := ⟨.slash, ["a", "A.sol"]⟩

/-- The file of another, in another directory. -/
def west : Path := ⟨.slash, ["b", "B.sol"]⟩

/-- The file of a contract in a package that both inherit from. -/
def shared : Path := ⟨.slash, ["modules", "pkg", "M.sol"]⟩

/-- A disk with the three. -/
def disk (p : Path) : Sighting :=
  if p = east then .text "pragma solidity 1;import \x22pkg/M.sol\x22;contract A is M\x7b\x7d"
  else if p = west then .text "pragma solidity 1;import \x22pkg/M.sol\x22;contract B is M\x7b\x7d"
  else if p = shared then .text "pragma solidity 1;contract M\x7b\x7d"
  else .absent

/-- The moves of a run on both contracts in which the first of them asks for the third. -/
def moves (first second : Path) : List Move :=
  [.ask 0, .ask 1, .start first, .start second, .look first, .receive first, .fetch 0,
    .look shared, .obtain 0, .gather first, .ask 2, .start shared, .write shared, .resume 2,
    .link first, .write first, .look second, .receive second, .fetch 1, .gather second, .ask 3,
    .link second, .write second, .resume 0, .resume 1]

/-- Whether the run on two of the files ends well, writes over no source, and puts the
interface of the third to a given place. -/
def check (first second place : Path) : Bool :=
  ((start Pair.options disk [first, second]).play (moves first second)).any fun w =>
    (w.session.outcome?.any fun out => out.toOption.isSome) &&
    decide (w.SparesSources ∧ w.placeOf? shared = some place ∧ (w.placeOf? east).isSome = true)

/-- Where the interface of the third goes if the first contract comes first. -/
def eastern : Path := ⟨.slash, ["a", "out", "dependencies", "pkg", "IM.sol"]⟩

/-- Where it goes if the second contract comes first. -/
def western : Path := ⟨.slash, ["b", "out", "dependencies", "pkg", "IM.sol"]⟩

theorem check_east : check east west eastern = true := by decide +kernel

theorem check_west : check west east western = true := by decide +kernel

theorem exists_run {first second place : Path} (h : check first second place = true) :
    ∃ w as a b, Run (start Pair.options disk [first, second]) (moves first second) w ∧
      w.session.outcome? = some (.ok as) ∧ w.SparesSources ∧
      w.session.result? shared = some (.ok (some a)) ∧ a.output = place ∧
      w.session.result? east = some (.ok (some b)) := by
  obtain ⟨w, as, hrun, hend, hcheck⟩ := exists_run_of_any h
  obtain ⟨hspares, hshared, heast⟩ := of_decide_eq_true hcheck
  obtain ⟨a, ha, hplace⟩ := placeOf?_eq_some hshared
  obtain ⟨place', hplace'⟩ := Option.isSome_iff_exists.mp heast
  obtain ⟨b, hb, -⟩ := placeOf?_eq_some hplace'
  exact ⟨w, as, a, b, hrun, hend, hspares, ha, hplace, hb⟩

end Crossroads

variable {o : Options} {disk : Path → Sighting} {paths ps qs : List Path} {w v : World}
  {trace l : List Move} {k p : Path}

/-- Whether files in use lead from a root of a run to a file. -/
def Reaches (w : World) (p k : Path) : Prop :=
  ∃ key, w.session.options.cwd.resolve? p = some key ∧ ReflTransGen w.session.Uses key k

/-! ## The roots that lead to a file -/

/-- In a run that ends well the file of every root has a job. -/
theorem has_job_of_root {found : Path → Sighting} {key : Path}
    (hacts : Acts (finds found) ({ options := o : Session }.enter paths) w.session)
    (hgrown : Grown o found paths w.session) (hanswered : w.session.Answered) (hp : p ∈ paths)
    {root : Path} (hroot : o.dependencyRoot? p = some root) (hkey : o.cwd.resolve? p = some key) :
    Table.has key w.session.jobs = true := by
  have hrequest : ({ options := o : Session }.rootRequest p).key = key := by
    obtain ⟨key', hkey', hrest⟩ := Option.bind_eq_some_iff.mp hroot
    obtain ⟨target, htarget, hdirectory⟩ := Option.bind_eq_some_iff.mp hrest
    obtain rfl := Option.some.inj (hkey'.symm.trans hkey)
    simp [rootRequest, hkey', htarget, hdirectory]
  -- Requests from outside stay in place, and this one has been answered.
  have hmem : key ∈ w.session.rootKeys := by
    rw [hacts.rootKeys_eq, rootKeys_enter]
    exact List.mem_map.mpr ⟨p, hp, hrequest⟩
  obtain ⟨r, hr, rfl⟩ := List.mem_map.mp hmem
  obtain ⟨hr, hwaiter⟩ := List.mem_filter.mp hr
  obtain ⟨a, ha⟩ := hanswered r hr (by simpa using hwaiter)
  exact (hgrown.faithful.answered r hr a ha).1

/-- In a run that ends well, what leads to a file by the disk leads to it by the records that
were loaded. -/
theorem uses_of_relies {found : Path → Sighting} {key : Path}
    (hgrown : Grown o found paths w.session) (hinformed : Informed o found w.session)
    (hanswered : w.session.Answered) (hkey : Table.has key w.session.jobs = true)
    (h : ReflTransGen (Relies o found) key k) :
    ReflTransGen w.session.Uses key k ∧ Table.has k w.session.jobs = true := by
  induction h with
  | refl => exact ⟨.refl, hkey⟩
  | @tail b c _ hrelies ih =>
    obtain ⟨a, ha⟩ := hgrown.all_done hanswered ih.2
    refine ⟨ih.1.tail (hinformed.uses hgrown.faithful ha hrelies), ?_⟩
    obtain ⟨needs, i, hi, rfl⟩ := hrelies
    rw [← usedOf_path hi]
    exact (hgrown.faithful.supplied_of_result ha needs).employed i hi

/-- The artifact of a file is at the place that a root which leads to it gives it. -/
theorem Run.exists_place (h : Run (start o disk paths) trace w) {as : List (Option Artifact)}
    (hend : w.session.outcome? = some (.ok as)) {a : Artifact}
    (ha : w.session.result? k = some (.ok (some a))) :
    ∃ r p root, w.recordAt? k = some r ∧ p ∈ paths ∧ w.Reaches p k ∧
      o.dependencyRoot? p = some root ∧ o.Places r root a.output := by
  obtain ⟨found, hacts, hgrown, hinformed⟩ := h.exists_grown
  have hanswered := answered_of_outcome hend
  obtain ⟨r, hr⟩ := (hinformed.of_result ha).1
  obtain ⟨j, hj, -⟩ := result?_eq_some ha
  obtain ⟨p, hp, hroot, key, hkey, hreach⟩ := hacts.descends.job hj
  have hjob := has_job_of_root hacts hgrown hanswered hp hroot hkey
  refine ⟨r, p, j.dependencyRoot, recordAt?_eq_some.mpr hr, hp, ⟨key, ?_, ?_⟩, hroot,
    hgrown.faithful.places hr hj ha⟩
  · rw [hgrown.faithful.options]
    exact hkey
  · exact (uses_of_relies hgrown hinformed hanswered hjob hreach).1

/-! ## Two orders of the roots -/

/-- A file has an artifact just if it is there. -/
theorem isSome_of_result {s : Session} (hs : Faithful o disk s) {x : Option Artifact}
    (h : s.result? k = some (.ok x)) : x.isSome = (seen o disk k).isPresent := by
  cases needs : (seen o disk k).needsInterface with
  | true =>
    obtain ⟨b, text, rfl, -, -⟩ := hs.written_of_needs h needs
    rw [Record.isPresent_of_needsInterface needs]
    rfl
  | false =>
    obtain ⟨-, rfl⟩ := hs.artifact h
    simp only [artifactOf, needs, sketch]
    cases (seen o disk k).isPresent <;> rfl

/-- A file that has an artifact in one run has one in the other, of the same record, if
neither writes over a source. -/
theorem Run.exists_artifact (h : Run (start o disk ps) trace w) (hw : w.SparesSources)
    (hwdone : w.session.Answered) (h' : Run (start o disk qs) l v) (hv : v.SparesSources)
    (hvdone : v.session.Answered) (hperm : ps.Perm qs) {a : Artifact}
    (ha : w.session.result? k = some (.ok (some a))) :
    (∃ b, v.session.result? k = some (.ok (some b))) ∧ v.recordAt? k = w.recordAt? k := by
  have hjob := (h.has_job_iff hw hwdone).mp ((h.faithful hw).artifact ha).1
  obtain ⟨x, hx⟩ := (h'.grown hv).all_done hvdone ((h'.has_job_iff hv hvdone).mpr (hjob.perm hperm))
  have hsome : x.isSome = true := by
    rw [isSome_of_result (h'.faithful hv) hx, ← isSome_of_result (h.faithful hw) ha]
    rfl
  obtain ⟨b, rfl⟩ := Option.isSome_iff_exists.mp hsome
  have record : ∀ {u : World} {us : List Path} {m : List Move} {y : Option Artifact},
      Run (start o disk us) m u → u.SparesSources → u.session.result? k = some (.ok y) →
      u.recordAt? k = some (seen o disk k) := by
    intro u us m y hu hspares hy
    obtain ⟨found, -, -, hinformed⟩ := hu.exists_grown
    obtain ⟨r, hr⟩ := (hinformed.of_result hy).1
    rw [(hu.faithful hspares).seen_eq hr]
    exact recordAt?_eq_some.mpr hr
  exact ⟨⟨b, hx⟩, by rw [record h' hv hx, record h hw ha]⟩

/-- Two runs on the same roots, in any two orders of the roots and of the moves, that end
without a failure. In each of them, the artifact of a file is at the place that the
settings and the output root of a root that leads to the file give it. Where both
have the same record of a file, it is at the same place in both if it is no
contract, or lies in no package, or if all roots that lead to it have the same output
root. If the runs write over no source, the same files have artifacts in both, and both
have the same records of them. -/
theorem places_depend_on_roots_that_lead_there (o : Options) (disk : Path → Sighting)
    (ps qs : List Path) (trace l : List Move) (w v : World) (as bs : List (Option Artifact))
    (hperm : ps.Perm qs)
    (hrun : Run (start o disk ps) trace w) (hend : w.session.outcome? = some (.ok as))
    (hrun' : Run (start o disk qs) l v) (hend' : v.session.outcome? = some (.ok bs)) :
    (∀ k a, w.session.result? k = some (.ok (some a)) →
      ∃ r p root, w.recordAt? k = some r ∧ p ∈ ps ∧ w.Reaches p k ∧
        o.dependencyRoot? p = some root ∧ o.Places r root a.output) ∧
    (∀ k a b r, w.session.result? k = some (.ok (some a)) →
      v.session.result? k = some (.ok (some b)) →
      w.recordAt? k = some r → v.recordAt? k = some r →
      (o.IsFixed r ∨ ∀ p ∈ ps, ∀ q ∈ ps, w.Reaches p k → v.Reaches q k →
        o.dependencyRoot? p = o.dependencyRoot? q) →
      a.output = b.output) ∧
    (w.SparesSources → v.SparesSources → ∀ k,
      ((∃ a, w.session.result? k = some (.ok (some a))) ↔
        ∃ b, v.session.result? k = some (.ok (some b))) ∧
      ((∃ a, w.session.result? k = some (.ok (some a))) → w.recordAt? k = v.recordAt? k)) := by
  have hdone := answered_of_outcome hend
  have hdone' := answered_of_outcome hend'
  refine ⟨fun k a ha => hrun.exists_place hend ha, ?_, ?_⟩
  · intro k a b r ha hb hr hr' hsame
    obtain ⟨r₁, p, root, hr₁, hp, hreach, hroot, hplace⟩ := hrun.exists_place hend ha
    obtain ⟨r₂, q, root', hr₂, hq, hreach', hroot', hplace'⟩ := hrun'.exists_place hend' hb
    obtain rfl := Option.some.inj (hr₁.symm.trans hr)
    obtain rfl := Option.some.inj (hr₂.symm.trans hr')
    refine hplace.unique hplace' (hsame.imp_right fun hall => ?_)
    have heq := hall p hp q (hperm.mem_iff.mpr hq) hreach hreach'
    rw [hroot, hroot'] at heq
    exact Option.some.inj heq
  · intro hspares hspares' k
    constructor
    · constructor
      · rintro ⟨a, ha⟩
        exact (hrun.exists_artifact hspares hdone hrun' hspares' hdone' hperm ha).1
      · rintro ⟨b, hb⟩
        exact (hrun'.exists_artifact hspares' hdone' hrun hspares hdone hperm.symm hb).1
    · rintro ⟨a, ha⟩
      exact (hrun.exists_artifact hspares hdone hrun' hspares' hdone' hperm ha).2.symm

/-! ## A package that two roots share -/

/-- Two contracts in different directories inherit from one in a package: the interface of
the latter goes below the directory of the one that comes first. Both runs end well, and
write over no source. -/
theorem shared_package_goes_with_the_first_root :
    ∃ w v as bs a b, Run (start Pair.options Crossroads.disk [Crossroads.east, Crossroads.west])
        (Crossroads.moves Crossroads.east Crossroads.west) w ∧
      Run (start Pair.options Crossroads.disk [Crossroads.west, Crossroads.east])
        (Crossroads.moves Crossroads.west Crossroads.east) v ∧
      w.session.outcome? = some (.ok as) ∧ v.session.outcome? = some (.ok bs) ∧
      w.SparesSources ∧ v.SparesSources ∧
      w.session.result? Crossroads.shared = some (.ok (some a)) ∧
      v.session.result? Crossroads.shared = some (.ok (some b)) ∧
      a.output = Crossroads.eastern ∧ b.output = Crossroads.western ∧ a.output ≠ b.output := by
  obtain ⟨w, as, a, -, hrun, hend, hspares, ha, hplace, -⟩ :=
    Crossroads.exists_run Crossroads.check_east
  obtain ⟨v, bs, b, -, hrun', hend', hspares', hb, hplace', -⟩ :=
    Crossroads.exists_run Crossroads.check_west
  refine ⟨w, v, as, bs, a, b, hrun, hrun', hend, hend', hspares, hspares', ha, hb, hplace, hplace',
    ?_⟩
  rw [hplace, hplace']
  decide

/-- In the same two runs, the interface of a contract that lies in no package has one
place. -/
theorem contract_in_no_package_has_one_place :
    ∃ w v as bs a b, Run (start Pair.options Crossroads.disk [Crossroads.east, Crossroads.west])
        (Crossroads.moves Crossroads.east Crossroads.west) w ∧
      Run (start Pair.options Crossroads.disk [Crossroads.west, Crossroads.east])
        (Crossroads.moves Crossroads.west Crossroads.east) v ∧
      w.session.outcome? = some (.ok as) ∧ v.session.outcome? = some (.ok bs) ∧
      w.session.result? Crossroads.east = some (.ok (some a)) ∧
      v.session.result? Crossroads.east = some (.ok (some b)) ∧ a.output = b.output := by
  obtain ⟨w, as, -, a, hrun, hend, hspares, -, -, ha⟩ :=
    Crossroads.exists_run Crossroads.check_east
  obtain ⟨v, bs, -, b, hrun', hend', hspares', -, -, hb⟩ :=
    Crossroads.exists_run Crossroads.check_west
  obtain ⟨hplaces, hsame, hfiles⟩ := places_depend_on_roots_that_lead_there Pair.options
    Crossroads.disk [Crossroads.east, Crossroads.west] [Crossroads.west, Crossroads.east] _ _ w v as
    bs (by decide) hrun hend hrun' hend'
  obtain ⟨r, -, -, hr, -⟩ := hplaces _ a ha
  have hr' : v.recordAt? Crossroads.east = some r := by
    rw [← (hfiles hspares hspares' _).2 ⟨a, ha⟩]
    exact hr
  have hpath : r.path = Crossroads.east := by
    rw [← (hrun.faithful hspares).seen_eq (recordAt?_eq_some.mp hr), seen_path]
  have hfixed : Pair.options.IsFixed r := by
    have hall : Pair.options.layout?.all (fun l => (l.package? Crossroads.east).isNone) = true := by
      decide +kernel
    refine .inr fun l hl => ?_
    rw [hl] at hall
    rw [hpath]
    simpa using hall
  exact ⟨w, v, as, bs, a, b, hrun, hrun', hend, hend', ha, hb,
    hsame _ a b r ha hb hr hr' (.inl hfixed)⟩

end World

end SolidityInterface
