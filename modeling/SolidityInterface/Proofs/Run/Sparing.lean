import SolidityInterface.Proofs.Run.Overwriting
import SolidityInterface.Proofs.Run.Places

/-
  What a run does to its sources. The place of an interface is made of the directory for
  its file and the name of its contract, and nothing compares it with the files that were
  loaded, so a run can write over a source (`handwritten_interface_is_overwritten`). It is
  a matter of the layout of the files whether it does.

  1. `Plan.KeepsApart` says of the files on a disk, before any run, that no interface belongs
     where a file lies that a run may load, and that none has the name of one of its bases.
     It can be checked on finitely many files (`Plan.keepsApart_of_encloses`).
  2. As long as a run has spared its sources it sees the disk as it was at the start. So what
     it writes next goes to a place that the layout gives, and it spares its sources again
     (`Run.sparesSources_step`), up to its end.
  3. On such a layout no source is changed, and no interface imports or inherits from itself.
     A run that ends well spares its sources just if the places that it chose are apart from
     them (`sources_are_spared_where_interfaces_keep_apart`).
-/

namespace SolidityInterface

open Session

namespace Plan

/-! ## Layouts that keep interfaces and sources apart -/

section

variable (o : Options) (disk : Path → Sighting) (paths : List Path)

/-- The files that a run on some files may load, whether they are there or not: those that it
needs, and what those of them that get an interface import. -/
def Loadable (q : Path) : Prop :=
  Needed o disk paths q ∨ ∃ m, Needed o disk paths m ∧ Imports o disk m q

/-- Where the interface of a file belongs: in the directory that the settings and an output
root give it, under the name of the contract. -/
def interfacePlace? (k root : Path) : Option Path :=
  (seen o disk k).name.bind fun n => o.layout?.bind fun l =>
    (l.directory? k root).map fun directory =>
      Layout.placed (o.cwd.resolve directory) ("I" ++ n ++ ".sol")

/-- Whether interfaces keep apart from sources. No contract that a run may come to, with any
output root that it may have then, has the place of its interface where a file lies that the
run may load; and no import that provides a base of a contract goes by the name of the
interface of that contract. -/
structure KeepsApart : Prop where
  place : ∀ {k root q}, Descends o disk paths k root → (seen o disk k).needsInterface = true →
    Loadable o disk paths q → interfacePlace? o disk k root ≠ some q
  name : ∀ {k e}, Needed o disk paths k → (seen o disk k).needsInterface = true →
    e ∈ edgesOf o (seen o disk k) →
    (e.inheritedBase? (seen o disk e.target).name (seen o disk k).bases).isSome = true →
    (seen o disk e.target).artifactName? ≠ (seen o disk k).interfaceName?

end

variable {o : Options} {disk : Path → Sighting} {paths files : List Path} {k root q : Path}

theorem needed_of_descends (h : Descends o disk paths k root) : Needed o disk paths k := by
  obtain ⟨p, hp, -, key, hkey, hreach⟩ := h
  induction hreach with
  | refl => exact .root hp hkey
  | tail _ hrelies ih => exact .used ih hrelies

/-- Whether some files hold the roots of a run, and all that the interfaces of these files
use. -/
structure Encloses (o : Options) (disk : Path → Sighting) (paths files : List Path) : Prop where
  roots : ∀ p ∈ paths, ∀ k ∈ o.cwd.resolve? p, k ∈ files
  used : ∀ k ∈ files, ∀ i ∈ usedOf o disk k, i.1.target ∈ files

theorem Encloses.mem_of_needed (h : Encloses o disk paths files) (hk : Needed o disk paths k) :
    k ∈ files := by
  induction hk with
  | root hp hk => exact h.roots _ hp _ hk
  | used _ hrelies ih =>
    obtain ⟨-, i, hi, rfl⟩ := hrelies
    exact h.used _ ih i hi

/-- What a run may load, if the given files are all that it needs. -/
def loadableFrom (o : Options) (disk : Path → Sighting) (files : List Path) : List Path :=
  files ++ files.flatMap fun m => (edgesOf o (seen o disk m)).map (·.target)

theorem Encloses.mem_of_loadable (h : Encloses o disk paths files) (hq : Loadable o disk paths q) :
    q ∈ loadableFrom o disk files := by
  rcases hq with hq | ⟨m, hm, -, e, he, rfl⟩
  · exact List.mem_append_left _ (h.mem_of_needed hq)
  · exact List.mem_append_right _
      (List.mem_flatMap.mpr ⟨m, h.mem_of_needed hm, List.mem_map_of_mem he⟩)

/-- That interfaces keep apart from sources can be checked on the files that a run needs. -/
theorem keepsApart_of_encloses (h : Encloses o disk paths files)
    (hplace : ∀ k ∈ files, (seen o disk k).needsInterface = true →
      ∀ p ∈ paths, ∀ root ∈ o.dependencyRoot? p, ∀ q ∈ loadableFrom o disk files,
        interfacePlace? o disk k root ≠ some q)
    (hname : ∀ k ∈ files, (seen o disk k).needsInterface = true →
      ∀ e ∈ edgesOf o (seen o disk k),
        (e.inheritedBase? (seen o disk e.target).name (seen o disk k).bases).isSome = true →
        (seen o disk e.target).artifactName? ≠ (seen o disk k).interfaceName?) :
    KeepsApart o disk paths where
  place hk needs hq := by
    have hfile := h.mem_of_needed (needed_of_descends hk)
    obtain ⟨p, hp, hroot, -⟩ := hk
    exact hplace _ hfile needs p hp _ hroot _ (h.mem_of_loadable hq)
  name hk needs he := hname _ (h.mem_of_needed hk) needs _ he

end Plan

namespace Session

open Plan

variable {o : Options} {disk : Path → Sighting} {sees : Path → Sighting → Prop} {paths : List Path}
  {s t : Session} {d : Draft} {k root q : Path}

/-- The interface of a file is drafted for the place where it belongs. -/
theorem Drafted.interfacePlace?_eq (h : Drafted o disk k root d) :
    interfacePlace? o disk k root = some (o.cwd.resolve d.output) := by
  obtain ⟨n, l, directory, hn, -, hlayout, hdirectory, -, hresolve⟩ := h.placed
  simp [interfacePlace?, hn, hlayout, hdirectory, hresolve]

/-! ## Sessions on such a layout -/

/-- Whether the interfaces of the needed files in a session, with the output roots that these
have got, belong where no file lies that a run may load. -/
def StandsApart (o : Options) (disk : Path → Sighting) (paths : List Path) (s : Session) : Prop :=
  ∀ k q, Table.has k s.jobs = true → Needed o disk paths k →
    (seen o disk k).needsInterface = true → Loadable o disk paths q →
    interfacePlace? o disk k (s.rootOf k) ≠ some q

/-- Output roots are kept, so interfaces that stand apart have done so before. -/
theorem Acts.standsApart_before (h : Acts sees s t) (ht : StandsApart o disk paths t) :
    StandsApart o disk paths s := by
  refine h.keeps (I := fun t => StandsApart o disk paths t → StandsApart o disk paths s) ?_ id ht
  intro u v hu ha hv
  apply hu
  intro k q hk hneeded needs hq
  rw [← ha.rootOf_eq hk]
  exact hv k q (ha.has_job hk) hneeded needs hq

theorem standsApart_of_keepsApart (h : KeepsApart o disk paths) (hs : Spread (Descends o disk paths) s) :
    StandsApart o disk paths s := by
  intro k q hk _ needs hq
  obtain ⟨j, hj⟩ := Table.has_iff.mp hk
  rw [rootOf_of_get? hj]
  exact h.place (hs.job hj) needs hq

/-- What is in the cache is what a run may load. -/
theorem Grown.loadable (hs : Grown o disk paths s) (hq : Table.has q s.cache = true) :
    Loadable o disk paths q := by
  have needed : ∀ {m}, Table.has m s.jobs = true → Needed o disk paths m := by
    intro m hm
    obtain ⟨j, hj⟩ := Table.has_iff.mp hm
    exact hs.needed.job hj
  rcases hs.stocked.cached hq with hjob | ⟨m, hm, himports⟩
  · exact .inl (needed hjob)
  · exact .inr ⟨m, needed hm, himports⟩

end Session

namespace World

open Plan

/-! ## A contract with an interface that was written by hand -/

namespace Handwritten

/-- The file of a contract whose interface was written by hand. -/
def contract : Path := ⟨.slash, ["A.sol"]⟩

/-- The file of that interface. -/
def interface : Path := ⟨.slash, ["out", "IA.sol"]⟩

/-- A disk with the two files, where the contract imports the interface and inherits
from it. -/
def disk (p : Path) : Sighting :=
  if p = contract then
    .text "pragma solidity 1;import \x22./out/IA.sol\x22;contract A is IA\x7b\x7d"
  else if p = interface then
    .text "pragma solidity 1;interface IA\x7bfunction f() external;\x7d"
  else .absent

/-- The settings of a run on the contract. -/
def settings : Settings :=
  { modulesRoot := .text "modules", targetRoot := .text "out", license := .text "MIT" }

/-- The moves of that run. -/
def moves : List Move :=
  [.ask 0, .start contract, .look contract, .receive contract, .fetch 0, .look interface,
    .obtain 0, .gather contract, .ask 1, .start interface, .resume 1, .link contract,
    .write contract, .resume 0]

end Handwritten

namespace Neighbours

/-- The file of a contract. -/
def contract : Path := ⟨.slash, ["A.sol"]⟩

/-- The file of an interface that was written by hand, in the directory for interfaces. -/
def base : Path := ⟨.slash, ["out", "IBase.sol"]⟩

/-- A disk with the two files, where the contract imports the interface and inherits
from it. -/
def disk (p : Path) : Sighting :=
  if p = contract then
    .text "pragma solidity 1;import \x22./out/IBase.sol\x22;contract A is IBase\x7b\x7d"
  else if p = base then
    .text "pragma solidity 1;interface IBase\x7bfunction f() external;\x7d"
  else .absent

/-- The settings of a run on the contract. -/
def settings : Settings :=
  { modulesRoot := .text "modules", targetRoot := .text "out", license := .text "MIT" }

/-- The moves of that run. -/
def moves : List Move :=
  [.ask 0, .start contract, .look contract, .receive contract, .fetch 0, .look base, .obtain 0,
    .gather contract, .ask 1, .start base, .resume 1, .link contract, .write contract, .resume 0]

theorem keepsApart :
    KeepsApart (settings.options (Path.ofString "/")) disk (["/A.sol"].map Path.ofString) := by
  have hencloses : Encloses (settings.options (Path.ofString "/")) disk (["/A.sol"].map Path.ofString)
      [contract, base] := ⟨by decide +kernel, by decide +kernel⟩
  refine keepsApart_of_encloses hencloses ?_ ?_
  · decide +kernel
  · decide +kernel

end Neighbours

variable {o : Options} {disk : Path → Sighting} {paths : List Path} {w v u : World}
  {trace : List Move} {m : Move} {x : Writing} {r : Record} {d : Draft} {l : UsedImport} {p q : Path}

/-! ## Runs on such a layout -/

/-- The file of an interface that was written is needed, and has a job. -/
theorem Run.needed_of_writing (h : Run (start o disk paths) trace w)
    (hs : Grown o disk paths w.session) (hx : x ∈ w.writings) :
    Table.has x.source w.session.jobs = true ∧ Needed o disk paths x.source := by
  obtain ⟨a, ha, -⟩ := (h.writings_iff.2 x.source x.output x.text).mp hx
  obtain ⟨j, hj, -⟩ := result?_eq_some ha
  exact ⟨Table.has_of_get? hj, hs.needed.job hj⟩

/-- What a run writes goes to the place of the interface of a needed file. -/
theorem Run.exists_place_of_written (h : Run (start o disk paths) trace w)
    (hs : Grown o disk paths w.session) (hinformed : Informed o disk w.session)
    (hp : p ∈ w.session.written) :
    ∃ k, Table.has k w.session.jobs = true ∧ Needed o disk paths k ∧
      (seen o disk k).needsInterface = true ∧
      interfacePlace? o disk k (w.session.rootOf k) = some (o.cwd.resolve p) := by
  rw [h.written_eq] at hp
  obtain ⟨x, hx, rfl⟩ := List.mem_map.mp hp
  obtain ⟨r, d, hm⟩ := h.exists_made hs.faithful hinformed hx
  obtain ⟨hjob, hneeded⟩ := h.needed_of_writing hs hx
  refine ⟨x.source, hjob, hneeded, hm.drafted.1, ?_⟩
  rw [hm.drafted.interfacePlace?_eq, hm.output]

theorem Run.sparesSources_of_grown (h : Run (start o disk paths) trace w)
    (hs : Grown o disk paths w.session) (hinformed : Informed o disk w.session)
    (hapart : StandsApart o disk paths w.session) : w.SparesSources := by
  intro p hp hcached
  rw [hs.faithful.options] at hcached
  obtain ⟨k, hk, hneeded, needs, hplace⟩ := h.exists_place_of_written hs hinformed hp
  exact hapart k _ hk hneeded needs (hs.loadable (Table.mem_keys_iff.mp hcached)) hplace

/-- An interface lies where no file does that was loaded. -/
theorem Run.output_not_cached (h : Run (start o disk paths) trace w)
    (hs : Grown o disk paths w.session) (hspares : w.SparesSources) (hx : x ∈ w.writings) :
    o.cwd.resolve x.output ∉ Table.keys w.session.cache := by
  have hover := hspares x.output (h.written_eq ▸ List.mem_map_of_mem hx)
  rwa [hs.faithful.options] at hover

/-- A run that has spared its sources spares them in its next step, if the interfaces stand
apart after it. -/
theorem Run.sparesSources_step (h : Run (start o disk paths) trace v) (hv : v.SparesSources)
    (hstep : Step v m u)
    (hapart : Acts (finds disk) ({ options := o : Session }.enter paths) u.session →
      StandsApart o disk paths u.session) : u.SparesSources := by
  -- Nothing that may still be looked at has changed, so the step finds what lay there.
  have hacts := (h.acts hv).trans (h.step_finds hv hstep).acts
  obtain ⟨hs, hinformed⟩ := grown_of_acts hacts
  exact (h.snoc hstep).sparesSources_of_grown hs hinformed (hapart hacts)

theorem sparesSources_start (o : Options) (disk : Path → Sighting) (paths : List Path) :
    (start o disk paths).SparesSources := by
  intro p hp
  simp [start, enter] at hp

theorem Run.sparesSources_of_standsApart (h : Run (start o disk paths) trace w)
    (hapart : StandsApart o disk paths w.session) : w.SparesSources := by
  induction h with
  | nil => exact sparesSources_start o disk paths
  | snoc hrun hstep ih =>
    have hbefore := hstep.session.acts.standsApart_before hapart
    exact hrun.sparesSources_step (ih hbefore) hstep fun _ => hapart

theorem Run.sparesSources_of_keepsApart (h : Run (start o disk paths) trace w)
    (hapart : KeepsApart o disk paths) : w.SparesSources := by
  induction h with
  | nil => exact sparesSources_start o disk paths
  | snoc hrun hstep ih =>
    exact hrun.sparesSources_step ih hstep fun hacts => standsApart_of_keepsApart hapart hacts.descends

/-- No file that a run may load is changed. -/
theorem Run.disk_eq_of_keepsApart (h : Run (start o disk paths) trace w)
    (hapart : KeepsApart o disk paths) (hq : Loadable o disk paths q) : w.disk q = disk q := by
  obtain ⟨-, hsame | ⟨p, hp, rfl⟩⟩ := h.disk_cases q
  · exact hsame
  · have hacts := h.acts (h.sparesSources_of_keepsApart hapart)
    obtain ⟨hs, hinformed⟩ := grown_of_acts hacts
    obtain ⟨k, hk, hneeded, needs, hplace⟩ := h.exists_place_of_written hs hinformed hp
    exact absurd hplace (standsApart_of_keepsApart hapart hacts.descends k _ hk hneeded needs hq)

/-! ## Interfaces on such a layout -/

/-- Whether an interface stays clear of itself: it is written over no target of an import, no
line of it imports it, and it does not have its own name among its bases. -/
def StaysClear (w : World) (x : Writing) : Prop :=
  ∃ r paths names, w.recordAt? x.source = some r ∧ w.Lists x r paths names ∧
    (∀ e t, w.HasImport r e t → w.session.options.cwd.resolve x.output ≠ e.target) ∧
    (∀ p ∈ paths, x.leadsTo w.session.options.cwd p ≠ w.session.options.cwd.resolve x.output) ∧
    (r.interfaceWith w.session.options.rawOnly paths names).name
      ∉ (r.interfaceWith w.session.options.rawOnly paths names).bases

/-- No import that provides a base goes by the name of the interface. -/
theorem artifactName_ne_of_keepsApart (hapart : KeepsApart o disk paths)
    (hs : Grown o disk paths w.session) (hneeded : Needed o disk paths x.source)
    (hm : Made o disk w.session x r d) (hl : l ∈ linksOf o disk w.session.rootOf x.source)
    (hbase : (l.base? r.bases).isSome = true) : r.interfaceName? ≠ some l.artifact.name := by
  obtain ⟨hedge, -⟩ := hm.link hs.faithful hl
  have htarget : l.target = seen o disk l.edge.target := (usedOf_target (mem_linksOf.mp hl).1).1
  obtain ⟨hname, -⟩ := hm.artifactName?_of_link hs.faithful hl
  rw [← hm.seen_eq] at hedge hbase ⊢
  rw [UsedImport.base?, htarget] at hbase
  rw [htarget] at hname
  rw [← hname]
  exact (hapart.name hneeded hm.drafted.1 hedge hbase).symm

/-- No import leads to where the interface lies. -/
theorem leadsTo_ne_of_keepsApart (hs : Grown o disk paths w.session)
    (hplain : Spread (PlainFile o.cwd) w.session)
    (hspares : o.cwd.resolve x.output ∉ Table.keys w.session.cache)
    (hm : Made o disk w.session x r d) (hl : l ∈ linksOf o disk w.session.rootOf x.source)
    (hname : (l.base? r.bases).isSome = true → r.interfaceName? ≠ some l.artifact.name) :
    o.cwd.resolve (l.leadsTo r.bases) ≠ o.cwd.resolve x.output := by
  obtain ⟨-, hloaded, -, hpath, -, hjob⟩ := hm.link hs.faithful hl
  have hresolved := (plain_rootOf hplain hjob).resolved
  have hsource : o.cwd.resolve l.edge.target ≠ o.cwd.resolve x.output := by
    intro heq
    rw [hresolved] at heq
    exact hspares (heq ▸ Table.mem_keys_iff.mpr (Cache.has_of_outcome? hloaded))
  unfold UsedImport.leadsTo
  split
  · rename_i hbase
    rcases artifact_of_mem_linksOf hl with ⟨-, hown, d', hdrafted, houtput⟩ | ⟨-, -, houtput⟩
    · -- Two interfaces at one place would have one name.
      have htarget : l.target = seen o disk l.edge.target := (usedOf_target (mem_linksOf.mp hl).1).1
      obtain ⟨n, _, _, -, hinterface, -, -, -, hplace⟩ := hm.drafted.placed
      obtain ⟨n', _, _, -, hinterface', -, -, -, hplace'⟩ := hdrafted.placed
      intro heq
      rw [houtput, hm.output, hplace, hplace', Layout.placed_inj] at heq
      obtain rfl := fileName_inj heq.2
      rw [htarget, hinterface', Option.getD_some] at hown
      exact hname hbase (by rw [← hm.seen_eq, hinterface, hown])
    · rw [houtput]
      exact hsource
  · rw [hpath]
    exact hsource

theorem staysClear_of_made (ho : o.Plain) (hapart : KeepsApart o disk paths)
    (hs : Grown o disk paths w.session) (hplain : Spread (PlainFile o.cwd) w.session)
    (hspares : o.cwd.resolve x.output ∉ Table.keys w.session.cache)
    (hneeded : Needed o disk paths x.source) (hm : Made o disk w.session x r d) :
    w.StaysClear x := by
  have hname : ∀ l ∈ linksOf o disk w.session.rootOf x.source, (l.base? r.bases).isSome = true →
      r.interfaceName? ≠ some l.artifact.name :=
    fun l hl => artifactName_ne_of_keepsApart hapart hs hneeded hm hl
  rw [StaysClear, hs.faithful.options]
  refine ⟨r, _, _, recordAt?_eq_some.mpr hm.loaded, lists_of_made hs.faithful ho hplain hm, ?_, ?_, ?_⟩
  · rintro e t ⟨-, hloaded, -⟩ heq
    rw [heq] at hspares
    exact hspares (Table.mem_keys_iff.mpr (Cache.has_of_outcome? (recordAt?_eq_some.mp hloaded)))
  · intro p hp
    obtain ⟨l, hl, rfl⟩ := List.mem_map.mp hp
    rw [hm.leadsTo_pathOf hs.faithful ho hplain hl]
    exact leadsTo_ne_of_keepsApart hs hplain hspares hm hl (hname l hl)
  · rw [Record.interfaceWith_bases, Record.interfaceWith_name, Distinct.mem_ofList]
    intro hself
    obtain ⟨l, hl, hbase, hown⟩ := exists_of_mem_inheritedNames hself
    obtain ⟨n, -, -, -, hinterface, -⟩ := hm.drafted.placed
    rw [hm.seen_eq] at hinterface
    rw [hinterface, Option.getD_some] at hown
    exact hname l hl hbase (by rw [hinterface, hown])

/-! ## Runs that spare their sources -/

/-- Whether a path is that of a source that was loaded and is there. -/
def IsSource (w : World) (q : Path) : Prop := ∃ t, w.recordAt? q = some t ∧ t.isPresent = true

/-- In a run that ends without a failure and writes over no file that it loaded, no interface of
a needed contract belongs where a file lies that the run may load. -/
theorem Run.interfacePlace?_ne (h : Run (start o disk paths) trace w) (hspares : w.SparesSources)
    (hanswered : w.session.Answered) {k : Path} (hk : Needed o disk paths k)
    (needs : (seen o disk k).needsInterface = true) (hq : Loadable o disk paths q) :
    interfacePlace? o disk k (w.session.rootOf k) ≠ some q := by
  obtain ⟨hs, hinformed⟩ := grown_of_acts (h.acts hspares)
  -- The contract was written to that place, and the file there is in the cache.
  obtain ⟨x, hx, rfl⟩ := List.mem_map.mp ((h.mem_sources_iff hspares hanswered).mpr ⟨hk, needs⟩)
  obtain ⟨r, d, hm⟩ := h.exists_made hs.faithful hinformed hx
  intro hplace
  rw [hm.drafted.interfacePlace?_eq, ← hm.output, Option.some.injEq] at hplace
  exact h.output_not_cached hs hspares hx (hplace ▸ (h.cached_iff hspares hanswered).mpr hq)

/-- On a layout that keeps interfaces apart from sources, every interface that was written stays
clear of itself. -/
theorem Run.staysClear (h : Run (start o disk paths) trace w) (ho : o.Plain)
    (hpaths : ∀ p ∈ paths, p.Plain) (hapart : KeepsApart o disk paths) (hx : x ∈ w.writings) :
    w.StaysClear x := by
  have hspares := h.sparesSources_of_keepsApart hapart
  have hacts := h.acts hspares
  obtain ⟨hs, hinformed⟩ := grown_of_acts hacts
  obtain ⟨r, d, hm⟩ := h.exists_made hs.faithful hinformed hx
  obtain ⟨-, hneeded⟩ := h.needed_of_writing hs hx
  have hover := h.output_not_cached hs hspares hx
  exact staysClear_of_made ho hapart hs (hacts.plain ho hpaths) hover hneeded hm

/-- In every state of every run, with any settings: if interfaces keep apart from sources, then
nothing was written over a file that was loaded, the files that the run may load are as
they were at the start, and every interface that was written stays clear of itself. A
run that has ended without a failure has written over no file that it loaded just if no
interface of a needed contract belongs where a file lies that the run may load, with
the output root that the contract got in the run. -/
theorem sources_are_spared_where_interfaces_keep_apart (settings : Settings) (cwd : String)
    (disk : Path → Sighting) (roots : List String) (trace : List Move) (w : World)
    (hrun : Run (start (settings.options (Path.ofString cwd)) disk (roots.map Path.ofString)) trace w) :
    let o := settings.options (Path.ofString cwd)
    let paths := roots.map Path.ofString
    (KeepsApart o disk paths →
      w.SparesSources ∧ (∀ q, Loadable o disk paths q → w.disk q = disk q) ∧
        ∀ x ∈ w.writings, w.StaysClear x) ∧
    ∀ as, w.session.outcome? = some (.ok as) →
      (w.SparesSources ↔
        ∀ k q, Needed o disk paths k → (seen o disk k).needsInterface = true →
          Loadable o disk paths q → interfacePlace? o disk k (w.session.rootOf k) ≠ some q) := by
  intro o paths
  refine ⟨fun hapart => ⟨hrun.sparesSources_of_keepsApart hapart, ?_, ?_⟩, fun as hend => ⟨?_, ?_⟩⟩
  · intro q hq
    exact hrun.disk_eq_of_keepsApart hapart hq
  · intro x hx
    exact hrun.staysClear (settings.plain_options cwd) (Path.plain_map_ofString roots) hapart hx
  · intro hspares k q hk needs hq
    exact hrun.interfacePlace?_ne hspares (answered_of_outcome hend) hk needs hq
  · intro hapart
    exact hrun.sparesSources_of_standsApart fun k q _ hk needs hq => hapart k q hk needs hq

/-- A contract that imports an interface from the directory for interfaces, under another
name than that of its own. Its interface is written beside it. -/
theorem neighbour_is_spared :
    ∃ w as x, Run (start (Neighbours.settings.options (Path.ofString "/")) Neighbours.disk
        (["/A.sol"].map Path.ofString)) Neighbours.moves w ∧
      w.session.outcome? = some (.ok as) ∧ w.IsSource Neighbours.base ∧ w.writings = [x] ∧
      x.output.parent = Neighbours.base.parent ∧ w.SparesSources ∧
      w.disk Neighbours.base = Neighbours.disk Neighbours.base ∧ w.StaysClear x := by
  have hplay : ((start (Neighbours.settings.options (Path.ofString "/")) Neighbours.disk
      (["/A.sol"].map Path.ofString)).play Neighbours.moves).any (fun w =>
        (w.session.outcome?.any fun out => out.toOption.isSome) &&
        decide (∃ x ∈ w.writings, w.writings = [x] ∧ x.output.parent = Neighbours.base.parent ∧
          ∃ t ∈ w.recordAt? Neighbours.base, t.isPresent = true)) = true := by
    decide +kernel
  obtain ⟨w, as, hrun, hend, hcheck⟩ := exists_run_of_any hplay
  obtain ⟨x, hmem, hx, hparent, t, ht, hpresent⟩ := of_decide_eq_true hcheck
  obtain ⟨hspared, hexact⟩ :=
    sources_are_spared_where_interfaces_keep_apart Neighbours.settings "/" Neighbours.disk ["/A.sol"] _ w hrun
  obtain ⟨hspares, hdisk, hclear⟩ := hspared Neighbours.keepsApart
  have hcached : Neighbours.base ∈ Table.keys w.session.cache :=
    Table.mem_keys_iff.mpr (Cache.has_of_outcome? (recordAt?_eq_some.mp ht))
  have hloadable := (hrun.cached_iff hspares (answered_of_outcome hend)).mp hcached
  exact ⟨w, as, x, hrun, hend, ⟨t, ht, hpresent⟩, hx, hparent, hspares, hdisk _ hloadable,
    hclear x hmem⟩

/-- A contract that imports an interface from the directory for interfaces, where it has
the name of its own. The run ends well, and what was generated stands in place of
the source: it imports itself and inherits from itself. -/
theorem handwritten_interface_is_overwritten :
    ∃ w as x r t, Run (start (Handwritten.settings.options (Path.ofString "/")) Handwritten.disk
        (["/A.sol"].map Path.ofString)) Handwritten.moves w ∧
      w.session.outcome? = some (.ok as) ∧ w.writings = [x] ∧ x.source = Handwritten.contract ∧
      w.IsSource Handwritten.interface ∧
      (∃ p ∈ w.session.written, w.session.options.cwd.resolve p = Handwritten.interface) ∧
      w.recordAt? x.source = some r ∧
      (∃ e, w.HasImport r e t ∧ w.session.options.cwd.resolve x.output = e.target) ∧
      x.text = (r.interfaceWith false ["./IA.sol"] ["IA"]).render ∧
      x.leadsTo w.session.options.cwd "./IA.sol" = w.session.options.cwd.resolve x.output ∧
      (r.interfaceWith false ["./IA.sol"] ["IA"]).name
        ∈ (r.interfaceWith false ["./IA.sol"] ["IA"]).bases := by
  have hplay : ((start (Handwritten.settings.options (Path.ofString "/")) Handwritten.disk
      (["/A.sol"].map Path.ofString)).play Handwritten.moves).any (fun w =>
        (w.session.outcome?.any fun out => out.toOption.isSome) &&
        decide (∃ x ∈ w.writings, w.writings = [x] ∧ ∃ r ∈ w.recordAt? Handwritten.contract,
          ∃ t ∈ w.recordAt? Handwritten.interface,
            let cwd := w.session.options.cwd
            let i := r.interfaceWith false ["./IA.sol"] ["IA"]
            x.source = Handwritten.contract ∧ t.isPresent = true ∧
            w.session.written = [x.output] ∧ cwd.resolve x.output = Handwritten.interface ∧
            (∃ e ∈ edgesOf w.session.options r, e.target = Handwritten.interface) ∧
            x.text = i.render ∧ x.leadsTo cwd "./IA.sol" = cwd.resolve x.output ∧
            i.name ∈ i.bases)) = true := by
    decide +kernel
  obtain ⟨w, as, hrun, hend, hcheck⟩ := exists_run_of_any hplay
  obtain ⟨x, -, hx, r, hr, t, ht, hsource, hpresent, hwritten, hplace, ⟨e, he, htarget⟩, htext, hlead,
    hbases⟩ := of_decide_eq_true hcheck
  exact ⟨w, as, x, r, t, hrun, hend, hx, hsource, ⟨t, ht, hpresent⟩,
    ⟨x.output, by simp [hwritten], hplace⟩, hsource ▸ hr,
    ⟨e, ⟨he, htarget ▸ ht, hpresent⟩, hplace.trans htarget.symm⟩, htext, hlead, hbases⟩

end World

end SolidityInterface
