import SolidityInterface.Proofs.Run.Outputs

/-
  The imports and the bases of the interfaces that a run has written. Once a run has ended
  without a failure, every import line of an interface leads to a source that was
  loaded and is there, or to an interface that was written, and every name in its list
  of bases is that of an artifact to which an import line leads. This holds in import
  cycles as well, where the lines are made of provisional artifacts: the artifact
  that a job ends with has the same place and the same name (`Session.Made.final`).
-/

namespace SolidityInterface

namespace Session

open Plan

variable {o : Options} {found : Path → Sighting} {paths : List Path} {s : Session} {x : Writing}
  {r : Record} {d : Draft} {u : UsedImport}

/-- The artifact that the job of an import ended with is the one that the importer knew, as
far as importers need it. -/
theorem Made.final (hm : Made o found s x r d) (hs : Grown o found paths s)
    (hanswered : s.Answered) (hu : u ∈ linksOf o found s.rootOf x.source) :
    ∃ a, s.result? u.edge.target = some (.ok (some a)) ∧ a.bare = u.artifact := by
  obtain ⟨-, -, -, hpath, -, hjob⟩ := hm.link hs.faithful hu
  obtain ⟨out, hout⟩ := hs.all_done hanswered hjob
  obtain ⟨-, hbare⟩ := hs.faithful.bare_of_result hout
  have hsketch := (mem_linksOf.mp hu).2
  rw [hpath] at hsketch
  rw [hsketch] at hbare
  obtain ⟨a, rfl, ha⟩ := Option.map_eq_some_iff.mp hbare
  exact ⟨a, hout, ha⟩

end Session

namespace World

open Session Plan

variable {o : Options} {disk found : Path → Sighting} {paths : List Path} {w : World}
  {trace : List Move} {x : Writing} {r : Record} {d : Draft} {u : UsedImport}

/-- Whether a path is that of a source that was loaded and is there, or of an interface
that was written. -/
def Offers (w : World) (q : Path) : Prop :=
  (∃ t, w.session.cache.outcome? q = some (.ok t) ∧ t.isPresent = true) ∨
    ∃ p ∈ w.session.written, w.session.options.cwd.resolve p = q

/-- Whether an artifact is that of an import which provides a base to a record. -/
def Provides (w : World) (r : Record) (base : DottedName) (a : Artifact) : Prop :=
  base ∈ r.bases ∧ w.session.result? a.source = some (.ok (some a)) ∧
    ∃ e ∈ edgesOf w.session.options r, ∃ t, e.target = a.source ∧
      w.session.cache.outcome? e.target = some (.ok t) ∧ e.inheritedBase? t.name r.bases = some base

/-- Whether the import lines of an interface lead to files that are there, and its list of
bases names artifacts to which such lines lead. Each name is that of an artifact whose
file provides a base of the contract, and the names stand in the order in which the
contract first declares these bases. -/
def WellLinked (w : World) (x : Writing) : Prop :=
  ∃ r paths names,
    w.session.cache.outcome? x.source = some (.ok r) ∧ w.Lists x r paths names ∧
    (∀ p ∈ paths, w.Offers (x.leadsTo w.session.options.cwd p)) ∧
    ∃ bases : List DottedName,
      bases.Pairwise (fun b b' => r.bases.idxOf b < r.bases.idxOf b') ∧
      List.Forall₂ (fun name base => ∃ a, a.name = name ∧ w.Provides r base a ∧
          ∃ p ∈ paths, x.leadsTo w.session.options.cwd p = w.session.options.cwd.resolve a.output)
        (r.interfaceWith w.session.options.rawOnly paths names).bases bases

/-- The interface of an import was written to the place that was promised. -/
theorem exists_writing_of_link (h : Run (start o disk paths) trace w)
    (hs : Grown o found paths w.session) (hanswered : w.session.Answered)
    (hm : Made o found w.session x r d) (hu : u ∈ linksOf o found w.session.rootOf x.source)
    (needs : u.target.needsInterface = true) :
    ∃ y ∈ w.writings, y.source = u.edge.target ∧ y.output = u.artifact.output := by
  obtain ⟨-, hloaded, -⟩ := hm.link hs.faithful hu
  obtain ⟨a, ha, hbare⟩ := hm.final hs hanswered hu
  rw [← hs.faithful.seen_eq hloaded] at needs
  obtain ⟨b, text, hb, hemitted, htext⟩ := hs.faithful.written_of_needs ha needs
  obtain rfl := Option.some.inj hb
  have hwritten : (⟨u.edge.target, a.output, text⟩ : Writing) ∈ w.writings :=
    (h.writings_iff.2 _ _ _).mpr ⟨a, ha, hemitted, rfl, htext⟩
  exact ⟨_, hwritten, rfl, by rw [← hbare]; rfl⟩

/-- What an import leads to is there once the run has ended. -/
theorem offers_leadsTo (h : Run (start o disk paths) trace w) (hs : Grown o found paths w.session)
    (hplain : Spread (PlainFile o.cwd) w.session) (hanswered : w.session.Answered)
    (hm : Made o found w.session x r d) (hu : u ∈ linksOf o found w.session.rootOf x.source) :
    w.Offers (o.cwd.resolve (u.leadsTo r.bases)) := by
  obtain ⟨-, hloaded, hpresent, hpath, -, hjob⟩ := hm.link hs.faithful hu
  have hresolved := (plain_rootOf hplain hjob).resolved
  have hsource : w.Offers (o.cwd.resolve u.edge.target) :=
    .inl ⟨u.target, by rw [hresolved]; exact hloaded, hpresent⟩
  unfold UsedImport.leadsTo
  split
  · -- The line for a base leads to its interface, if it needs one.
    rcases artifact_of_mem_linksOf hu with ⟨needs, -, -⟩ | ⟨-, -, houtput⟩
    · obtain ⟨y, hy, -, houtput⟩ := exists_writing_of_link h hs hanswered hm hu needs
      refine .inr ⟨y.output, ?_, by rw [hs.faithful.options, houtput]⟩
      rw [h.written_eq]
      exact List.mem_map_of_mem hy
    · rw [houtput]
      exact hsource
  · rw [hpath]
    exact hsource

/-- The list of bases of an interface that was written. -/
theorem provides_bases (hs : Grown o found paths w.session) (hanswered : w.session.Answered)
    (hm : Made o found w.session x r d)
    (hlead : ∀ u ∈ linksOf o found w.session.rootOf x.source,
      x.leadsTo o.cwd (Made.pathOf d u) = o.cwd.resolve (u.leadsTo r.bases)) :
    ∃ bases : List DottedName,
      bases.Pairwise (fun b b' => r.bases.idxOf b < r.bases.idxOf b') ∧
      List.Forall₂ (fun name base => ∃ a, a.name = name ∧ w.Provides r base a ∧
          ∃ p ∈ (linksOf o found w.session.rootOf x.source).map (Made.pathOf d),
            x.leadsTo o.cwd p = o.cwd.resolve a.output)
        (Distinct.ofList (inheritedNames r.bases (linksOf o found w.session.rootOf x.source))) bases := by
  generalize hlinks : linksOf o found w.session.rootOf x.source = us at hlead ⊢
  -- Two bases may lead to one name. The first of them stands for it.
  obtain ⟨given, hnames, hgiven, horder⟩ := Distinct.exists_first
    (fun base => us.find? fun u => u.base? r.bases = some base) (·.artifact.name) r.bases
  have hnames' : Distinct.ofList (inheritedNames r.bases us)
      = given.map fun e => e.2.artifact.name := hnames
  refine ⟨given.map (·.1), horder, ?_⟩
  rw [hnames', List.forall₂_map_left_iff, List.forall₂_map_right_iff, List.forall₂_same]
  rintro ⟨base, u⟩ he
  obtain ⟨hbase, hfind⟩ := hgiven _ he
  have hu : u ∈ us := List.mem_of_find?_eq_some hfind
  have hprovides : u.base? r.bases = some base := by simpa using List.find?_some hfind
  obtain ⟨hedge, hloaded, -, -, hsource, -⟩ := hm.link hs.faithful (hlinks ▸ hu)
  obtain ⟨a, ha, hbare⟩ := hm.final hs hanswered (hlinks ▸ hu)
  have hasource : a.source = u.edge.target := by rw [← hsource, ← hbare]; rfl
  refine ⟨a, by rw [← hbare]; rfl, ⟨hbase, by rw [hasource]; exact ha, u.edge, ?_⟩, ?_⟩
  · rw [hs.faithful.options]
    exact ⟨hedge, u.target, hasource.symm, hloaded, hprovides⟩
  · refine ⟨Made.pathOf d u, List.mem_map_of_mem hu, ?_⟩
    rw [hlead u hu, UsedImport.leadsTo, if_pos (by simp [hprovides]), ← hbare]
    rfl

/-- After a run without a failure, on any files, with any settings and in any order of the
moves, every interface that was written is well linked. -/
theorem import_lines_lead_to_files (settings : Settings) (cwd : String) (disk : Path → Sighting)
    (roots : List String) (trace : List Move) (w : World) (as : List (Option Artifact))
    (hrun : Run (start (settings.options (Path.ofString cwd)) disk (roots.map Path.ofString)) trace w)
    (hend : w.session.outcome? = some (.ok as)) :
    ∀ x ∈ w.writings, w.WellLinked x := by
  intro x hx
  obtain ⟨found, hacts, hs, hinformed⟩ := hrun.exists_grown
  have ho := settings.plain_options cwd
  have hplain := hacts.plain ho (Path.plain_map_ofString roots)
  have hanswered := answered_of_outcome hend
  obtain ⟨r, d, hm⟩ := hrun.exists_made hs.faithful hinformed hx
  have hlead : ∀ u ∈ linksOf _ found w.session.rootOf x.source, x.leadsTo _ (Made.pathOf d u) = _ :=
    fun u hu => hm.leadsTo_pathOf hs.faithful ho hplain hu
  rw [WellLinked, hs.faithful.options]
  refine ⟨r, _, _, hm.loaded, lists_of_made hs.faithful ho hplain hm, ?_, ?_⟩
  · intro p hp
    obtain ⟨u, hu, rfl⟩ := List.mem_map.mp hp
    rw [hlead u hu]
    exact offers_leadsTo hrun hs hplain hanswered hm hu
  · rw [Record.interfaceWith_bases]
    exact provides_bases hs hanswered hm hlead

namespace Pair

/-- The settings of a run on the two contracts. -/
def settings : Settings :=
  { modulesRoot := .text "modules", targetRoot := .text "out", license := .text "MIT" }

end Pair

/-- Two contracts that import each other and inherit from each other. The second is put
together with the provisional artifact of the first, and both interfaces have a line
that leads to the other. -/
theorem cycle_partners_are_well_linked :
    ∃ w as, Run (start (Pair.settings.options (Path.ofString "/")) Pair.disk
        (["/A.sol"].map Path.ofString)) (Pair.approach ++ Pair.rest) w ∧
      w.session.outcome? = some (.ok as) ∧
      (∃ x ∈ w.writings, x.source = Pair.left ∧ w.WellLinked x) ∧
      ∃ x ∈ w.writings, x.source = Pair.right ∧ w.WellLinked x := by
  have hplay : ((start (Pair.settings.options (Path.ofString "/")) Pair.disk
      (["/A.sol"].map Path.ofString)).play (Pair.approach ++ Pair.rest)).any (fun w =>
        (w.session.outcome?.any fun out => out.toOption.isSome) &&
        decide (w.writings.map (·.source) = [Pair.right, Pair.left])) = true := by
    decide +kernel
  obtain ⟨w, as, hrun, hend, hcheck⟩ := exists_run_of_any hplay
  have hsources := of_decide_eq_true hcheck
  have hlinked := import_lines_lead_to_files Pair.settings "/" Pair.disk ["/A.sol"] _ w as hrun hend
  have hwritten : ∀ k ∈ [Pair.right, Pair.left], ∃ x ∈ w.writings, x.source = k ∧ w.WellLinked x := by
    intro k hk
    rw [← hsources] at hk
    obtain ⟨x, hx, rfl⟩ := List.mem_map.mp hk
    exact ⟨x, hx, rfl, hlinked x hx⟩
  exact ⟨w, as, hrun, hend, hwritten _ (by simp), hwritten _ (by simp)⟩

end World

end SolidityInterface
