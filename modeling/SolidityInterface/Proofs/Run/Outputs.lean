import SolidityInterface.Proofs.Interface.Unique
import SolidityInterface.Proofs.Run.Sighted

/-
  What the interfaces that a run has written are made of: the record of the source, the
  place that the settings give it, and the imports in use with the sketches of their
  artifacts (`Session.Made`). All paths of a run were read from texts, so each import
  line leads to the file that it stands for (`Session.Made.leadsTo_pathOf`). Its import
  lines and its bases are those in its text, and no others (`World.Lists`).
-/

namespace SolidityInterface

/-- The file that an import leads to: the interface of a base, or else the source. -/
def UsedImport.leadsTo (u : UsedImport) (bases : List DottedName) : Path :=
  if (u.base? bases).isSome then u.artifact.output else u.target.path

/-- Where the path in an import line leads from an interface. -/
def Writing.leadsTo (x : Writing) (cwd : Path) (path : String) : Path :=
  cwd.resolve (x.output.parent.join (Path.ofString path))

/-! ## Settings that were read from texts -/

/-- Whether the paths in some settings were read from texts. -/
structure Options.Plain (o : Options) : Prop where
  cwd : o.cwd.Plain
  modulesRoot : ∀ {p}, o.modulesRoot = some p → p.Plain
  targetRoot : ∀ {p}, o.targetRoot = some p → p.Plain

theorem Settings.plain_options (s : Settings) (cwd : String) :
    (s.options (Path.ofString cwd)).Plain where
  cwd := Path.plain_ofString cwd
  modulesRoot h := by
    obtain ⟨text, -, rfl⟩ := Option.map_eq_some_iff.mp h
    exact Path.plain_ofString text
  targetRoot h := by
    obtain ⟨text, -, rfl⟩ := Option.map_eq_some_iff.mp h
    exact Path.plain_ofString text

theorem Options.layout?_eq_some {o : Options} {l : Layout} (h : o.layout? = some l) :
    l.cwd = o.cwd ∧ o.modulesRoot = some l.modulesRoot ∧ o.targetRoot = some l.targetRoot := by
  unfold Options.layout? at h
  simp only [Option.bind_eq_bind, Option.pure_def, Option.bind_eq_some_iff, Option.some.injEq] at h
  obtain ⟨modules, hmodules, target, htarget, rfl⟩ := h
  exact ⟨rfl, hmodules, htarget⟩

theorem Options.Plain.layout {o : Options} (ho : o.Plain) {l : Layout} (h : o.layout? = some l) :
    l.Plain := by
  obtain ⟨hcwd, hmodules, htarget⟩ := layout?_eq_some h
  exact ⟨hcwd ▸ ho.cwd, ho.modulesRoot hmodules, ho.targetRoot htarget⟩

/-! ## Imports and their artifacts -/

/-- The name of the interface of a contract. -/
theorem Record.interfaceName?_eq {r : Record} (hr : r.WellFormed) (needs : r.needsInterface = true) :
    ∃ n, r.name = some n ∧ IsName n ∧ r.interfaceName? = some ("I" ++ n) ∧
      Layout.fileName r = "I" ++ n ++ ".sol" := by
  obtain ⟨n, hn, hname⟩ := hr.name
  have hinterface := interfaceName?_of_needsInterface needs hn
  exact ⟨n, hn, hname, hinterface, by rw [Layout.fileName, hinterface]; rfl⟩

/-- The name under which the files that import a record know it: that of its interface, if it
gets one, or else its own. -/
def Record.artifactName? (r : Record) : Option String :=
  if r.needsInterface then r.interfaceName? else r.name

/-- A name among the bases of an interface is that of an import which provides a base. -/
theorem exists_of_mem_inheritedNames {bases : List DottedName} {us : List UsedImport} {name : String}
    (h : name ∈ inheritedNames bases us) :
    ∃ u ∈ us, (u.base? bases).isSome = true ∧ u.artifact.name = name := by
  obtain ⟨base, -, hbase⟩ := List.mem_filterMap.mp h
  obtain ⟨u, hfind, hname⟩ := Option.map_eq_some_iff.mp hbase
  have hprovides : u.base? bases = some base := by simpa using List.find?_some hfind
  exact ⟨u, List.mem_of_find?_eq_some hfind, by simp [hprovides], hname⟩

theorem Record.isPresent_of_needsInterface {r : Record} (needs : r.needsInterface = true) :
    r.isPresent = true := by
  simp only [needsInterface, Bool.and_eq_true] at needs
  exact needs.1

namespace Plan

variable {o : Options} {disk : Path → Sighting} {roots : Path → Path} {k root : Path}

/-- The imports in the interface of a file, with the sketches of their artifacts. -/
def linksOf (o : Options) (disk : Path → Sighting) (roots : Path → Path) (k : Path) :
    List UsedImport :=
  (usedOf o disk k).filterMap fun i =>
    (sketch o disk (roots i.2.path) i.2.path).map fun artifact => ⟨i.1, i.2, artifact⟩

theorem textOf_eq (d : Draft) : textOf o disk roots k d = d.text (linksOf o disk roots k) := by
  have hlinked : ∀ (f : ImportEdge × Record → Option Artifact) (l : List (ImportEdge × Record)),
      Session.linked l (l.map f)
        = l.filterMap fun i => (f i).map fun artifact => ⟨i.1, i.2, artifact⟩ := by
    intro f l
    unfold Session.linked
    rw [List.zip_map_right, List.filterMap_map]
    induction l with
    | nil => rfl
    | cons i l ih =>
      rw [List.zip_cons_cons, List.filterMap_cons, List.filterMap_cons, ih]
      rfl
  rw [textOf, hlinked]
  rfl

theorem mem_linksOf {u : UsedImport} :
    u ∈ linksOf o disk roots k ↔ (u.edge, u.target) ∈ usedOf o disk k ∧
      sketch o disk (roots u.target.path) u.target.path = some u.artifact := by
  rw [linksOf, List.mem_filterMap]
  constructor
  · rintro ⟨⟨e, t⟩, hi, hu⟩
    obtain ⟨a, ha, rfl⟩ := Option.map_eq_some_iff.mp hu
    exact ⟨hi, ha⟩
  · rintro ⟨hi, ha⟩
    exact ⟨_, hi, by rw [ha]; rfl⟩

/-- The sketch of a file: the place and the name of its interface, or its own. -/
theorem sketch_eq_some {a : Artifact} (h : sketch o disk root k = some a) :
    a.source = k ∧ (seen o disk k).isPresent = true ∧
      (((seen o disk k).needsInterface = true ∧ a.name = (seen o disk k).interfaceName?.getD "" ∧
          ∃ d, draftFor o (seen o disk k) root = .ok d ∧ a.output = d.output) ∨
        ((seen o disk k).needsInterface = false ∧ a.name = (seen o disk k).name.getD "" ∧
          a.output = k)) := by
  unfold sketch at h
  dsimp only at h
  split at h
  · rename_i needs
    have present := Record.isPresent_of_needsInterface needs
    split at h
    · rename_i d hd
      obtain rfl := Option.some.inj h
      refine ⟨rfl, present, .inl ⟨needs, ?_, d, hd, rfl⟩⟩
      rw [← (draftFor_spec hd).1]
      rfl
    · simp at h
  · rename_i ready
    split at h
    · rename_i present
      obtain rfl := Option.some.inj h
      exact ⟨rfl, present, .inr ⟨by simpa using ready, rfl, seen_path k⟩⟩
    · simp at h

/-- What an importer knows of the artifact of an import. -/
theorem artifact_of_mem_linksOf {u : UsedImport} (hu : u ∈ linksOf o disk roots k) :
    (u.target.needsInterface = true ∧ u.artifact.name = u.target.interfaceName?.getD "" ∧
        ∃ d, Session.Drafted o disk u.edge.target (roots u.edge.target) d ∧
          u.artifact.output = d.output) ∨
      (u.target.needsInterface = false ∧ u.artifact.name = u.target.name.getD "" ∧
        u.artifact.output = u.edge.target) := by
  obtain ⟨hused, hsketch⟩ := mem_linksOf.mp hu
  have htarget : u.target = seen o disk u.edge.target := (usedOf_target hused).1
  have hpath : u.target.path = u.edge.target := usedOf_path hused
  rw [hpath] at hsketch
  rw [htarget]
  rcases (sketch_eq_some hsketch).2.2 with ⟨needs, hname, d, hd, houtput⟩ | hown
  · exact .inl ⟨needs, hname, d, ⟨needs, hd⟩, houtput⟩
  · exact .inr hown

theorem wellFormed_of_isPresent (h : (seen o disk k).isPresent = true) :
    (seen o disk k).WellFormed := by
  unfold seen at h ⊢
  split
  · rename_i r hr
    simp only [hr] at h
    unfold recordAt Cache.interpret at hr
    split at hr
    · obtain rfl := Except.ok.inj hr
      simp [Record.missing] at h
    · simp at hr
    · simp at hr
    · split at hr
      · rename_i content r' hr'
        obtain rfl := Except.ok.inj hr
        exact Record.wellFormed_of_ofSource hr'
      · simp at hr
  · rename_i hr
    simp [hr, Record.missing] at h

theorem mem_edgesOf {r : Record} {e : ImportEdge} (h : e ∈ edgesOf o r) :
    ∃ l i, o.layout? = some l ∧ i ∈ r.imports ∧ l.edge? r.path i.path = some e := by
  unfold edgesOf at h
  cases hbind : o.layout?.bind (·.edges? r) with
  | none => simp [hbind] at h
  | some edges =>
    rw [hbind] at h
    obtain ⟨l, hl, hedges⟩ := Option.bind_eq_some_iff.mp hbind
    obtain ⟨i, hi, he⟩ := exists_of_mem_mapM hedges h
    exact ⟨l, i, hl, hi, he⟩

end Plan

namespace Session

open Plan

variable {o : Options} {found : Path → Sighting} {paths : List Path} {s : Session} {x : Writing}
  {r : Record} {d : Draft} {k root : Path}

theorem Faithful.wellFormed (hs : Faithful o found s) (hloaded : s.cache.outcome? k = some (.ok r))
    (hpresent : r.isPresent = true) : r.WellFormed := by
  have hseen := hs.seen_eq hloaded
  rw [← hseen] at hpresent ⊢
  exact wellFormed_of_isPresent hpresent

/-! ## The files of a run -/

/-- Whether a file and its output root have plain paths, and that of the file is resolved. -/
structure PlainFile (cwd k root : Path) : Prop where
  file : k.Plain
  resolved : cwd.resolve k = k
  root : root.Plain

theorem PlainFile.relies (ho : o.Plain) (h : PlainFile o.cwd k root) {t : Path}
    (ht : Relies o found k t) : PlainFile o.cwd t root := by
  obtain ⟨-, i, hi, rfl⟩ := ht
  obtain ⟨l, directive, hl, -, he⟩ := mem_edgesOf (usedOf_target hi).2
  rw [seen_path] at he
  obtain ⟨hplain, hresolved⟩ := Layout.edge?_target (ho.layout hl) h.file he
  rw [(Options.layout?_eq_some hl).1] at hresolved
  exact ⟨hplain, hresolved, h.root⟩

/-- The files of a run on plain paths have plain paths. -/
theorem Acts.plain (ho : o.Plain) (hpaths : ∀ p ∈ paths, p.Plain)
    (h : Acts (finds found) ({ options := o : Session }.enter paths) s) :
    Spread (PlainFile o.cwd) s := by
  refine h.spread ?_ fun hk ht => hk.relies ho ht
  intro p hp key target root hkey htarget hroot
  have hplain := Layout.plain_of_resolve? ho.cwd (hpaths p hp) hkey
  exact ⟨hplain, Layout.resolve_of_resolve? hkey,
    Layout.plain_targetDirectory? ho.cwd (ho.targetRoot htarget) hplain hroot⟩

theorem plain_rootOf (hplain : Spread (PlainFile o.cwd) s) (hk : Table.has k s.jobs = true) :
    PlainFile o.cwd k (s.rootOf k) := by
  obtain ⟨j, hj⟩ := Table.has_iff.mp hk
  rw [rootOf_of_get? hj]
  exact hplain.job hj

/-! ## Interfaces that were written -/

/-- What an interface that was written is made of. -/
structure Made (o : Options) (found : Path → Sighting) (s : Session) (x : Writing) (r : Record)
    (d : Draft) : Prop where
  loaded : s.cache.outcome? x.source = some (.ok r)
  seen_eq : seen o found x.source = r
  needs : r.needsInterface = true
  draft : draftFor o r (s.rootOf x.source) = .ok d
  output : x.output = d.output
  text : x.text = d.text (linksOf o found s.rootOf x.source)
  supplied : Supplied o found s x.source
  imports : ∀ e ∈ edgesOf o r, ∃ t, s.cache.outcome? e.target = some (.ok t)

theorem Emitted.made (hs : Faithful o found s) (hinformed : Informed o found s)
    (h : s.Emitted x.source x.output x.text) : ∃ r d, Made o found s x r d := by
  obtain ⟨a, ha, hemitted, houtput, htext⟩ := h
  obtain ⟨⟨r, hr⟩, himports⟩ := hinformed.of_result ha
  have hseen := hs.seen_eq hr
  have needs := hs.needs_of_written ha hemitted
  obtain ⟨j, hj, hc⟩ := hs.course_of_result ha
  generalize hout : some a = out at hc
  cases hc with
  | plain ready =>
    rw [needs] at ready
    simp at ready
  | @emitted d text drafted supplied hword =>
    obtain rfl := Option.some.inj hout
    refine ⟨r, d, hr, hseen, hseen ▸ needs, ?_, houtput.symm, ?_, supplied, ?_⟩
    · rw [rootOf_of_get? hj, ← hseen]
      exact drafted.2
    · rw [← textOf_eq, ← hword]
      exact (Option.some.inj htext).symm
    · rw [← hseen]
      exact himports needs

/-- The place of the interface of a file: in the directory for it, under the name of the
contract. -/
theorem Drafted.placed (h : Drafted o found k root d) :
    ∃ n l directory, (seen o found k).name = some n ∧
      (seen o found k).interfaceName? = some ("I" ++ n) ∧ o.layout? = some l ∧
      l.directory? k root = some directory ∧ d.output = Layout.placed directory ("I" ++ n ++ ".sol") ∧
      o.cwd.resolve d.output = Layout.placed (o.cwd.resolve directory) ("I" ++ n ++ ".sol") := by
  obtain ⟨needs, hdraft⟩ := h
  have hwell := wellFormed_of_isPresent (Record.isPresent_of_needsInterface needs)
  obtain ⟨n, hn, -, hinterface, hfile⟩ := Record.interfaceName?_eq hwell needs
  obtain ⟨-, hlayout, -, hplace⟩ := draftFor_spec hdraft
  obtain ⟨directory, hdirectory, houtput⟩ := (Layout.outputPath?_eq_some needs).mp hplace
  rw [seen_path] at hdirectory
  refine ⟨n, d.layout, directory, hn, hinterface, hlayout, hdirectory, hfile ▸ houtput, ?_⟩
  rw [houtput, Layout.resolve_placed, hfile]

/-- The place of the interface of a plain file is plain. -/
theorem Drafted.plain (ho : o.Plain) (h : Drafted o found k root d) (hk : PlainFile o.cwd k root) :
    d.output.Plain := by
  obtain ⟨needs, hdraft⟩ := h
  have hwell := wellFormed_of_isPresent (Record.isPresent_of_needsInterface needs)
  obtain ⟨-, hlayout, -, hplace⟩ := draftFor_spec hdraft
  refine Layout.plain_outputPath? (ho.layout hlayout) hwell needs ?_ hk.root hplace
  rw [seen_path]
  exact hk.file

namespace Made

variable {u : UsedImport}

theorem drafted (hm : Made o found s x r d) : Drafted o found x.source (s.rootOf x.source) d :=
  ⟨hm.seen_eq ▸ hm.needs, hm.seen_eq ▸ hm.draft⟩

theorem present (hm : Made o found s x r d) : r.isPresent = true :=
  Record.isPresent_of_needsInterface hm.needs

/-- An import in an interface: it is one of the record, and its target was loaded and found
to be there. -/
theorem link (hm : Made o found s x r d) (hs : Faithful o found s)
    (hu : u ∈ linksOf o found s.rootOf x.source) :
    u.edge ∈ edgesOf o r ∧ s.cache.outcome? u.edge.target = some (.ok u.target) ∧
      u.target.isPresent = true ∧ u.target.path = u.edge.target ∧
      u.artifact.source = u.edge.target ∧ Table.has u.edge.target s.jobs = true := by
  obtain ⟨hused, hsketch⟩ := mem_linksOf.mp hu
  obtain ⟨htarget, hedge⟩ := usedOf_target hused
  dsimp only at htarget hedge
  have hpath : u.target.path = u.edge.target := usedOf_path hused
  rw [hm.seen_eq] at hedge
  obtain ⟨t, ht⟩ := hm.imports _ hedge
  rw [← hs.seen_eq ht, ← htarget] at ht
  rw [hpath] at hsketch
  obtain ⟨hsource, hpresent, -⟩ := sketch_eq_some hsketch
  rw [← htarget] at hpresent
  exact ⟨hedge, ht, hpresent, hpath, hsource, hpath ▸ hm.supplied.employed _ hused⟩

theorem plain_leadsTo (hm : Made o found s x r d) (hs : Faithful o found s) (ho : o.Plain)
    (hplain : Spread (PlainFile o.cwd) s) (hu : u ∈ linksOf o found s.rootOf x.source)
    (bases : List DottedName) : (u.leadsTo bases).Plain := by
  obtain ⟨-, -, -, hpath, -, hjob⟩ := hm.link hs hu
  have hfile := plain_rootOf hplain hjob
  unfold UsedImport.leadsTo
  split
  · rcases artifact_of_mem_linksOf hu with ⟨-, -, d', hdrafted, houtput⟩ | ⟨-, -, houtput⟩
    · rw [houtput]
      exact hdrafted.plain ho hfile
    · rw [houtput]
      exact hfile.file
  · rw [hpath]
    exact hfile.file

/-- The path in the line of an import, as it stands in an interface with the given
draft. -/
def pathOf (d : Draft) (u : UsedImport) : String :=
  d.layout.relativeImport (u.leadsTo d.record.bases) d.output.parent

/-- An import line leads from the interface to the file that it stands for. -/
theorem leadsTo_pathOf (hm : Made o found s x r d) (hs : Faithful o found s) (ho : o.Plain)
    (hplain : Spread (PlainFile o.cwd) s) (hu : u ∈ linksOf o found s.rootOf x.source) :
    x.leadsTo o.cwd (pathOf d u) = o.cwd.resolve (u.leadsTo r.bases) := by
  obtain ⟨hrecord, hl, -, -⟩ := draftFor_spec hm.draft
  have hcwd := (Options.layout?_eq_some hl).1
  have hlead := Layout.resolve_join_relativeImport (hcwd ▸ ho.cwd)
    (hm.plain_leadsTo hs ho hplain hu r.bases) d.output.parent
  rw [hcwd] at hlead
  rw [Writing.leadsTo, pathOf, hm.output, hrecord]
  exact hlead

/-- The name under which an import is known is one. -/
theorem artifactName?_of_link (hm : Made o found s x r d) (hs : Faithful o found s)
    (hu : u ∈ linksOf o found s.rootOf x.source) :
    u.target.artifactName? = some u.artifact.name ∧ IsName u.artifact.name := by
  obtain ⟨-, hloaded, hpresent, -⟩ := hm.link hs hu
  have hwell := hs.wellFormed hloaded hpresent
  unfold Record.artifactName?
  rcases artifact_of_mem_linksOf hu with ⟨needs, hname, -⟩ | ⟨ready, hname, -⟩
  · obtain ⟨n, -, hn, hinterface, -⟩ := Record.interfaceName?_eq hwell needs
    rw [hinterface, Option.getD_some] at hname
    rw [if_pos needs, hinterface, hname]
    exact ⟨rfl, hn.interface⟩
  · obtain ⟨n, hown, hn⟩ := hwell.name
    rw [hown, Option.getD_some] at hname
    rw [if_neg (by simp [ready]), hown, hname]
    exact ⟨rfl, hn⟩

/-- The text of an interface that was written. -/
theorem text_eq (hm : Made o found s x r d) :
    x.text = (r.interfaceWith o.rawOnly
      ((linksOf o found s.rootOf x.source).map (pathOf d))
      (inheritedNames r.bases (linksOf o found s.rootOf x.source))).render := by
  obtain ⟨rfl, -, houtline, -⟩ := draftFor_spec hm.draft
  rw [hm.text, Draft.text, houtline, Record.interface_eq_interfaceWith]
  rfl

end Made

end Session

namespace World

open Session Plan

variable {o : Options} {disk : Path → Sighting} {paths : List Path} {w : World} {trace : List Move}

theorem written_of_changes {s t : Session} {sees : Path → Sighting → Prop} (h : Changes sees s t) :
    t.written = s.written := by
  induction h with
  | refl => rfl
  | tail _ hc ih =>
    rw [← ih]
    cases hc <;> rfl

/-- Some moves that end a run without a failure, with a check of where they end. -/
theorem exists_run_of_any {v : World} {moves : List Move} {check : World → Bool}
    (h : (v.play moves).any (fun w =>
      (w.session.outcome?.any fun out => out.toOption.isSome) && check w) = true) :
    ∃ w as, Run v moves w ∧ w.session.outcome? = some (.ok as) ∧ check w = true := by
  obtain ⟨w, hw, h⟩ := (Option.any_eq_true ..).mp h
  obtain ⟨hend, hcheck⟩ := Bool.and_eq_true_iff.mp h
  obtain ⟨out, hout, hok⟩ := (Option.any_eq_true ..).mp hend
  cases out with
  | error f => simp [Except.toOption] at hok
  | ok as => exact ⟨w, as, run_of_play hw, hout, hcheck⟩

/-- The paths that were written to, in order. -/
theorem Run.written_eq (h : Run (start o disk paths) trace w) :
    w.session.written = w.writings.map (·.output) := by
  induction h with
  | nil => rfl
  | snoc _ hstep ih =>
    rcases hstep.world_cases with ⟨hw, -, hc⟩ | ⟨k, j, -, hw, -, -, hc⟩ | ⟨k, j, d, text, -, hw, -, -, hc⟩
    · rw [hw, ← ih, written_of_changes hc]
    · rw [hw, ← ih, written_of_changes hc]
      rfl
    · rw [hw, List.map_append, ← ih, written_of_changes hc]
      rfl

/-- What an interface that a run has written is made of. -/
theorem Run.exists_made {found : Path → Sighting} (h : Run (start o disk paths) trace w)
    (hs : Faithful o found w.session) (hinformed : Informed o found w.session) {x : Writing}
    (hx : x ∈ w.writings) : ∃ r d, Made o found w.session x r d :=
  ((h.writings_iff.2 x.source x.output x.text).mp hx).made hs hinformed

/-- The record of a file that a run has loaded. -/
def recordAt? (w : World) (k : Path) : Option Record :=
  (w.session.cache.outcome? k).bind Except.toOption

/-- Whether a record has an import whose target was loaded and is there. -/
def HasImport (w : World) (r : Record) (e : ImportEdge) (t : Record) : Prop :=
  e ∈ edgesOf w.session.options r ∧ w.recordAt? e.target = some t ∧ t.isPresent = true

theorem recordAt?_eq_some {k : Path} {r : Record} :
    w.recordAt? k = some r ↔ w.session.cache.outcome? k = some (.ok r) := by
  unfold recordAt?
  rcases w.session.cache.outcome? k with _ | _ | _ <;> simp [Except.toOption]

/-- Whether an interface that was written is that of a record, with import lines of the given
paths and a list of bases of the given names. Both are read off its text: as long as no line
leads to a file with a quote or a backslash in its path, no other paths that can stand
between quotes and no other names make up the same text. -/
structure Lists (w : World) (x : Writing) (r : Record) (paths names : List String) : Prop where
  text : x.text = (r.interfaceWith w.session.options.rawOnly paths names).render
  only : (∀ p ∈ paths, (x.leadsTo w.session.options.cwd p).IsUnquoted) →
    ∀ paths' names', (∀ p ∈ paths', Lexeme.isQuotable '\x22' p.toList = true) →
      (∀ n ∈ names', IsName n) →
      x.text = (r.interfaceWith w.session.options.rawOnly paths' names').render →
      Distinct.ofList paths' = Distinct.ofList paths ∧ Distinct.ofList names' = Distinct.ofList names

theorem lists_of_made {found : Path → Sighting} {x : Writing} {r : Record} {d : Draft}
    (hs : Faithful o found w.session) (ho : o.Plain) (hplain : Spread (PlainFile o.cwd) w.session)
    (hm : Made o found w.session x r d) :
    w.Lists x r ((linksOf o found w.session.rootOf x.source).map (Made.pathOf d))
      (inheritedNames r.bases (linksOf o found w.session.rootOf x.source)) := by
  have htext := hm.text_eq
  constructor
  case text => rw [hs.options, htext]
  case only =>
    intro hunquoted paths' names' hpaths' hnames' h
    rw [hs.options, htext] at h
    refine Record.lists_of_render_eq ?_ hpaths' ?_ hnames' h.symm
    · intro p hp
      have hfile := hunquoted p hp
      obtain ⟨u, hu, rfl⟩ := List.mem_map.mp hp
      obtain ⟨hrecord, hl, -, -⟩ := draftFor_spec hm.draft
      rw [hs.options, hm.leadsTo_pathOf hs ho hplain hu, ← (Options.layout?_eq_some hl).1, ← hrecord]
        at hfile
      exact Layout.isQuotable_relativeImport hfile _
    · intro n hn
      obtain ⟨u, hu, -, rfl⟩ := exists_of_mem_inheritedNames hn
      exact (hm.artifactName?_of_link hs hu).2

end World

end SolidityInterface
