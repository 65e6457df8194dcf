import SolidityInterface.Proofs.Run.Imports

/-
  The names in the interfaces that a run has written. A type that an interface mentions is
  declared in it or in a file that it imports, as far as its contract or an import
  of its contract declares the type (`mentioned_types_are_declared`). Two kinds of
  names are left out. The import of a base becomes one of the interface of that base, which
  declares again only what its own stubs use; and the head of a longer name may be a
  struct that cannot be declared again. Both occur
  (`some_mentioned_types_are_not_declared`).
-/

namespace SolidityInterface

open Session Plan

/-- Whether a record declares the head of a name as a type that its interface can declare
again: an enum, or a struct that is named alone or has a form in an interface. -/
def Record.OwnsType (r : Record) (rawOnly : Bool) (n : DottedName) (head : String) : Prop :=
  head ∈ r.enumNames ∨
    head ∈ r.structNames ∧
      (n = [head] ∨ ∃ d ∈ r.structs, d.name = head ∧ ((r.scope rawOnly).struct? d).isSome = true)

namespace World

/-! ## A contract and its base -/

namespace Heirs

/-- The settings of a run on the contract. -/
def settings : Settings :=
  { modulesRoot := .text "modules", targetRoot := .text "out", license := .text "MIT" }

/-- The file of the contract. -/
def heir : Path := ⟨.slash, ["A.sol"]⟩

/-- The file of its base. -/
def base : Path := ⟨.slash, ["Base.sol"]⟩

/-- A disk with the two files. The contract mentions an enum of its own, the two structs of
its base, its base, and something within a struct with a mapping. Of the two structs, the
interface of the base uses one. -/
def disk (p : Path) : Sighting :=
  if p = heir then .text
    ("pragma solidity 1;import \x22./Base.sol\x22;contract A is Base\x7benum E\x7ba\x7d"
      ++ "struct M\x7bmapping(uint=>uint) m;\x7dfunction f(E e,S memory s,R memory r,Base b,M.T memory t)"
      ++ "external\x7b\x7d\x7d")
  else if p = base then .text
    "pragma solidity 1;contract Base\x7bstruct S\x7buint x;\x7dstruct R\x7buint y;\x7dR public r;\x7d"
  else .absent

/-- The moves of that run. -/
def moves : List Move :=
  [.ask 0, .start heir, .look heir, .receive heir, .fetch 0, .look base, .obtain 0, .gather heir,
    .ask 1, .start base, .write base, .resume 1, .link heir, .write heir, .resume 0]

end Heirs

/-! ## What is declared -/

/-- What an interface that was written is: the one of the record of its source, with the
given imports, bases and members. -/
structure Shows (w : World) (x : Writing) (r : Record) (paths names : List String)
    (members : List Member) : Prop where
  record : w.recordAt? x.source = some r
  text : x.text = (r.interfaceWith w.session.options.rawOnly paths names).render
  members : Outline.Declares w.session.options.rawOnly r members

/-- Whether a file at a path declares a type: a source that was loaded and is there, or an
interface that was written there, by its name or in a member. -/
def DeclaresAt (w : World) (q : Path) (name : String) : Prop :=
  (∃ t, w.recordAt? q = some t ∧ t.isPresent = true ∧ name ∈ t.declared) ∨
    ∃ y ∈ w.writings, w.session.options.cwd.resolve y.output = q ∧
      ∃ r paths names members, w.Shows y r paths names members ∧
        (r.interfaceName? = some name ∨ name ∈ members.filterMap Member.typeName?)

/-- Whether an import of a record declares a type and keeps it: the import does not turn
into one of the interface of a base, or that interface declares the type as well. -/
def KeepsType (w : World) (r : Record) (name : String) : Prop :=
  ∃ e t, w.HasImport r e t ∧ name ∈ t.declared ∧
    (t.needsInterface = false ∨ (e.inheritedBase? t.name r.bases).isSome = false ∨
      t.interfaceName? = some name ∨ Outline.Redeclares w.session.options.rawOnly t name)

variable {o : Options} {disk found : Path → Sighting} {paths : List Path} {w : World}
  {trace : List Move} {x : Writing} {r t : Record} {d : Draft} {e : ImportEdge}

/-- An interface that was written, with its members. -/
theorem Shows.of_made (hs : Faithful o found w.session) (hm : Made o found w.session x r d) :
    ∃ members,
      w.Shows x r ((linksOf o found w.session.rootOf x.source).map (Made.pathOf d))
        (inheritedNames r.bases (linksOf o found w.session.rootOf x.source)) members ∧
      (∀ m ∈ members, ∀ n ∈ m.paths,
        (r.scope o.rawOnly).Covers (Outline.ofRecord o.rawOnly r).uses n) ∧
      ∀ name, name ∈ members.filterMap Member.typeName? ↔ Outline.Redeclares o.rawOnly r name := by
  obtain ⟨members, hdeclares, hcovers, htypes⟩ :=
    Outline.exists_declares (hs.wellFormed hm.loaded hm.present) o.rawOnly
  refine ⟨members, ⟨recordAt?_eq_some.mpr hm.loaded, ?_, ?_⟩, hcovers, htypes⟩
  · rw [hs.options]
    exact hm.text_eq
  · rw [hs.options]
    exact hdeclares

/-- An interface declares again what its contract declares and a stub mentions. -/
theorem redeclares_of_ownsType {rawOnly : Bool} {n : DottedName} {head : String}
    (hcovers : (r.scope rawOnly).Covers (Outline.ofRecord rawOnly r).uses n)
    (hhead : n.head? = some head) (h : r.OwnsType rawOnly n head) :
    Outline.Redeclares rawOnly r head := by
  refine ⟨hcovers.raw, hcovers.head hhead, ?_⟩
  rcases h with h | ⟨hname, rfl | h⟩
  · exact .inl h
  · obtain ⟨d, hd, rfl⟩ := List.mem_map.mp hname
    exact .inr ⟨d, hd, rfl, Scope.struct?_isSome hcovers.raw hd (hcovers.plain rfl)⟩
  · exact .inr h

/-- An import of a file that declares a name in use is in the interface, once the run has
ended. -/
theorem exists_link (hs : Grown o found paths w.session) (hanswered : w.session.Answered)
    (hm : Made o found w.session x r d) (himport : w.HasImport r e t) {name : String}
    (hused : [name] ∈ (Outline.ofRecord o.rawOnly r).uses) (hdeclared : name ∈ t.declared) :
    ∃ u ∈ linksOf o found w.session.rootOf x.source, u.edge = e ∧ u.target = t := by
  obtain ⟨hedge, hrecord, hpresent⟩ := himport
  rw [hs.faithful.options] at hedge
  have hseen : seen o found e.target = t := hs.faithful.seen_eq (recordAt?_eq_some.mp hrecord)
  have hi : (e, t) ∈ usedOf o found x.source := by
    rw [usedOf, usedImports, List.mem_filter, importsOf, hm.seen_eq]
    refine ⟨List.mem_map.mpr ⟨e, hedge, by rw [hseen]⟩, ?_⟩
    exact List.any_eq_true.mpr ⟨[name], List.mem_map_of_mem hdeclared, by simpa using hused⟩
  obtain ⟨out, hout⟩ := hs.all_done hanswered (hm.supplied.employed _ hi)
  have hpath : t.path = e.target := usedOf_path hi
  dsimp only at hout
  obtain ⟨-, hsketch⟩ := hs.faithful.bare_of_result hout
  have hsome : (sketch o found (w.session.rootOf t.path) t.path).isSome = true := by
    cases needs : t.needsInterface with
    | true =>
      rw [hpath] at hout hsketch ⊢
      obtain ⟨b, -, rfl, -⟩ := hs.faithful.written_of_needs hout (hseen ▸ needs)
      rw [← hsketch]
      rfl
    | false =>
      rw [hpath]
      simp [sketch, hseen, needs, hpresent]
  obtain ⟨a, ha⟩ := Option.isSome_iff_exists.mp hsome
  exact ⟨⟨e, t, a⟩, mem_linksOf.mpr ⟨hi, ha⟩, rfl, rfl⟩

/-- A type that an import keeps is declared where the line of the import leads. -/
theorem declaresAt_of_keepsType (h : Run (start o disk paths) trace w)
    (hs : Grown o found paths w.session) (hinformed : Informed o found w.session)
    (hplain : Spread (PlainFile o.cwd) w.session) (hanswered : w.session.Answered)
    (hm : Made o found w.session x r d) {name : String}
    (hused : [name] ∈ (Outline.ofRecord o.rawOnly r).uses) (hkeeps : w.KeepsType r name) :
    ∃ u ∈ linksOf o found w.session.rootOf x.source,
      w.DeclaresAt (o.cwd.resolve (u.leadsTo r.bases)) name := by
  obtain ⟨e, t, himport, hdeclared, hkept⟩ := hkeeps
  obtain ⟨u, hu, rfl, rfl⟩ := exists_link hs hanswered hm himport hused hdeclared
  obtain ⟨-, hloaded, hpresent, hpath, -, hjob⟩ := hm.link hs.faithful hu
  have hresolved := (plain_rootOf hplain hjob).resolved
  have hsource : w.DeclaresAt (o.cwd.resolve u.edge.target) name := by
    rw [hresolved]
    exact .inl ⟨u.target, himport.2.1, hpresent, hdeclared⟩
  refine ⟨u, hu, ?_⟩
  unfold UsedImport.leadsTo
  split
  · rename_i hbase
    rcases artifact_of_mem_linksOf hu with ⟨needs, -, -⟩ | ⟨-, -, houtput⟩
    · -- The line leads to the interface of the base.
      obtain ⟨y, hy, hyu, houtput⟩ := exists_writing_of_link h hs hanswered hm hu needs
      obtain ⟨r', d', hm'⟩ := h.exists_made hs.faithful hinformed hy
      obtain rfl : r' = u.target := by
        have hloaded' := hm'.loaded
        rw [hyu, hloaded] at hloaded'
        simpa using hloaded'.symm
      obtain ⟨members, hshows, -, htypes⟩ := Shows.of_made hs.faithful hm'
      refine .inr ⟨y, hy, by rw [hs.faithful.options, houtput], _, _, _, members, hshows, ?_⟩
      have hbase' : (u.edge.inheritedBase? u.target.name r.bases).isSome = true := hbase
      rw [hs.faithful.options, needs, hbase'] at hkept
      simpa [htypes] using hkept
    · rw [houtput]
      exact hsource
  · rw [hpath]
    exact hsource

/-- After a run without a failure, on any files, with any settings and in any order of the
moves, for every interface that was written and every name in the types of its members: if
the contract declares the head of the name as a type that can be declared again, then
the interface declares it; if an import of the contract declares the head and keeps it,
then a file does to which an import line leads. -/
theorem mentioned_types_are_declared (settings : Settings) (cwd : String)
    (disk : Path → Sighting) (roots : List String) (trace : List Move) (w : World)
    (as : List (Option Artifact))
    (hrun : Run (start (settings.options (Path.ofString cwd)) disk (roots.map Path.ofString)) trace w)
    (hend : w.session.outcome? = some (.ok as)) :
    ∀ x ∈ w.writings, ∃ r paths names members, w.Shows x r paths names members ∧
      ∀ m ∈ members, ∀ n ∈ m.paths, ∀ head, n.head? = some head →
        (r.OwnsType w.session.options.rawOnly n head → head ∈ members.filterMap Member.typeName?) ∧
        (w.KeepsType r head →
          ∃ p ∈ paths, w.DeclaresAt (x.leadsTo w.session.options.cwd p) head) := by
  intro x hx
  obtain ⟨found, hacts, hs, hinformed⟩ := hrun.exists_grown
  have ho := settings.plain_options cwd
  have hplain := hacts.plain ho (Path.plain_map_ofString roots)
  have hanswered := answered_of_outcome hend
  obtain ⟨r, d, hm⟩ := hrun.exists_made hs.faithful hinformed hx
  obtain ⟨members, hshows, hcovers, htypes⟩ := Shows.of_made hs.faithful hm
  refine ⟨r, _, _, members, hshows, fun m hmem n hn head hhead => ⟨?_, ?_⟩⟩
  · intro howns
    rw [hs.faithful.options] at howns
    exact (htypes head).mpr (redeclares_of_ownsType (hcovers m hmem n hn) hhead howns)
  · intro hkeeps
    obtain ⟨u, hu, hdeclares⟩ := declaresAt_of_keepsType hrun hs hinformed hplain hanswered hm
      ((hcovers m hmem n hn).head hhead) hkeeps
    refine ⟨Made.pathOf d u, List.mem_map_of_mem hu, ?_⟩
    rw [hs.faithful.options, hm.leadsTo_pathOf hs.faithful ho hplain hu]
    exact hdeclares

/-- What the run reads of the contract: a function with all the names, and an outline that
declares the enum again and nothing else. -/
def Heirs.IsHeir (r : Record) : Prop :=
  (∃ f ∈ r.exposedFunctions.filterMap (r.scope false).function?,
    ∀ n ∈ [["E"], ["S"], ["R"], ["Base"], ["M", "T"]], n ∈ (Member.function f).paths) ∧
  r.enumNames = ["E"] ∧ "M" ∈ r.structNames ∧
  (Outline.ofRecord false r).types
    = ((r.scope false).keptEnums (Outline.ofRecord false r).uses).map EnumDecl.render

/-- What the run reads of the base: two structs, of which its outline declares one again. -/
def Heirs.IsBase (t : Record) : Prop :=
  t.interfaceName? = some "IBase" ∧ (∀ name ∈ ["Base", "S", "R"], name ∈ t.declared) ∧
  t.enumNames = [] ∧ ["R"] ∈ (Outline.ofRecord false t).uses ∧
  (∃ d ∈ t.structs, d.name = "R" ∧ ((t.scope false).struct? d).isSome = true) ∧
  ∀ origin ∈ t.structs, ∀ d ∈ (t.scope false).struct? origin,
    d.render ∈ (Outline.ofRecord false t).types → d.name = "R"

instance : DecidablePred Heirs.IsHeir := fun _ => inferInstanceAs (Decidable (_ ∧ _))

instance : DecidablePred Heirs.IsBase := fun _ => inferInstanceAs (Decidable (_ ∧ _))

/-- Where the run on the contract and its base ends: the records of the two files, and the
two interfaces. -/
theorem Heirs.exists_run :
    ∃ w as y x r t e,
      Run (start (settings.options (Path.ofString "/")) Heirs.disk (["/A.sol"].map Path.ofString))
        moves w ∧ w.session.outcome? = some (.ok as) ∧ w.session.options.rawOnly = false ∧
      w.recordAt? heir = some r ∧ w.recordAt? base = some t ∧ w.HasImport r e t ∧
      IsHeir r ∧ IsBase t ∧ w.writings = [y, x] ∧ y.source = base ∧ x.source = heir ∧
      x.text = (r.interfaceWith false ["./IBase.sol"] ["IBase"]).render ∧
      w.recordAt? (x.leadsTo w.session.options.cwd "./IBase.sol") = none ∧
      w.session.options.cwd.resolve x.output ≠ x.leadsTo w.session.options.cwd "./IBase.sol" := by
  have hplay : ((start (settings.options (Path.ofString "/")) Heirs.disk
      (["/A.sol"].map Path.ofString)).play moves).any (fun w =>
        (w.session.outcome?.any fun out => out.toOption.isSome) &&
        decide (∃ y ∈ w.writings, ∃ x ∈ w.writings, w.writings = [y, x] ∧
          ∃ r ∈ w.recordAt? heir, ∃ t ∈ w.recordAt? base,
            w.session.options.rawOnly = false ∧
            (∃ e ∈ edgesOf w.session.options r, e.target = base) ∧ t.isPresent = true ∧
            IsHeir r ∧ IsBase t ∧ y.source = base ∧ x.source = heir ∧
            x.text = (r.interfaceWith false ["./IBase.sol"] ["IBase"]).render ∧
            (w.recordAt? (x.leadsTo w.session.options.cwd "./IBase.sol")).isNone = true ∧
            w.session.options.cwd.resolve x.output
              ≠ x.leadsTo w.session.options.cwd "./IBase.sol")) = true := by
    decide +kernel
  obtain ⟨w, as, hrun, hend, hcheck⟩ := exists_run_of_any hplay
  obtain ⟨y, -, x, -, hwritings, r, hr, t, ht, hraw, ⟨e, he, htarget⟩, hpresent, hheir, hbase, hy, hx,
    htext, hnone, hplace⟩ := of_decide_eq_true hcheck
  exact ⟨w, as, y, x, r, t, e, hrun, hend, hraw, hr, ht, ⟨he, htarget ▸ ht, hpresent⟩, hheir, hbase,
    hwritings, hy, hx, htext, Option.isNone_iff_eq_none.mp hnone, hplace⟩

/-- The contract finds its own enum in its interface, and in that of its base the struct
which that interface uses. -/
theorem heir_finds_what_its_base_uses :
    ∃ w as x r paths names members,
      Run (start (Heirs.settings.options (Path.ofString "/")) Heirs.disk
        (["/A.sol"].map Path.ofString)) Heirs.moves w ∧
      w.session.outcome? = some (.ok as) ∧ x ∈ w.writings ∧ x.source = Heirs.heir ∧
      w.Shows x r paths names members ∧ "E" ∈ members.filterMap Member.typeName? ∧
      ∃ p ∈ paths, w.DeclaresAt (x.leadsTo w.session.options.cwd p) "R" := by
  obtain ⟨w, as, y, x, r, t, e, hrun, hend, hraw, hr, -, himport, ⟨⟨f, hf, hpaths⟩, henums, -⟩,
    ⟨-, hdeclared, -, hused, hstruct, -⟩, hwritings, -, hsource, -⟩ := Heirs.exists_run
  have hx : x ∈ w.writings := by simp [hwritings]
  obtain ⟨r', paths, names, members, hshows, hall⟩ :=
    mentioned_types_are_declared _ _ _ _ _ w as hrun hend x hx
  have hrecord := hshows.record
  rw [hsource, hr] at hrecord
  obtain rfl := Option.some.inj hrecord
  have hmem : Member.function f ∈ members := by
    obtain ⟨structs, rfl, -⟩ := hshows.members
    rw [hraw]
    exact List.mem_append_right _ (List.mem_map_of_mem hf)
  refine ⟨w, as, x, r, paths, names, members, hrun, hend, hx, hsource, hshows, ?_, ?_⟩
  · exact (hall _ hmem ["E"] (hpaths _ (by simp)) "E" rfl).1 (.inl (by simp [henums]))
  · refine (hall _ hmem ["R"] (hpaths _ (by simp)) "R" rfl).2 ⟨e, t, himport, hdeclared _ (by simp), ?_⟩
    rw [hraw]
    exact .inr (.inr (.inr ⟨rfl, hused, .inr hstruct⟩))

/-- The interface of the contract mentions the other struct of the base, the base itself
and something within a struct that cannot be declared again, and none of these is
declared in it or where its only import line leads. -/
theorem some_mentioned_types_are_not_declared :
    ∃ w as x r e t members m,
      Run (start (Heirs.settings.options (Path.ofString "/")) Heirs.disk
        (["/A.sol"].map Path.ofString)) Heirs.moves w ∧
      w.session.outcome? = some (.ok as) ∧ x ∈ w.writings ∧
      w.Shows x r ["./IBase.sol"] ["IBase"] members ∧ m ∈ members ∧
      (["S"] ∈ m.paths ∧ ["Base"] ∈ m.paths ∧ ["M", "T"] ∈ m.paths) ∧
      (w.HasImport r e t ∧ "S" ∈ t.declared ∧ "Base" ∈ t.declared ∧ "M" ∈ r.structNames) ∧
      ∀ head ∈ ["S", "Base", "M"], head ∉ members.filterMap Member.typeName? ∧
        ∀ p ∈ ["./IBase.sol"], ¬ w.DeclaresAt (x.leadsTo w.session.options.cwd p) head := by
  obtain ⟨w, as, y, x, r, t, e, hrun, hend, hraw, hr, ht, himport, ⟨⟨f, hf, hpaths⟩, henums, hown, htypes⟩,
    ⟨hname, hdeclared, hnoenums, -, -, hstructs⟩, hwritings, hy, hx, htext, hnone, hplace⟩ :=
    Heirs.exists_run
  refine ⟨w, as, x, r, e, t, _, .function f, hrun, hend, by simp [hwritings],
    ⟨hx ▸ hr, hraw.symm ▸ htext, ⟨[], rfl, by simp, List.nil_sublist _, ?_⟩⟩, ?_,
    ⟨hpaths _ (by simp), hpaths _ (by simp), hpaths _ (by simp)⟩,
    ⟨himport, hdeclared _ (by simp), hdeclared _ (by simp), hown⟩, fun head hhead => ⟨?_, ?_⟩⟩
  · rw [hraw, htypes, List.map_nil, List.append_nil]
  · rw [hraw]
    exact List.mem_append_right _ (List.mem_map_of_mem hf)
  · rw [Member.filterMap_typeName?, List.map_nil, List.append_nil]
    intro hmem
    have henum : head ∈ r.enumNames := (Scope.mem_keptEnums.mp hmem).2.2
    rw [henums] at henum
    simp only [List.mem_cons, List.not_mem_nil, or_false] at hhead henum
    rcases hhead with rfl | rfl | rfl <;> simp at henum
  · intro p hp
    obtain rfl := List.mem_singleton.mp hp
    rintro (⟨t', ht', -⟩ | ⟨z, hz, houtput, r', paths, names, members, hshows, hdeclares⟩)
    · rw [hnone] at ht'
      simp at ht'
    · rw [hwritings, List.mem_cons, List.mem_singleton] at hz
      rcases hz with rfl | rfl
      · -- The interface of the base declares its own name and the struct that it uses.
        have hrecord := hshows.record
        rw [hy, ht] at hrecord
        obtain rfl := Option.some.inj hrecord
        have hmembers := hshows.members
        rw [hraw] at hmembers
        have hfound : head = "IBase" ∨ head = "R" := by
          rcases hdeclares with hdeclares | hdeclares
          · rw [hname] at hdeclares
            exact .inl (Option.some.inj hdeclares).symm
          · rcases hmembers.exists_of_typeName hdeclares with henum | ⟨o, ho, d, hd, rfl, hrender⟩
            · simp [hnoenums] at henum
            · exact .inr (hstructs o ho d hd hrender)
        simp only [List.mem_cons, List.not_mem_nil, or_false] at hhead
        rcases hhead with rfl | rfl | rfl <;> simp at hfound
      · exact hplace houtput

end World

end SolidityInterface
