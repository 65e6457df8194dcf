import SolidityInterface.Interface.Import
import SolidityInterface.Proofs.Declaration.WellFormed
import SolidityInterface.Proofs.Path

/-
  Where interfaces go, and how they are imported. An interface lies in a directory under
  a name that is made of the name of its contract (`Layout.outputPath?_eq_some`), so two
  interfaces share a path just if they share both (`Layout.placed_inj`). The text that
  imports a file leads to that file from the directory in which the text stands
  (`Layout.resolve_join_relativeImport`).
-/

namespace SolidityInterface

theorem Path.mem_steps {start target : List String} {s : String} (h : s ∈ steps start target) :
    s = ".." ∨ s ∈ target := by
  induction start, target using steps.induct with
  | case1 start b target ih =>
    rw [steps, if_pos rfl] at h
    exact (ih h).imp_right (List.mem_cons_of_mem _)
  | case2 a start b target hab =>
    rw [steps, if_neg hab] at h
    rcases List.mem_append.mp h with h | h
    · rcases List.mem_cons.mp h with h | h
      · exact .inl h
      · obtain ⟨-, -, h⟩ := List.mem_map.mp h
        exact .inl h.symm
    · exact .inr h
  | case3 start target hne =>
    unfold steps at h
    split at h
    · exact absurd rfl (hne _ _ _ _ rfl)
    · rcases List.mem_append.mp h with h | h
      · obtain ⟨-, -, h⟩ := List.mem_map.mp h
        exact .inl h.symm
      · exact .inr h

namespace Layout

variable {l : Layout} {r : Record} {root directory output : Path}

/-- The text that imports a file is read as the path from the directory to the file. -/
theorem ofString_relativeImport {target : Path} (htarget : (l.cwd.resolve target).Plain)
    (start : Path) :
    Path.ofString (l.relativeImport target start) = Path.relativeFrom l.cwd target start := by
  have hplain : ∀ s ∈ Path.steps (l.cwd.resolve start).segments (l.cwd.resolve target).segments,
      Path.IsPlain s := by
    intro s hs
    rcases Path.mem_steps hs with rfl | hs
    · exact Path.isPlain_dots
    · exact htarget s hs
  obtain ⟨hbare, hdotted⟩ := Path.ofString_render hplain
  unfold relativeImport
  dsimp only
  split
  · exact hbare
  · exact hdotted

/-- The text that imports a file leads there from the directory where it stands. -/
theorem resolve_join_relativeImport (hcwd : l.cwd.Plain) {target : Path} (htarget : target.Plain)
    (start : Path) :
    l.cwd.resolve (start.join (Path.ofString (l.relativeImport target start)))
      = l.cwd.resolve target := by
  rw [ofString_relativeImport (hcwd.resolve htarget)]
  exact Path.resolve_join_relativeFrom l.cwd target start

/-! ## The places of interfaces -/

/-- The path of a file with the given name in a directory. -/
def placed (directory : Path) (name : String) : Path := directory.join ⟨.relative, [name]⟩

theorem placed_eq (directory : Path) (name : String) :
    placed directory name = ⟨directory.root, directory.segments ++ [name]⟩ := rfl

theorem placed_inj {directory' : Path} {name name' : String} :
    placed directory name = placed directory' name' ↔ directory = directory' ∧ name = name' := by
  obtain ⟨root, segments⟩ := directory
  obtain ⟨root', segments'⟩ := directory'
  simp [placed_eq, and_assoc]

theorem outputPath?_eq_some (needs : r.needsInterface = true) :
    l.outputPath? r root = some output ↔
      ∃ directory, l.directory? r.path root = some directory ∧ output = placed directory (fileName r) := by
  rw [outputPath?, if_pos needs, Option.map_eq_some_iff]
  simp only [placed, eq_comm (a := output)]

theorem fileName_ne_dots (r : Record) : fileName r ≠ ".." := by
  intro h
  have hlength := congrArg (fun s => s.toList.length) h
  simp only [fileName, String.toList_append, List.length_append] at hlength
  have hsol : ".sol".toList.length = 4 := rfl
  have hdots : "..".toList.length = 2 := rfl
  omega

/-- The resolved path of an interface lies in the resolved directory, under its name. -/
theorem resolve_placed (cwd directory : Path) (r : Record) :
    cwd.resolve (placed directory (fileName r))
      = placed (cwd.resolve directory) (fileName r) := by
  have hname : ".." ∉ [fileName r] := by simpa using Ne.symm (fileName_ne_dots r)
  rw [placed, Path.resolve, Path.segments_join _ _ _ rfl, Path.collapse_append,
    Path.collapse_of_not_mem hname, List.reverse_reverse]
  rfl

theorem isPlain_fileName (hr : r.WellFormed) (needs : r.needsInterface = true) :
    Path.IsPlain (fileName r) := by
  obtain ⟨n, hn, ⟨c, rest, -, -, -, hparts⟩, -⟩ := hr.name
  have hname : fileName r = "I" ++ n ++ ".sol" := by
    simp only [Record.needsInterface, Bool.and_eq_true, decide_eq_true_eq] at needs
    simp [fileName, Record.interfaceName?, hn, needs.2]
  have hslash : '/' ∉ n.toList := by
    intro hmem
    have hpart := List.all_eq_true.mp hparts '/' hmem
    exact absurd hpart (by decide)
  have hlist : (fileName r).toList = 'I' :: (n.toList ++ ['.', 's', 'o', 'l']) := by
    rw [hname]
    simp
  refine ⟨?_, by simp [hlist, hslash]⟩
  have hne : ∀ s : String, s.toList.head? ≠ some 'I' → fileName r ≠ s := by
    rintro s hs rfl
    exact hs (by rw [hlist]; rfl)
  simp [Path.isSegment, hne "" (by decide), hne "." (by decide)]

/-! ## Plain paths -/

/-- Whether the places of a layout were read from texts. -/
structure Plain (l : Layout) : Prop where
  cwd : l.cwd.Plain
  modulesRoot : l.modulesRoot.Plain
  targetRoot : l.targetRoot.Plain

theorem plain_of_resolve? {cwd p q : Path} (hcwd : cwd.Plain) (hp : p.Plain)
    (h : cwd.resolve? p = some q) : q.Plain := by
  unfold Path.resolve? at h
  split at h
  · cases h
    exact hcwd.resolve hp
  · simp at h

theorem resolve_of_resolve? {cwd p q : Path} (h : cwd.resolve? p = some q) : cwd.resolve q = q := by
  unfold Path.resolve? at h
  split at h
  · cases h
    exact Path.resolve_resolve cwd cwd p
  · simp at h

theorem plain_targetDirectory? {cwd target file : Path} (hcwd : cwd.Plain) (htarget : target.Plain)
    (hfile : file.Plain) (h : targetDirectory? cwd target file = some directory) :
    directory.Plain := by
  unfold targetDirectory? at h
  split at h
  · exact plain_of_resolve? hcwd htarget h
  · cases h
    exact hfile.parent.join htarget

theorem mem_packageOf {segments : List String} {s : String} (h : s ∈ packageOf segments) :
    s ∈ segments := by
  unfold packageOf at h
  split at h
  · split at h
    · simp only [List.mem_cons, List.not_mem_nil, or_false] at h ⊢
      tauto
    · simp_all
  · simp_all
  · simp at h

theorem plain_directory? (hl : l.Plain) {p : Path} (hp : p.Plain) (hroot : root.Plain)
    (h : l.directory? p root = some directory) : directory.Plain := by
  unfold directory? at h
  split at h
  · rename_i package hpackage
    obtain ⟨segments, hbelow, rfl⟩ := Option.map_eq_some_iff.mp hpackage
    obtain ⟨modules, -, hbelow⟩ := Option.bind_eq_some_iff.mp hbelow
    have hsegments : ∀ s ∈ segments, s ∈ p.segments := by
      intro s hs
      unfold Path.below? at hbelow
      split at hbelow
      · have happend := List.isPrefixOf?_eq_some_iff_append_eq.mp hbelow
        rw [← happend]
        exact List.mem_append_right _ hs
      · simp at hbelow
    cases h
    refine hroot.join ?_
    intro s hs
    rcases List.mem_cons.mp hs with rfl | hs
    · exact ⟨by decide, by decide⟩
    · exact hp s (hsegments s (mem_packageOf hs))
  · exact plain_targetDirectory? hl.cwd hl.targetRoot hp h

/-- The path of an interface is plain if the file and the layout are. -/
theorem plain_outputPath? (hl : l.Plain) (hr : r.WellFormed) (needs : r.needsInterface = true)
    (hp : r.path.Plain) (hroot : root.Plain) (h : l.outputPath? r root = some output) :
    output.Plain := by
  obtain ⟨directory, hdirectory, rfl⟩ := (outputPath?_eq_some needs).mp h
  refine (plain_directory? hl hp hroot hdirectory).join ?_
  intro s hs
  obtain rfl := List.mem_singleton.mp hs
  exact isPlain_fileName hr needs

/-- The target of an import is a resolved path, and a plain one. -/
theorem edge?_target (hl : l.Plain) {source : Path} (hsource : source.Plain) {declared : String}
    {e : ImportEdge} (h : l.edge? source declared = some e) :
    e.target.Plain ∧ l.cwd.resolve e.target = e.target := by
  obtain ⟨target, htarget, rfl⟩ := Option.map_eq_some_iff.mp h
  refine ⟨plain_of_resolve? hl.cwd (Path.Plain.join ?_ (Path.plain_ofString declared)) htarget,
    resolve_of_resolve? htarget⟩
  split
  · exact hl.modulesRoot
  · exact hsource.parent

end Layout

end SolidityInterface
