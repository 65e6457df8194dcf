import SolidityInterface.Proofs.Interface.Placement

/-
  Imports as a compiler reads them. The text that imports a file is the row of steps from a
  directory to the file, behind a dot and a slash unless it starts with a dot anyway.

  1. The text starts with a dot, so it is not looked up under the modules root, and from any
     file of the directory it leads to the target
     (`Layout.import_text_leads_back_to_its_target`).
  2. The steps go up to where the two paths part, and down from there (`Path.exists_parting`).
     Their text starts with a word and a slash just if the word is the first step and others
     follow (`Path.startsWith_intercalate_iff`).
  3. A compiler takes an import for relative if it starts with one or two dots and a slash. The
     text does so, but for a target below the directory whose first step down starts with a dot:
     there that dot is taken for the one that should be put in front
     (`Layout.imports_are_relative_unless_hidden`).
-/

namespace SolidityInterface

namespace Path

/-! ## The steps between two paths -/

/-- The steps go up from the first segment in which the directory and the target differ, and
then down to the target. -/
theorem exists_parting (start target : List String) :
    ∃ common up down, start = common ++ up ∧ target = common ++ down ∧
      (∀ s ∈ up.head?, s ∉ down.head?) ∧
      steps start target = up.map (fun _ => "..") ++ down := by
  induction start, target using steps.induct with
  | case1 start b target ih =>
    obtain ⟨common, up, down, rfl, rfl, hpart, hsteps⟩ := ih
    refine ⟨b :: common, up, down, rfl, rfl, hpart, ?_⟩
    rw [steps, if_pos rfl, hsteps]
  | case2 a start b target hab =>
    refine ⟨[], a :: start, b :: target, rfl, rfl, ?_, ?_⟩
    · simpa using Ne.symm hab
    · rw [steps, if_neg hab]
      rfl
  | case3 start target hne =>
    have hsteps : steps start target = start.map (fun _ => "..") ++ target := by
      unfold steps
      split
      · exact absurd rfl (hne _ _ _ _ rfl)
      · rfl
    refine ⟨[], start, target, rfl, rfl, ?_, hsteps⟩
    cases start with
    | nil => simp
    | cons a start =>
      cases target with
      | nil => simp
      | cons b target => exact absurd rfl (hne a start b target rfl)

/-! ## How a text starts -/

/-- The text of some steps is the first of them, with a slash behind it if others follow. -/
theorem toList_intercalate_cons (s : String) (rest : List String) :
    ("/".intercalate (s :: rest)).toList
      = s.toList ++ if rest = [] then [] else '/' :: ("/".intercalate rest).toList := by
  cases rest with
  | nil => simp
  | cons t rest =>
    rw [String.intercalate_cons_cons, String.toList_append, String.toList_append]
    simp

/-- The text of some steps starts with a word and a slash just if the word is the first step and
others follow. -/
theorem startsWith_intercalate_iff {s w : String} {rest : List String} (hs : '/' ∉ s.toList)
    (hw : '/' ∉ w.toList) :
    Text.startsWith ("/".intercalate (s :: rest)) (w ++ "/") = true ↔ s = w ∧ rest ≠ [] := by
  have hword : (w ++ "/").toList = w.toList ++ ['/'] := by simp
  rw [Text.startsWith, List.isPrefixOf_iff_prefix, toList_intercalate_cons, hword]
  constructor
  · rintro ⟨more, hmore⟩
    rw [List.append_assoc, List.singleton_append] at hmore
    split at hmore
    · -- A single step holds no slash.
      rw [List.append_nil] at hmore
      exact absurd (hmore ▸ List.mem_append_right _ List.mem_cons_self) hs
    · rename_i hrest
      have hpieces := congrArg (Text.split '/') hmore
      rw [Text.split_append hw, Text.split_append hs] at hpieces
      exact ⟨String.toList_inj.mp (List.cons.inj hpieces).1.symm, hrest⟩
  · rintro ⟨rfl, hrest⟩
    rw [if_neg hrest]
    exact ⟨("/".intercalate rest).toList, by simp⟩

/-- Whether the text of some steps starts with a dot is seen at the first of them. -/
theorem startsWith_dot_iff {s : String} (hs : s.toList ≠ []) (rest : List String) :
    Text.startsWith ("/".intercalate (s :: rest)) "." = Text.startsWith s "." := by
  obtain ⟨c, cs, hcs⟩ := List.exists_cons_of_ne_nil hs
  rw [Text.startsWith, Text.startsWith, toList_intercalate_cons, hcs]
  rfl

end Path

namespace Layout

variable {l : Layout} {target directory : Path}

/-- Whether a compiler takes an import for one that is relative to the importing file. -/
def IsRelativeImport (text : String) : Prop :=
  Text.startsWith text "./" = true ∨ Text.startsWith text "../" = true

instance (text : String) : Decidable (IsRelativeImport text) :=
  inferInstanceAs (Decidable (_ ∨ _))

/-- The text that imports a file starts with a dot. -/
theorem startsWith_dot_relativeImport (l : Layout) (target start : Path) :
    Text.startsWith (l.relativeImport target start) "." = true := by
  unfold relativeImport
  dsimp only
  split
  · assumption
  · simp [Text.startsWith]

/-- The text is relative just if its first step up leads on, or its first step down starts with
no dot. -/
theorem isRelativeImport_iff {s : String} {rest : List String} (hs : Path.IsPlain s)
    (hsteps : (Path.relativeFrom l.cwd target directory).segments = s :: rest) :
    IsRelativeImport (l.relativeImport target directory) ↔
      s = ".." ∧ rest ≠ [] ∨ Text.startsWith s "." = false := by
  have htext : (Path.relativeFrom l.cwd target directory).render = "/".intercalate (s :: rest) := by
    have hroot : (Path.relativeFrom l.cwd target directory).root = .relative := rfl
    simp [Path.render, hroot, hsteps, Path.Root.render]
  have hdot : ¬ s = "." := by
    rintro rfl
    exact absurd hs.1 (by decide)
  have hone : Text.startsWith ("/".intercalate (s :: rest)) ("." ++ "/") = true ↔ s = "." ∧ rest ≠ [] :=
    Path.startsWith_intercalate_iff hs.2 (by decide)
  have htwo : Text.startsWith ("/".intercalate (s :: rest)) (".." ++ "/") = true ↔ s = ".." ∧ rest ≠ [] :=
    Path.startsWith_intercalate_iff hs.2 (by decide)
  have hfirst := Path.startsWith_dot_iff hs.toList_ne_nil rest
  unfold IsRelativeImport relativeImport
  dsimp only
  rw [htext, hfirst]
  cases hstart : Text.startsWith s "." with
  | true =>
    rw [if_pos rfl, show "./" = "." ++ "/" from rfl, show "../" = ".." ++ "/" from rfl, hone, htwo]
    simp [hdot]
  | false =>
    rw [if_neg (by decide)]
    exact iff_of_true (.inl (by simp [Text.startsWith])) (.inr rfl)

/-! ## Where the text leads -/

/-- A path is normalised if it is its own resolution. It goes down only. -/
theorem normal_of_resolve? {cwd p : Path} (h : cwd.resolve? p = some p) :
    cwd.resolve p = p ∧ p.isNameable = true ∧ ".." ∉ p.segments := by
  have hresolve := resolve_of_resolve? h
  unfold Path.resolve? at h
  split at h
  · refine ⟨hresolve, ‹_›, ?_⟩
    rw [← hresolve]
    exact Path.not_mem_collapse _
  · simp at h

/-- The way from a directory to a target can be the path of something if both can. -/
theorem isNameable_join_relativeFrom {cwd : Path} (htarget : cwd.resolve? target = some target) :
    (directory.join (Path.relativeFrom cwd target directory)).isNameable = directory.isNameable := by
  obtain ⟨hresolve, hnameable, -⟩ := normal_of_resolve? htarget
  have hsteps : (Path.relativeFrom cwd target directory).isNameable = true := by
    refine List.all_eq_true.mpr fun s hs => ?_
    rcases Path.mem_steps hs with rfl | hs
    · rfl
    · rw [hresolve] at hs
      exact List.all_eq_true.mp hnameable s hs
  have hjoin : (directory.join (Path.relativeFrom cwd target directory)).segments
      = directory.segments ++ (Path.relativeFrom cwd target directory).segments := rfl
  rw [Path.isNameable, hjoin, List.all_append, ← Path.isNameable, ← Path.isNameable, hsteps,
    Bool.and_true]

/-- The text that imports a file starts with a dot, so it is not looked up under the modules
root. From every file of the directory it leads to the file, if the directory can be one at
all. -/
theorem import_text_leads_back_to_its_target (l : Layout)
    (htarget : l.cwd.resolve? target = some target) (hplain : target.Plain) (directory : Path)
    (name : String) :
    Text.startsWith (l.relativeImport target directory) "." = true ∧
      (l.edge? (placed directory name) (l.relativeImport target directory)).map
          (fun e => (e.isFromModules, e.target))
        = if directory.isNameable then some (false, target) else none := by
  obtain ⟨hresolve, -, -⟩ := normal_of_resolve? htarget
  have hdot := startsWith_dot_relativeImport l target directory
  have hparent : (placed directory name).parent = directory := by
    simp [placed_eq, Path.parent]
  have hread : Path.ofString (l.relativeImport target directory)
      = Path.relativeFrom l.cwd target directory :=
    ofString_relativeImport (by rwa [hresolve]) directory
  have hleads := Path.resolve_join_relativeFrom l.cwd target directory
  refine ⟨hdot, ?_⟩
  rw [edge?, hdot, hread]
  simp only [Bool.not_true, Bool.false_eq_true, if_false, hparent, Path.resolve?,
    isNameable_join_relativeFrom htarget, hleads, hresolve]
  split <;> rfl

/-- A layout at the root, with the usual roots. -/
def usualLayout : Layout :=
  ⟨Path.ofString "/", Path.ofString "node_modules", Path.ofString "interfaces"⟩

/-- From a directory that goes up and down again, and back from a hidden one. -/
theorem import_text_leads_out_of_an_unresolved_directory :
    usualLayout.relativeImport (Path.ofString "/src/lib/.x/B.sol") (Path.ofString "/src/a/../out")
        = "../lib/.x/B.sol" ∧
      (usualLayout.edge? (Path.ofString "/src/a/../out/IA.sol") "../lib/.x/B.sol").map
          (fun e => (e.isFromModules, e.target)) = some (false, Path.ofString "/src/lib/.x/B.sol") := by
  have htext : usualLayout.relativeImport (Path.ofString "/src/lib/.x/B.sol")
      (Path.ofString "/src/a/../out") = "../lib/.x/B.sol" := by decide +kernel
  have hresolved : usualLayout.cwd.resolve? (Path.ofString "/src/lib/.x/B.sol")
      = some (Path.ofString "/src/lib/.x/B.sol") := by decide +kernel
  obtain ⟨-, hleads⟩ := import_text_leads_back_to_its_target usualLayout hresolved (Path.plain_ofString _)
    (Path.ofString "/src/a/../out") "IA.sol"
  rw [htext] at hleads
  exact ⟨htext, hleads⟩

/-! ## What a compiler makes of the text -/

/-- The way to a target that does not lie above the directory goes down to it, or up first and
then on. -/
theorem relativeFrom_cases {cwd : Path} (htarget : cwd.resolve target = target)
    (hdirectory : cwd.resolve directory = directory) (habove : ¬ target.segments <+: directory.segments) :
    (∃ s rest, target.segments = directory.segments ++ s :: rest ∧
        (Path.relativeFrom cwd target directory).segments = s :: rest) ∨
      ∃ rest, rest ≠ [] ∧ ¬ directory.segments <+: target.segments ∧
        (Path.relativeFrom cwd target directory).segments = ".." :: rest := by
  obtain ⟨common, up, down, hup, htail, hpart, hsteps⟩ :=
    Path.exists_parting directory.segments target.segments
  have hsegments : (Path.relativeFrom cwd target directory).segments = up.map (fun _ => "..") ++ down := by
    rw [Path.relativeFrom, htarget, hdirectory, hsteps]
  obtain ⟨s, rest, rfl⟩ : ∃ s rest, down = s :: rest := by
    refine List.exists_cons_of_ne_nil ?_
    rintro rfl
    rw [List.append_nil] at htail
    exact habove ⟨up, by rw [htail, ← hup]⟩
  cases up with
  | nil =>
    rw [List.append_nil] at hup
    exact .inl ⟨s, rest, by rw [htail, hup], hsegments⟩
  | cons a up =>
    refine .inr ⟨up.map (fun _ => "..") ++ s :: rest, by simp, ?_, hsegments⟩
    rintro ⟨more, hmore⟩
    rw [htail, hup, List.append_assoc] at hmore
    obtain ⟨rfl, -⟩ := List.cons.inj (List.append_cancel_left hmore)
    exact hpart a rfl rfl

/-- The text that imports a file starts with one or two dots and a slash, unless the file lies
below the directory and the first step down to it starts with a dot. -/
theorem imports_are_relative_unless_hidden (l : Layout)
    (htarget : l.cwd.resolve? target = some target) (hplain : target.Plain)
    (hdirectory : l.cwd.resolve? directory = some directory)
    (hbelow : ¬ target.segments <+: directory.segments) :
    IsRelativeImport (l.relativeImport target directory) ↔
      ¬ ∃ s rest, target.segments = directory.segments ++ s :: rest ∧
        Text.startsWith s "." = true := by
  obtain ⟨hresolve, -, hdown⟩ := normal_of_resolve? htarget
  obtain ⟨hresolve', -, -⟩ := normal_of_resolve? hdirectory
  obtain ⟨s, rest, hsegments, hsteps⟩ | ⟨rest, hrest, hbeside, hsteps⟩ :=
    relativeFrom_cases hresolve hresolve' hbelow
  · have hs : s ∈ target.segments := by
      rw [hsegments]
      exact List.mem_append_right _ List.mem_cons_self
    have hdots : s ≠ ".." := fun h => hdown (h ▸ hs)
    rw [isRelativeImport_iff (hplain s hs) hsteps, hsegments]
    constructor
    · rintro (⟨h, -⟩ | hvisible) ⟨s', rest', heq, hhidden⟩
      · exact hdots h
      · obtain ⟨rfl, -⟩ := List.cons.inj (List.append_cancel_left heq)
        rw [hvisible] at hhidden
        cases hhidden
    · intro hnone
      exact .inr (Bool.eq_false_iff.mpr fun hhidden => hnone ⟨s, rest, rfl, hhidden⟩)
  · rw [isRelativeImport_iff Path.isPlain_dots hsteps]
    refine iff_of_true (.inl ⟨rfl, hrest⟩) ?_
    rintro ⟨s, rest', hsegments, -⟩
    exact hbeside ⟨s :: rest', hsegments.symm⟩

/-- From a directory to its neighbour, and down to a file that is hidden there. -/
theorem neighbour_is_imported_relatively :
    usualLayout.relativeImport (Path.ofString "/src/lib/.B.sol") (Path.ofString "/src/out")
        = "../lib/.B.sol" ∧
      IsRelativeImport "../lib/.B.sol" ∧
      ¬ ∃ s rest, (Path.ofString "/src/lib/.B.sol").segments
          = (Path.ofString "/src/out").segments ++ s :: rest ∧ Text.startsWith s "." = true := by
  have htext : usualLayout.relativeImport (Path.ofString "/src/lib/.B.sol")
      (Path.ofString "/src/out") = "../lib/.B.sol" := by decide +kernel
  have htarget : usualLayout.cwd.resolve? (Path.ofString "/src/lib/.B.sol")
      = some (Path.ofString "/src/lib/.B.sol") := by decide +kernel
  have hdirectory : usualLayout.cwd.resolve? (Path.ofString "/src/out")
      = some (Path.ofString "/src/out") := by decide +kernel
  have hiff := imports_are_relative_unless_hidden usualLayout htarget (Path.plain_ofString _) hdirectory
    (by decide +kernel)
  rw [htext] at hiff
  have hrelative : IsRelativeImport "../lib/.B.sol" := by decide
  exact ⟨htext, hrelative, hiff.mp hrelative⟩

/-- A file in a hidden directory below is imported like a file of a package. -/
theorem hidden_directory_is_imported_like_a_package :
    ∃ target directory : Path, usualLayout.cwd.resolve? target = some target ∧ target.Plain ∧
      usualLayout.cwd.resolve? directory = some directory ∧
      ¬ target.segments <+: directory.segments ∧
      usualLayout.relativeImport target directory = ".hidden/B.sol" ∧
      ¬ IsRelativeImport (usualLayout.relativeImport target directory) :=
  ⟨Path.ofString "/a/.hidden/B.sol", Path.ofString "/a", by decide +kernel, Path.plain_ofString _,
    by decide +kernel, by decide +kernel, by decide +kernel, by decide +kernel⟩

end Layout

end SolidityInterface
