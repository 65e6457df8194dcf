import SolidityInterface.Proofs.Run.Effect

/-
  What a disk and the settings say about each file, with no run: its record, the
  imports its interface uses, the part of its artifact that importers need (its
  sketch), and the text of its interface. A sketch depends on the record of one file
  only, and a text on the record of its file and the sketches of the files it uses,
  so nothing here goes round in circles even if the imports do.
-/

namespace SolidityInterface

/-- An artifact with nothing but what importers need. -/
def Artifact.bare (a : Artifact) : Artifact :=
  { source := a.source, output := a.output, name := a.name }

/-- A used import with nothing of its artifact but what importers need. -/
def UsedImport.bare (u : UsedImport) : UsedImport := { u with artifact := u.artifact.bare }

namespace Plan

variable (o : Options) (disk : Path → Sighting)

/-- The record of a file, or why it has none. -/
def recordAt (k : Path) : Except Failure Record := Cache.interpret o.license k (disk k)

/-- The record of a file; a file that has none counts as missing. -/
def seen (k : Path) : Record :=
  match recordAt o disk k with
  | .ok r => r
  | .error _ => Record.missing k

/-- The draft of the interface of a record. -/
def draftFor (r : Record) (root : Path) : Except Failure Draft :=
  { options := o : Session }.draftOf r root

/-- The imports of a record. -/
def edgesOf (r : Record) : List ImportEdge := (o.layout?.bind (·.edges? r)).getD []

/-- The imports of a file, with the records of their targets. -/
def importsOf (k : Path) : List (ImportEdge × Record) :=
  (edgesOf o (seen o disk k)).map fun e => (e, seen o disk e.target)

/-- The imports that the interface of a file uses. -/
def usedOf (k : Path) : List (ImportEdge × Record) :=
  Session.usedImports (Outline.ofRecord o.rawOnly (seen o disk k)) (importsOf o disk k)

/-- The artifact of a file as it is before any interface is written. -/
def sketch (root k : Path) : Option Artifact :=
  let r := seen o disk k
  if r.needsInterface then
    match draftFor o r root with
    | .ok d => some (d.provisional k)
    | .error _ => none
  else if r.isPresent then some { source := k, output := r.path, name := r.name.getD "" }
  else none

/-- The text of the interface of a file with the given draft, if the output root of
each file is given. -/
def textOf (roots : Path → Path) (k : Path) (d : Draft) : String :=
  d.text (Session.linked (usedOf o disk k)
    ((usedOf o disk k).map fun i => sketch o disk (roots i.2.path) i.2.path))

/-- The artifact of a file whose work is done. -/
def artifactOf (roots : Path → Path) (k : Path) : Option Artifact :=
  let r := seen o disk k
  if r.needsInterface then
    match draftFor o r (roots k) with
    | .ok d => some (d.artifact k (textOf o disk roots k d))
    | .error _ => none
  else sketch o disk (roots k) k

/-- Whether the interface of a file relies on another: it uses an import that leads to it. -/
def Relies (k t : Path) : Prop :=
  (seen o disk k).needsInterface = true ∧ ∃ i ∈ usedOf o disk k, i.1.target = t

/-- Whether a file that gets an interface imports another. -/
def Imports (k t : Path) : Prop :=
  (seen o disk k).needsInterface = true ∧ ∃ e ∈ edgesOf o (seen o disk k), e.target = t

/-- The files that a run on some files needs: these, and what the interfaces of needed
files use. -/
inductive Needed (paths : List Path) : Path → Prop
  | root {p k : Path} (hp : p ∈ paths) (hk : o.cwd.resolve? p = some k) : Needed paths k
  | used {k t : Path} (hk : Needed paths k) (ht : Relies o disk k t) : Needed paths t

variable {o disk}

theorem recordAt_path {k : Path} {r : Record} (h : recordAt o disk k = .ok r) : r.path = k := by
  unfold recordAt Cache.interpret at h
  split at h
  · obtain rfl := Except.ok.inj h
    rfl
  · simp at h
  · simp at h
  · split at h
    · rename_i content r' hr
      obtain rfl := Except.ok.inj h
      unfold Record.ofSource at hr
      split at hr
      · simp at hr
      · simp at hr
      · unfold Record.ofUnit at hr
        split at hr
        · simp at hr
        · split at hr
          · simp at hr
          · obtain rfl := Except.ok.inj hr
            rfl
    · simp at h

@[simp] theorem seen_path (k : Path) : (seen o disk k).path = k := by
  unfold seen
  split
  · rename_i r h
    exact recordAt_path h
  · rfl

theorem seen_of_recordAt {k : Path} {r : Record} (h : recordAt o disk k = .ok r) :
    seen o disk k = r := by
  simp [seen, h]

/-- What a draft says about its record. -/
theorem draftFor_spec {r : Record} {root : Path} {d : Draft} (h : draftFor o r root = .ok d) :
    d.record = r ∧ o.layout? = some d.layout ∧ d.outline = Outline.ofRecord o.rawOnly r ∧
      d.layout.outputPath? r root = some d.output := by
  unfold draftFor Session.draftOf at h
  split at h
  · simp at h
  · rename_i l hl
    split at h
    · simp at h
    · rename_i output hout
      obtain rfl := Except.ok.inj h
      exact ⟨rfl, hl, rfl, hout⟩

theorem draftFor_of_options {s : Session} (hs : s.options = o) (r : Record) (root : Path) :
    s.draftOf r root = draftFor o r root := by
  simp [draftFor, Session.draftOf, hs]

theorem edgesOf_of_draft {r : Record} {root : Path} {d : Draft} {edges : List ImportEdge}
    (h : draftFor o r root = .ok d) (he : d.layout.edges? d.record = some edges) :
    edgesOf o r = edges := by
  obtain ⟨hr, hl, -, -⟩ := draftFor_spec h
  simp [edgesOf, hl, ← hr, he]

theorem usedOf_target {k : Path} {i : ImportEdge × Record} (h : i ∈ usedOf o disk k) :
    i.2 = seen o disk i.1.target ∧ i.1 ∈ edgesOf o (seen o disk k) := by
  have hi : i ∈ importsOf o disk k := (List.mem_filter.mp h).1
  obtain ⟨e, he, rfl⟩ := List.mem_map.mp hi
  exact ⟨rfl, he⟩

theorem usedOf_path {k : Path} {i : ImportEdge × Record} (h : i ∈ usedOf o disk k) :
    i.2.path = i.1.target := by
  rw [(usedOf_target h).1, seen_path]

theorem draft_of_needs {k root : Path} {r : Record} {d : Draft} (h : recordAt o disk k = .ok r)
    (needs : r.needsInterface = true) (hd : draftFor o r root = .ok d) :
    (seen o disk k).needsInterface = true ∧ draftFor o (seen o disk k) root = .ok d := by
  rw [seen_of_recordAt h]
  exact ⟨needs, hd⟩

/-! ## Texts depend on what importers need, and on nothing else of an artifact -/

theorem inheritedNames_bare (bases : List DottedName) (us : List UsedImport) :
    inheritedNames bases (us.map UsedImport.bare) = inheritedNames bases us := by
  unfold inheritedNames
  congr 1
  funext base
  simp only [UsedImport.providerOf, List.find?_map, Option.map_map]
  rfl

theorem text_bare (d : Draft) (us : List UsedImport) :
    d.text (us.map UsedImport.bare) = d.text us := by
  have hlines : ∀ l start bases,
      (us.map UsedImport.bare).map (UsedImport.line l start bases)
        = us.map (UsedImport.line l start bases) := by
    intro l start bases
    rw [List.map_map]
    rfl
  unfold Draft.text Record.interface
  simp only [hlines, inheritedNames_bare]

theorem linked_bare (imports : List (ImportEdge × Record)) (artifacts : List (Option Artifact)) :
    Session.linked imports (artifacts.map (Option.map Artifact.bare))
      = (Session.linked imports artifacts).map UsedImport.bare := by
  unfold Session.linked
  rw [List.zip_map_right, List.filterMap_map, List.map_filterMap]
  congr 1
  funext i
  simp only [Function.comp_def, Prod.map, id_eq, Option.map_map]
  rfl

/-- A text is the same for artifacts that importers cannot tell apart. -/
theorem text_linked_congr {d : Draft} {imports : List (ImportEdge × Record)}
    {as bs : List (Option Artifact)}
    (h : as.map (Option.map Artifact.bare) = bs.map (Option.map Artifact.bare)) :
    d.text (Session.linked imports as) = d.text (Session.linked imports bs) := by
  rw [← text_bare d (Session.linked imports as), ← text_bare d (Session.linked imports bs),
    ← linked_bare, ← linked_bare, h]

theorem sketch_bare (root k : Path) :
    (sketch o disk root k).map Artifact.bare = sketch o disk root k := by
  unfold sketch
  simp only
  split
  · split
    · rfl
    · rfl
  · split
    · rfl
    · rfl

/-- The artifact of a file is its sketch, as far as importers need it. -/
theorem artifactOf_bare (roots : Path → Path) (k : Path) :
    (artifactOf o disk roots k).map Artifact.bare = sketch o disk (roots k) k := by
  unfold artifactOf
  simp only
  split
  · rename_i needs
    unfold sketch
    simp only [needs, if_true]
    split
    · rfl
    · rfl
  · exact sketch_bare _ _

end Plan

end SolidityInterface
