import SolidityInterface.Path
import SolidityInterface.Proofs.Text.Split

/-
  Paths that were read from texts. The segments of such a path are plain: they are
  neither empty nor a single dot, and no slash stands in them, so the text of the path
  is read as the path again (`ofString_render`). A resolved path is its own resolution
  (`resolve_resolve`), and the steps from one directory to another lead there
  (`resolve_join_relativeFrom`).
-/

namespace SolidityInterface.Path

/-- Whether a segment is one that a text can be read as. -/
def IsPlain (s : String) : Prop := isSegment s = true ∧ '/' ∉ s.toList

/-- Whether all segments of a path are plain. -/
def Plain (p : Path) : Prop := ∀ s ∈ p.segments, IsPlain s

/-! ## Reading -/

theorem plain_ofString (text : String) : (ofString text).Plain := by
  intro s hs
  obtain ⟨hmem, hsegment⟩ := List.mem_filter.mp hs
  exact ⟨hsegment, Text.not_mem_of_mem_splitString hmem⟩

theorem plain_map_ofString (texts : List String) : ∀ p ∈ texts.map ofString, p.Plain := by
  intro p hp
  obtain ⟨text, -, rfl⟩ := List.mem_map.mp hp
  exact plain_ofString text

theorem Plain.join {p q : Path} (hp : p.Plain) (hq : q.Plain) : (p.join q).Plain := by
  unfold Path.join
  split
  · exact hq
  · intro s hs
    rcases List.mem_append.mp hs with hs | hs
    · exact hp s hs
    · exact hq s hs

theorem Plain.parent {p : Path} (hp : p.Plain) : p.parent.Plain :=
  fun s hs => hp s (List.dropLast_subset _ hs)

theorem isPlain_dots : IsPlain ".." := ⟨by decide, by decide⟩

/-- A word that starts with no slash is not taken for a root. -/
theorem rootOf_of_head_ne {c : Char} {cs : List Char} (hc : c ≠ '/') : rootOf (c :: cs) = .relative := by
  unfold rootOf
  split <;> simp_all

theorem IsPlain.toList_ne_nil {s : String} (h : IsPlain s) : s.toList ≠ [] := by
  intro hnil
  have hempty : s = "" := by simpa using hnil
  subst hempty
  exact absurd h.1 (by decide)

theorem filter_isSegment {segments : List String} (h : ∀ s ∈ segments, IsPlain s) :
    segments.filter isSegment = segments :=
  List.filter_eq_self.mpr fun s hs => (h s hs).1

/-- The text of a relative path starts with no slash. -/
theorem rootOf_intercalate {segments : List String} (h : ∀ s ∈ segments, IsPlain s) :
    rootOf ("/".intercalate segments).toList = .relative := by
  cases segments with
  | nil => rfl
  | cons s rest =>
    obtain ⟨c, cs, hs⟩ := List.exists_cons_of_ne_nil (h s (by simp)).toList_ne_nil
    have hc : c ≠ '/' := by
      rintro rfl
      exact (h s (by simp)).2 (by simp [hs])
    have htext : ∃ more, ("/".intercalate (s :: rest)).toList = c :: more := by
      cases rest with
      | nil => exact ⟨cs, by simp [hs]⟩
      | cons t rest =>
        rw [String.intercalate_cons_cons, String.toList_append, String.toList_append, hs]
        exact ⟨_, rfl⟩
    obtain ⟨more, hmore⟩ := htext
    rw [hmore]
    exact rootOf_of_head_ne hc

/-- A relative path is read again from its text, also with a dot and a slash before it. -/
theorem ofString_render {segments : List String} (h : ∀ s ∈ segments, IsPlain s) :
    ofString (render ⟨.relative, segments⟩) = ⟨.relative, segments⟩ ∧
      ofString ("./" ++ render ⟨.relative, segments⟩) = ⟨.relative, segments⟩ := by
  cases segments with
  | nil => exact ⟨rfl, rfl⟩
  | cons s rest =>
    have htext : render ⟨.relative, s :: rest⟩ = "/".intercalate (s :: rest) := by
      simp [render, Root.render]
    have hpieces : Text.splitString '/' ("/".intercalate (s :: rest)) = s :: rest :=
      Text.splitString_intercalate rfl (by simp) fun t ht => (h t ht).2
    have hdot : Text.splitString '/' ("./" ++ "/".intercalate (s :: rest)) = "." :: s :: rest := by
      have hsplit := @Text.split_append '/' ['.'] (by decide) ("/".intercalate (s :: rest)).toList
      rw [Text.splitString] at hpieces ⊢
      rw [String.toList_append]
      have hfront : "./".toList ++ ("/".intercalate (s :: rest)).toList
          = ['.'] ++ '/' :: ("/".intercalate (s :: rest)).toList := rfl
      rw [hfront, hsplit, List.map_cons, hpieces]
    -- A single dot is no segment, so it is dropped.
    rw [htext]
    constructor
    · rw [ofString, hpieces, rootOf_intercalate h, filter_isSegment h]
    · rw [ofString, hdot, String.toList_append, List.filter_cons_of_neg (by decide),
        filter_isSegment h]
      rfl

/-! ## Resolving -/

/-- What is left of a row of segments is one of them, and no pair of dots. -/
theorem mem_collapse {segments above : List String} {s : String} (h : s ∈ collapse above segments) :
    s ∈ above ∨ s ∈ segments ∧ s ≠ ".." := by
  induction segments generalizing above with
  | nil => exact .inl (by simpa [collapse] using h)
  | cons t rest ih =>
    rw [collapse] at h
    split at h
    · rcases ih h with h | ⟨h, hne⟩
      · exact .inl (List.mem_of_mem_tail h)
      · exact .inr ⟨List.mem_cons_of_mem _ h, hne⟩
    · rename_i ht
      rcases ih h with h | ⟨h, hne⟩
      · rcases List.mem_cons.mp h with rfl | h
        · exact .inr ⟨by simp, ht⟩
        · exact .inl h
      · exact .inr ⟨List.mem_cons_of_mem _ h, hne⟩

theorem collapse_append (above front rest : List String) :
    collapse above (front ++ rest) = collapse (collapse above front).reverse rest := by
  induction front generalizing above with
  | nil => simp [collapse]
  | cons s front ih =>
    rw [List.cons_append, collapse, collapse]
    split
    · exact ih _
    · exact ih _

theorem collapse_of_not_mem {segments : List String} (h : ".." ∉ segments) (above : List String) :
    collapse above segments = above.reverse ++ segments := by
  induction segments generalizing above with
  | nil => simp [collapse]
  | cons s rest ih =>
    simp only [List.mem_cons, not_or] at h
    rw [collapse, if_neg (Ne.symm h.1), ih h.2, List.reverse_cons, List.append_assoc]
    rfl

theorem not_mem_collapse (segments : List String) : ".." ∉ collapse [] segments := by
  intro h
  rcases mem_collapse h with h | ⟨-, hne⟩
  · simp at h
  · exact hne rfl

/-- Pairs of dots take away as many segments. -/
theorem collapse_dots {below : List String} {start : List String} (h : below.length = start.length)
    (above rest : List String) :
    collapse (below ++ above) (start.map (fun _ => "..") ++ rest) = collapse above rest := by
  induction start generalizing below with
  | nil =>
    obtain rfl : below = [] := List.length_eq_zero_iff.mp h
    rfl
  | cons s start ih =>
    cases below with
    | nil => simp at h
    | cons b below =>
      rw [List.map_cons, List.cons_append, List.cons_append, collapse, if_pos rfl]
      exact ih (by simpa using h)

/-- The steps from one directory to another lead there. `common` is the way to both. -/
theorem collapse_steps {target : List String} (h : ".." ∉ target) (start common : List String) :
    collapse (start.reverse ++ common.reverse) (steps start target) = common ++ target := by
  induction start, target using steps.induct generalizing common with
  | case1 start b target ih =>
    -- A segment that both have is added to the common way.
    simp only [List.mem_cons, not_or] at h
    have hnext := ih h.2 (common ++ [b])
    rw [steps, if_pos rfl, List.reverse_cons, List.append_assoc]
    simpa using hnext
  | case2 a start b target hab =>
    have hlength : (a :: start).reverse.length = (a :: start).length := by simp
    have hdots := collapse_dots hlength common.reverse (b :: target)
    rw [steps, if_neg hab]
    refine Eq.trans hdots ?_
    rw [collapse_of_not_mem h, List.reverse_reverse]
  | case3 start target hne =>
    have hsteps : steps start target = start.map (fun _ => "..") ++ target := by
      unfold steps
      split
      · exact absurd rfl (hne _ _ _ _ rfl)
      · rfl
    rw [hsteps, collapse_dots (by simp), collapse_of_not_mem h, List.reverse_reverse]

theorem segments_join (cwd p q : Path) (hq : q.isAbsolute = false) :
    (cwd.join (p.join q)).segments = (cwd.join p).segments ++ q.segments := by
  cases hp : p.isAbsolute <;> simp_all [join, isAbsolute]

theorem Plain.resolve {cwd p : Path} (hcwd : cwd.Plain) (hp : p.Plain) : (cwd.resolve p).Plain := by
  intro s hs
  rcases mem_collapse hs with hs | ⟨hs, -⟩
  · simp at hs
  · exact hcwd.join hp s hs

/-- A resolved path is its own resolution. -/
theorem resolve_resolve (cwd cwd' p : Path) : cwd'.resolve (cwd.resolve p) = cwd.resolve p := by
  have hjoin : cwd'.join (cwd.resolve p) = cwd.resolve p := by simp [join, isAbsolute, resolve]
  rw [resolve, hjoin, resolve, collapse_of_not_mem (not_mem_collapse _)]
  rfl

/-- The relative path from a directory to a target leads from the directory to the
target. -/
theorem resolve_join_relativeFrom (cwd target start : Path) :
    cwd.resolve (start.join (relativeFrom cwd target start)) = cwd.resolve target := by
  have hsteps := collapse_steps (not_mem_collapse (cwd.join target).segments)
    (collapse [] (cwd.join start).segments) []
  rw [resolve, segments_join _ _ _ rfl, collapse_append]
  simpa [relativeFrom, resolve] using hsteps

end SolidityInterface.Path
