import SolidityInterface.Proofs.Interface.Batching
import SolidityInterface.Proofs.Interface.Relative
import SolidityInterface.Proofs.Interface.RoundTrip

/-
  What the text of an interface lists is unique. A path that can stand between quotes ends
  at the next quote, the line that opens an interface is no import line, and the names of
  bases hold no commas. So two interfaces that differ in nothing but their imports and
  bases have different texts (`Interface.lists_of_render_eq`), and what is said of the
  paths and the bases of an interface is said of its text
  (`Record.lists_of_render_eq`).
-/

namespace SolidityInterface

/-- A text that can stand between quotes ends at the next quote. -/
theorem Lexeme.quoted_inj {quote : Char} (hq : quote ≠ '\\') {a b c d : List Char}
    (ha : isQuotable quote a = true) (hb : isQuotable quote b = true)
    (h : a ++ quote :: c = b ++ quote :: d) : a = b ∧ c = d := by
  have htail := Spells.stringTail_of_isQuotable hq ha c
  rw [h, Spells.stringTail_of_isQuotable hq hb d] at htail
  obtain rfl := List.append_cancel_right (Prod.mk.inj htail).1
  have hrest := List.append_cancel_left h
  exact ⟨rfl, (List.cons.inj hrest).2⟩

theorem Lexeme.isQuotable_of_not_mem {quote : Char} {l : List Char} (hquote : quote ∉ l)
    (hslash : '\\' ∉ l) : isQuotable quote l = true := by
  induction l using isQuotable.induct with
  | case1 => rfl
  | case2 c rest => simp at hslash
  | case3 c rest hne ih =>
    rw [List.mem_cons, not_or] at hquote hslash
    rw [isQuotable]
    · simp [Ne.symm hquote.1, Ne.symm hslash.1, ih hquote.2 hslash.2]
    · exact hne

/-- Whether no segment of a path holds a quote or a backslash. -/
def Path.IsUnquoted (p : Path) : Prop := ∀ s ∈ p.segments, '\x22' ∉ s.toList ∧ '\\' ∉ s.toList

theorem Path.mem_intercalate {c : Char} {segments : List String}
    (h : c ∈ ("/".intercalate segments).toList) : c = '/' ∨ ∃ s ∈ segments, c ∈ s.toList := by
  induction segments with
  | nil => simp at h
  | cons s rest ih =>
    rw [toList_intercalate_cons, List.mem_append] at h
    rcases h with h | h
    · exact .inr ⟨s, by simp, h⟩
    · split at h
      · simp at h
      · rcases List.mem_cons.mp h with h | h
        · exact .inl h
        · obtain hslash | ⟨t, ht, hc⟩ := ih h
          · exact .inl hslash
          · exact .inr ⟨t, List.mem_cons_of_mem _ ht, hc⟩

theorem Path.mem_render {c : Char} {segments : List String}
    (h : c ∈ (render ⟨.relative, segments⟩).toList) :
    c = '.' ∨ c = '/' ∨ ∃ s ∈ segments, c ∈ s.toList := by
  unfold render at h
  split at h
  · exact .inl (by simpa using h)
  · rw [String.toList_append, List.mem_append] at h
    rcases h with h | h
    · simp [Root.render] at h
    · exact .inr (mem_intercalate h)

/-- Beside the segments of a path, the text that imports it holds dots and slashes only. -/
theorem Layout.mem_relativeImport {l : Layout} {target start : Path} {c : Char}
    (h : c ∈ (l.relativeImport target start).toList) :
    c = '.' ∨ c = '/' ∨ ∃ s ∈ (l.cwd.resolve target).segments, c ∈ s.toList := by
  have hsteps : c ∈ (Path.relativeFrom l.cwd target start).render.toList →
      c = '.' ∨ c = '/' ∨ ∃ s ∈ (l.cwd.resolve target).segments, c ∈ s.toList := by
    intro hc
    rcases Path.mem_render hc with hdot | hslash | ⟨s, hs, hc⟩
    · exact .inl hdot
    · exact .inr (.inl hslash)
    · rcases Path.mem_steps hs with rfl | hs
      · exact .inl (by simpa using hc)
      · exact .inr (.inr ⟨s, hs, hc⟩)
  unfold relativeImport at h
  dsimp only at h
  split at h
  · exact hsteps h
  · rw [String.toList_append, List.mem_append] at h
    rcases h with h | h
    · have hdot : c = '.' ∨ c = '/' := by simpa using h
      exact hdot.imp_right .inl
    · exact hsteps h

/-- The text that imports a file whose path holds no quote can stand between quotes. -/
theorem Layout.isQuotable_relativeImport {l : Layout} {target : Path}
    (h : (l.cwd.resolve target).IsUnquoted) (start : Path) :
    Lexeme.isQuotable '\x22' (l.relativeImport target start).toList = true := by
  apply Lexeme.isQuotable_of_not_mem
  · intro hc
    rcases mem_relativeImport hc with hdot | hslash | ⟨s, hs, hin⟩
    · exact absurd hdot (by decide)
    · exact absurd hslash (by decide)
    · exact (h s hs).1 hin
  · intro hc
    rcases mem_relativeImport hc with hdot | hslash | ⟨s, hs, hin⟩
    · exact absurd hdot (by decide)
    · exact absurd hslash (by decide)
    · exact (h s hs).2 hin

theorem IsName.not_mem_comma {n : String} (hn : IsName n) : ',' ∉ n.toList := by
  obtain ⟨c, rest, -, -, -, hall⟩ := hn.1
  intro hmem
  have hpart := List.all_eq_true.mp hall ',' hmem
  exact absurd hpart (by decide)

theorem lineChars_append (ls ms : List String) : lineChars (ls ++ ms) = lineChars ls ++ lineChars ms :=
  List.flatMap_append

theorem lineChars_importLine (path : String) (ls : List String) :
    lineChars (importLine path :: ls)
      = "import \x22".toList ++ (path.toList ++ '\x22' :: ';' :: '\n' :: lineChars ls) := by
  simp [lineChars, importLine]

/-- Import lines that end in a blank line. -/
theorem importLines_inj {paths paths' ls ms : List String}
    (hpaths : ∀ p ∈ paths, Lexeme.isQuotable '\x22' p.toList = true)
    (hpaths' : ∀ p ∈ paths', Lexeme.isQuotable '\x22' p.toList = true)
    (h : lineChars (paths.map importLine ++ "" :: ls) = lineChars (paths'.map importLine ++ "" :: ms)) :
    paths = paths' ∧ lineChars ls = lineChars ms := by
  induction paths generalizing paths' with
  | nil =>
    cases paths' with
    | nil => exact ⟨rfl, by simpa [lineChars] using h⟩
    | cons p' paths' =>
      rw [List.map_cons, List.cons_append, lineChars_importLine] at h
      simp [lineChars] at h
  | cons p paths ih =>
    cases paths' with
    | nil =>
      rw [List.map_cons, List.cons_append, lineChars_importLine] at h
      simp [lineChars] at h
    | cons p' paths' =>
      rw [List.map_cons, List.cons_append, lineChars_importLine, List.map_cons, List.cons_append,
        lineChars_importLine] at h
      obtain ⟨hp, hrest⟩ := Lexeme.quoted_inj (by decide) (hpaths p (by simp)) (hpaths' p' (by simp))
        (List.append_cancel_left h)
      obtain ⟨rfl, hls⟩ := ih (fun q hq => hpaths q (List.mem_cons_of_mem _ hq))
        (fun q hq => hpaths' q (List.mem_cons_of_mem _ hq)) (by simpa using hrest)
      exact ⟨by rw [String.toList_inj.mp hp], hls⟩

namespace Interface

/-- The lines between the pragma and the members of an interface. -/
def headLines (i : Interface) : List String :=
  (if i.imports.isEmpty then [] else i.imports ++ [""]) ++ [i.header]

/-- The line that opens an interface is no import line. -/
theorem lineChars_header (i : Interface) : ∃ cs, lineChars [i.header] = 'i' :: 'n' :: cs :=
  ⟨_, by simp [lineChars, header]; rfl⟩

theorem headLines_inj {i i' : Interface} {paths paths' : List String}
    (himports : i.imports = paths.map importLine) (himports' : i'.imports = paths'.map importLine)
    (hpaths : ∀ p ∈ paths, Lexeme.isQuotable '\x22' p.toList = true)
    (hpaths' : ∀ p ∈ paths', Lexeme.isQuotable '\x22' p.toList = true)
    (h : lineChars i.headLines = lineChars i'.headLines) :
    paths = paths' ∧ lineChars [i.header] = lineChars [i'.header] := by
  obtain ⟨cs, hcs⟩ := i.lineChars_header
  obtain ⟨cs', hcs'⟩ := i'.lineChars_header
  unfold headLines at h
  rw [himports, himports'] at h
  cases paths with
  | nil =>
    cases paths' with
    | nil => exact ⟨rfl, by simpa using h⟩
    | cons p' paths' =>
      simp only [List.map_nil, List.isEmpty_nil, if_true, List.nil_append, hcs] at h
      rw [List.map_cons, List.isEmpty_cons, if_neg (by simp), List.cons_append, List.cons_append,
        lineChars_importLine] at h
      simp at h
  | cons p paths =>
    cases paths' with
    | nil =>
      simp only [List.map_nil, List.isEmpty_nil, if_true, List.nil_append, hcs'] at h
      rw [List.map_cons, List.isEmpty_cons, if_neg (by simp), List.cons_append, List.cons_append,
        lineChars_importLine] at h
      simp at h
    | cons p' paths' => exact importLines_inj hpaths hpaths' (by simpa using h)

theorem lineChars_singleton_inj {l m : String} (h : lineChars [l] = lineChars [m]) : l = m := by
  exact String.toList_inj.mp (by simpa [lineChars] using h)

/-- Two interfaces that differ in nothing but their imports and bases have different texts. -/
theorem lists_of_render_eq {i i' : Interface} {paths paths' : List String} (hname : i'.name = i.name)
    (hlicense : i'.license = i.license) (hpragma : i'.pragma = i.pragma) (hgroups : i'.groups = i.groups)
    (himports : i.imports = paths.map importLine) (himports' : i'.imports = paths'.map importLine)
    (hpaths : ∀ p ∈ paths, Lexeme.isQuotable '\x22' p.toList = true)
    (hpaths' : ∀ p ∈ paths', Lexeme.isQuotable '\x22' p.toList = true)
    (hbases : ∀ n ∈ i.bases, IsName n) (hbases' : ∀ n ∈ i'.bases, IsName n)
    (h : i'.render = i.render) : paths' = paths ∧ i'.bases = i.bases := by
  have hlines : ∀ i : Interface, i.render.toList
      = lineChars ["// SPDX-License-Identifier: " ++ i.license,
          "pragma " ++ i.pragma.name ++ " " ++ i.pragma.value ++ ";", ""]
        ++ lineChars i.headLines ++ lineChars (spaced (i.groups.map groupLines) ++ ["\x7d"]) := by
    intro i
    rw [render, toList_intercalate_lines (by simp [toLines]), ← lineChars_append, ← lineChars_append]
    simp [toLines, headLines]
  have htext := congrArg String.toList h
  -- What stands before the imports and behind the header is the same in both.
  rw [hlines, hlines, hlicense, hpragma, hgroups] at htext
  have hhead := List.append_cancel_left (List.append_cancel_right htext)
  obtain ⟨rfl, hheader⟩ := headLines_inj himports' himports hpaths' hpaths hhead
  refine ⟨rfl, ?_⟩
  rw [← listedIn_header fun n hn => (hbases' n hn).not_mem_comma,
    ← listedIn_header fun n hn => (hbases n hn).not_mem_comma, hname, lineChars_singleton_inj hheader]

end Interface

namespace Record

theorem interfaceWith_groups (r : Record) (rawOnly : Bool) (paths names paths' names' : List String) :
    (r.interfaceWith rawOnly paths names).groups = (r.interfaceWith rawOnly paths' names').groups := by
  simp only [interfaceWith, Interface.foldl_addImport, Interface.inherit, Interface.addGroup]
  split <;> split <;> split <;> rfl

/-- Two interfaces of one record with the same text list the same paths and the same bases. -/
theorem lists_of_render_eq {r : Record} {rawOnly : Bool} {paths names paths' names' : List String}
    (hpaths : ∀ p ∈ paths, Lexeme.isQuotable '\x22' p.toList = true)
    (hpaths' : ∀ p ∈ paths', Lexeme.isQuotable '\x22' p.toList = true)
    (hnames : ∀ n ∈ names, IsName n) (hnames' : ∀ n ∈ names', IsName n)
    (h : (r.interfaceWith rawOnly paths' names').render = (r.interfaceWith rawOnly paths names).render) :
    Distinct.ofList paths' = Distinct.ofList paths ∧ Distinct.ofList names' = Distinct.ofList names := by
  have distinct : ∀ {P : String → Prop} {l : List String}, (∀ a ∈ l, P a) → ∀ a ∈ Distinct.ofList l, P a :=
    fun hl a ha => hl a (Distinct.mem_ofList.mp ha)
  have hbases : ∀ n ∈ (r.interfaceWith rawOnly paths names).bases, IsName n := by
    simpa using distinct hnames
  have hbases' : ∀ n ∈ (r.interfaceWith rawOnly paths' names').bases, IsName n := by
    simpa using distinct hnames'
  have hlists := Interface.lists_of_render_eq (by simp) (by simp) (by simp)
    (r.interfaceWith_groups rawOnly _ _ _ _) (interfaceWith_imports ..) (interfaceWith_imports ..)
    (distinct hpaths) (distinct hpaths') hbases hbases' h
  simpa using hlists

end Record

end SolidityInterface
