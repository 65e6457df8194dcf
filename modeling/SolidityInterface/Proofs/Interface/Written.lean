import SolidityInterface.Interface.Document
import SolidityInterface.Proofs.Declaration.Spelled
import SolidityInterface.Proofs.Text.Split

/-
  The lines of an interface file are read as its symbols. `Written ls ss`: the lines
  `ls`, each with its line feed, are read as the symbols `ss`, whatever follows. The
  stubs of an interface are put into its body line by line, with an indentation; none of
  their tokens reaches over the end of a line, so this changes nothing.
-/

namespace SolidityInterface

open Token (Kind)

/-- The characters of some lines. -/
def lineChars (ls : List String) : List Char := ls.flatMap fun l => l.toList ++ ['\n']

/-- Whether some lines are read as some symbols, whatever follows. -/
def Written (ls : List String) (ss : List Symbol) : Prop :=
  ∀ (cs : List Char) (ts : List Symbol), Spells cs ts → Spells (lineChars ls ++ cs) (ss ++ ts)

namespace Written

variable {ls ms : List String} {ss ts : List Symbol}

theorem nil : Written [] [] := fun _ _ h => h

theorem append (hl : Written ls ss) (hm : Written ms ts) : Written (ls ++ ms) (ss ++ ts) := by
  intro cs us h
  rw [lineChars, List.flatMap_append, List.append_assoc, List.append_assoc]
  exact hl _ _ (hm _ _ h)

theorem of_closed {l : String} (h : Closed l ss) : Written [l] ss := by
  intro cs ts hcs
  have hspells := h.spells _ _ (Spells.blank (c := '\n') (by decide) hcs)
  simpa [lineChars] using hspells

theorem blank : Written [""] [] := of_closed .empty

/-- A line stays what it is behind an indentation. -/
theorem indented {l : String} (h : Closed l ss) : Written [Interface.indent ++ l] ss := by
  have hindent : Closed Interface.indent [] := .of_chars (by decide) rfl
  exact of_closed (hindent.append h)

theorem spaced {α : Type} {lines : α → List String} {symbols : α → List Symbol} {items : List α}
    (h : ∀ a ∈ items, Written (lines a) (symbols a)) :
    Written (Interface.spaced (items.map lines)) (items.flatMap symbols) := by
  induction items with
  | nil => exact nil
  | cons a items ih =>
    have ha := h a (by simp)
    have hrest := ih fun b hb => h b (by simp [hb])
    cases items with
    | nil => simpa [Interface.spaced] using ha
    | cons b items =>
      have hall := (ha.append blank).append hrest
      rw [List.append_nil] at hall
      exact hall

theorem flatMap {α : Type} {lines : α → List String} {symbols : α → List Symbol} {items : List α}
    (h : ∀ a ∈ items, Written (lines a) (symbols a)) :
    Written (items.flatMap lines) (items.flatMap symbols) := by
  induction items with
  | nil => exact nil
  | cons a items ih => exact (h a (by simp)).append (ih fun b hb => h b (by simp [hb]))

/-! ## Stubs -/

theorem stub_of_closed {stub : String} (h : Closed stub ss) : Written (Interface.stubLines stub) ss := by
  rw [Interface.stubLines, Text.splitString_of_not_mem h.line]
  exact indented h

theorem structHeader {n : String} (hn : IsName n) :
    Closed ("struct " ++ n ++ " \x7b") [Symbol.word "struct", Symbol.word n, (.lbrace, "\x7b")] := by
  have hkeyword : Closed "struct " [Symbol.word "struct"] :=
    Spelled.keyword "struct " (by decide) (by decide) (by decide)
  have hopen : Closed " \x7b" [(.lbrace, "\x7b")] := .of_chars (by decide) rfl
  exact (hkeyword.append_spelled (Spelled.name hn)).close hopen ⟨' ', _, rfl, rfl⟩

theorem structMember {v : Variable} (hv : v.Printable) :
    Closed ("    " ++ v.render ++ ";") (v.symbols ++ [(.semicolon, ";")]) := by
  have hindent : Closed "    " [] := .of_chars (by decide) rfl
  have hsemicolon : Closed ";" [(.semicolon, ";")] := .of_chars (by decide) rfl
  exact (hindent.append_spelled (Spelled.parameter hv)).close hsemicolon ⟨';', _, rfl, rfl⟩

theorem struct {d : StructDecl} (hd : d.Printable) : Written (Interface.stubLines d.render) d.symbols := by
  have hheader := structHeader hd.name
  have hmembers := fun v hv => structMember (hd.members v hv).1
  have hclose : Closed "\x7d" [(.rbrace, "\x7d")] := .of_chars (by decide) rfl
  have hline : ∀ l ∈ d.toLines, '\n' ∉ l.toList := by
    intro l hl
    simp only [StructDecl.toLines, List.mem_append, List.mem_singleton, List.mem_map] at hl
    rcases hl with (rfl | ⟨v, hv, rfl⟩) | rfl
    · exact hheader.line
    · exact (hmembers v hv).line
    · exact hclose.line
  rw [Interface.stubLines, StructDecl.render, Text.splitString_intercalate rfl (by simp [StructDecl.toLines]) hline]
  have hall := ((indented hheader).append
    (flatMap fun v hv => indented (hmembers v hv))).append (indented hclose)
  simpa [StructDecl.toLines, StructDecl.symbols, Function.comp_def,
    ← List.map_eq_flatMap] using hall

theorem member {m : Member} (hm : m.Printable) : Written (Interface.stubLines m.render) m.symbols := by
  match m, hm with
  | .function f, hf => exact stub_of_closed (Spelled.function hf)
  | .struct d, hd => exact struct hd
  | .enum d, hd => exact stub_of_closed (Spelled.enum hd)

/-- A group of members, with or without blank lines between them. -/
theorem group {members : List Member} (hmembers : ∀ m ∈ members, m.Printable) (isSpaced : Bool) :
    Written (Interface.groupLines ⟨members.map (·.render), isSpaced⟩)
      (members.flatMap (·.symbols)) := by
  have hmember := fun m hm => member (hmembers m hm)
  cases isSpaced with
  | true => simpa [Interface.groupLines, Function.comp_def] using spaced hmember
  | false => simpa [Interface.groupLines, List.flatMap_map] using flatMap hmember

/-! ## The lines before the members -/

theorem license {license : String} (h : '\n' ∉ license.toList) :
    Written ["// SPDX-License-Identifier: " ++ license] [] := by
  intro cs ts hcs
  have hline : '\n' ∉ " SPDX-License-Identifier: ".toList ++ license.toList := by
    rw [List.mem_append]
    exact fun hmem => hmem.elim (by decide) h
  have hspells := Spells.lineComment hline hcs
  simpa [lineChars] using hspells

theorem pragma {p : PragmaDirective} (hp : Spells.IsPragma p.name.toList p.value.toList)
    (hsplit : Spells.SplitsPragma p.name.toList p.value.toList) :
    Written ["pragma " ++ p.name ++ " " ++ p.value ++ ";"] p.symbols := by
  intro cs ts hcs
  have hend : Spells (';' :: '\n' :: cs) ((.semicolon, ";") :: ts) :=
    Spells.punctuation rfl (by decide) (Spells.blank (by decide) hcs)
  have hspells := Spells.pragma (b := []) hp hsplit rfl (by simp) hend
  simpa [lineChars, PragmaDirective.symbols] using hspells

end Written

/-- The line that imports a file. -/
def importLine (path : String) : String := "import \x22" ++ path ++ "\x22;"

namespace Written

theorem importLine {path : String} (h : Lexeme.isQuotable '\x22' path.toList = true) :
    Written [importLine path] (importSymbols path) := by
  intro cs ts hcs
  have hend : Spells (';' :: '\n' :: cs) ((.semicolon, ";") :: ts) :=
    Spells.punctuation rfl (by decide) (Spells.blank (by decide) hcs)
  have hkeyword : Closed "import " [Symbol.word "import"] :=
    Spelled.keyword "import " (by decide) (by decide) (by decide)
  have hspells := hkeyword.spells _ _ (Spells.string h hend)
  have htext : String.ofList ('\x22' :: path.toList ++ ['\x22']) = "\x22" ++ path ++ "\x22" := by
    simp [← String.toList_inj]
  rw [htext] at hspells
  simpa [lineChars, importSymbols, SolidityInterface.importLine] using hspells

theorem header {i : Interface} (hname : IsName i.name) (hbases : ∀ n ∈ i.bases, IsName n) :
    Written [i.header]
      ([Symbol.word "interface", Symbol.word i.name] ++ baseSymbols i.bases ++ [(.lbrace, "\x7b")]) := by
  have hkeyword : Closed "interface " [Symbol.word "interface"] :=
    Spelled.keyword "interface " (by decide) (by decide) (by decide)
  have hopen : Closed " \x7b" [(.lbrace, "\x7b")] := .of_chars (by decide) rfl
  have hstart := hkeyword.append_spelled (Spelled.name hname)
  have hclause : Spelled
      ("interface " ++ i.name ++ if i.bases.isEmpty then "" else " is " ++ ", ".intercalate i.bases)
      ([Symbol.word "interface"] ++ [Symbol.word i.name] ++ baseSymbols i.bases) := by
    have hnames : Spelled (", ".intercalate i.bases)
        (commaSeparated (i.bases.map fun n => [Symbol.word n])) := by
      have hcommas : Spelled (", ".intercalate (i.bases.map id)) _ :=
        Spelled.commas fun n hn => Spelled.name (hbases n hn)
      rwa [List.map_id] at hcommas
    have his : Closed " is " [Symbol.word "is"] := by
      have hblank : Closed " " [] := .of_chars (by decide) rfl
      exact hblank.append (Spelled.keyword "is " (by decide) (by decide) (by decide))
    rw [baseSymbols]
    split
    · exact hstart.append_empty
    · exact hstart.append_of_divides (his.append_spelled hnames)
        ⟨' ', _, by rw [String.toList_append]; rfl, rfl⟩
  exact of_closed (hclause.close hopen ⟨' ', _, rfl, rfl⟩)

end Written

/-! ## The whole file -/

theorem toList_intercalate_lines {ls : List String} (hne : ls ≠ []) :
    ("\n".intercalate ls ++ "\n").toList = lineChars ls := by
  induction ls with
  | nil => exact absurd rfl hne
  | cons l ls ih =>
    cases ls with
    | nil => simp [lineChars]
    | cons m ls =>
      have hrest := ih (by simp)
      rw [String.intercalate_cons_cons, String.append_assoc, String.toList_append, hrest]
      simp [lineChars]

/-- What an interface is read as, if its groups are read as the symbols of some members. -/
theorem Interface.spells_render {i : Interface} {paths : List String} {members : List Member}
    (hlicense : '\n' ∉ i.license.toList)
    (hpragma : Spells.IsPragma i.pragma.name.toList i.pragma.value.toList)
    (hsplit : Spells.SplitsPragma i.pragma.name.toList i.pragma.value.toList)
    (himports : i.imports = paths.map importLine)
    (hpaths : ∀ path ∈ paths, Lexeme.isQuotable '\x22' path.toList = true) (hname : IsName i.name)
    (hbases : ∀ n ∈ i.bases, IsName n)
    (hgroups : Written (spaced (i.groups.map groupLines)) (members.flatMap (·.symbols))) :
    Spells i.render.toList (i.pragma.symbols ++ paths.flatMap importSymbols
      ++ interfaceSymbols i.name i.bases members) := by
  have himportLines : Written (if i.imports.isEmpty then [] else i.imports ++ [""])
      (paths.flatMap importSymbols) := by
    have hlines : Written (paths.map importLine) (paths.flatMap importSymbols) := by
      rw [List.map_eq_flatMap]
      exact .flatMap fun path hpath => .importLine (hpaths path hpath)
    split
    · rename_i hempty
      rw [himports] at hempty
      have hnil : paths = [] := by simpa using hempty
      rw [hnil]
      exact .nil
    · rw [himports, ← List.append_nil (paths.flatMap importSymbols)]
      exact hlines.append .blank
  have hclose : Written ["\x7d"] [(.rbrace, "\x7d")] :=
    .of_closed (.of_chars (by decide) rfl)
  have hstart := ((Written.license hlicense).append (Written.pragma hpragma hsplit)).append .blank
  have hall := (((hstart.append himportLines).append (.header hname hbases)).append hgroups).append hclose
  have hspells := hall [] [] .nil
  rw [render, toList_intercalate_lines (by simp [toLines])]
  simpa [toLines, interfaceSymbols] using hspells

end SolidityInterface
