import SolidityInterface.Interface.Assembly
import SolidityInterface.Proofs.Declaration.Parsed
import SolidityInterface.Proofs.Distinct
import SolidityInterface.Proofs.Interface.License
import SolidityInterface.Proofs.Interface.Written
import SolidityInterface.Proofs.Projection.Printable

/-
  Generated text parses back to what was projected. `Record.interfaceWith` is the
  interface of a record with some imports and bases and the stubs of its outline. The main
  statement, `Record.ofSource_render_interfaceWith`, says that its text is the text of one
  pragma, the imports and one interface, whose members are those that the outline
  declares.
-/

namespace SolidityInterface

open Token (Kind)

theorem importLine_injective : Function.Injective importLine := by
  intro p q h
  have hlist := congrArg String.toList h
  simp only [importLine, String.toList_append] at hlist
  exact String.toList_inj.mp (List.append_cancel_left (List.append_cancel_right hlist))

/-- The interface of a record with some imports, some bases and the stubs of its outline. -/
def Record.interfaceWith (r : Record) (rawOnly : Bool) (paths names : List String) : Interface :=
  let start : Interface := {
    name := r.interfaceName?.getD ""
    license := r.license.display
    pragma := r.pragma.getD ⟨"", ""⟩ }
  let o := Outline.ofRecord rawOnly r
  let named := ((paths.map importLine).foldl Interface.addImport start).inherit names
  ((named.addGroup o.types true).addGroup o.getters).addGroup o.functions

/-- The interface that is written for a record is one of these. -/
theorem Record.interface_eq_interfaceWith (r : Record) (l : Layout) (rawOnly : Bool) (directory : Path)
    (us : List UsedImport) :
    r.interface l (Outline.ofRecord rawOnly r) directory us
      = r.interfaceWith rawOnly
          (us.map fun u => l.relativeImport
            (if (u.base? r.bases).isSome then u.artifact.output else u.target.path) directory)
          (inheritedNames r.bases us) := by
  rw [interfaceWith, List.map_map]
  rfl

namespace Interface

theorem foldl_addImport (lines : List String) (i : Interface) :
    lines.foldl addImport i = { i with imports := Distinct.addAll i.imports lines } := by
  induction lines generalizing i with
  | nil => rfl
  | cons line lines ih =>
    rw [List.foldl_cons, ih]
    rfl

/-- Whether some groups are read as some symbols. -/
def GroupsRead (gs : List StubGroup) (ss : List Symbol) : Prop :=
  ∃ entries : List (StubGroup × List Symbol), gs = entries.map (·.1) ∧ ss = entries.flatMap (·.2) ∧
    ∀ e ∈ entries, Written (groupLines e.1) e.2

theorem GroupsRead.written {gs : List StubGroup} {ss : List Symbol} (h : GroupsRead gs ss) :
    Written (spaced (gs.map groupLines)) ss := by
  obtain ⟨entries, rfl, rfl, hentries⟩ := h
  rw [List.map_map]
  exact Written.spaced hentries

theorem GroupsRead.addGroup {i : Interface} {ss : List Symbol} {members : List Member}
    (hi : GroupsRead i.groups ss) (hmembers : ∀ m ∈ members, m.Printable) (isSpaced : Bool) :
    GroupsRead (i.addGroup (members.map (·.render)) isSpaced).groups
      (ss ++ members.flatMap (·.symbols)) := by
  obtain ⟨entries, hgroups, rfl, hentries⟩ := hi
  cases members with
  | nil => exact ⟨entries, hgroups, by simp, hentries⟩
  | cons m members =>
    refine ⟨entries ++ [(⟨(m :: members).map (·.render), isSpaced⟩, (m :: members).flatMap (·.symbols))],
      ?_, by simp, ?_⟩
    · rw [Interface.addGroup, if_neg (by simp), List.map_append, ← hgroups]
      rfl
    · intro e he
      rcases List.mem_append.mp he with he | he
      · exact hentries e he
      · obtain rfl := List.mem_singleton.mp he
        exact Written.group hmembers isSpaced

@[simp] theorem addGroup_name (i : Interface) (stubs : List String) (b : Bool) :
    (i.addGroup stubs b).name = i.name := by
  rw [addGroup]
  split <;> rfl

@[simp] theorem addGroup_license (i : Interface) (stubs : List String) (b : Bool) :
    (i.addGroup stubs b).license = i.license := by
  rw [addGroup]
  split <;> rfl

@[simp] theorem addGroup_pragma (i : Interface) (stubs : List String) (b : Bool) :
    (i.addGroup stubs b).pragma = i.pragma := by
  rw [addGroup]
  split <;> rfl

@[simp] theorem addGroup_bases (i : Interface) (stubs : List String) (b : Bool) :
    (i.addGroup stubs b).bases = i.bases := by
  rw [addGroup]
  split <;> rfl

@[simp] theorem addGroup_imports (i : Interface) (stubs : List String) (b : Bool) :
    (i.addGroup stubs b).imports = i.imports := by
  rw [addGroup]
  split <;> rfl

end Interface

/-- No keyword and no built-in type starts with an I. -/
theorem Word.kind_eq_identifier {w : String} {l : List Char} (hw : w.toList = 'I' :: l) :
    kind w = .identifier := by
  have hkeyword : keywords.lookup w = none := by
    have hall : ∀ e ∈ keywords, e.1.toList.head? ≠ some 'I' := by decide
    rw [List.lookup_eq_none_iff]
    intro e he
    have hne : w ≠ e.1 := fun h => hall e he (by rw [← h, hw]; rfl)
    simpa using hne
  have hplain : plainTypes.contains w = false := by
    have hall : ∀ t ∈ plainTypes, t.toList.head? ≠ some 'I' := by decide
    cases hcontains : plainTypes.contains w with
    | false => rfl
    | true => exact absurd (by rw [hw]; rfl) (hall w (by simpa using hcontains))
  have hdrop : ∃ l', dropFinalNewline ('I' :: l) = 'I' :: l' := by
    unfold dropFinalNewline
    split
    · cases l with
      | nil => simp at *
      | cons c l => exact ⟨_, rfl⟩
    · exact ⟨l, rfl⟩
  have hsized : isSizedType w.toList = false := by
    obtain ⟨l', hl'⟩ := hdrop
    rw [isSizedType, hw, hl']
    rfl
  rw [kind, hkeyword, hplain, hsized]
  rfl

/-- A word with an I before it is an identifier. -/
theorem IsName.interface {n : String} (hn : IsName n) : IsName ("I" ++ n) := by
  obtain ⟨c, rest, -, -, -, hall⟩ := hn.1
  have htext : ("I" ++ n).toList = 'I' :: n.toList := by simp
  have hword : IsWord ("I" ++ n).toList := by
    refine ⟨'I', n.toList, htext, rfl, rfl, ?_⟩
    rw [htext, List.all_cons, hall, Bool.and_true]
    rfl
  exact ⟨hword, by rw [Word.kind_eq_identifier htext]; rfl⟩

theorem Reader.parses_ofStream {s : TokenStream} {ss : List Symbol} {u : SourceUnit}
    (hs : s.tokens.map Token.symbol = ss) (h : Parses Parser.sourceUnit ss u []) :
    SourceUnit.ofTokens s = .ok u := by
  obtain ⟨r, hr, -⟩ := h (Reader.ofStream s) hs
  rw [SourceUnit.ofTokens, hr]

theorem SourceUnit.ofSource_of_spells {source : String} {ss : List Symbol} {u : SourceUnit}
    (hs : Spells source.toList ss) (h : Parses Parser.sourceUnit ss u []) :
    ofSource source = .ok u := by
  obtain ⟨s, hscan, hsymbols⟩ := hs {}
  have htokens : TokenStream.ofSource? source = some s := hscan
  rw [ofSource, htokens]
  dsimp only
  rw [Reader.parses_ofStream hsymbols h]
  rfl

/-- The text of an interface whose groups are read as the symbols of some members. -/
theorem Interface.ofSource_render {i : Interface} {paths : List String} {members : List Member}
    (hlicense : '\n' ∉ i.license.toList) (hpragma : i.pragma.WellFormed)
    (hsplit : Spells.SplitsPragma i.pragma.name.toList i.pragma.value.toList)
    (himports : i.imports = paths.map importLine)
    (hpaths : ∀ path ∈ paths, Lexeme.isQuotable '\x22' path.toList = true) (hname : IsName i.name)
    (hbases : ∀ n ∈ i.bases, IsName n) (hmembers : ∀ m ∈ members, m.Printable)
    (hgroups : GroupsRead i.groups (members.flatMap (·.symbols))) :
    SourceUnit.ofSource i.render = .ok {
      pragmas := [i.pragma]
      imports := paths.map fun path => { path }
      contracts := [{ name := i.name, kind := .interface, bases := i.bases.map ([·]), members }] } :=
  SourceUnit.ofSource_of_spells
    (spells_render hlicense hpragma hsplit himports hpaths hname hbases hgroups.written)
    (Parses.sourceUnit i.pragma paths hname hbases hmembers)

/-- The licence of an interface is found in its text just if it is an identifier. -/
theorem Interface.license_render (i : Interface) :
    License.ofSource? i.render = some i.license ↔ License.IsIdentifier i.license.toList := by
  constructor
  · exact License.isIdentifier_of_ofSource?
  · intro h
    obtain ⟨tail, htail⟩ : ∃ tail, i.render
        = String.ofList ("// SPDX-License-Identifier: ".toList ++ i.license.toList ++ '\n' :: tail) := by
      have hlines : i.toLines ≠ [] := by simp [toLines]
      refine ⟨lineChars i.toLines.tail, ?_⟩
      rw [← String.toList_inj, render, toList_intercalate_lines hlines]
      simp [toLines, lineChars]
    have hfound := License.ofSource?_of_isIdentifier h tail
    rw [← htail, String.ofList_toList] at hfound
    exact hfound

theorem exists_ok_of_any {ε α : Type} {e : Except ε α} {p : α → Bool} (h : e.toOption.any p = true) :
    ∃ a, e = .ok a ∧ p a = true := by
  cases e with
  | error e => simp [Except.toOption] at h
  | ok a => exact ⟨a, rfl, by simpa [Except.toOption] using h⟩

namespace Record

/-- The contract of a record is one, so its interface has a name of its own. -/
theorem interfaceName?_of_needsInterface {r : Record} {n : String} (hneeds : r.needsInterface = true)
    (hn : r.name = some n) : r.interfaceName? = some ("I" ++ n) := by
  simp only [needsInterface, Bool.and_eq_true, decide_eq_true_eq] at hneeds
  simp [interfaceName?, hn, hneeds.2]

@[simp] theorem interfaceWith_name (r : Record) (rawOnly : Bool) (paths names : List String) :
    (r.interfaceWith rawOnly paths names).name = r.interfaceName?.getD "" := by
  simp [interfaceWith, Interface.foldl_addImport, Interface.inherit]

@[simp] theorem interfaceWith_license (r : Record) (rawOnly : Bool) (paths names : List String) :
    (r.interfaceWith rawOnly paths names).license = r.license.display := by
  simp [interfaceWith, Interface.foldl_addImport, Interface.inherit]

@[simp] theorem interfaceWith_pragma (r : Record) (rawOnly : Bool) (paths names : List String) :
    (r.interfaceWith rawOnly paths names).pragma = r.pragma.getD ⟨"", ""⟩ := by
  simp [interfaceWith, Interface.foldl_addImport, Interface.inherit]

@[simp] theorem interfaceWith_bases (r : Record) (rawOnly : Bool) (paths names : List String) :
    (r.interfaceWith rawOnly paths names).bases = Distinct.ofList names := by
  simp [interfaceWith, Interface.foldl_addImport, Interface.inherit, Distinct.ofList]

@[simp] theorem interfaceWith_imports (r : Record) (rawOnly : Bool) (paths names : List String) :
    (r.interfaceWith rawOnly paths names).imports = (Distinct.ofList paths).map importLine := by
  have himports := Distinct.addAll_map importLine_injective [] paths
  simpa [interfaceWith, Interface.foldl_addImport, Interface.inherit, Distinct.ofList] using himports

theorem groupsRead_interfaceWith {r : Record} {rawOnly : Bool} {members : List Member}
    (paths names : List String) (hr : r.WellFormed)
    (hdeclares : Outline.Declares rawOnly r members) (hmembers : ∀ m ∈ members, m.Printable) :
    Interface.GroupsRead (r.interfaceWith rawOnly paths names).groups
      (members.flatMap (·.symbols)) := by
  obtain ⟨⟨hgetters, -⟩, ⟨hfunctions, -⟩, -⟩ := Outline.ofRecord_eq hr rawOnly
  obtain ⟨structs, rfl, -, -, htypes⟩ := hdeclares
  generalize (r.scope rawOnly).keptEnums (Outline.ofRecord rawOnly r).uses = enums at *
  generalize r.publicVariables.filterMap (r.scope rawOnly).getter? = getters at *
  generalize r.exposedFunctions.filterMap (r.scope rawOnly).function? = functions at *
  -- The stubs of each group are the texts of its part of the members.
  have htypes' : (Outline.ofRecord rawOnly r).types
      = (enums.map Member.enum ++ structs.map Member.struct).map (·.render) := by
    rw [htypes, List.map_append, List.map_map, List.map_map]
    rfl
  have hgetters' : (Outline.ofRecord rawOnly r).getters
      = (getters.map Member.function).map (·.render) := by
    rw [hgetters, List.map_map]
    rfl
  have hfunctions' : (Outline.ofRecord rawOnly r).functions
      = (functions.map Member.function).map (·.render) := by
    rw [hfunctions, List.map_map]
    rfl
  simp only [List.forall_mem_append] at hmembers
  obtain ⟨⟨⟨henums, hstructs⟩, hgetterMembers⟩, hfunctionMembers⟩ := hmembers
  have hnone : Interface.GroupsRead (((paths.map importLine).foldl Interface.addImport
      { name := r.interfaceName?.getD "", license := r.license.display,
        pragma := r.pragma.getD ⟨"", ""⟩ }).inherit names).groups [] := by
    rw [Interface.foldl_addImport]
    exact ⟨[], rfl, rfl, by simp⟩
  have hall := ((hnone.addGroup (List.forall_mem_append.mpr ⟨henums, hstructs⟩) true).addGroup
    hgetterMembers false).addGroup hfunctionMembers false
  rw [interfaceWith, htypes', hgetters', hfunctions']
  rw [List.nil_append, ← List.flatMap_append, ← List.flatMap_append] at hall
  exact hall

theorem license_of_ofSource {path : Path} {source : String} {fallback : Json} {r : Record}
    (h : ofSource path source fallback = .ok r) : r.license = licenseOf source fallback := by
  unfold ofSource at h
  split at h
  · simp at h
  · simp at h
  · unfold ofUnit at h
    split at h
    · simp at h
    · split at h
      · simp at h
      · cases h
        rfl

namespace Shop

/-- A contract with a base, an enum, a struct that uses it, a getter and a function. -/
def source : String :=
  "// SPDX-License-Identifier: MIT\npragma solidity ^0.8.0; contract Shop is Base \x7b
    enum Mode \x7b On, Off \x7d struct Item \x7b Shop.Mode mode; uint[2 ** N] sizes; \x7d
    mapping(address => Item) public items;
    function sell(uint[] memory from, Mode) external pure returns (bool error) \x7b\x7d \x7d"

/-- The enum in its interface. -/
def mode : EnumDecl := ⟨"Mode", ["On", "Off"]⟩

/-- The struct in its interface. -/
def item : StructDecl :=
  ⟨"Item", [{ type := .named ["Mode"], name := "mode" },
    { type := .array (.elementary "uint") "2**N", name := "sizes" }]⟩

/-- The getter in its interface. -/
def items : FunctionDecl :=
  { name := "items", parameters := [{ type := .elementary "address" }]
    returns := [{ type := .named ["Item"], location := some .memory }]
    visibility := .external, mutability := some .view }

/-- The function in its interface. -/
def sell : FunctionDecl :=
  { name := "sell"
    parameters := [{ type := .array (.elementary "uint") none, name := "from", location := some .memory },
      { type := .named ["Mode"] }]
    returns := [{ type := .elementary "bool", name := "error" }]
    visibility := .external, mutability := some .pure }

end Shop

namespace Odd

/-- The file of a contract. -/
def path : Path := ⟨.slash, ["A.sol"]⟩

/-- A contract without a licence. -/
def unlicensed : String := "pragma solidity 1;contract A\x7b\x7d"

/-- A licence of two lines, of which the second is an import. -/
def lines : String := "MIT\nimport \x22x\x22;"

/-- A contract with an array whose length is made of operators that join to a comment. -/
def divided : String :=
  "pragma solidity 1;contract A\x7bfunction f(uint[1 / / 2] memory x) external\x7b\x7d\x7d"

/-- A contract with a form feed before the name of its pragma, which is taken for a part of
the value. -/
def fed : String := "pragma \x0csolidity 1;contract A\x7b\x7d"

end Odd

/-- Generated text parses back to what was projected: to the pragma of the record, the
imports and the bases without their repetitions, and the members that the outline
declares. Three texts must be fit to be written as they are: the pragma, which is found
again unless it has no name and a value that would be taken for one, the licence,
which is one line, and the lengths of arrays. The licence is found again just if it
is an identifier, and one that the source declares always is. -/
theorem ofSource_render_interfaceWith {path : Path} {source : String} {fallback : Json} {r : Record}
    (hr : ofSource path source fallback = .ok r) (hneeds : r.needsInterface = true)
    (rawOnly : Bool) (paths names : List String)
    (hpaths : ∀ p ∈ paths, Lexeme.isQuotable '\x22' p.toList = true) (hnames : ∀ n ∈ names, IsName n) :
    ∃ p n, r.pragma = some p ∧ r.name = some n ∧
      (∃ members, Outline.Declares rawOnly r members) ∧
      (∀ members, Outline.Declares rawOnly r members →
        Spells.SplitsPragma p.name.toList p.value.toList → '\n' ∉ r.license.display.toList →
        (∀ m ∈ members, ∀ l ∈ m.lengths, isInline l = true) →
        SourceUnit.ofSource (r.interfaceWith rawOnly paths names).render = .ok {
          pragmas := [p]
          imports := (Distinct.ofList paths).map fun path => { path }
          contracts := [{ name := "I" ++ n, kind := .interface,
                          bases := (Distinct.ofList names).map ([·]), members }] }) ∧
      (License.ofSource? (r.interfaceWith rawOnly paths names).render = some r.license.display ↔
        License.IsIdentifier r.license.display.toList) ∧
      ∀ text, License.ofSource? source = some text →
        License.ofSource? (r.interfaceWith rawOnly paths names).render = some text := by
  have hwell := wellFormed_of_ofSource hr
  obtain ⟨p, hp, hpragma⟩ := hwell.pragma
  obtain ⟨n, hn, hname⟩ := hwell.name
  have hiname : r.interfaceName?.getD "" = "I" ++ n := by
    rw [interfaceName?_of_needsInterface hneeds hn]
    rfl
  have hbases : ∀ m ∈ Distinct.ofList names, IsName m :=
    fun m hm => hnames m (Distinct.mem_ofList.mp hm)
  have hquotable : ∀ q ∈ Distinct.ofList paths, Lexeme.isQuotable '\x22' q.toList = true :=
    fun q hq => hpaths q (Distinct.mem_ofList.mp hq)
  have hlicense : License.ofSource? (r.interfaceWith rawOnly paths names).render
      = some r.license.display ↔ License.IsIdentifier r.license.display.toList := by
    simpa using Interface.license_render (r.interfaceWith rawOnly paths names)
  obtain ⟨members, hdeclares, -⟩ := Outline.exists_declares hwell rawOnly
  refine ⟨p, n, hp, hn, ⟨members, hdeclares⟩, ?_, hlicense, ?_⟩
  · intro members hdeclares hsplit hline hlengths
    have hmembers := hdeclares.printable hwell hlengths
    have hgroups := groupsRead_interfaceWith paths names hwell hdeclares hmembers
    have hparsed := Interface.ofSource_render (i := r.interfaceWith rawOnly paths names)
      (by simpa using hline) (by simpa [hp] using hpragma) (by simpa [hp] using hsplit)
      (by simp) hquotable (by simpa [hiname] using hname.interface) (by simpa using hbases)
      hmembers hgroups
    simpa [hp, hiname] using hparsed
  · -- A licence that the source declares is the one that is shown.
    intro text htext
    have hdisplay : r.license.display = text := by
      rw [license_of_ofSource hr, licenseOf, htext]
      rfl
    rw [← hdisplay]
    exact hlicense.mpr (hdisplay ▸ License.isIdentifier_of_ofSource? htext)

theorem shop_reads_back :
    ∃ r, ofSource (Path.ofString "/Shop.sol") Shop.source .null = .ok r ∧ r.needsInterface = true ∧
      SourceUnit.ofSource (r.interfaceWith false ["./IBase.sol"] ["IBase"]).render = .ok {
        pragmas := [⟨"solidity", "^0.8.0"⟩]
        imports := [{ path := "./IBase.sol" }]
        contracts := [{ name := "IShop", kind := .interface, bases := [["IBase"]],
                        members := [.enum Shop.mode, .struct Shop.item, .function Shop.items,
                          .function Shop.sell] }] } ∧
      License.ofSource? (r.interfaceWith false ["./IBase.sol"] ["IBase"]).render = some "MIT" := by
  have hsource : (ofSource (Path.ofString "/Shop.sol") Shop.source .null).toOption.any (fun r =>
      r.needsInterface && decide (r.pragma = some ⟨"solidity", "^0.8.0"⟩ ∧ r.name = some "Shop" ∧
        r.license.display = "MIT" ∧
        (r.scope false).keptEnums (Outline.ofRecord false r).uses = [Shop.mode] ∧
        r.publicVariables.filterMap (r.scope false).getter? = [Shop.items] ∧
        r.exposedFunctions.filterMap (r.scope false).function? = [Shop.sell] ∧
        r.structs.filterMap (r.scope false).struct? = [Shop.item] ∧
        r.structs.map (·.name) = ["Item"] ∧
        (Outline.ofRecord false r).types = [Shop.mode.render, Shop.item.render])) = true := by
    decide +kernel
  obtain ⟨r, hok, h⟩ := exists_ok_of_any hsource
  simp only [Bool.and_eq_true, decide_eq_true_eq] at h
  obtain ⟨hneeds, hpragma, hname, hlicense, henums, hgetters, hfunctions, hstructs, hnames, htypes⟩ := h
  have hdeclares : Outline.Declares false r [.enum Shop.mode, .struct Shop.item, .function Shop.items,
      .function Shop.sell] := by
    refine ⟨[Shop.item], by rw [henums, hgetters, hfunctions]; rfl, ?_, ?_, by rw [henums, htypes]; rfl⟩
    · intro d hd
      have hmem : d ∈ r.structs.filterMap (r.scope false).struct? := by rwa [hstructs]
      exact List.mem_filterMap.mp hmem
    · rw [hnames]
      exact .refl _
  obtain ⟨p, n, hp, hn, -, hparsed, -, hfound⟩ := ofSource_render_interfaceWith hok hneeds false
    ["./IBase.sol"] ["IBase"] (by decide +kernel) (by decide +kernel)
  obtain rfl := Option.some.inj (hpragma.symm.trans hp)
  obtain rfl := Option.some.inj (hname.symm.trans hn)
  have hfirst : License.ofSource? Shop.source = some "MIT" := by
    rw [license_of_ofSource hok, licenseOf] at hlicense
    split at hlicense
    · rename_i text htext
      rw [htext, show text = "MIT" from hlicense]
    · exact absurd hlicense (by decide)
  exact ⟨r, hok, hneeds, hparsed _ hdeclares (fun h => absurd h (by decide)) (by rw [hlicense]; decide)
    (by decide +kernel), hfound "MIT" hfirst⟩

/-- What the three conditions are for. A licence of two words is cut at the blank, and the
second line of one of two lines is read as a part of the file; two operators in the
length of an array join to a comment, and the text is no longer one of an interface; a
pragma whose name stands behind a form feed has no name, and is read back as one that
has. -/
theorem some_texts_do_not_read_back :
    (∃ r, ofSource Odd.path Odd.unlicensed (.text "two words") = .ok r ∧ r.needsInterface = true ∧
      License.ofSource? (r.interfaceWith false [] []).render ≠ some r.license.display) ∧
    (∃ r, ofSource Odd.path Odd.unlicensed (.text Odd.lines) = .ok r ∧ r.needsInterface = true ∧
      ∀ u, SourceUnit.ofSource (r.interfaceWith false [] []).render = .ok u → u.imports ≠ []) ∧
    (∃ r, ofSource Odd.path Odd.divided (.text "MIT") = .ok r ∧ r.needsInterface = true ∧
      ∀ u, SourceUnit.ofSource (r.interfaceWith false [] []).render ≠ .ok u) ∧
    ∃ r p, ofSource Odd.path Odd.fed (.text "MIT") = .ok r ∧ r.needsInterface = true ∧
      r.pragma = some p ∧
      ∀ u, SourceUnit.ofSource (r.interfaceWith false [] []).render = .ok u → u.pragmas ≠ [p] := by
  have hunlicensed : (ofSource Odd.path Odd.unlicensed (.text "two words")).toOption.any (fun r =>
      r.needsInterface && decide (License.ofSource? (r.interfaceWith false [] []).render
        ≠ some r.license.display)) = true := by
    decide +kernel
  have hlines : (ofSource Odd.path Odd.unlicensed (.text Odd.lines)).toOption.any (fun r =>
      r.needsInterface &&
        (SourceUnit.ofSource (r.interfaceWith false [] []).render).toOption.all fun u =>
          decide (u.imports ≠ [])) = true := by
    decide +kernel
  have hdivided : (ofSource Odd.path Odd.divided (.text "MIT")).toOption.any (fun r =>
      r.needsInterface &&
        !(SourceUnit.ofSource (r.interfaceWith false [] []).render).toOption.isSome) = true := by
    decide +kernel
  have hfed : (ofSource Odd.path Odd.fed (.text "MIT")).toOption.any (fun r =>
      r.needsInterface && r.pragma.any fun p =>
        (SourceUnit.ofSource (r.interfaceWith false [] []).render).toOption.all fun u =>
          decide (u.pragmas ≠ [p])) = true := by
    decide +kernel
  refine ⟨?_, ?_, ?_, ?_⟩
  · obtain ⟨r, hr, h⟩ := exists_ok_of_any hunlicensed
    simp only [Bool.and_eq_true, decide_eq_true_eq] at h
    exact ⟨r, hr, h⟩
  · obtain ⟨r, hr, h⟩ := exists_ok_of_any hlines
    simp only [Bool.and_eq_true] at h
    refine ⟨r, hr, h.1, ?_⟩
    intro u hu
    simpa [hu, Except.toOption] using h.2
  · obtain ⟨r, hr, h⟩ := exists_ok_of_any hdivided
    simp only [Bool.and_eq_true] at h
    refine ⟨r, hr, h.1, ?_⟩
    intro u hu
    simp [hu, Except.toOption] at h
  · obtain ⟨r, hr, h⟩ := exists_ok_of_any hfed
    simp only [Bool.and_eq_true] at h
    obtain ⟨p, hp, hall⟩ := (Option.any_eq_true ..).mp h.2
    refine ⟨r, p, hr, h.1, hp, ?_⟩
    intro u hu
    simpa [hu, Except.toOption] using hall

end Record

end SolidityInterface
