import SolidityInterface.Proofs.Declaration.WellFormed
import SolidityInterface.Proofs.Projection.Printable
import SolidityInterface.Proofs.Text.Split

/-
  Names that an interface declares more than once. A struct in the contract may have the name
  of one outside of it. Stubs of structs are found by name, but one is written for each struct:
  so a name is declared again as often as it is declared (`redeclared`). The names of the stubs
  are pairwise distinct just if no name that is declared again has a second declaration.
-/

namespace SolidityInterface

namespace Scope

variable {s : Scope} {uses : Uses} {keyword name : String}

/-- The name that the stub of a type declares: the second word of its text. -/
def declaredName? (stub : String) : Option String := (Text.splitString ' ' stub)[1]?

/-- Whether the enums of a name are declared again, if some names are used. -/
def KeepsEnum (s : Scope) (uses : Uses) (name : String) : Prop := s.rawOnly = false ∧ [name] ∈ uses

instance (s : Scope) (uses : Uses) : DecidablePred (s.KeepsEnum uses) :=
  fun _ => inferInstanceAs (Decidable (_ ∧ _))

/-- The names that are declared again, if some names are used, each as often as it is declared. -/
def redeclared (s : Scope) (uses : Uses) : List String :=
  (s.record.enumNames.filter fun name => s.KeepsEnum uses name) ++
    s.record.structNames.filter fun name => s.KeepsStruct uses name

/-! ## Names of stubs -/

theorem declaredName?_eq (rest : String) (hkeyword : ' ' ∉ keyword.toList) (hname : ' ' ∉ name.toList) :
    declaredName? (keyword ++ " " ++ name ++ " " ++ rest) = some name := by
  have hlist : (keyword ++ " " ++ name ++ " " ++ rest).toList
      = keyword.toList ++ ' ' :: (name.toList ++ ' ' :: rest.toList) := by
    simp [String.toList_append]
  rw [declaredName?, Text.splitString, hlist, Text.split_append hkeyword, Text.split_append hname]
  simp

theorem not_mem_of_isName (h : IsName name) : ' ' ∉ name.toList := by
  obtain ⟨⟨c, rest, -, -, -, hall⟩, -⟩ := h
  intro hmem
  exact absurd (List.all_eq_true.mp hall ' ' hmem) (by decide)

theorem declaredName?_enum {d : EnumDecl} (hd : d.WellFormed) : declaredName? d.render = some d.name := by
  have htext : d.render = "enum" ++ " " ++ d.name ++ " " ++ ("\x7b " ++ ", ".intercalate d.members ++ " \x7d") := by
    simp [EnumDecl.render, ← String.toList_inj]
  rw [htext]
  exact declaredName?_eq _ (by decide) (not_mem_of_isName hd.name)

theorem declaredName?_struct {d : StructDecl} (hd : IsName d.name) :
    declaredName? d.render = some d.name := by
  obtain ⟨line, lines, hlines⟩ := List.exists_cons_of_ne_nil
    (List.append_ne_nil_of_right_ne_nil (d.members.map fun v => "    " ++ v.render ++ ";")
      (List.cons_ne_nil "\x7d" []))
  have htext : d.render
      = "struct" ++ " " ++ d.name ++ " " ++ ("\x7b" ++ "\n" ++ "\n".intercalate (line :: lines)) := by
    rw [StructDecl.render, StructDecl.toLines, List.append_assoc, hlines, List.singleton_append,
      String.intercalate_cons_cons]
    simp [← String.toList_inj]
  rw [htext]
  exact declaredName?_eq _ (by decide) (not_mem_of_isName hd)

theorem keptEnums_names : (s.keptEnums uses).map (·.name)
    = s.record.enumNames.filter fun name => s.KeepsEnum uses name := by
  cases hraw : s.rawOnly with
  | true => simp [keptEnums, KeepsEnum, hraw]
  | false => simp [keptEnums, KeepsEnum, Record.enumNames, hraw, List.filter_map, Function.comp_def]

theorem typeStubs_names (hs : s.record.WellFormed) (u : Uses) :
    (s.typeStubs u).1.map declaredName? = (s.redeclared (s.typeStubs u).2).map some := by
  obtain ⟨structs, htexts, horigins, hnames⟩ := exists_typeStubs_eq hs.members_named u
  have henums : ∀ d ∈ s.keptEnums (s.typeStubs u).2, declaredName? d.render = some d.name := by
    intro d hd
    refine declaredName?_enum (hs.enums d ?_)
    unfold keptEnums at hd
    split at hd
    · cases hd
    · exact (List.mem_filter.mp hd).1
  have hstructs : ∀ d ∈ structs, declaredName? d.render = some d.name := by
    intro d hd
    obtain ⟨⟨origin, horigin, hstruct⟩, -⟩ := horigins d hd
    refine declaredName?_struct ?_
    rw [struct?_name hstruct]
    exact (hs.structs origin horigin).name
  have hkept : s.record.structNames.filter (fun name => s.KeepsStruct (s.typeStubs u).2 name)
      = structs.map (·.name) := hnames.symm
  rw [htexts, redeclared, ← keptEnums_names, hkept, List.map_append, List.map_append, List.map_map,
    List.map_map, List.map_map, List.map_map]
  exact congrArg₂ _ (List.map_congr_left henums) (List.map_congr_left hstructs)

/-! ## How often a name is declared -/

theorem count_filter_eq (p : String → Prop) [DecidablePred p] (names : List String) (name : String) :
    (names.filter fun n => p n).count name = if p name then names.count name else 0 := by
  split
  · rename_i hname
    exact List.count_filter (by simpa using hname)
  · rename_i hname
    refine List.count_eq_zero.mpr fun hmem => hname ?_
    simpa using (List.mem_filter.mp hmem).2

theorem count_redeclared (s : Scope) (uses : Uses) (name : String) :
    (s.redeclared uses).count name
      = (if s.KeepsEnum uses name then s.record.enumNames.count name else 0) +
        if s.KeepsStruct uses name then s.record.structNames.count name else 0 := by
  rw [redeclared, List.count_append, count_filter_eq, count_filter_eq]

theorem redeclared_sublist (s : Scope) (uses : Uses) :
    (s.redeclared uses).Sublist (s.record.enumNames ++ s.record.structNames) :=
  List.filter_sublist.append List.filter_sublist

end Scope

namespace Record

open Scope (declaredName?)

/-- Each stub of a type declares one name, and a name of an enum or a struct that is declared again is
declared as often as in the file and the contract. So the names of the stubs are pairwise distinct
just if no such name has a second declaration there, and always if the types of the file and of the
contract have distinct names. -/
theorem types_are_declared_once_but_for_namesakes {path : Path} {source : String} {fallback : Json}
    {r : Record} (h : ofSource path source fallback = .ok r) (rawOnly : Bool) (u : Uses) :
    ((r.scope rawOnly).typeStubs u).1.map declaredName?
      = ((r.scope rawOnly).redeclared ((r.scope rawOnly).typeStubs u).2).map some ∧
    ((((r.scope rawOnly).typeStubs u).1.map declaredName?).Nodup ↔ ∀ name,
      (if (r.scope rawOnly).KeepsEnum ((r.scope rawOnly).typeStubs u).2 name
        then r.enumNames.count name else 0) +
      (if (r.scope rawOnly).KeepsStruct ((r.scope rawOnly).typeStubs u).2 name
        then r.structNames.count name else 0) ≤ 1) ∧
    ((r.enumNames ++ r.structNames).Nodup →
      (((r.scope rawOnly).typeStubs u).1.map declaredName?).Nodup) := by
  have hnames := Scope.typeStubs_names (s := r.scope rawOnly) (wellFormed_of_ofSource h) u
  have hdistinct : ∀ names : List String, (names.map some).Nodup ↔ names.Nodup :=
    fun names => List.nodup_map_iff fun _ _ => Option.some.inj
  refine ⟨hnames, ?_, fun hnodup => ?_⟩
  · rw [hnames, hdistinct, List.nodup_iff_count_le_one]
    exact forall_congr' fun name => by rw [Scope.count_redeclared]; rfl
  · rw [hnames, hdistinct]
    exact (Scope.redeclared_sublist _ _).nodup hnodup

/-- A contract with an enum, and with a struct that leads to one outside of it. -/
def distinctTypes : String :=
  "pragma solidity 1;struct T\x7bint y;\x7dcontract C\x7benum E\x7bX\x7dstruct S\x7bT t;\x7d\x7d"

/-- What it is read as. -/
def distinctUnit : SourceUnit :=
  { pragmas := [⟨"solidity", "1"⟩]
    structs := [⟨"T", [{ type := .elementary "int", name := some "y" }]⟩]
    contracts :=
      [{ name := "C"
         kind := .contract
         members := [.enum ⟨"E", ["X"]⟩, .struct ⟨"S", [{ type := .named ["T"], name := some "t" }]⟩] }] }

/-- All three types are declared again, each once. -/
theorem distinct_types_are_declared_once :
    ∃ r, ofSource ⟨.slash, ["C.sol"]⟩ distinctTypes .null = .ok r ∧ (r.enumNames ++ r.structNames).Nodup ∧
      ((r.scope false).typeStubs [["S"], ["E"]]).1.map declaredName? = [some "E", some "S", some "T"] ∧
      (((r.scope false).typeStubs [["S"], ["E"]]).1.map declaredName?).Nodup := by
  have hunit : SourceUnit.ofSource distinctTypes = .ok distinctUnit := by decide +kernel
  have hrecord : ofSource ⟨.slash, ["C.sol"]⟩ distinctTypes .null
      = ofUnit ⟨.slash, ["C.sol"]⟩ distinctUnit (licenseOf distinctTypes .null) := by
    simp only [ofSource, hunit]
  refine ⟨_, hrecord.trans rfl, by decide, ?_, ?_⟩
  · rw [(types_are_declared_once_but_for_namesakes (hrecord.trans rfl) false [["S"], ["E"]]).1]
    decide +kernel
  · exact (types_are_declared_once_but_for_namesakes (hrecord.trans rfl) false _).2.2 (by decide)

/-- A contract with a struct, and a function that returns it, behind another struct of its name. -/
def namesakeTypes : String :=
  "pragma solidity 1;struct S\x7bint x;\x7dcontract C\x7bstruct S\x7bint y;\x7dfunction f()external returns(S memory)\x7b\x7d\x7d"

/-- What it is read as. -/
def namesakeUnit : SourceUnit :=
  { pragmas := [⟨"solidity", "1"⟩]
    structs := [⟨"S", [{ type := .elementary "int", name := some "x" }]⟩]
    contracts :=
      [{ name := "C"
         kind := .contract
         members :=
          [.struct ⟨"S", [{ type := .elementary "int", name := some "y" }]⟩,
            .function { name := some "f", visibility := .external
                        returns := [{ type := .named ["S"], location := some .memory }] }] }] }

/-- The stub of the inner struct is written twice, and none of the outer one. -/
theorem namesake_of_a_struct_repeats_it :
    ∃ r, ofSource ⟨.slash, ["C.sol"]⟩ namesakeTypes .null = .ok r ∧
      ((r.scope false).typeStubs ((r.scope false).functionStubs []).2).1
        = ["struct S \x7b\n    int y;\n\x7d", "struct S \x7b\n    int y;\n\x7d"] ∧
      ¬ (((r.scope false).typeStubs ((r.scope false).functionStubs []).2).1.map declaredName?).Nodup := by
  have hunit : SourceUnit.ofSource namesakeTypes = .ok namesakeUnit := by decide +kernel
  have hrecord : ofSource ⟨.slash, ["C.sol"]⟩ namesakeTypes .null
      = ofUnit ⟨.slash, ["C.sol"]⟩ namesakeUnit (licenseOf namesakeTypes .null) := by
    simp only [ofSource, hunit]
  exact ⟨_, hrecord.trans rfl, by decide +kernel, by decide +kernel⟩

end Record

end SolidityInterface
