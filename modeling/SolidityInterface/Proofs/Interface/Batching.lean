import SolidityInterface.Interface.Document
import SolidityInterface.Proofs.Distinct
import SolidityInterface.Proofs.Text.Split

/-
  Bases and imports that are added to an interface in several calls. How they are divided
  among the calls makes no difference.

  1. The calls leave the names, and the lines, of all of them, each where it first came
     (`after_eq`, with `Distinct.ofList_eq_eraseDups`). That holds within one call as well:
     a name that it gives twice is in the list before it comes again.
  2. A call that was made before changes nothing (`run_of_mem`).
  3. What stands between the commas of the header is read as the bases again
     (`listedIn_header`), so none is named twice.
-/

namespace SolidityInterface.Interface

/-- A call that adds bases or an import line to an interface. -/
inductive Call where
  | inherit (names : List String)
  | addImport (line : String)
deriving DecidableEq

namespace Call

/-- The bases that a call gives. -/
def names : Call → List String
  | .inherit names => names
  | .addImport _ => []

/-- The import lines that a call gives. -/
def lines : Call → List String
  | .inherit _ => []
  | .addImport line => [line]

/-- What a call makes of an interface. -/
def run (i : Interface) : Call → Interface
  | .inherit names => i.inherit names
  | .addImport line => i.addImport line

end Call

/-- An interface after some calls, one after the other. -/
def after (i : Interface) (calls : List Call) : Interface := calls.foldl Call.run i

/-- An interface to which nothing has been added. -/
def bare (name license : String) (pragma : PragmaDirective) : Interface := { name, license, pragma }

variable {i : Interface} {calls : List Call} {c : Call} {names : List String}

/-! ## What calls leave -/

theorem run_eq (i : Interface) (c : Call) :
    c.run i = { i with
      bases := Distinct.addAll i.bases c.names
      imports := Distinct.addAll i.imports c.lines } := by
  cases c <;> rfl

theorem after_eq (i : Interface) (calls : List Call) :
    i.after calls = { i with
      bases := Distinct.addAll i.bases (calls.flatMap Call.names)
      imports := Distinct.addAll i.imports (calls.flatMap Call.lines) } := by
  induction calls generalizing i with
  | nil => rfl
  | cons c calls ih =>
    have hrest := ih (c.run i)
    rw [run_eq] at hrest
    rw [List.flatMap_cons, List.flatMap_cons, Distinct.addAll_append, Distinct.addAll_append,
      after, List.foldl_cons, run_eq]
    exact hrest

/-- Calls that give the same bases and the same lines leave the same interface. -/
theorem after_congr {others : List Call}
    (hnames : others.flatMap Call.names = calls.flatMap Call.names)
    (hlines : others.flatMap Call.lines = calls.flatMap Call.lines) :
    i.after others = i.after calls := by
  rw [after_eq, after_eq, hnames, hlines]

theorem inherit_inherit (i : Interface) (a b : List String) :
    (i.inherit a).inherit b = i.inherit (a ++ b) := by
  rw [inherit, inherit, inherit, Distinct.addAll_append]

/-- A call that is made again changes nothing. -/
theorem run_of_mem (i : Interface) (hc : c ∈ calls) : c.run (i.after calls) = i.after calls := by
  have hnames : c.names ⊆ Distinct.addAll i.bases (calls.flatMap Call.names) := fun n hn =>
    Distinct.mem_addAll.mpr (.inr (List.mem_flatMap.mpr ⟨c, hc, hn⟩))
  have hlines : c.lines ⊆ Distinct.addAll i.imports (calls.flatMap Call.lines) := fun line hline =>
    Distinct.mem_addAll.mpr (.inr (List.mem_flatMap.mpr ⟨c, hc, hline⟩))
  rw [run_eq, after_eq]
  simp only [Distinct.addAll_of_subset hnames, Distinct.addAll_of_subset hlines]

section Bare

variable (name license : String) (pragma : PragmaDirective) (calls : List Call)

theorem bases_after_bare :
    ((bare name license pragma).after calls).bases = (calls.flatMap Call.names).eraseDups := by
  rw [after_eq, ← Distinct.ofList_eq_eraseDups]
  rfl

theorem imports_after_bare :
    ((bare name license pragma).after calls).imports = (calls.flatMap Call.lines).eraseDups := by
  rw [after_eq, ← Distinct.ofList_eq_eraseDups]
  rfl

theorem name_after_bare : ((bare name license pragma).after calls).name = name := by
  rw [after_eq]
  rfl

end Bare

/-! ## The bases in the header -/

/-- What stands between the name and the bracket in the header of an interface of that name. -/
def clauseOf (name header : String) : List Char :=
  (header.toList.drop ("interface " ++ name).toList.length).dropLast.dropLast

/-- The bases that such a clause lists behind its first word, divided by commas. -/
def listedIn (clause : List Char) : List String :=
  if clause.isEmpty then []
  else (Text.split ',' (clause.drop " is".toList.length)).map fun piece => String.ofList piece.tail

theorem clauseOf_append (name clause : String) :
    clauseOf name ("interface " ++ name ++ clause ++ " \x7b") = clause.toList := by
  have htext : ("interface " ++ name ++ clause ++ " \x7b").toList
      = ("interface " ++ name).toList ++ (clause.toList ++ [' ', '\x7b']) := by
    simp
  rw [clauseOf, htext, List.drop_left]
  simp

theorem split_intercalate (hne : names ≠ []) (h : ∀ n ∈ names, ',' ∉ n.toList) :
    Text.split ',' (' ' :: (", ".intercalate names).toList) = names.map fun n => ' ' :: n.toList := by
  induction names with
  | nil => exact absurd rfl hne
  | cons n names ih =>
    have hn : ',' ∉ ' ' :: n.toList := by simp [h n (by simp)]
    cases names with
    | nil => simpa using Text.split_of_not_mem hn
    | cons m names =>
      -- The blank behind the comma is the one in front of the next name.
      have hrest := ih (by simp) fun k hk => h k (by simp [hk])
      have htext : ' ' :: (", ".intercalate (n :: m :: names)).toList
          = (' ' :: n.toList) ++ ',' :: ' ' :: (", ".intercalate (m :: names)).toList := by
        rw [String.intercalate_cons_cons, String.toList_append, String.toList_append]
        simp
      rw [htext, Text.split_append hn, hrest]
      rfl

theorem listedIn_clause (hne : names ≠ []) (h : ∀ n ∈ names, ',' ∉ n.toList) :
    listedIn (" is " ++ ", ".intercalate names).toList = names := by
  have htext : (" is " ++ ", ".intercalate names).toList
      = " is".toList ++ ' ' :: (", ".intercalate names).toList := by
    rw [String.toList_append]
    rfl
  rw [listedIn, htext, List.drop_left, split_intercalate hne h, List.map_map, if_neg (by simp)]
  simp [Function.comp_def]

/-- Bases without commas in them are read in the header as they are. -/
theorem listedIn_header (h : ∀ n ∈ i.bases, ',' ∉ n.toList) :
    listedIn (clauseOf i.name i.header) = i.bases := by
  rw [header, clauseOf_append]
  split
  · rename_i hempty
    exact (List.isEmpty_iff.mp hempty).symm
  · rename_i hne
    exact listedIn_clause (by simpa using hne) h

/-- Whatever calls are made on an interface to which nothing had been added, its bases are the
names of all calls, and its imports the lines of all calls, each where it first came. So other
calls that give the same names and lines leave the same interface, to inherit twice is to inherit
both lists at once, and a call that was made before changes nothing. No base is there twice: the
header lists them once each, and its text is read so if no name has a comma in it. -/
theorem batching_of_calls_has_no_say (name license : String) (pragma : PragmaDirective)
    (calls : List Call) :
    ((bare name license pragma).after calls).bases = (calls.flatMap Call.names).eraseDups ∧
    ((bare name license pragma).after calls).imports = (calls.flatMap Call.lines).eraseDups ∧
    (∀ others : List Call, others.flatMap Call.names = calls.flatMap Call.names →
      others.flatMap Call.lines = calls.flatMap Call.lines →
      (bare name license pragma).after others = (bare name license pragma).after calls) ∧
    (∀ (i : Interface) (a b : List String), (i.inherit a).inherit b = i.inherit (a ++ b)) ∧
    (∀ c ∈ calls, c.run ((bare name license pragma).after calls)
      = (bare name license pragma).after calls) ∧
    ((bare name license pragma).after calls).bases.Nodup ∧
    ((bare name license pragma).after calls).header
      = "interface " ++ name ++ (if (calls.flatMap Call.names).isEmpty then ""
          else " is " ++ ", ".intercalate (calls.flatMap Call.names).eraseDups) ++ " \x7b" ∧
    ((∀ n ∈ calls.flatMap Call.names, ',' ∉ n.toList) →
      listedIn (clauseOf name ((bare name license pragma).after calls).header)
        = (calls.flatMap Call.names).eraseDups) := by
  have hbases := bases_after_bare name license pragma calls
  have hname := name_after_bare name license pragma calls
  refine ⟨hbases, imports_after_bare name license pragma calls, fun others => after_congr,
    inherit_inherit, fun c => run_of_mem _, ?_, ?_, ?_⟩
  · rw [hbases, ← Distinct.ofList_eq_eraseDups]
    exact Distinct.nodup_ofList _
  · have hempty : (calls.flatMap Call.names).eraseDups.isEmpty
        = (calls.flatMap Call.names).isEmpty := by
      cases calls.flatMap Call.names with
      | nil => rfl
      | cons n names => simp [List.eraseDups_cons]
    rw [header, hbases, hname, hempty]
  · intro hcommas
    have hlisted := listedIn_header (i := (bare name license pragma).after calls) fun n hn =>
      hcommas n (List.mem_eraseDups.mp (hbases ▸ hn))
    rwa [hbases, hname] at hlisted

/-! ### Calls that repeat themselves -/

/-- Calls that give a base twice in one of them and once more in another, and an import twice. -/
def repetitive : List Call :=
  [.inherit ["IA", "IA"], .addImport "import \x22./IA.sol\x22;", .inherit ["IB", "IA"],
    .addImport "import \x22./IA.sol\x22;"]

/-- The same names and lines, with all the names in one call. -/
def gathered : List Call :=
  [.addImport "import \x22./IA.sol\x22;", .inherit ["IA", "IA", "IB", "IA"],
    .addImport "import \x22./IA.sol\x22;"]

/-- The interface that the calls leave. -/
def heir : Interface := (bare "IC" "MIT" ⟨"solidity", "^0.8.0"⟩).after repetitive

/-- Each base and the import are there once, the other calls leave the same interface, one of
the calls made again changes nothing, and both bases are read in the header. -/
theorem heir_names_each_base_once :
    heir.bases = ["IA", "IB"] ∧ heir.imports = ["import \x22./IA.sol\x22;"] ∧
      (bare "IC" "MIT" ⟨"solidity", "^0.8.0"⟩).after gathered = heir ∧
      heir.inherit ["IB", "IA"] = heir ∧ heir.header = "interface IC is IA, IB \x7b" ∧
      listedIn (clauseOf "IC" heir.header) = ["IA", "IB"] := by
  obtain ⟨hbases, himports, hothers, -, hagain, -, hheader, hlisted⟩ :=
    batching_of_calls_has_no_say "IC" "MIT" ⟨"solidity", "^0.8.0"⟩ repetitive
  have hdistinct : (repetitive.flatMap Call.names).eraseDups = ["IA", "IB"] := by decide
  rw [hdistinct] at hheader
  exact ⟨hbases.trans hdistinct, himports.trans (by decide), hothers gathered rfl rfl,
    hagain (.inherit ["IB", "IA"]) (by decide), hheader.trans (by decide),
    (hlisted (by decide)).trans hdistinct⟩

end SolidityInterface.Interface
