import SolidityInterface.Proofs.Projection.Registering

/-
  What stubs leave in the uses. A stub that is dropped leaves nothing, and one that is kept just
  what its types register (`LeavesJust`).

  Queries that are made on the side, with what they record kept at the end, leave what they
  leave if they are made directly: to add the names in two portions is to add them all
  (`inquire_eq`). The bases, with which every side starts, are in use already.
-/

namespace SolidityInterface

namespace Scope

variable {s : Scope} {u : Uses} {m : DottedName}

/-! ## Stubs -/

/-- What a stub that is made with the given uses leaves behind: its text is the same with any others,
it changes nothing if it is dropped, and if it is kept it adds just what some names register. -/
structure LeavesJust (s : Scope) (stub : StateM Uses (Option String)) (names : List DottedName)
    (u : Uses) : Prop where
  text : ∀ v, (stub v).1 = (stub u).1
  dropped : (stub u).1 = none → (stub u).2 = u
  kept : (stub u).1.isSome = true → ∀ m, m ∈ (stub u).2 ↔ m ∈ u ∨ ∃ n ∈ names, s.Registers n m

theorem tentatively_leaves {p : StateM Uses (Option String)} {names : List DottedName}
    (hp : s.AddsJust p names) (hbase : s.baseUses ⊆ u) : s.LeavesJust (s.tentatively p) names u := by
  refine ⟨fun v => (tentatively_records p).fst v u, tentatively_snd_of_none, fun hsome m => ?_⟩
  rw [tentatively_fst] at hsome
  obtain ⟨a, ha⟩ := Option.isSome_iff_exists.mp hsome
  -- The side starts with the bases, which are in use already.
  have hbases : m ∈ u ∨ m ∈ s.baseUses ↔ m ∈ u := ⟨fun h => h.elim id (@hbase m), .inl⟩
  rw [tentatively_of_some ha, Distinct.mem_addAll, hp _ hsome m, ← or_assoc, hbases]

theorem functionStub_leaves (hbase : s.baseUses ⊆ u) (f : FunctionDecl) :
    s.LeavesJust (s.functionStub f)
      (Variable.signaturePaths f.parameters ++ Variable.signaturePaths f.returns) u :=
  tentatively_leaves (functionText_adds s f) hbase

theorem getterStub_leaves (hbase : s.baseUses ⊆ u) (v : Variable) :
    s.LeavesJust (s.getterStub v) (v.type.keyPaths ++ v.type.signaturePaths) u :=
  tentatively_leaves (getterText_adds s v) hbase

theorem structStub_leaves (hbase : s.baseUses ⊆ u) (d : StructDecl) :
    s.LeavesJust (s.structStub d) (Variable.paths d.members) u :=
  tentatively_leaves ((memberLines_adds _).map _) hbase

/-! ## Stubs of functions and getters in turn -/

/-- The kinds of stubs that are made of the members of a contract. -/
inductive StubKind where
  | function | getter
deriving DecidableEq

/-- The stubs of a kind. -/
def stubs (s : Scope) : StubKind → StateM Uses (List String)
  | .function => s.functionStubs
  | .getter => s.getterStubs

/-- Asks for stubs of some kinds, one after the other. -/
def stubsInTurn (s : Scope) : List StubKind → StateM Uses (List (List String))
  | [] => return []
  | k :: ks => do
    let made ← s.stubs k
    return made :: (← s.stubsInTurn ks)

theorem stubs_records (s : Scope) (k : StubKind) : Records (s.stubs k) := by
  cases k with
  | function => exact functionStubs_records s
  | getter => exact getterStubs_records s

theorem stubsInTurn_fst (ks : List StubKind) (u : Uses) :
    (s.stubsInTurn ks u).1 = ks.map fun k => (s.stubs k u).1 := by
  induction ks generalizing u with
  | nil => rfl
  | cons k ks ih =>
    show (s.stubs k u).1 :: (s.stubsInTurn ks (s.stubs k u).2).1 = _
    rw [ih, List.map_cons]
    exact congrArg _ (List.map_congr_left fun k' _ => (s.stubs_records k').fst _ u)

theorem mem_stubsInTurn_iff_recorded (ks : List StubKind) (u : Uses) :
    m ∈ (s.stubsInTurn ks u).2 ↔ m ∈ u ∨ ∃ k ∈ ks, m ∈ (s.stubs k []).2 := by
  induction ks generalizing u with
  | nil =>
    show m ∈ u ↔ _
    simp
  | cons k ks ih =>
    show m ∈ (s.stubsInTurn ks (s.stubs k u).2).2 ↔ _
    rw [ih, (s.stubs_records k).mem_snd, List.exists_mem_cons_iff, or_assoc]

/-- How often and in which order stubs are asked for does not matter to the uses. -/
theorem mem_stubsInTurn (ks : List StubKind) (u : Uses) :
    m ∈ (s.stubsInTurn ks u).2 ↔ m ∈ u ∨ ∃ k ∈ ks, m ∈ (s.stubs k u).2 := by
  rw [mem_stubsInTurn_iff_recorded]
  constructor
  · rintro (hm | ⟨k, hk, hm⟩)
    · exact .inl hm
    · exact .inr ⟨k, hk, (s.stubs_records k).mem_snd.mpr (.inr hm)⟩
  · rintro (hm | ⟨k, hk, hm⟩)
    · exact .inl hm
    · exact ((s.stubs_records k).mem_snd.mp hm).imp_right fun hm => ⟨k, hk, hm⟩

/-! ## Queries on the side -/

/-- What is asked about a type or a name when a stub is made. -/
inductive Query where
  /-- The text of a type with a location. -/
  | type (t : TypeName) (location : Option DataLocation)
  /-- The text of the type of a member. -/
  | member (t : TypeName)
  /-- The parameters of the getter of a type. -/
  | keys (t : TypeName)
  /-- A name to be registered. -/
  | use (n : DottedName)

/-- The answer to a query. -/
inductive Answer where
  | text (text : Option String)
  | texts (texts : Option (List String))
  | name (n : DottedName)

/-- Answers a query. -/
def answer (s : Scope) : Query → StateM Uses Answer
  | .type t location => do return .text (← s.typeText t location)
  | .member t => do return .text (← s.memberText t)
  | .keys t => do return .texts (← s.keyTexts t)
  | .use n => do return .name (← s.use n)

/-- Queries in a row. Some may be made on the side, in any depth, and what they record there is kept
or not. -/
inductive Inquiry where
  | done
  | ask (q : Query) (rest : Inquiry)
  | side (keep : Bool) (inner rest : Inquiry)

namespace Inquiry

/-- Queries that are all made directly. -/
def direct : List Query → Inquiry
  | [] => done
  | q :: qs => ask q (direct qs)

/-- All queries, in order. -/
def all : Inquiry → List Query
  | done => []
  | ask q rest => q :: rest.all
  | side _ inner rest => inner.all ++ rest.all

/-- The queries whose records are kept: those that lie on no side that is given up. -/
def kept : Inquiry → List Query
  | done => []
  | ask q rest => q :: rest.kept
  | side keep inner rest => (if keep then inner.kept else []) ++ rest.kept

theorem all_direct (qs : List Query) : (direct qs).all = qs := by
  induction qs with
  | nil => rfl
  | cons q qs ih => rw [direct, all, ih]

theorem kept_direct (qs : List Query) : (direct qs).kept = qs := by
  induction qs with
  | nil => rfl
  | cons q qs ih => rw [direct, kept, ih]

end Inquiry

/-- Makes the queries of an inquiry and gives all answers, in order. -/
def inquire (s : Scope) : Inquiry → StateM Uses (List Answer)
  | .done => return []
  | .ask q rest => do
    let a ← s.answer q
    return a :: (← s.inquire rest)
  | .side keep inner rest => do
    let answers ← s.onSide keep (s.inquire inner)
    return answers ++ (← s.inquire rest)

theorem answer_records (s : Scope) (q : Query) : Records (s.answer q) := by
  cases q with
  | type t location => exact .bind (typeText_records t location) fun _ => .pure _
  | member t => exact .bind (memberText_records s t) fun _ => .pure _
  | keys t => exact .bind (keyTexts_records t) fun _ => .pure _
  | use n => exact .bind (use_records s n) fun _ => .pure _

/-- Every query is answered as if it were the only one, and what the kept ones record is added. -/
theorem inquire_eq (i : Inquiry) (hbase : s.baseUses ⊆ u) :
    s.inquire i u = (i.all.map fun q => (s.answer q []).1,
      Distinct.addAll u (i.kept.flatMap fun q => (s.answer q []).2)) := by
  have hgrows : ∀ {w} (names : Uses), s.baseUses ⊆ w → s.baseUses ⊆ Distinct.addAll w names :=
    fun names h n hn => Distinct.mem_addAll.mpr (.inl (h hn))
  induction i generalizing u with
  | done => rfl
  | ask q rest ih =>
    show ((s.answer q u).1 :: (s.inquire rest (s.answer q u).2).1, (s.inquire rest (s.answer q u).2).2) = _
    rw [s.answer_records q u, ih (hgrows _ hbase), ← Distinct.addAll_append]
    rfl
  | side keep inner rest ihInner ihRest =>
    show ((s.onSide keep (s.inquire inner) u).1 ++ (s.inquire rest (s.onSide keep (s.inquire inner) u).2).1,
      (s.inquire rest (s.onSide keep (s.inquire inner) u).2).2) = _
    have hinner := ihInner (List.Subset.refl s.baseUses)
    cases keep with
    | false =>
      rw [onSide, hinner, ihRest (by simpa using hbase)]
      simp [Inquiry.all, Inquiry.kept]
    | true =>
      -- The side has the bases and what it recorded; only the second is new.
      have hside : (s.onSide true (s.inquire inner) u).2
          = Distinct.addAll u (inner.kept.flatMap fun q => (s.answer q []).2) := by
        rw [onSide, hinner, if_pos rfl, Distinct.addAll_addAll, Distinct.addAll_of_subset hbase]
      rw [hside, ihRest (hgrows _ hbase), onSide, hinner, ← Distinct.addAll_append]
      simp [Inquiry.all, Inquiry.kept]

/-- A stub that is dropped leaves the uses as they are, and one that is kept adds just the names that
its types register; its text does not depend on the uses. Queries on the side, in any depth, are
answered as if they were made directly, and leave what those that are kept leave if they are made
directly. The stubs of functions and getters are the same and leave the same uses however often and
in whichever order they are asked for. -/
theorem dropped_stubs_leave_no_trace (s : Scope) (hbase : s.baseUses ⊆ u) :
    (∀ f, s.LeavesJust (s.functionStub f)
      (Variable.signaturePaths f.parameters ++ Variable.signaturePaths f.returns) u) ∧
    (∀ v, s.LeavesJust (s.getterStub v) (v.type.keyPaths ++ v.type.signaturePaths) u) ∧
    (∀ d, s.LeavesJust (s.structStub d) (Variable.paths d.members) u) ∧
    (∀ i, (s.inquire i u).1 = (s.inquire (.direct i.all) u).1 ∧
      (s.inquire i u).2 = (s.inquire (.direct i.kept) u).2) ∧
    (∀ ks, (s.stubsInTurn ks u).1 = ks.map (fun k => (s.stubs k u).1) ∧
      ∀ m, m ∈ (s.stubsInTurn ks u).2 ↔ m ∈ u ∨ ∃ k ∈ ks, m ∈ (s.stubs k u).2) := by
  refine ⟨functionStub_leaves hbase, getterStub_leaves hbase, structStub_leaves hbase, fun i => ?_,
    fun ks => ⟨stubsInTurn_fst ks u, fun m => mem_stubsInTurn ks u⟩⟩
  constructor
  · rw [inquire_eq i hbase, inquire_eq (.direct _) hbase, Inquiry.all_direct]
  · rw [inquire_eq i hbase, inquire_eq (.direct _) hbase, Inquiry.kept_direct]

/-- A function with a parameter of a struct, followed by one of a struct with a mapping. -/
def ledgerPost : FunctionDecl :=
  { name := some "post"
    visibility := .external
    parameters :=
      [{ type := .named ["Ledger", "Entry"], name := some "entry", location := some .memory },
        { type := .named ["Table"], name := some "table", location := some .storage }] }

/-- A function with a parameter that is a base, one of a qualified name and one that is a mapping. -/
def ledgerRead : FunctionDecl :=
  { name := some "read"
    visibility := .external
    parameters :=
      [{ type := .named ["Owned"], name := some "owner" },
        { type := .named ["Lib", "Side"], name := some "side" },
        { type := .mapping (.named ["Key"]) (.elementary "uint256"), name := some "sums" }]
    returns := [{ type := .array (.named ["Entry"]) none, location := some .memory }] }

/-- A contract with a base, two structs and two functions. -/
def ledger : Record :=
  { path := ⟨.slash, ["Ledger.sol"]⟩
    isPresent := true
    name := some "Ledger"
    bases := [["Owned"]]
    structs :=
      [⟨"Entry", [{ type := .elementary "uint256", name := some "sum" }]⟩,
        ⟨"Table", [{ type := .mapping (.elementary "uint256") (.named ["Entry"]), name := some "rows" }]⟩]
    members := [.function ledgerPost, .function ledgerRead] }

/-- Queries of which the first two are made on sides that are given up, one within the other, and the
third on a side that is kept. -/
def ledgerInquiry : Inquiry :=
  .side false (.ask (.use ["Gone"]) (.side true (.ask (.member (.named ["Entry"])) .done) .done))
    (.side true (.ask (.keys (.mapping (.named ["Lib", "Key"]) (.elementary "bool"))) .done) .done)

/-- The first function is dropped behind a parameter that it recorded, and leaves the base alone in
use. The second is kept, and adds the names that it shows. Of the queries only what the last one
records is kept, and to ask for the stubs twice changes nothing. -/
theorem ledger_keeps_what_it_shows :
    (ledger.scope false).baseUses ⊆ [["Owned"]] ∧
    ((ledger.scope false).functionStub ledgerPost [["Owned"]]).2 = [["Owned"]] ∧
    ["Entry"] ∈ ((ledger.scope false).parameterTexts ledgerPost.parameters [["Owned"]]).2 ∧
    (∀ m, m ∈ ((ledger.scope false).functionStub ledgerRead [["Owned"]]).2 ↔
      m ∈ [["Owned"], ["Lib", "Side"], ["Lib"], ["Entry"]]) ∧
    ((ledger.scope false).inquire ledgerInquiry [["Owned"]]).2 = [["Owned"], ["Lib", "Key"], ["Lib"]] ∧
    ((ledger.scope false).stubsInTurn [.function, .getter, .function] [["Owned"]]).1
      = [["function read(Owned owner, Lib.Side side, uint256 sums) external returns (Entry[] memory);"],
        [], ["function read(Owned owner, Lib.Side side, uint256 sums) external returns (Entry[] memory);"]]
      := by
  have hbase : (ledger.scope false).baseUses ⊆ [["Owned"]] := by decide
  obtain ⟨hfunctions, -, -, hinquiries, hturns⟩ := dropped_stubs_leave_no_trace (ledger.scope false) hbase
  refine ⟨hbase, (hfunctions ledgerPost).dropped (by decide +kernel), by decide +kernel, fun m => ?_, ?_, ?_⟩
  · rw [(hfunctions ledgerRead).kept (by decide +kernel)]
    simp [Registers, localName, Record.localName, ledgerRead, ledger, Record.scope,
      Variable.signaturePaths, TypeName.signaturePaths, TypeName.paths, or_assoc]
  · rw [(hinquiries ledgerInquiry).2]
    decide +kernel
  · rw [(hturns _).1]
    decide +kernel

end Scope

end SolidityInterface
