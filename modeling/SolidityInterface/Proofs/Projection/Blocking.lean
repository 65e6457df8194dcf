import Mathlib.Logic.Relation
import SolidityInterface.Proofs.Projection.Pruning

/-
  Which structs are blocked, exactly. A mapping and a function type have no form in an
  interface (`IsOpaque`). A struct is blocked if such a type lies in it (`Conceals`): some
  structs in a row, each with a member of the next, lead from it to one with such a member.

  1. Every name that a round blocks is that of a struct in which an opaque type lies, since
     the names it was blocked for are (`conceals_of_mem_blockedStructs`).
  2. The rounds come to rest (`blockRound_blockedStructs`), and then every struct in which an
     opaque type lies is blocked (`mem_blockedStructs_of_reach`).
  3. So the order of the structs does not matter (`perm_blockedStructs`), and the texts of
     types, which are made without a look at the members of structs, come to the same verdict
     (`memberText_eq_none_iff`).
-/

namespace SolidityInterface

/-- Whether a type, with its array layers taken off, has no form in an interface: it is a mapping
or a function type. -/
def TypeName.IsOpaque (t : TypeName) : Prop :=
  (∃ key value, t.element = .mapping key value) ∨ t.element = .elementary "function"

namespace Record

variable {r : Record} {blocked : List String} {t : TypeName} {name : String}

/-- Whether a type, with its array layers taken off, is a plain name as seen from the contract. -/
def NamesType (r : Record) (t : TypeName) (name : String) : Prop :=
  ∃ n, t.element = .named n ∧ r.localName n = [name]

/-- Whether a struct has a member of another struct. -/
def Holds (r : Record) (d e : StructDecl) : Prop :=
  e ∈ r.structs ∧ ∃ v ∈ d.members, r.NamesType v.type e.name

/-- Whether a struct of the given name leads, from struct to struct, to one with an opaque member. -/
def Conceals (r : Record) (name : String) : Prop :=
  ∃ d ∈ r.structs, d.name = name ∧
    ∃ e, Relation.ReflTransGen r.Holds d e ∧ ∃ v ∈ e.members, v.type.IsOpaque

theorem isAmong_iff {n : DottedName} :
    r.isAmong blocked n = true ↔ ∃ name ∈ blocked, r.localName n = [name] := by
  unfold isAmong
  split
  · rename_i name hlocal
    simp [hlocal]
  · rename_i hlong
    simpa using fun name _ => hlong name

theorem isBlocking_iff :
    r.isBlocking blocked t = true ↔ t.IsOpaque ∨ ∃ name ∈ blocked, r.NamesType t name := by
  unfold isBlocking TypeName.IsOpaque NamesType
  cases t.element with
  | elementary name => simp
  | named n => simpa using isAmong_iff
  | array base length => simp
  | mapping key value => simp

/-! ## What is blocked conceals an opaque type -/

theorem conceals_of_isBlocking (hblocked : ∀ name ∈ blocked, r.Conceals name) {d : StructDecl}
    (hd : d ∈ r.structs) {v : Variable} (hv : v ∈ d.members)
    (h : r.isBlocking blocked v.type = true) : r.Conceals d.name := by
  obtain hopaque | ⟨name, hname, hnames⟩ := isBlocking_iff.mp h
  · exact ⟨d, hd, rfl, d, .refl, v, hv, hopaque⟩
  · obtain ⟨c, hc, rfl, e, hreach, hopaque⟩ := hblocked name hname
    exact ⟨d, hd, rfl, e, hreach.head ⟨hc, v, hv, hnames⟩, hopaque⟩

theorem conceals_foldl {ds : List StructDecl} (hds : ds ⊆ r.structs)
    (h : ∀ name ∈ blocked, r.Conceals name) :
    ∀ name ∈ ds.foldl r.blockStruct blocked, r.Conceals name := by
  induction ds generalizing blocked with
  | nil => exact h
  | cons d ds ih =>
    refine ih (fun e he => hds (by simp [he])) ?_
    unfold blockStruct
    split
    · exact h
    split
    · rename_i hblocks
      obtain ⟨v, hv, hblocking⟩ := List.any_eq_true.mp hblocks
      intro name hname
      rcases List.mem_append.mp hname with hname | hname
      · exact h name hname
      · obtain rfl := List.mem_singleton.mp hname
        exact conceals_of_isBlocking h (hds (by simp)) hv hblocking
    · exact h

theorem conceals_blockRounds (n : Nat) (h : ∀ name ∈ blocked, r.Conceals name) :
    ∀ name ∈ r.blockRounds n blocked, r.Conceals name := by
  induction n generalizing blocked with
  | zero => exact h
  | succ n ih =>
    rw [blockRounds]
    split
    · exact h
    · exact ih (conceals_foldl (List.Subset.refl _) h)

theorem conceals_of_mem_blockedStructs (h : name ∈ r.blockedStructs) : r.Conceals name :=
  conceals_blockRounds r.structs.length (by simp) name h

/-! ## The rounds come to rest -/

theorem foldl_blockStruct_of_blocksAll {ds : List StructDecl} (h : r.BlocksAll blocked ds) :
    ds.foldl r.blockStruct blocked = blocked := by
  induction ds with
  | nil => rfl
  | cons d ds ih =>
    have hd : r.blockStruct blocked d = blocked := by
      unfold blockStruct
      split
      · rfl
      · rename_i hname
        have hfree := (h d (by simp)).resolve_left hname
        exact if_neg (by simpa using hfree)
    rw [List.foldl_cons, hd]
    exact ih fun e he => h e (by simp [he])

theorem blockRounds_of_blocksAll (h : r.BlocksAll blocked r.structs) (k : Nat) :
    r.blockRounds k blocked = blocked := by
  cases k with
  | zero => rfl
  | succ k => exact if_pos (foldl_blockStruct_of_blocksAll h)

/-- Rounds behind one that is at rest change nothing. -/
theorem blockRounds_add {n : Nat} (h : r.BlocksAll (r.blockRounds n blocked) r.structs) (k : Nat) :
    r.blockRounds (n + k) blocked = r.blockRounds n blocked := by
  induction n generalizing blocked with
  | zero =>
    rw [Nat.zero_add]
    exact blockRounds_of_blocksAll h k
  | succ n ih =>
    rw [blockRounds] at h
    rw [Nat.add_right_comm, blockRounds, blockRounds]
    split at h
    · rename_i hfixed
      rw [if_pos hfixed, if_pos hfixed]
    · rename_i hnew
      rw [if_neg hnew, if_neg hnew]
      exact ih h

theorem blockRound_blockedStructs (r : Record) : r.blockRound r.blockedStructs = r.blockedStructs :=
  foldl_blockStruct_of_blocksAll r.blocksAll_blockedStructs

/-! ## What conceals an opaque type is blocked -/

theorem mem_blockedStructs_of_isBlocking {d : StructDecl} (hd : d ∈ r.structs) {v : Variable}
    (hv : v ∈ d.members) (h : r.isBlocking r.blockedStructs v.type = true) :
    d.name ∈ r.blockedStructs := by
  refine (r.blocksAll_blockedStructs d hd).resolve_right fun hfree => ?_
  rw [hfree v hv] at h
  cases h

theorem mem_blockedStructs_of_reach {d e : StructDecl} (hd : d ∈ r.structs)
    (h : Relation.ReflTransGen r.Holds d e) (he : ∃ v ∈ e.members, v.type.IsOpaque) :
    d.name ∈ r.blockedStructs := by
  -- From the end of the row to its start: each struct is blocked since the next one is.
  induction h using Relation.ReflTransGen.head_induction_on with
  | refl =>
    obtain ⟨v, hv, hopaque⟩ := he
    exact mem_blockedStructs_of_isBlocking hd hv (isBlocking_iff.mpr (.inl hopaque))
  | head hholds _ ih =>
    obtain ⟨hc, v, hv, hnames⟩ := hholds
    exact mem_blockedStructs_of_isBlocking hd hv (isBlocking_iff.mpr (.inr ⟨_, ih hc, hnames⟩))

theorem mem_blockedStructs_iff : name ∈ r.blockedStructs ↔ r.Conceals name := by
  constructor
  · exact conceals_of_mem_blockedStructs
  · rintro ⟨d, hd, rfl, e, hreach, hopaque⟩
    exact mem_blockedStructs_of_reach hd hreach hopaque

/-! ## The order of the structs does not matter -/

theorem nodup_blockRounds (n : Nat) (hnodup : blocked.Nodup) (hnames : blocked ⊆ r.structNames) :
    (r.blockRounds n blocked).Nodup := by
  induction n generalizing blocked with
  | zero => exact hnodup
  | succ n ih =>
    obtain ⟨hnodup', hnames', -⟩ := foldl_blockStruct (fun d hd => hd) hnodup hnames
    rw [blockRounds]
    split
    · exact hnodup
    · exact ih hnodup' hnames'

theorem nodup_blockedStructs (r : Record) : r.blockedStructs.Nodup :=
  nodup_blockRounds _ .nil (by simp)

theorem Conceals.of_perm {ds : List StructDecl} (hds : ds.Perm r.structs)
    (h : r.Conceals name) : ({ r with structs := ds } : Record).Conceals name := by
  obtain ⟨d, hd, hname, e, hreach, hopaque⟩ := h
  refine ⟨d, hds.mem_iff.mpr hd, hname, e, Relation.ReflTransGen.mono ?_ _ _ hreach, hopaque⟩
  rintro c c' ⟨hc, v, hv, hnames⟩
  exact ⟨hds.mem_iff.mpr hc, v, hv, hnames⟩

/-- The same structs in another order have the same names blocked. -/
theorem perm_blockedStructs {ds : List StructDecl} (hds : ds.Perm r.structs) :
    ({ r with structs := ds } : Record).blockedStructs.Perm r.blockedStructs := by
  refine (List.perm_ext_iff_of_nodup (nodup_blockedStructs _) (nodup_blockedStructs r)).mpr ?_
  intro name
  rw [mem_blockedStructs_iff, mem_blockedStructs_iff]
  exact ⟨.of_perm (r := { r with structs := ds }) hds.symm, .of_perm hds⟩

end Record

namespace Scope

variable {s : Scope}

theorem memberText_eq_none_iff (hraw : s.rawOnly = false) (t : TypeName) (u : Uses) :
    (s.memberText t u).1 = none ↔ s.record.isBlocking s.blocked t = true := by
  constructor
  · intro hnone
    by_contra hfree
    rw [(memberText_of_free hraw (Bool.not_eq_true _ ▸ hfree) u).1] at hnone
    cases hnone
  · exact fun h => memberText_of_blocking h u

theorem structStub_eq_none_iff (hraw : s.rawOnly = false) (hnames : s.record.structNames.Nodup)
    {d : StructDecl} (hd : d ∈ s.record.structs) (u : Uses) :
    (s.structStub d u).1 = none ↔ d.name ∈ s.blocked := by
  constructor
  · intro hnone
    by_contra hfree
    rw [structStub_of_free hd hraw hfree] at hnone
    cases hnone
  · intro h
    rw [structStub_of_blocked hd hnames h]

end Scope

namespace Record

/-- The blocked structs are those that lead, from struct to struct, to one with a member that is
a mapping or a function type. The rounds that look for them come to rest within as many as there
are structs, and find the same names in any order of the structs. A type has no text as that of a
member just if it is a mapping or a function type or names a blocked struct, below its array
layers; so a struct, if its name is its own, has no stub just if it is blocked. -/
theorem blocked_structs_are_those_that_conceal_an_opaque_type (r : Record) :
    (∀ name, name ∈ r.blockedStructs ↔ r.Conceals name) ∧
    r.blockRound r.blockedStructs = r.blockedStructs ∧
    (∀ k, r.blockRounds (r.structs.length + k) [] = r.blockedStructs) ∧
    (∀ ds : List StructDecl, ds.Perm r.structs →
      ({ r with structs := ds } : Record).blockedStructs.Perm r.blockedStructs) ∧
    (∀ t u, ((r.scope false).memberText t u).1 = none ↔
      t.IsOpaque ∨ ∃ name ∈ r.blockedStructs, r.NamesType t name) ∧
    (r.structNames.Nodup → ∀ d ∈ r.structs, ∀ u,
      ((r.scope false).structStub d u).1 = none ↔ d.name ∈ r.blockedStructs) := by
  refine ⟨fun name => mem_blockedStructs_iff, r.blockRound_blockedStructs,
    blockRounds_add r.blocksAll_blockedStructs, fun ds hds => perm_blockedStructs hds, ?_, ?_⟩
  · intro t u
    exact (Scope.memberText_eq_none_iff rfl t u).trans isBlocking_iff
  · intro hnames d hd u
    exact Scope.structStub_eq_none_iff (s := r.scope false) rfl hnames hd u

/-- The outermost struct of a row of three, of which the last holds mappings. -/
def chestOuter : StructDecl :=
  ⟨"Outer", [{ type := .elementary "uint256", name := some "size" },
    { type := .array (.named ["Inner"]) none, name := some "inner" }]⟩

/-- A contract with a row of three structs that ends in mappings, with the last of the row declared
last, and with a struct that holds only itself. -/
def chest : Record :=
  { path := ⟨.slash, ["Chest.sol"]⟩
    isPresent := true
    name := some "Chest"
    structs :=
      [chestOuter,
        ⟨"Ring", [{ type := .array (.named ["Ring"]) none, name := some "next" }]⟩,
        ⟨"Inner", [{ type := .named ["Chest", "Slots"], name := some "slots" }]⟩,
        ⟨"Slots", [{ type := .array (.mapping (.elementary "uint256") (.elementary "bool")) (some "2")
                     name := some "taken" }]⟩] }

/-- The whole row is blocked, in any order of the structs, and the struct that holds itself is not. -/
theorem chest_conceals_mappings :
    chest.blockedStructs = ["Slots", "Inner", "Outer"] ∧
    chest.Conceals "Outer" ∧ ¬ chest.Conceals "Ring" ∧
    ({ chest with structs := chest.structs.reverse } : Record).blockedStructs.Perm
      ["Slots", "Inner", "Outer"] ∧
    chest.structNames.Nodup ∧ ∀ u, ((chest.scope false).structStub chestOuter u).1 = none := by
  obtain ⟨hconceals, -, -, hperm, -, hstub⟩ :=
    blocked_structs_are_those_that_conceal_an_opaque_type chest
  have hblocked : chest.blockedStructs = ["Slots", "Inner", "Outer"] := by decide +kernel
  have hnames : chest.structNames.Nodup := by decide
  simp only [hblocked] at hconceals hperm hstub
  refine ⟨hblocked, (hconceals _).mp (by simp), fun h => ?_, hperm _ (List.reverse_perm _), hnames, ?_⟩
  · exact absurd ((hconceals _).mpr h) (by decide)
  · exact fun u => (hstub hnames chestOuter (by simp [chest]) u).mpr (by decide)

end Record

end SolidityInterface
