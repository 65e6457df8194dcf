import Mathlib.Data.List.Nodup
import Mathlib.Data.List.Perm.Subperm
import SolidityInterface.Proofs.Projection.Uses

/-
  Which structs and enums an interface declares again. Both searches over the structs of a
  record, for those that are blocked and for those that are in use, run for as many
  rounds as there are structs. Each round that is not the last finds a name that was
  not found before, so no search ends too early: a struct that is not blocked can be
  declared again (`struct?_isSome`), and an interface declares the enums in use and
  the structs in use that can be declared again, and no others (`typeStubs_eq`).
-/

namespace SolidityInterface

namespace Record

variable {r : Record} {blocked names : List String}

/-- Names of structs that are as many as the structs are all of their names. -/
theorem mem_of_length_le (hnodup : names.Nodup) (hnames : names ⊆ r.structNames)
    (hlength : r.structs.length ≤ names.length) {d : StructDecl} (hd : d ∈ r.structs) :
    d.name ∈ names := by
  have hperm : names.Perm r.structNames :=
    (hnodup.subperm hnames).perm_of_length_le (by simpa [structNames] using hlength)
  exact hperm.mem_iff.mpr (List.mem_map_of_mem hd)

/-! ## Blocked structs -/

/-- Whether some names block all structs that they have to. -/
def BlocksAll (r : Record) (blocked : List String) (ds : List StructDecl) : Prop :=
  ∀ d ∈ ds, d.name ∈ blocked ∨ ∀ m ∈ d.members, r.isBlocking blocked m.type = false

theorem blockStruct_cases (r : Record) (blocked : List String) (d : StructDecl) :
    (r.blockStruct blocked d = blocked ∧ r.BlocksAll blocked [d]) ∨
      (d.name ∉ blocked ∧ r.blockStruct blocked d = blocked ++ [d.name]) := by
  unfold blockStruct
  split
  · rename_i hname
    exact .inl ⟨rfl, by simp [BlocksAll, hname]⟩
  · rename_i hname
    split
    · exact .inr ⟨hname, rfl⟩
    · rename_i hfree
      refine .inl ⟨rfl, ?_⟩
      simp only [BlocksAll, List.mem_singleton, forall_eq]
      exact .inr (by simpa using hfree)

/-- What one round does to the names that are blocked. -/
theorem foldl_blockStruct {ds : List StructDecl} (hds : ∀ d ∈ ds, d ∈ r.structs)
    (hnodup : blocked.Nodup) (hnames : blocked ⊆ r.structNames) :
    (ds.foldl r.blockStruct blocked).Nodup ∧ ds.foldl r.blockStruct blocked ⊆ r.structNames ∧
      blocked.length ≤ (ds.foldl r.blockStruct blocked).length ∧
      ((ds.foldl r.blockStruct blocked).length = blocked.length →
        ds.foldl r.blockStruct blocked = blocked ∧ r.BlocksAll blocked ds) := by
  induction ds generalizing blocked with
  | nil => exact ⟨hnodup, hnames, le_refl _, fun _ => ⟨rfl, by simp [BlocksAll]⟩⟩
  | cons d ds ih =>
    have hrest : ∀ e ∈ ds, e ∈ r.structs := fun e he => hds e (by simp [he])
    rw [List.foldl_cons]
    rcases blockStruct_cases r blocked d with ⟨heq, hd⟩ | ⟨hname, heq⟩
    · rw [heq]
      obtain ⟨hnodup', hnames', hle, hsame⟩ := ih hrest hnodup hnames
      refine ⟨hnodup', hnames', hle, fun hlength => ?_⟩
      obtain ⟨hfold, hall⟩ := hsame hlength
      refine ⟨hfold, ?_⟩
      rintro e (_ | ⟨_, he⟩)
      · exact hd _ (by simp)
      · exact hall e he
    · rw [heq]
      have hmem : d.name ∈ r.structNames := List.mem_map_of_mem (hds d (by simp))
      have hnext : (blocked ++ [d.name]).Nodup :=
        hnodup.append (List.nodup_singleton _) (by simpa using hname)
      -- The round is longer than before, so the case of a round that changes nothing is void.
      obtain ⟨hnodup', hnames', hle, -⟩ := ih hrest hnext (by simp [hnames, hmem])
      rw [List.length_append, List.length_singleton] at hle
      exact ⟨hnodup', hnames', by omega, fun hlength => by omega⟩

theorem blocksAll_blockRounds (n : Nat) (hnodup : blocked.Nodup) (hnames : blocked ⊆ r.structNames)
    (hn : r.structs.length ≤ blocked.length + n) :
    r.BlocksAll (r.blockRounds n blocked) r.structs := by
  -- Each round that is not the last adds a name, so the names and the rounds that are left
  -- stay as many as the structs.
  induction n generalizing blocked with
  | zero => exact fun d hd => .inl (mem_of_length_le hnodup hnames hn hd)
  | succ n ih =>
    obtain ⟨hnodup', hnames', hle, hsame⟩ := foldl_blockStruct (fun d hd => hd) hnodup hnames
    rw [blockRounds]
    split
    · rename_i hfixed
      exact (hsame (congrArg List.length hfixed)).2
    · rename_i hnew
      refine ih hnodup' hnames' ?_
      have hne : (r.blockRound blocked).length ≠ blocked.length := fun h => hnew (hsame h).1
      have hlt := lt_of_le_of_ne hle (Ne.symm hne)
      change blocked.length < (r.blockRound blocked).length at hlt
      omega

/-- A struct that is not blocked has no member that blocks it. -/
theorem blocksAll_blockedStructs (r : Record) : r.BlocksAll r.blockedStructs r.structs :=
  blocksAll_blockRounds _ .nil (by simp) (by simp)

end Record

namespace Scope

variable {s : Scope} {made : StructStubs} {u : Uses}

theorem memberType?_isSome (hraw : s.rawOnly = false) {t : TypeName}
    (h : s.record.isBlocking s.blocked t = false) : (s.memberType? t).isSome = true := by
  induction t with
  | elementary name =>
    have hname : name ≠ "function" := by simpa [Record.isBlocking, TypeName.element] using h
    simp [memberType?, hname]
  | named n =>
    have hfree : s.isBlocked n = false := h
    simp [memberType?, hraw, hfree]
  | array base length ih =>
    rw [memberType?, Option.isSome_map]
    exact ih h
  | mapping key value => simp [Record.isBlocking, TypeName.element] at h

/-- A struct that is not blocked can be declared again. -/
theorem struct?_isSome (hraw : s.rawOnly = false) {d : StructDecl} (hd : d ∈ s.record.structs)
    (h : d.name ∉ s.blocked) : (s.struct? d).isSome = true := by
  rw [struct?, Option.isSome_map]
  refine isSome_mapM fun v hv => ?_
  rw [s.blocked_eq] at h
  have hfree := (s.record.blocksAll_blockedStructs d hd).resolve_left h v hv
  rw [← s.blocked_eq] at hfree
  rw [member?, Option.isSome_map]
  exact memberType?_isSome hraw hfree

/-! ## Structs in use -/

/-- Whether the stubs made so far are those of structs in use, one for each name, and what
they mention is covered. -/
structure Making (s : Scope) (made : StructStubs) (u : Uses) : Prop where
  nodup : (made.map (·.1)).Nodup
  used : ∀ e ∈ made, [e.1] ∈ u
  origin : ∀ e ∈ made, ∃ origin ∈ s.record.structs, ∃ d,
    s.struct? origin = some d ∧ origin.name = e.1 ∧ d.render = e.2 ∧
      ∀ n ∈ (Member.struct d).paths, s.Covers u n

theorem Making.nil (s : Scope) (u : Uses) : s.Making [] u := ⟨.nil, by simp, by simp⟩

/-- Whether no struct in use is left that could be declared again. -/
def Settled (s : Scope) (made : StructStubs) (u : Uses) (ds : List StructDecl) : Prop :=
  ∀ d ∈ ds, [d.name] ∈ u → d.name ∈ made.map (·.1) ∨ s.struct? d = none

theorem isSome_lookup {name : String} : (made.lookup name).isSome = true ↔ name ∈ made.map (·.1) := by
  induction made with
  | nil => simp
  | cons e made ih =>
    obtain ⟨a, b⟩ := e
    rw [List.lookup_cons, List.map_cons, List.mem_cons]
    split
    · rename_i heq
      simp [beq_iff_eq.mp heq]
    · rename_i hne
      rw [ih]
      have : name ≠ a := by simpa using hne
      simp [this]

theorem projectStruct_eq (d : StructDecl) (made : StructStubs) (u : Uses) :
    s.projectStruct made d u
      = if (made.lookup d.name).isSome || [d.name] ∉ u then (made, u)
        else ((s.structStub d u).1.elim made fun stub => made ++ [(d.name, stub)],
          (s.structStub d u).2) := by
  rw [projectStruct]
  show (if _ then _ else _ : StateM Uses StructStubs) u = _
  split
  · rfl
  · refine Prod.ext ?_ ?_
    · rw [bind_fst]
      cases (s.structStub d u).1 <;> rfl
    · rw [bind_snd]
      cases (s.structStub d u).1 <;> rfl

theorem projectRound_cons (d : StructDecl) (ds : List StructDecl) (made : StructStubs) (u : Uses) :
    s.projectRound (d :: ds) made u
      = s.projectRound ds (s.projectStruct made d u).1 (s.projectStruct made d u).2 := rfl

theorem projectRounds_succ (n : Nat) (made : StructStubs) (u : Uses) :
    s.projectRounds (n + 1) made u
      = if (s.projectRound s.record.structs made u).1 = made
        then (made, (s.projectRound s.record.structs made u).2)
        else s.projectRounds n (s.projectRound s.record.structs made u).1
          (s.projectRound s.record.structs made u).2 := by
  show (if _ then _ else _ : StateM Uses StructStubs) _ = _
  split <;> rfl

/-- The two things that projecting a struct can do: leave all as it is, or add its stub. -/
theorem projectStruct_cases {d : StructDecl} (hd : ∀ v ∈ d.members, v.name.isSome = true)
    (made : StructStubs) (u : Uses) :
    (s.projectStruct made d u = (made, u) ∧ s.Settled made u [d]) ∨
      ∃ d', d.name ∉ made.map (·.1) ∧ [d.name] ∈ u ∧ s.struct? d = some d' ∧
        s.projectStruct made d u = (made ++ [(d.name, d'.render)], (s.structStub d u).2) := by
  have htext := structStub_eq hd u (s := s)
  rw [projectStruct_eq]
  split
  · rename_i hskip
    refine .inl ⟨rfl, fun e he hused => .inl ?_⟩
    obtain rfl := List.mem_singleton.mp he
    rw [Bool.or_eq_true, isSome_lookup, decide_eq_true_eq] at hskip
    exact hskip.resolve_right fun hunused => hunused hused
  · rename_i htry
    rw [Bool.or_eq_true, not_or, isSome_lookup, decide_eq_true_eq, not_not] at htry
    cases hstruct : s.struct? d with
    | none =>
      -- A stub that is given up leaves no uses behind.
      have hnone : (s.structStub d u).1 = none := by rw [htext, hstruct]; rfl
      refine .inl ⟨?_, fun e he _ => .inr ?_⟩
      · rw [hnone, structStub, tentatively_snd_of_none hnone]
        rfl
      · obtain rfl := List.mem_singleton.mp he
        exact hstruct
    | some d' =>
      refine .inr ⟨d', htry.1, htry.2, rfl, ?_⟩
      rw [htext, hstruct]
      rfl

/-- The stub of a struct in use joins the others. What they mention stays covered, since uses
are never taken back. -/
theorem Making.snoc (h : s.Making made u) {d d' : StructDecl} (hmem : d ∈ s.record.structs)
    (hd : ∀ v ∈ d.members, v.name.isSome = true) (hname : d.name ∉ made.map (·.1))
    (hused : [d.name] ∈ u) (hstruct : s.struct? d = some d') :
    s.Making (made ++ [(d.name, d'.render)]) (s.structStub d u).2 := by
  have hgrows : u ⊆ (s.structStub d u).2 := (tentatively_records _).grows u
  constructor
  case nodup =>
    rw [List.map_append]
    exact h.nodup.append (List.nodup_singleton _) (by simpa using hname)
  case used =>
    intro e he
    rcases List.mem_append.mp he with he | he
    · exact hgrows (h.used e he)
    · obtain rfl := List.mem_singleton.mp he
      exact hgrows hused
  case origin =>
    intro e he
    rcases List.mem_append.mp he with he | he
    · obtain ⟨origin, horigin, d'', hd'', hname', hrender, hcovers⟩ := h.origin e he
      exact ⟨origin, horigin, d'', hd'', hname', hrender, fun n hn => (hcovers n hn).mono hgrows⟩
    · obtain rfl := List.mem_singleton.mp he
      exact ⟨d, hmem, d', hstruct, rfl, rfl, covers_structStub hd hstruct u⟩

/-- What one round does to the stubs and to the uses. -/
theorem Making.round {ds : List StructDecl}
    (hds : ∀ d ∈ ds, d ∈ s.record.structs ∧ ∀ v ∈ d.members, v.name.isSome = true)
    (h : s.Making made u) :
    s.Making (s.projectRound ds made u).1 (s.projectRound ds made u).2 ∧
      made.length ≤ (s.projectRound ds made u).1.length ∧ u ⊆ (s.projectRound ds made u).2 ∧
      ((s.projectRound ds made u).1.length = made.length →
        s.projectRound ds made u = (made, u) ∧ s.Settled made u ds) := by
  induction ds generalizing made u with
  | nil => exact ⟨h, le_refl _, List.Subset.refl _, fun _ => ⟨rfl, by simp [Settled]⟩⟩
  | cons d ds ih =>
    obtain ⟨hmem, hd⟩ := hds d (by simp)
    have hrest : ∀ e ∈ ds, e ∈ s.record.structs ∧ ∀ v ∈ e.members, v.name.isSome = true :=
      fun e he => hds e (by simp [he])
    rw [projectRound_cons]
    rcases projectStruct_cases hd made u with ⟨heq, hsettled⟩ | ⟨d', hname, hused, hstruct, heq⟩
    · rw [heq]
      obtain ⟨hmaking, hle, hsub, hsame⟩ := ih hrest h
      refine ⟨hmaking, hle, hsub, fun hlength => ?_⟩
      obtain ⟨hround, hall⟩ := hsame hlength
      refine ⟨hround, ?_⟩
      rintro e (_ | ⟨_, he⟩)
      · exact hsettled _ (by simp)
      · exact hall e he
    · rw [heq]
      dsimp only
      have hgrows : u ⊆ (s.structStub d u).2 := (tentatively_records _).grows u
      have hnext := h.snoc hmem hd hname hused hstruct
      obtain ⟨hmaking, hle, hsub, -⟩ := ih hrest hnext
      rw [List.length_append, List.length_singleton] at hle
      exact ⟨hmaking, by omega, List.Subset.trans hgrows hsub, fun hlength => by omega⟩

/-- The rounds over the structs end when no struct in use is left. -/
theorem Making.rounds (hs : ∀ d ∈ s.record.structs, ∀ v ∈ d.members, v.name.isSome = true)
    (n : Nat) (h : s.Making made u) (hn : s.record.structs.length ≤ made.length + n) :
    s.Making (s.projectRounds n made u).1 (s.projectRounds n made u).2 ∧
      u ⊆ (s.projectRounds n made u).2 ∧
      s.Settled (s.projectRounds n made u).1 (s.projectRounds n made u).2 s.record.structs := by
  induction n generalizing made u with
  | zero =>
    -- There are as many stubs as structs, and each has a name of its own.
    refine ⟨h, List.Subset.refl _, fun d hd _ => .inl ?_⟩
    refine Record.mem_of_length_le h.nodup ?_ (by simpa using hn) hd
    intro name hname
    obtain ⟨e, he, rfl⟩ := List.mem_map.mp hname
    obtain ⟨origin, horigin, -, -, horiginname, -⟩ := h.origin e he
    exact horiginname ▸ List.mem_map_of_mem horigin
  | succ n ih =>
    obtain ⟨hmaking, hle, hsub, hsame⟩ := h.round fun d hd => ⟨hd, hs d hd⟩
    rw [projectRounds_succ]
    split
    · rename_i hfixed
      obtain ⟨hround, hsettled⟩ := hsame (congrArg List.length hfixed)
      rw [hround]
      exact ⟨h, List.Subset.refl _, hsettled⟩
    · rename_i hnew
      have hne : (s.projectRound s.record.structs made u).1.length ≠ made.length :=
        fun hlength => hnew (congrArg Prod.fst (hsame hlength).1)
      obtain ⟨hmaking', hsub', hsettled⟩ := ih hmaking (by omega)
      exact ⟨hmaking', List.Subset.trans hsub hsub', hsettled⟩

/-- The stubs that are looked up for some structs, in order. -/
theorem Making.lookup (h : s.Making made u) (ds : List StructDecl) :
    ∃ structs : List StructDecl,
      ds.filterMap (fun d => made.lookup d.name) = structs.map StructDecl.render ∧
      (∀ d ∈ structs, (∃ origin ∈ s.record.structs, s.struct? origin = some d) ∧
        ∀ n ∈ (Member.struct d).paths, s.Covers u n) ∧
      structs.map (·.name) = (ds.map (·.name)).filter fun name => name ∈ made.map (·.1) := by
  induction ds with
  | nil => exact ⟨[], rfl, by simp, rfl⟩
  | cons d ds ih =>
    obtain ⟨structs, htexts, horigins, hnames⟩ := ih
    cases hlookup : made.lookup d.name with
    | none =>
      have hname : d.name ∉ made.map (·.1) := by simp [← isSome_lookup, hlookup]
      refine ⟨structs, by simpa [hlookup] using htexts, horigins, ?_⟩
      rw [hnames, List.map_cons, List.filter_cons_of_neg (by simpa using hname)]
    | some text =>
      have hname : d.name ∈ made.map (·.1) := by simp [← isSome_lookup, hlookup]
      obtain ⟨l₁, l₂, hl, -⟩ := List.lookup_eq_some_iff.mp hlookup
      obtain ⟨origin, horigin, d', hd', horiginname, hrender, hcovers⟩ :=
        h.origin (d.name, text) (by rw [hl]; simp)
      refine ⟨d' :: structs, by simpa [hlookup, hrender] using htexts, ?_, ?_⟩
      · rintro e (_ | ⟨_, he⟩)
        · exact ⟨⟨origin, horigin, hd'⟩, hcovers⟩
        · exact horigins e he
      · rw [List.map_cons, List.map_cons, List.filter_cons_of_pos (by simpa using hname), hnames,
          struct?_name hd', horiginname]

/-- The enums that are declared again, if some names are used. -/
def keptEnums (s : Scope) (uses : Uses) : List EnumDecl :=
  if s.rawOnly then [] else s.record.enums.filter fun d => [d.name] ∈ uses

theorem mem_keptEnums {name : String} :
    name ∈ (s.keptEnums u).map (·.name) ↔
      s.rawOnly = false ∧ [name] ∈ u ∧ name ∈ s.record.enumNames := by
  unfold keptEnums Record.enumNames
  cases s.rawOnly with
  | true => simp
  | false =>
    simp only [Bool.false_eq_true, if_false, List.mem_map, List.mem_filter, decide_eq_true_eq]
    constructor
    · rintro ⟨d, ⟨hd, hused⟩, rfl⟩
      exact ⟨trivial, hused, d, hd, rfl⟩
    · rintro ⟨-, hused, d, hd, rfl⟩
      exact ⟨d, ⟨hd, hused⟩, rfl⟩

/-- Whether a struct of the given name is declared again, if some names are used. -/
def KeepsStruct (s : Scope) (uses : Uses) (name : String) : Prop :=
  s.rawOnly = false ∧ [name] ∈ uses ∧ ∃ d ∈ s.record.structs, d.name = name ∧ (s.struct? d).isSome = true

theorem typeStubs_grows (hs : ∀ d ∈ s.record.structs, ∀ v ∈ d.members, v.name.isSome = true) :
    Grows s.typeStubs := by
  intro u
  rw [typeStubs]
  cases s.rawOnly with
  | true => exact List.Subset.refl _
  | false => exact ((Making.nil s u).rounds hs s.record.structs.length (by simp)).2.1

theorem typeStubs_of_kept (hraw : s.rawOnly = false) (u : Uses) :
    s.typeStubs u
      = ((s.record.enums.filter fun d => [d.name] ∈ (s.projectRounds s.record.structs.length [] u).2).map
          enumStub ++ s.record.structs.filterMap
            fun d => (s.projectRounds s.record.structs.length [] u).1.lookup d.name,
        (s.projectRounds s.record.structs.length [] u).2) := by
  rw [typeStubs, hraw]
  rfl

instance (s : Scope) (uses : Uses) : DecidablePred (s.KeepsStruct uses) :=
  fun _ => inferInstanceAs (Decidable (_ ∧ _ ∧ _))

/-- The stubs of types are the texts of the enums in use and of what structs become, each name of a
struct as often as it is declared. -/
theorem exists_typeStubs_eq (hs : ∀ d ∈ s.record.structs, ∀ v ∈ d.members, v.name.isSome = true)
    (u : Uses) :
    ∃ structs : List StructDecl,
      (s.typeStubs u).1 = (s.keptEnums (s.typeStubs u).2).map EnumDecl.render
        ++ structs.map StructDecl.render ∧
      (∀ d ∈ structs, (∃ origin ∈ s.record.structs, s.struct? origin = some d) ∧
        ∀ n ∈ (Member.struct d).paths, s.Covers (s.typeStubs u).2 n) ∧
      structs.map (·.name)
        = (s.record.structs.map (·.name)).filter fun name => s.KeepsStruct (s.typeStubs u).2 name := by
  cases hraw : s.rawOnly with
  | true =>
    have hstubs : s.typeStubs u = ([], u) := by
      rw [typeStubs, hraw]
      rfl
    refine ⟨[], ?_, by simp, by simp [KeepsStruct, hraw]⟩
    rw [hstubs, keptEnums, hraw]
    rfl
  | false =>
    obtain ⟨hmaking, -, hsettled⟩ := (Making.nil s u).rounds hs s.record.structs.length (by simp)
    obtain ⟨structs, htexts, horigins, hnames⟩ := hmaking.lookup s.record.structs
    rw [typeStubs_of_kept hraw, keptEnums, hraw]
    refine ⟨structs, ?_, horigins, ?_⟩
    · rw [← htexts]
      rfl
    rw [hnames]
    refine List.filter_congr fun name hname => decide_eq_decide.mpr ?_
    constructor
    · intro hmade
      obtain ⟨e, he, rfl⟩ := List.mem_map.mp hmade
      obtain ⟨origin, horigin, d, hd, hname, -⟩ := hmaking.origin e he
      exact ⟨hraw, hmaking.used e he, origin, horigin, hname, by simp [hd]⟩
    · rintro ⟨-, hused, d, hd, rfl, hstruct⟩
      refine (hsettled d hd hused).resolve_right fun h => ?_
      simp [h] at hstruct

/-- The stubs of types are the texts of the enums in use and of what the structs in use
become that can be declared again. -/
theorem typeStubs_eq (hs : ∀ d ∈ s.record.structs, ∀ v ∈ d.members, v.name.isSome = true) (u : Uses) :
    ∃ structs : List StructDecl,
      (s.typeStubs u).1 = (s.keptEnums (s.typeStubs u).2).map EnumDecl.render
        ++ structs.map StructDecl.render ∧
      (∀ d ∈ structs, (∃ origin ∈ s.record.structs, s.struct? origin = some d) ∧
        ∀ n ∈ (Member.struct d).paths, s.Covers (s.typeStubs u).2 n) ∧
      (structs.map (·.name)).Sublist (s.record.structs.map (·.name)) ∧
      ∀ name, name ∈ structs.map (·.name) ↔ s.KeepsStruct (s.typeStubs u).2 name := by
  obtain ⟨structs, htexts, horigins, hnames⟩ := exists_typeStubs_eq hs u
  refine ⟨structs, htexts, horigins, ?_, fun name => ?_⟩
  · rw [hnames]
    exact List.filter_sublist
  · rw [hnames, List.mem_filter, decide_eq_true_eq]
    refine ⟨And.right, fun hkeeps => ⟨?_, hkeeps⟩⟩
    obtain ⟨-, -, d, hd, rfl, -⟩ := hkeeps
    exact List.mem_map_of_mem hd

end Scope

end SolidityInterface
