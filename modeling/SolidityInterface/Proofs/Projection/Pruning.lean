import SolidityInterface.Proofs.Projection.Closed
import SolidityInterface.Proofs.Projection.Registering

/-
  Which local types an interface declares again, exactly. A struct is needed (`Needs`) if it
  is in use, or if a struct that is needed mentions it; a struct that is blocked is never.

  1. A struct that is not blocked has a stub with a line for each of its members, and the stub
     adds what the members mention to the uses (`structStub_of_free`). A struct that is
     blocked has a member that blocks it, so it has none (`structStub_of_blocked`).
  2. The rounds over the structs keep that only stubs of needed structs are made and only what
     they mention is added to the uses (`Projecting`). They end when all structs are at rest
     (`Idle`), which they are after as many rounds as there are structs.
  3. So the stubs are those of all needed structs (`needs_iff`), and to ask for them again
     changes nothing.
-/

namespace SolidityInterface

namespace Record

variable {r : Record} {blocked blocked' : List String}

/-! ## Blocked structs -/

theorem isAmong_mono (h : blocked ⊆ blocked') {n : DottedName} (hn : r.isAmong blocked n = true) :
    r.isAmong blocked' n = true := by
  unfold isAmong at hn ⊢
  split at hn
  · exact decide_eq_true (h (of_decide_eq_true hn))
  · cases hn

theorem isBlocking_mono (h : blocked ⊆ blocked') {t : TypeName} (ht : r.isBlocking blocked t = true) :
    r.isBlocking blocked' t = true := by
  unfold isBlocking at ht ⊢
  generalize t.element = e at ht ⊢
  cases e with
  | named n => exact isAmong_mono h ht
  | _ => exact ht

/-- Whether every blocked name is that of a struct with a member that blocks it. -/
def BlockedByMembers (r : Record) (blocked : List String) : Prop :=
  ∀ name ∈ blocked, ∃ d ∈ r.structs, d.name = name ∧ ∃ v ∈ d.members, r.isBlocking blocked v.type = true

theorem BlockedByMembers.blockStruct (h : r.BlockedByMembers blocked) {d : StructDecl}
    (hd : d ∈ r.structs) : r.BlockedByMembers (r.blockStruct blocked d) := by
  unfold Record.blockStruct
  split
  · exact h
  split
  · rename_i hblocks
    have hsub : blocked ⊆ blocked ++ [d.name] := List.subset_append_left _ _
    intro name hname
    rcases List.mem_append.mp hname with hname | hname
    · obtain ⟨e, he, rfl, v, hv, hblocking⟩ := h name hname
      exact ⟨e, he, rfl, v, hv, isBlocking_mono hsub hblocking⟩
    · obtain rfl := List.mem_singleton.mp hname
      obtain ⟨v, hv, hblocking⟩ := List.any_eq_true.mp hblocks
      exact ⟨d, hd, rfl, v, hv, isBlocking_mono hsub hblocking⟩
  · exact h

theorem BlockedByMembers.foldl {ds : List StructDecl} (h : r.BlockedByMembers blocked)
    (hds : ds ⊆ r.structs) : r.BlockedByMembers (ds.foldl r.blockStruct blocked) := by
  induction ds generalizing blocked with
  | nil => exact h
  | cons d ds ih =>
    exact ih (h.blockStruct (hds (by simp))) fun e he => hds (by simp [he])

theorem BlockedByMembers.rounds (h : r.BlockedByMembers blocked) (n : Nat) :
    r.BlockedByMembers (r.blockRounds n blocked) := by
  induction n generalizing blocked with
  | zero => exact h
  | succ n ih =>
    rw [blockRounds]
    split
    · exact h
    · exact ih (h.foldl (List.Subset.refl _))

/-- A struct that is blocked has a member that blocks it. -/
theorem blockedByMembers_blockedStructs (r : Record) : r.BlockedByMembers r.blockedStructs :=
  BlockedByMembers.rounds (by simp [BlockedByMembers]) _

end Record

namespace Scope

variable {s : Scope} {u v : Uses} {n m : DottedName}

/-! ## Stubs of structs -/

/-- A type with all names as seen from the contract. -/
def localType (s : Scope) : TypeName → TypeName
  | .named n => .named (s.localName n)
  | .array base length => .array (localType s base) length
  | .mapping key value => .mapping (localType s key) (localType s value)
  | .elementary name => .elementary name

/-- The line of a member of a struct. -/
def memberLine (s : Scope) (v : Variable) : String :=
  "    " ++ (s.localType v.type).render ++ " " ++ v.name.getD "" ++ ";"

/-- The text of a struct: a line for each of its members, in order. -/
def structText (s : Scope) (d : StructDecl) : String :=
  "\n".intercalate (["struct " ++ d.name ++ " \x7b"] ++ d.members.map s.memberLine ++ ["\x7d"])

/-- Whether a member of a struct mentions a name. -/
def Mentions (s : Scope) (d : StructDecl) (m : DottedName) : Prop :=
  ∃ n ∈ Variable.paths d.members, s.Registers n m

theorem memberText_of_blocking {t : TypeName} (h : s.record.isBlocking s.blocked t = true) (u : Uses) :
    (s.memberText t u).1 = none := by
  rw [memberText_eq, Option.map_eq_none_iff]
  induction t with
  | elementary name =>
    have hname : name = "function" := by simpa [Record.isBlocking, TypeName.element] using h
    simp [memberType?, hname]
  | named n =>
    have hblocked : s.isBlocked n = true := h
    simp [memberType?, hblocked]
  | array base length ih => rw [memberType?, ih h, Option.map_none]
  | mapping key value => rfl

theorem memberType?_of_free (hraw : s.rawOnly = false) {t : TypeName}
    (h : s.record.isBlocking s.blocked t = false) : s.memberType? t = some (s.localType t) := by
  induction t with
  | elementary name =>
    have hname : name ≠ "function" := by simpa [Record.isBlocking, TypeName.element] using h
    simp [memberType?, localType, hname]
  | named n =>
    have hfree : s.isBlocked n = false := h
    simp [memberType?, localType, hraw, hfree]
  | array base length ih => rw [memberType?, ih h, localType, Option.map_some]
  | mapping key value => simp [Record.isBlocking, TypeName.element] at h

/-- A type that does not block has a text, and all names in it count as used. -/
theorem memberText_of_free (hraw : s.rawOnly = false) {t : TypeName}
    (h : s.record.isBlocking s.blocked t = false) (u : Uses) :
    (s.memberText t u).1 = some (s.localType t).render ∧
      ∀ m, m ∈ (s.memberText t u).2 ↔ m ∈ u ∨ ∃ n ∈ t.paths, s.Registers n m := by
  have htext : (s.memberText t u).1 = some (s.localType t).render := by
    rw [memberText_eq, memberType?_of_free hraw h, Option.map_some]
  exact ⟨htext, memberText_adds s t u (by rw [htext]; rfl)⟩

theorem memberLines_of_free (hraw : s.rawOnly = false) {vs : List Variable}
    (h : ∀ v ∈ vs, s.record.isBlocking s.blocked v.type = false) (u : Uses) :
    (s.memberLines vs u).1 = some (vs.map s.memberLine) ∧
      ∀ m, m ∈ (s.memberLines vs u).2 ↔ m ∈ u ∨ ∃ n ∈ Variable.paths vs, s.Registers n m := by
  have hlines : (s.memberLines vs u).1 = some (vs.map s.memberLine) := by
    induction vs generalizing u with
    | nil => rfl
    | cons v vs ih =>
      obtain ⟨htext, -⟩ := memberText_of_free hraw (h v (by simp)) u
      rw [memberLines, bind_fst, htext]
      show Option.map _ (s.memberLines vs _).1 = _
      rw [ih fun w hw => h w (by simp [hw])]
      rfl
  exact ⟨hlines, memberLines_adds vs u (by rw [hlines]; rfl)⟩

theorem memberLines_of_blocking {vs : List Variable}
    (h : ∃ v ∈ vs, s.record.isBlocking s.blocked v.type = true) (u : Uses) :
    (s.memberLines vs u).1 = none := by
  induction vs generalizing u with
  | nil => simp at h
  | cons v vs ih =>
    rw [memberLines, bind_fst]
    cases htext : (s.memberText v.type u).1 with
    | none => rfl
    | some text =>
      have hrest : ∃ w ∈ vs, s.record.isBlocking s.blocked w.type = true := by
        obtain ⟨w, hw, hblocking⟩ := h
        rcases List.mem_cons.mp hw with rfl | hw
        · rw [memberText_of_blocking hblocking] at htext
          cases htext
        · exact ⟨w, hw, hblocking⟩
      show Option.map _ (s.memberLines vs _).1 = none
      rw [ih hrest]
      rfl

section Structs

variable {d : StructDecl} (hd : d ∈ s.record.structs)
include hd

theorem isBlocking_of_free (h : d.name ∉ s.blocked) :
    ∀ v ∈ d.members, s.record.isBlocking s.blocked v.type = false := by
  rw [s.blocked_eq] at h ⊢
  exact (s.record.blocksAll_blockedStructs d hd).resolve_left h

/-- The stub of a struct that is not blocked has all its members. -/
theorem structStub_of_free (hraw : s.rawOnly = false) (h : d.name ∉ s.blocked) (u : Uses) :
    s.structStub d u
      = (some (s.structText d), Distinct.addAll u (s.memberLines d.members s.baseUses).2) := by
  refine tentatively_of_some ?_ u
  rw [bind_fst, (memberLines_of_free hraw (isBlocking_of_free hd h) s.baseUses).1]
  rfl

/-- What the members mention counts as used. -/
theorem mem_structStub_of_free (hraw : s.rawOnly = false) (h : d.name ∉ s.blocked) (u : Uses)
    (m : DottedName) : m ∈ (s.structStub d u).2 ↔ m ∈ u ∨ m ∈ s.baseUses ∨ s.Mentions d m := by
  rw [structStub_of_free hd hraw h, Distinct.mem_addAll,
    (memberLines_of_free hraw (isBlocking_of_free hd h) s.baseUses).2]
  rfl

/-- A struct that is blocked has no stub, and leaves no uses behind. -/
theorem structStub_of_blocked (hnames : s.record.structNames.Nodup) (h : d.name ∈ s.blocked) (u : Uses) :
    s.structStub d u = (none, u) := by
  obtain ⟨e, he, hname, hblocking⟩ :=
    s.record.blockedByMembers_blockedStructs d.name (s.blocked_eq ▸ h)
  obtain rfl : e = d := List.inj_on_of_nodup_map hnames he hd hname
  rw [← s.blocked_eq] at hblocking
  have hnone : (s.structStub e u).1 = none := by
    rw [structStub, tentatively_fst, bind_fst, memberLines_of_blocking hblocking]
    rfl
  exact Prod.ext hnone (tentatively_snd_of_none hnone)

end Structs

/-! ## Rounds over the structs -/

/-- The structs that an interface needs if some names are used: those in use and those that a
needed struct mentions, but none that is blocked. -/
inductive Needs (s : Scope) (u : Uses) : StructDecl → Prop
  | used {d : StructDecl} (hd : d ∈ s.record.structs) (hfree : d.name ∉ s.blocked)
      (hused : [d.name] ∈ u) : Needs s u d
  | mentioned {d e : StructDecl} (h : Needs s u e) (hd : d ∈ s.record.structs)
      (hfree : d.name ∉ s.blocked) (hmentions : s.Mentions e [d.name]) : Needs s u d

theorem Needs.mem_free {d : StructDecl} (h : s.Needs u d) :
    d ∈ s.record.structs ∧ d.name ∉ s.blocked := by
  cases h with
  | used hd hfree => exact ⟨hd, hfree⟩
  | mentioned _ hd hfree => exact ⟨hd, hfree⟩

/-- Whether nothing is to be done for a struct. -/
def Idle (s : Scope) (made : StructStubs) (v : Uses) (d : StructDecl) : Prop :=
  d.name ∈ made.map (·.1) ∨ [d.name] ∉ v ∨ d.name ∈ s.blocked

/-- Whether the stubs made so far and the uses are those of structs that are needed, if some
names were used at the start. -/
structure Projecting (s : Scope) (u : Uses) (made : StructStubs) (v : Uses) : Prop where
  nodup : (made.map (·.1)).Nodup
  origin : ∀ e ∈ made, ∃ d, s.Needs u d ∧ e = (d.name, s.structText d) ∧ ∀ m, s.Mentions d m → m ∈ v
  used : ∀ m ∈ v, m ∈ u ∨ ∃ d, s.Needs u d ∧ s.Mentions d m
  grows : u ⊆ v

theorem Projecting.nil (s : Scope) (u : Uses) : s.Projecting u [] u :=
  ⟨.nil, by simp, fun _ => .inl, List.Subset.refl u⟩

section Rounds

variable {made : StructStubs} (hraw : s.rawOnly = false) (hnames : s.record.structNames.Nodup)

include hnames in
theorem projectStruct_of_idle {d : StructDecl} (hd : d ∈ s.record.structs) (h : s.Idle made v d) :
    s.projectStruct made d v = (made, v) := by
  rw [projectStruct_eq]
  split
  · rfl
  · rename_i htry
    rw [Bool.or_eq_true, not_or, isSome_lookup, decide_eq_true_eq, not_not] at htry
    have hblocked : d.name ∈ s.blocked :=
      (h.resolve_left htry.1).resolve_left fun hunused => hunused htry.2
    rw [structStub_of_blocked hd hnames hblocked]
    rfl

include hnames in
theorem projectRound_of_idle {ds : List StructDecl} (hds : ds ⊆ s.record.structs)
    (h : ∀ d ∈ ds, s.Idle made v d) : s.projectRound ds made v = (made, v) := by
  induction ds with
  | nil => rfl
  | cons d ds ih =>
    rw [projectRound_cons, projectStruct_of_idle hnames (hds (by simp)) (h d (by simp))]
    exact ih (fun e he => hds (by simp [he])) fun e he => h e (by simp [he])

include hnames in
/-- Where all structs are at rest, no round changes anything. -/
theorem projectRounds_of_idle (h : ∀ d ∈ s.record.structs, s.Idle made v d) (n : Nat) :
    s.projectRounds n made v = (made, v) := by
  cases n with
  | zero => rfl
  | succ n => rw [projectRounds_succ, projectRound_of_idle hnames (List.Subset.refl _) h, if_pos rfl]

include hraw in
theorem projectStruct_of_not_idle {d : StructDecl} (hd : d ∈ s.record.structs) (h : ¬ s.Idle made v d) :
    s.projectStruct made d v = (made ++ [(d.name, s.structText d)], (s.structStub d v).2) := by
  simp only [Idle, not_or, not_not] at h
  obtain ⟨hnew, hused, hfree⟩ := h
  rw [projectStruct_eq, if_neg, structStub_of_free hd hraw hfree]
  · rfl
  · simpa [isSome_lookup, hused] using hnew

variable (hbase : s.baseUses ⊆ u)
include hraw hbase

/-- What one stub adds is that of a needed struct. -/
theorem Projecting.add (h : s.Projecting u made v) {d : StructDecl} (hd : d ∈ s.record.structs)
    (hbusy : ¬ s.Idle made v d) :
    s.Projecting u (made ++ [(d.name, s.structText d)]) (s.structStub d v).2 := by
  simp only [Idle, not_or, not_not] at hbusy
  obtain ⟨hnew, hused, hfree⟩ := hbusy
  have huses := mem_structStub_of_free hd hraw hfree v
  have hgrows : v ⊆ (s.structStub d v).2 := fun m hm => (huses m).mpr (.inl hm)
  have hneeds : s.Needs u d := by
    obtain hu | ⟨e, he, hmentions⟩ := h.used _ hused
    · exact .used hd hfree hu
    · exact .mentioned he hd hfree hmentions
  refine ⟨?_, ?_, ?_, List.Subset.trans h.grows hgrows⟩
  · rw [List.map_append]
    exact h.nodup.append (List.nodup_singleton _) (by simpa using hnew)
  · intro e he
    rcases List.mem_append.mp he with he | he
    · obtain ⟨d', hd', heq, hmentions⟩ := h.origin e he
      exact ⟨d', hd', heq, fun m hm => hgrows (hmentions m hm)⟩
    · exact ⟨d, hneeds, List.mem_singleton.mp he, fun m hm => (huses m).mpr (.inr (.inr hm))⟩
  · intro m hm
    obtain hm | hm | hm := (huses m).mp hm
    · exact h.used m hm
    · exact .inl (hbase hm)
    · exact .inr ⟨d, hneeds, hm⟩

include hnames

/-- A round that finds something to do makes a stub. -/
theorem Projecting.round (h : s.Projecting u made v) {ds : List StructDecl} (hds : ds ⊆ s.record.structs) :
    s.Projecting u (s.projectRound ds made v).1 (s.projectRound ds made v).2 ∧
      (s.projectRound ds made v = (made, v) ∧ (∀ d ∈ ds, s.Idle made v d) ∨
        made.length < (s.projectRound ds made v).1.length) := by
  induction ds generalizing made v with
  | nil => exact ⟨h, .inl ⟨rfl, by simp⟩⟩
  | cons d ds ih =>
    have hd : d ∈ s.record.structs := hds (by simp)
    have hrest : ds ⊆ s.record.structs := fun e he => hds (by simp [he])
    rw [projectRound_cons]
    by_cases hidle : s.Idle made v d
    · rw [projectStruct_of_idle hnames hd hidle]
      obtain ⟨hprojecting, hend⟩ := ih h hrest
      refine ⟨hprojecting, hend.imp_left fun ⟨hsame, hall⟩ => ⟨hsame, ?_⟩⟩
      simpa using ⟨hidle, hall⟩
    · rw [projectStruct_of_not_idle hraw hd hidle]
      obtain ⟨hprojecting, hend⟩ := ih (h.add hraw hbase hd hidle) hrest
      refine ⟨hprojecting, .inr ?_⟩
      have hadded : made.length < (made ++ [(d.name, s.structText d)]).length := by simp
      obtain ⟨hsame, -⟩ | hlt := hend
      · rw [hsame]
        exact hadded
      · exact Nat.lt_trans hadded hlt

/-- After as many rounds as there are structs nothing is left to do, and no more rounds change
anything. -/
theorem Projecting.rounds (h : s.Projecting u made v) (n : Nat)
    (hn : s.record.structs.length ≤ made.length + n) :
    s.Projecting u (s.projectRounds n made v).1 (s.projectRounds n made v).2 ∧
      (∀ d ∈ s.record.structs, s.Idle (s.projectRounds n made v).1 (s.projectRounds n made v).2 d) ∧
      ∀ k, s.projectRounds (n + k) made v = s.projectRounds n made v := by
  induction n generalizing made v with
  | zero =>
    -- There are as many stubs as structs, and each has a name of its own.
    have hall : ∀ d ∈ s.record.structs, s.Idle made v d := by
      intro d hd
      refine .inl (Record.mem_of_length_le h.nodup ?_ (by simpa using hn) hd)
      intro name hname
      obtain ⟨e, he, rfl⟩ := List.mem_map.mp hname
      obtain ⟨d', hd', rfl, -⟩ := h.origin e he
      exact List.mem_map_of_mem hd'.mem_free.1
    exact ⟨h, hall, fun k => by rw [Nat.zero_add]; exact projectRounds_of_idle hnames hall k⟩
  | succ n ih =>
    obtain ⟨hround, ⟨hsame, hall⟩ | hlt⟩ := h.round hraw hnames hbase (List.Subset.refl _)
    · have hstay := projectRounds_of_idle hnames hall
      rw [hstay]
      exact ⟨h, hall, fun k => hstay _⟩
    · have hne : (s.projectRound s.record.structs made v).1 ≠ made := by
        intro heq
        rw [heq] at hlt
        exact Nat.lt_irrefl _ hlt
      obtain ⟨hprojecting, hall, hmore⟩ := ih hround (by omega)
      rw [projectRounds_succ, if_neg hne]
      refine ⟨hprojecting, hall, fun k => ?_⟩
      rw [Nat.add_right_comm, projectRounds_succ, if_neg hne]
      exact hmore k

end Rounds

/-! ## All stubs -/

section Stubs

variable (hraw : s.rawOnly = false) (hnames : s.record.structNames.Nodup) (hbase : s.baseUses ⊆ u)
include hraw hnames hbase

theorem projecting_end : s.Projecting u (s.projectRounds s.record.structs.length [] u).1 (s.typeStubs u).2 ∧
    ∀ d ∈ s.record.structs,
      s.Idle (s.projectRounds s.record.structs.length [] u).1 (s.typeStubs u).2 d := by
  obtain ⟨hprojecting, hidle, -⟩ := (Projecting.nil s u).rounds hraw hnames hbase s.record.structs.length
    (by simp)
  rw [typeStubs_of_kept hraw]
  exact ⟨hprojecting, hidle⟩

/-- The stub that was made for a name is that of the one struct of the name. -/
theorem needs_of_made {d : StructDecl} (hd : d ∈ s.record.structs)
    (h : d.name ∈ (s.projectRounds s.record.structs.length [] u).1.map (·.1)) :
    s.Needs u d ∧ ∀ m, s.Mentions d m → m ∈ (s.typeStubs u).2 := by
  obtain ⟨e, he, hname⟩ := List.mem_map.mp h
  obtain ⟨d', hneeds, rfl, hmentions⟩ := (projecting_end hraw hnames hbase).1.origin e he
  obtain rfl : d' = d := List.inj_on_of_nodup_map hnames hneeds.mem_free.1 hd hname
  exact ⟨hneeds, hmentions⟩

theorem made_of_needs {d : StructDecl} (h : s.Needs u d) : [d.name] ∈ (s.typeStubs u).2 ∧
    d.name ∈ (s.projectRounds s.record.structs.length [] u).1.map (·.1) := by
  obtain ⟨hprojecting, hidle⟩ := projecting_end hraw hnames hbase
  have hmade : ∀ {d}, d ∈ s.record.structs → d.name ∉ s.blocked → [d.name] ∈ (s.typeStubs u).2 →
      d.name ∈ (s.projectRounds s.record.structs.length [] u).1.map (·.1) := by
    intro d hd hfree hused
    exact (hidle d hd).resolve_right fun h => h.elim (fun hunused => hunused hused) hfree
  induction h with
  | used hd hfree hused =>
    have huse := hprojecting.grows hused
    exact ⟨huse, hmade hd hfree huse⟩
  | mentioned h hd hfree hmentions ih =>
    have huse := (needs_of_made hraw hnames hbase h.mem_free.1 ih.2).2 _ hmentions
    exact ⟨huse, hmade hd hfree huse⟩

/-- The structs that are needed are those in use at the end that are not blocked. -/
theorem needs_iff {d : StructDecl} (hd : d ∈ s.record.structs) :
    s.Needs u d ↔ [d.name] ∈ (s.typeStubs u).2 ∧ d.name ∉ s.blocked := by
  constructor
  · exact fun h => ⟨(made_of_needs hraw hnames hbase h).1, h.mem_free.2⟩
  · rintro ⟨hused, hfree⟩
    obtain hu | ⟨e, he, hmentions⟩ := (projecting_end hraw hnames hbase).1.used _ hused
    · exact .used hd hfree hu
    · exact .mentioned he hd hfree hmentions

/-- The names in use at the end are those in use at the start and those that needed structs
mention. -/
theorem mem_typeStubs_uses :
    m ∈ (s.typeStubs u).2 ↔ m ∈ u ∨ ∃ d, s.Needs u d ∧ s.Mentions d m := by
  obtain ⟨hprojecting, -⟩ := projecting_end hraw hnames hbase
  constructor
  · exact hprojecting.used m
  · rintro (hm | ⟨d, hneeds, hm⟩)
    · exact hprojecting.grows hm
    · have hmade := (made_of_needs hraw hnames hbase hneeds).2
      exact (needs_of_made hraw hnames hbase hneeds.mem_free.1 hmade).2 m hm

theorem lookup_made {d : StructDecl} (hd : d ∈ s.record.structs) :
    (s.projectRounds s.record.structs.length [] u).1.lookup d.name
      = if [d.name] ∈ (s.typeStubs u).2 ∧ d.name ∉ s.blocked then some (s.structText d) else none := by
  have hneeds := needs_iff hraw hnames hbase hd
  cases hlookup : (s.projectRounds s.record.structs.length [] u).1.lookup d.name with
  | none =>
    rw [if_neg]
    rw [← hneeds]
    intro h
    have hmade := isSome_lookup.mpr (made_of_needs hraw hnames hbase h).2
    rw [hlookup] at hmade
    cases hmade
  | some text =>
    obtain ⟨l₁, l₂, hl, -⟩ := List.lookup_eq_some_iff.mp hlookup
    obtain ⟨e, he, heq, -⟩ := (projecting_end hraw hnames hbase).1.origin (d.name, text) (by rw [hl]; simp)
    obtain ⟨hname, rfl⟩ := Prod.mk.inj heq
    obtain rfl : d = e := List.inj_on_of_nodup_map hnames hd he.mem_free.1 hname
    rw [if_pos (hneeds.mp he)]

/-- The stubs are those of the enums in use and of the structs that are needed, in order. -/
theorem typeStubs_fst :
    (s.typeStubs u).1 = (s.record.enums.filter fun d => [d.name] ∈ (s.typeStubs u).2).map enumStub ++
      (s.record.structs.filter fun d => [d.name] ∈ (s.typeStubs u).2 ∧ d.name ∉ s.blocked).map
        s.structText := by
  have hstructs : s.record.structs.filterMap
        (fun d => (s.projectRounds s.record.structs.length [] u).1.lookup d.name)
      = (s.record.structs.filter fun d => [d.name] ∈ (s.typeStubs u).2 ∧ d.name ∉ s.blocked).map
        s.structText := by
    rw [List.filterMap_congr fun d hd => lookup_made hraw hnames hbase hd, ← List.filterMap_eq_map,
      List.filterMap_filter]
    simp
  rw [← hstructs, typeStubs_of_kept hraw]

/-- What needed structs mention is in use at the end, so that no further struct is needed then. -/
theorem needs_of_needs_again {d : StructDecl} (h : s.Needs (s.typeStubs u).2 d) : s.Needs u d := by
  induction h with
  | used hd hfree hused => exact (needs_iff hraw hnames hbase hd).mpr ⟨hused, hfree⟩
  | mentioned _ hd hfree hmentions ih => exact .mentioned ih hd hfree hmentions

end Stubs

section Again

variable (hraw : s.rawOnly = false) (hnames : s.record.structNames.Nodup) (hbase : s.baseUses ⊆ u)
  (hclosed : ∀ d, s.Needs u d → ∀ m, s.Mentions d m → m ∈ u)
include hraw hnames hbase hclosed

theorem projectStruct_snd_of_closed {d : StructDecl} (hd : d ∈ s.record.structs) (made : StructStubs) :
    (s.projectStruct made d u).2 = u := by
  by_cases hidle : s.Idle made u d
  · rw [projectStruct_of_idle hnames hd hidle]
  · rw [projectStruct_of_not_idle hraw hd hidle]
    simp only [Idle, not_or, not_not] at hidle
    obtain ⟨-, hused, hfree⟩ := hidle
    rw [structStub_of_free hd hraw hfree]
    refine Distinct.addAll_of_subset fun m hm => ?_
    obtain hm | hm := ((memberLines_of_free hraw (isBlocking_of_free hd hfree) _).2 m).mp hm
    · exact hbase hm
    · exact hclosed d (.used hd hfree hused) m hm

theorem projectRound_snd_of_closed {ds : List StructDecl} (hds : ds ⊆ s.record.structs)
    (made : StructStubs) : (s.projectRound ds made u).2 = u := by
  induction ds generalizing made with
  | nil => rfl
  | cons d ds ih =>
    rw [projectRound_cons, projectStruct_snd_of_closed hraw hnames hbase hclosed (hds (by simp))]
    exact ih (fun e he => hds (by simp [he])) _

/-- Uses that hold all that needed structs mention stay as they are. -/
theorem projectRounds_snd_of_closed (n : Nat) (made : StructStubs) : (s.projectRounds n made u).2 = u := by
  induction n generalizing made with
  | zero => rfl
  | succ n ih =>
    rw [projectRounds_succ, projectRound_snd_of_closed hraw hnames hbase hclosed (List.Subset.refl _)]
    split
    · rfl
    · exact ih _

end Again

/-- To ask for the stubs again gives the same stubs, and no more uses. -/
theorem typeStubs_again (hraw : s.rawOnly = false) (hnames : s.record.structNames.Nodup)
    (hbase : s.baseUses ⊆ u) : s.typeStubs (s.typeStubs u).2 = ((s.typeStubs u).1, (s.typeStubs u).2) := by
  have hgrows : u ⊆ (s.typeStubs u).2 := (projecting_end hraw hnames hbase).1.grows
  have hbase' := List.Subset.trans hbase hgrows
  have hsame : (s.typeStubs (s.typeStubs u).2).2 = (s.typeStubs u).2 := by
    rw [typeStubs_of_kept hraw (s.typeStubs u).2]
    refine projectRounds_snd_of_closed hraw hnames hbase' ?_ _ _
    intro d hd m hm
    exact (mem_typeStubs_uses hraw hnames hbase).mpr
      (.inr ⟨d, needs_of_needs_again hraw hnames hbase hd, hm⟩)
  refine Prod.ext ?_ hsame
  rw [typeStubs_fst hraw hnames hbase', hsame]
  exact (typeStubs_fst hraw hnames hbase).symm

/-! ## Names that stubs mention -/

theorem isBlocked_of_free {t : TypeName} (h : s.record.isBlocking s.blocked t = false)
    (hn : n ∈ t.paths) : s.isBlocked n = false := by
  induction t with
  | elementary name => cases hn
  | named m =>
    obtain rfl := List.mem_singleton.mp hn
    exact h
  | array base length ih => exact ih h hn
  | mapping key value => simp [Record.isBlocking, TypeName.element] at h

/-- The names in the stubs of an interface: in what the functions and the public variables become
that have a stub, and in the structs that are needed. -/
inductive Mentioned (s : Scope) (u : Uses) : DottedName → Prop
  | function {f g : FunctionDecl} {n : DottedName} (hf : f ∈ s.record.exposedFunctions)
      (h : s.function? f = some g) (hn : n ∈ (Member.function g).paths) : Mentioned s u n
  | getter {v : Variable} {g : FunctionDecl} {n : DottedName} (hv : v ∈ s.record.publicVariables)
      (h : s.getter? v = some g) (hn : n ∈ (Member.function g).paths) : Mentioned s u n
  | struct {d : StructDecl} {n : DottedName} (h : s.Needs u d) (hn : n ∈ Variable.paths d.members) :
      Mentioned s u (s.localName n)

theorem baseUses_subset_functionStubs (hbase : s.baseUses ⊆ v) :
    s.baseUses ⊆ (s.functionStubs (s.getterStubs v).2).2 := by
  have hgetters : v ⊆ (s.getterStubs v).2 := (getterStubs_records s).grows v
  exact fun m hm => (functionStubs_records s).grows _ (hgetters (hbase hm))

/-- Whatever the stubs mention is covered by the uses at the end. -/
theorem Mentioned.covers (hraw : s.rawOnly = false) (hnames : s.record.structNames.Nodup)
    (hbase : s.baseUses ⊆ v) (hu : u = (s.functionStubs (s.getterStubs v).2).2)
    (h : s.Mentioned u n) : s.Covers (s.typeStubs u).2 n := by
  have hfunctions := (functionStubs_records s).grows (s.getterStubs v).2
  rw [← hu] at hfunctions
  have hbase' : s.baseUses ⊆ u := hu ▸ baseUses_subset_functionStubs hbase
  have hgrows : u ⊆ (s.typeStubs u).2 := (projecting_end hraw hnames hbase').1.grows
  cases h with
  | @function f g n hf h hn =>
    have hmem := List.mem_filterMap.mpr ⟨f, hf, h⟩
    have hcovers := covers_functionStubs s (s.getterStubs v).2 g hmem n hn
    rw [← hu] at hcovers
    exact hcovers.mono hgrows
  | @getter w g n hw h hn =>
    have hmem := List.mem_filterMap.mpr ⟨w, hw, h⟩
    exact (covers_getterStubs s v g hmem n hn).mono (List.Subset.trans hfunctions hgrows)
  | @struct d n h hn =>
    refine ⟨hraw, fun {name} hname => ?_, fun {name} hname hblocked => ?_⟩
    · refine (mem_typeStubs_uses hraw hnames hbase').mpr (.inr ⟨d, h, n, hn, .inr ⟨name, hname, rfl⟩⟩)
    · obtain ⟨w, hw, hn⟩ := List.mem_flatMap.mp hn
      have hfree := isBlocked_of_free (isBlocking_of_free h.mem_free.1 h.mem_free.2 w hw) hn
      rw [isBlocked, Record.isAmong, show s.record.localName n = [name] from hname] at hfree
      simp [hblocked] at hfree

/-- The stubs of types are those of the enums in use and of the needed structs, each in order and
each struct with all its members, where the names in use at the end are those in use before and those
that needed structs mention. The rounds come to rest within as many as there are structs, and to ask
again changes nothing. Whatever the stubs mention is declared again if it is an enum, or a struct that
is not blocked or that is mentioned by its name alone. -/
theorem local_types_are_pruned_to_the_closure (hraw : s.rawOnly = false)
    (hnames : s.record.structNames.Nodup) (hbase : s.baseUses ⊆ v)
    (hu : u = (s.functionStubs (s.getterStubs v).2).2) :
    ((s.typeStubs u).1
      = (s.record.enums.filter fun d => [d.name] ∈ (s.typeStubs u).2).map enumStub ++
        (s.record.structs.filter fun d => [d.name] ∈ (s.typeStubs u).2 ∧ d.name ∉ s.blocked).map
          s.structText) ∧
    (∀ d ∈ s.record.structs, [d.name] ∈ (s.typeStubs u).2 ∧ d.name ∉ s.blocked ↔ s.Needs u d) ∧
    (∀ m, m ∈ (s.typeStubs u).2 ↔ m ∈ u ∨ ∃ d, s.Needs u d ∧ s.Mentions d m) ∧
    (∃ made, ∀ k, s.projectRounds (s.record.structs.length + k) [] u = (made, (s.typeStubs u).2) ∧
      s.projectRound s.record.structs made (s.typeStubs u).2 = (made, (s.typeStubs u).2)) ∧
    s.typeStubs (s.typeStubs u).2 = ((s.typeStubs u).1, (s.typeStubs u).2) ∧
    ∀ n name, s.Mentioned u n → n.head? = some name →
      (∀ d ∈ s.record.enums, d.name = name → [d.name] ∈ (s.typeStubs u).2) ∧
      ∀ d ∈ s.record.structs, d.name = name → d.name ∉ s.blocked ∨ n = [name] → s.Needs u d := by
  have hbase' : s.baseUses ⊆ u := hu ▸ baseUses_subset_functionStubs hbase
  have hneeds : ∀ d ∈ s.record.structs, s.Needs u d ↔ _ := fun d hd => needs_iff hraw hnames hbase' hd
  refine ⟨typeStubs_fst hraw hnames hbase', fun d hd => (hneeds d hd).symm,
    fun m => mem_typeStubs_uses hraw hnames hbase', ?_, typeStubs_again hraw hnames hbase', ?_⟩
  · obtain ⟨-, hidle, hmore⟩ := (Projecting.nil s u).rounds hraw hnames hbase' s.record.structs.length
      (by simp)
    rw [typeStubs_of_kept hraw]
    exact ⟨_, fun k => ⟨hmore k, projectRound_of_idle hnames (List.Subset.refl _) hidle⟩⟩
  · intro n name hmentioned hhead
    have hcovers := hmentioned.covers hraw hnames hbase hu
    have huse := hcovers.head hhead
    refine ⟨?_, ?_⟩
    · rintro d - rfl
      exact huse
    · rintro d hd rfl hfree
      exact (hneeds d hd).mpr ⟨huse, hfree.elim id fun hplain => hcovers.plain hplain⟩

/-- A contract with a function that returns a struct, which has a member of a struct declared
behind it with an enum in it. Another struct is never mentioned, and of a third, with a mapping,
only something within is. -/
def book : Record :=
  { path := ⟨.slash, ["Book.sol"]⟩
    isPresent := true
    name := some "Book"
    enums := [⟨"Mode", ["Off"]⟩, ⟨"Side", ["Buy", "Sell"]⟩]
    structs :=
      [⟨"Outer", [{ type := .array (.named ["Inner"]) none, name := some "inner" },
          { type := .elementary "string", name := some "label" }]⟩,
        ⟨"Unused", [{ type := .elementary "uint256", name := some "x" }]⟩,
        ⟨"Inner", [{ type := .named ["Book", "Side"], name := some "side" }]⟩,
        ⟨"Table", [{ type := .mapping (.elementary "uint256") (.named ["Mode"]), name := some "m" }]⟩]
    members :=
      [.function
        { name := some "top"
          visibility := .external
          parameters := [{ type := .named ["Table", "Key"], name := some "key", location := some .memory }]
          returns := [{ type := .named ["Outer"], location := some .memory }] }] }

/-- The names that the stubs of the functions of the contract use. -/
def bookUses : Uses :=
  ((book.scope false).functionStubs ((book.scope false).getterStubs (book.scope false).baseUses).2).2

/-- The struct that is returned, the one that it leads to and the enum in that one are declared
again, and nothing else is. -/
theorem book_declares_what_it_reaches :
    ((book.scope false).typeStubs bookUses).1
      = ["enum Side \x7b Buy, Sell \x7d", "struct Outer \x7b\n    Inner[] inner;\n    string label;\n\x7d",
        "struct Inner \x7b\n    Side side;\n\x7d"] ∧
    (∀ d ∈ book.structs, (book.scope false).Needs bookUses d ↔ d.name ∈ ["Outer", "Inner"]) ∧
    (book.scope false).typeStubs ((book.scope false).typeStubs bookUses).2
      = (book.scope false).typeStubs bookUses := by
  obtain ⟨-, hneeds, -, -, hagain, -⟩ := local_types_are_pruned_to_the_closure (s := book.scope false)
    rfl (by decide) (List.Subset.refl _) (rfl : bookUses = _)
  refine ⟨by decide +kernel, fun d hd => (hneeds d hd).symm.trans ?_, hagain⟩
  revert d
  decide +kernel

/-- The stub of the function mentions the struct with the mapping, by the head of a longer name,
and that struct is not declared again. -/
theorem blocked_head_is_not_declared_again :
    ((book.scope false).functionStubs ((book.scope false).getterStubs (book.scope false).baseUses).2).1
      = ["function top(Table.Key memory key) external returns (Outer memory);"] ∧
    (book.scope false).Mentioned bookUses ["Table", "Key"] ∧ "Table" ∈ book.structNames ∧
    ((book.scope false).typeStubs bookUses).1
      = ["enum Side \x7b Buy, Sell \x7d", "struct Outer \x7b\n    Inner[] inner;\n    string label;\n\x7d",
        "struct Inner \x7b\n    Side side;\n\x7d"] := by
  refine ⟨by decide +kernel, ?_, by decide, by decide +kernel⟩
  exact .function (f := book.exposedFunctions.head (by decide)) (List.head_mem _) rfl (by decide)

end Scope

end SolidityInterface
