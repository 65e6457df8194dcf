import SolidityInterface.Proofs.Declaration.WellFormed
import SolidityInterface.Proofs.Projection.Closed

/-
  What well-formed declarations become in an interface can be printed and read again, as
  long as the lengths of its arrays are read as they are. The other ways to fail are
  gone: a projection has no mappings, no function types and no unnamed functions. So
  the outline of a record declares members (`Outline.exists_declares`), all of which can
  be printed (`Outline.Declares.printable`).
-/

namespace SolidityInterface

open Token (Kind)

namespace Scope

variable {s : Scope}

theorem memberType?_printable {t t' : TypeName} (ht : t.WellFormed) (h : s.memberType? t = some t')
    (hlengths : ∀ l ∈ t'.lengths, isInline l = true) : t'.Printable := by
  induction t generalizing t' with
  | elementary name =>
    rw [memberType?] at h
    split at h
    · simp at h
    · rename_i hname
      cases h
      exact ht.resolve_left hname
  | named path =>
    rw [memberType?] at h
    split at h
    · simp at h
    · cases h
      obtain ⟨hne, hpath⟩ := ht
      show s.localName path ≠ [] ∧ ∀ n ∈ s.localName path, IsName n
      unfold localName Record.localName
      split
      · split
        · exact ⟨by simp, fun n hn => hpath n (by simp at hn ⊢; exact .inr hn)⟩
        · exact ⟨hne, hpath⟩
      · exact ⟨hne, hpath⟩
  | array base length ih =>
    rw [memberType?] at h
    obtain ⟨base', hbase, rfl⟩ := Option.map_eq_some_iff.mp h
    simp only [TypeName.lengths, List.mem_append] at hlengths
    refine ⟨ih ht.1 hbase fun l hl => hlengths l (.inl hl), ht.2, ?_⟩
    cases length with
    | none => rfl
    | some text => exact hlengths text (.inr (by simp))
  | mapping key value => simp [memberType?] at h

theorem signature?_printable {t t' : TypeName} {location location' : Option DataLocation}
    (ht : t.WellFormed) (hlocation : ∀ w, location ≠ some (.other w))
    (h : s.signature? location t = some (t', location'))
    (hlengths : ∀ l ∈ t'.lengths, isInline l = true) :
    t'.Printable ∧ ∀ w, location' ≠ some (.other w) := by
  have hdefault : ∀ w, some (location.getD .fallback) ≠ some (DataLocation.other w) := by
    intro w
    cases location with
    | none => simp [DataLocation.fallback]
    | some l => exact hlocation w
  induction t with
  | elementary name =>
    obtain ⟨u, hu, he⟩ := Option.map_eq_some_iff.mp h
    obtain ⟨rfl, rfl⟩ := Prod.mk.inj he
    refine ⟨memberType?_printable ht hu hlengths, fun w => ?_⟩
    split
    · exact hdefault w
    · simp
  | named n =>
    obtain ⟨u, hu, he⟩ := Option.map_eq_some_iff.mp h
    obtain ⟨rfl, rfl⟩ := Prod.mk.inj he
    refine ⟨memberType?_printable ht hu hlengths, fun w => ?_⟩
    cases location with
    | none =>
      simp only [Option.none_or]
      split <;> simp [DataLocation.fallback]
    | some l => exact hlocation w
  | array base length ih =>
    obtain ⟨u, hu, he⟩ := Option.map_eq_some_iff.mp h
    obtain ⟨rfl, rfl⟩ := Prod.mk.inj he
    exact ⟨memberType?_printable ht hu hlengths, hdefault⟩
  | mapping key value _ ih => exact ih ht.2 h

theorem parameter?_printable {v v' : Variable} (hv : v.WellFormed) (h : s.parameter? v = some v')
    (hlengths : ∀ l ∈ v'.type.lengths, isInline l = true) : v'.Printable := by
  obtain ⟨⟨t, location⟩, he, rfl⟩ := Option.map_eq_some_iff.mp h
  have hlocation : ∀ w, v.location.map (·.external) ≠ some (.other w) := by
    intro w hw
    obtain ⟨l, hl, hexternal⟩ := Option.map_eq_some_iff.mp hw
    cases l <;> simp [DataLocation.external] at hexternal
    exact hv.location _ hl
  obtain ⟨htype, hlocation'⟩ := signature?_printable hv.type hlocation he hlengths
  exact ⟨htype, hv.name, hlocation', rfl⟩

theorem mapM_parameter?_printable {vs vs' : List Variable} (hvs : ∀ v ∈ vs, v.WellFormed)
    (h : vs.mapM s.parameter? = some vs') (hlengths : ∀ v ∈ vs', ∀ l ∈ v.type.lengths, isInline l = true) :
    ∀ v ∈ vs', v.Printable := by
  have hall := forall₂_of_mapM h
  clear h
  induction hall with
  | nil => simp
  | @cons v v' vs vs' hv _ ih =>
    rintro w (_ | ⟨_, hw⟩)
    · exact parameter?_printable (hvs v (by simp)) hv (hlengths v' (by simp))
    · exact ih (fun u hu => hvs u (by simp [hu])) (fun u hu => hlengths u (by simp [hu])) w hw

theorem keys?_printable {t : TypeName} {vs : List Variable} (ht : t.WellFormed)
    (h : s.keys? t = some vs) (hlengths : ∀ v ∈ vs, ∀ l ∈ v.type.lengths, isInline l = true) :
    ∀ v ∈ vs, v.Printable := by
  induction t generalizing vs with
  | elementary name =>
    obtain rfl : [] = vs := by simpa [keys?] using h
    simp
  | named n =>
    obtain rfl : [] = vs := by simpa [keys?] using h
    simp
  | array base length =>
    obtain rfl : [] = vs := by simpa [keys?] using h
    simp
  | mapping key value _ ih =>
    rw [keys?] at h
    split at h
    · rename_i k ks hk hks
      cases h
      have hkey : Variable.WellFormed { type := key } := ⟨ht.1, by simp, by simp⟩
      rintro v (_ | ⟨_, hv⟩)
      · exact parameter?_printable hkey hk (hlengths k (by simp))
      · exact ih ht.2 hks (fun u hu => hlengths u (by simp [hu])) v hv
    · simp at h

theorem function?_printable {f f' : FunctionDecl} (hf : f.WellFormed) (hname : f.name.isSome = true)
    (h : s.function? f = some f') (hlengths : ∀ l ∈ (Member.function f').lengths, isInline l = true) :
    f'.Printable := by
  rw [function?] at h
  split at h
  · rename_i ps rs hps hrs
    cases h
    obtain ⟨n, hn⟩ := Option.isSome_iff_exists.mp hname
    simp only [Member.lengths, List.flatMap_append, List.mem_append, List.mem_flatMap] at hlengths
    have hparameters := mapM_parameter?_printable hf.parameters hps
      fun v hv l hl => hlengths l (.inl ⟨v, hv, hl⟩)
    have hreturns := mapM_parameter?_printable hf.returns hrs
      fun v hv l hl => hlengths l (.inr ⟨v, hv, hl⟩)
    exact ⟨⟨n, hn, hf.name n hn⟩, hparameters, hreturns, rfl⟩
  · simp at h

theorem getter?_printable {v : Variable} {f : FunctionDecl} (hv : v.Named) (h : s.getter? v = some f)
    (hlengths : ∀ l ∈ (Member.function f).lengths, isInline l = true) : f.Printable := by
  obtain ⟨hwell, hname⟩ := hv
  obtain ⟨n, hn⟩ := Option.isSome_iff_exists.mp hname
  rw [getter?] at h
  split at h
  · rename_i ks value hks hvalue
    cases h
    simp only [Member.lengths, List.flatMap_append, List.mem_append, List.mem_flatMap] at hlengths
    have hkeys := keys?_printable hwell.type hks fun u hu l hl => hlengths l (.inl ⟨u, hu, hl⟩)
    have hplain : Variable.WellFormed { type := v.type, location := v.location } :=
      ⟨hwell.type, by simp, hwell.location⟩
    have hreturn := parameter?_printable hplain hvalue
      fun l hl => hlengths l (.inr ⟨value, by simp, hl⟩)
    exact ⟨⟨n, hn, hwell.name n hn⟩, hkeys, by simpa using hreturn, rfl⟩
  · simp at h

theorem struct?_printable {d d' : StructDecl} (hd : d.WellFormed) (h : s.struct? d = some d')
    (hlengths : ∀ l ∈ (Member.struct d').lengths, isInline l = true) : d'.Printable := by
  obtain ⟨members, hmembers, rfl⟩ := Option.map_eq_some_iff.mp h
  have hall := forall₂_of_mapM hmembers
  simp only [Member.lengths, List.mem_flatMap] at hlengths
  refine ⟨hd.name, ?_⟩
  have hnamed := hd.members
  clear h hmembers hd
  show ∀ v ∈ members, _
  generalize d.members = vs at hall hnamed
  induction hall with
  | nil => simp
  | @cons v v' vs vs' hv _ ih =>
    rintro w (_ | ⟨_, hw⟩)
    · obtain ⟨t, ht, rfl⟩ := Option.map_eq_some_iff.mp hv
      obtain ⟨hwell, hname⟩ := hnamed v (by simp)
      have htype := memberType?_printable hwell.type ht
        fun l hl => hlengths l ⟨{ type := t, name := v.name }, by simp, hl⟩
      exact ⟨⟨htype, hwell.name, by simp, rfl⟩, rfl, hname⟩
    · exact ih (fun l ⟨u, hu, hl⟩ => hlengths l ⟨u, by simp [hu], hl⟩)
        (fun u hu => hnamed u (by simp [hu])) w hw

end Scope

namespace Record

theorem WellFormed.exposed {r : Record} (hr : r.WellFormed) {f : FunctionDecl}
    (hf : f ∈ r.exposedFunctions) : f.WellFormed ∧ f.name.isSome = true := by
  obtain ⟨m, hm, hf⟩ := List.mem_filterMap.mp hf
  cases m with
  | function g =>
    simp only [Option.ite_none_right_eq_some, Option.some.injEq] at hf
    obtain ⟨hexposed, rfl⟩ := hf
    refine ⟨hr.members _ hm, ?_⟩
    simp only [FunctionDecl.isExposed, Bool.and_eq_true] at hexposed
    cases hn : g.name with
    | none => simp [hn] at hexposed
    | some n => rfl
  | _ => simp at hf

theorem WellFormed.publicVariable {r : Record} (hr : r.WellFormed) {v : Variable}
    (hv : v ∈ r.publicVariables) : v.Named := by
  obtain ⟨m, hm, hv⟩ := List.mem_filterMap.mp hv
  cases m with
  | state vs =>
    obtain ⟨hhead, -⟩ := Option.filter_eq_some_iff.mp hv
    exact hr.members _ hm v (List.mem_of_head? hhead)
  | _ => simp at hv

end Record

theorem Variable.WellFormed.name_ne {v : Variable} (hv : v.WellFormed) : v.name ≠ some "" := by
  intro h
  obtain ⟨c, rest, hempty, -⟩ := (hv.name "" h).1
  simp at hempty

theorem Record.WellFormed.names_ne {r : Record} (hr : r.WellFormed) {f : FunctionDecl}
    (hf : f ∈ r.exposedFunctions) :
    (∀ v ∈ f.parameters, v.name ≠ some "") ∧ ∀ v ∈ f.returns, v.name ≠ some "" := by
  obtain ⟨hwell, -⟩ := hr.exposed hf
  exact ⟨fun v hv => (hwell.parameters v hv).name_ne, fun v hv => (hwell.returns v hv).name_ne⟩

theorem Record.WellFormed.members_named {r : Record} (hr : r.WellFormed) :
    ∀ d ∈ r.structs, ∀ v ∈ d.members, v.name.isSome = true :=
  fun d hd v hv => ((hr.structs d hd).members v hv).2

namespace Member

/-- The name of a struct or an enum that is a member. -/
def typeName? : Member → Option String
  | .struct d => some d.name
  | .enum d => some d.name
  | _ => none

theorem filterMap_typeName? (enums : List EnumDecl) (structs : List StructDecl)
    (getters functions : List FunctionDecl) :
    (enums.map Member.enum ++ structs.map Member.struct ++ getters.map Member.function
        ++ functions.map Member.function).filterMap typeName?
      = enums.map (·.name) ++ structs.map (·.name) := by
  have hnone : ∀ l : List FunctionDecl, (l.map Member.function).filterMap typeName? = [] := by
    simp [typeName?]
  have hall : ∀ {α : Type} (f : α → Member) (name : α → String) (l : List α),
      (∀ a, typeName? (f a) = some (name a)) → (l.map f).filterMap typeName? = l.map name := by
    intro α f name l h
    rw [List.filterMap_map, ← List.filterMap_eq_map]
    exact List.filterMap_congr fun a _ => h a
  rw [List.filterMap_append, List.filterMap_append, List.filterMap_append, hnone, hnone,
    hall _ (·.name) _ fun _ => rfl, hall _ (·.name) _ fun _ => rfl, List.append_nil, List.append_nil]

end Member

namespace Outline

/-- The stubs of a record are the texts of what its declarations become. What they mention
is covered by the uses of the outline. -/
theorem ofRecord_eq {r : Record} (hr : r.WellFormed) (rawOnly : Bool) :
    ((ofRecord rawOnly r).getters
        = (r.publicVariables.filterMap (r.scope rawOnly).getter?).map FunctionDecl.render ∧
      ∀ f ∈ r.publicVariables.filterMap (r.scope rawOnly).getter?, ∀ n ∈ (Member.function f).paths,
        (r.scope rawOnly).Covers (ofRecord rawOnly r).uses n) ∧
    ((ofRecord rawOnly r).functions
        = (r.exposedFunctions.filterMap (r.scope rawOnly).function?).map FunctionDecl.render ∧
      ∀ f ∈ r.exposedFunctions.filterMap (r.scope rawOnly).function?, ∀ n ∈ (Member.function f).paths,
        (r.scope rawOnly).Covers (ofRecord rawOnly r).uses n) ∧
    ∃ structs : List StructDecl,
      (ofRecord rawOnly r).types
        = ((r.scope rawOnly).keptEnums (ofRecord rawOnly r).uses).map EnumDecl.render
          ++ structs.map StructDecl.render ∧
      (∀ d ∈ structs, (∃ origin ∈ r.structs, (r.scope rawOnly).struct? origin = some d) ∧
        ∀ n ∈ (Member.struct d).paths, (r.scope rawOnly).Covers (ofRecord rawOnly r).uses n) ∧
      (structs.map (·.name)).Sublist (r.structs.map (·.name)) ∧
      ∀ name, name ∈ structs.map (·.name)
        ↔ (r.scope rawOnly).KeepsStruct (ofRecord rawOnly r).uses name := by
  have hnames : ∀ f ∈ (r.scope rawOnly).record.exposedFunctions, _ := fun f hf => hr.names_ne hf
  have hmembers : ∀ d ∈ (r.scope rawOnly).record.structs, _ := hr.members_named
  -- The stubs are made one kind after the other, and what is covered stays covered.
  have hlast := Scope.typeStubs_grows hmembers
  refine ⟨⟨Scope.getterStubs_eq _, fun f hf n hn => ?_⟩,
    ⟨Scope.functionStubs_eq hnames _, fun f hf n hn => ?_⟩, Scope.typeStubs_eq hmembers _⟩
  · have hcovers := Scope.covers_getterStubs (r.scope rawOnly) (r.scope rawOnly).baseUses f hf n hn
    exact (hcovers.mono ((Scope.functionStubs_records _).grows _)).mono (hlast _)
  · exact (Scope.covers_functionStubs (r.scope rawOnly) _ f hf n hn).mono (hlast _)

/-- Whether some members are those of the interface of a record: the enums in use, what
some structs become, the getters, and what the functions become. The stubs of types
are the texts of the first two. -/
def Declares (rawOnly : Bool) (r : Record) (members : List Member) : Prop :=
  ∃ structs : List StructDecl,
    members = ((r.scope rawOnly).keptEnums (ofRecord rawOnly r).uses).map .enum
      ++ structs.map .struct
      ++ (r.publicVariables.filterMap (r.scope rawOnly).getter?).map .function
      ++ (r.exposedFunctions.filterMap (r.scope rawOnly).function?).map .function ∧
    (∀ d ∈ structs, ∃ origin ∈ r.structs, (r.scope rawOnly).struct? origin = some d) ∧
    (structs.map (·.name)).Sublist (r.structs.map (·.name)) ∧
    (ofRecord rawOnly r).types
      = ((r.scope rawOnly).keptEnums (ofRecord rawOnly r).uses).map EnumDecl.render
        ++ structs.map StructDecl.render

/-- Whether the interface of a record declares a type again: an enum that its stubs use, or
a struct that they use and that can be declared again. -/
def Redeclares (rawOnly : Bool) (r : Record) (name : String) : Prop :=
  rawOnly = false ∧ [name] ∈ (ofRecord rawOnly r).uses ∧
    (name ∈ r.enumNames ∨
      ∃ d ∈ r.structs, d.name = name ∧ ((r.scope rawOnly).struct? d).isSome = true)

/-- The interface of a record has members. The names in their types are covered, and the
types among them are those that the interface declares again. -/
theorem exists_declares {r : Record} (hr : r.WellFormed) (rawOnly : Bool) :
    ∃ members, Declares rawOnly r members ∧
      (∀ m ∈ members, ∀ n ∈ m.paths, (r.scope rawOnly).Covers (ofRecord rawOnly r).uses n) ∧
      ∀ name, name ∈ members.filterMap Member.typeName? ↔ Redeclares rawOnly r name := by
  obtain ⟨⟨-, hgetters⟩, ⟨-, hfunctions⟩, structs, htypes, hstructs, hsublist, hnames⟩ :=
    ofRecord_eq hr rawOnly
  refine ⟨_, ⟨structs, rfl, fun d hd => (hstructs d hd).1, hsublist, htypes⟩, ?_, ?_⟩
  · intro m hm
    simp only [List.mem_append, List.mem_map] at hm
    rcases hm with ((⟨d, -, rfl⟩ | ⟨d, hd, rfl⟩) | ⟨f, hf, rfl⟩) | ⟨f, hf, rfl⟩
    · simp [Member.paths]
    · exact (hstructs d hd).2
    · exact hgetters f hf
    · exact hfunctions f hf
  · intro name
    have hkept : _ ↔ _ ∧ [name] ∈ (ofRecord rawOnly r).uses ∧ _ :=
      Scope.mem_keptEnums (s := r.scope rawOnly)
    rw [Member.filterMap_typeName?, List.mem_append, hnames, hkept, Scope.KeepsStruct, ← and_or_left,
      ← and_or_left]
    rfl

/-- A type among the members of an interface is an enum of the record, or what a struct of
the record becomes. -/
theorem Declares.exists_of_typeName {rawOnly : Bool} {r : Record} {members : List Member}
    (h : Declares rawOnly r members) {name : String}
    (hname : name ∈ members.filterMap Member.typeName?) :
    name ∈ r.enumNames ∨ ∃ origin ∈ r.structs, ∃ d, (r.scope rawOnly).struct? origin = some d ∧
      d.name = name ∧ d.render ∈ (ofRecord rawOnly r).types := by
  obtain ⟨structs, rfl, horigins, -, htypes⟩ := h
  rw [Member.filterMap_typeName?, List.mem_append] at hname
  rcases hname with hname | hname
  · exact .inl (Scope.mem_keptEnums.mp hname).2.2
  · obtain ⟨d, hd, rfl⟩ := List.mem_map.mp hname
    obtain ⟨origin, horigin, hstruct⟩ := horigins d hd
    refine .inr ⟨origin, horigin, d, hstruct, rfl, ?_⟩
    rw [htypes]
    exact List.mem_append_right _ (List.mem_map_of_mem hd)

theorem Declares.printable {rawOnly : Bool} {r : Record} {members : List Member}
    (h : Declares rawOnly r members) (hr : r.WellFormed)
    (hlengths : ∀ m ∈ members, ∀ l ∈ m.lengths, isInline l = true) : ∀ m ∈ members, m.Printable := by
  obtain ⟨structs, rfl, horigins, -, -⟩ := h
  intro m hm
  have hl := hlengths m hm
  simp only [List.mem_append, List.mem_map, List.mem_filterMap] at hm
  rcases hm with ((⟨d, hd, rfl⟩ | ⟨d, hd, rfl⟩) | ⟨f, ⟨v, hv, hf⟩, rfl⟩) | ⟨f, ⟨g, hg, hf⟩, rfl⟩
  · have hmem : d ∈ r.enums := by
      unfold Scope.keptEnums at hd
      split at hd
      · simp at hd
      · exact (List.mem_filter.mp hd).1
    obtain ⟨hname, hmembers⟩ := hr.enums d hmem
    exact ⟨hname, hmembers⟩
  · obtain ⟨origin, horigin, hstruct⟩ := horigins d hd
    exact Scope.struct?_printable (hr.structs origin horigin) hstruct hl
  · exact Scope.getter?_printable (hr.publicVariable hv) hf hl
  · obtain ⟨hwell, hname⟩ := hr.exposed hg
    exact Scope.function?_printable hwell hname hf hl

end Outline

end SolidityInterface
