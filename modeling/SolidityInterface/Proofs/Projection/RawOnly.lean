import SolidityInterface.Proofs.Projection.Registering

/-
  Outlines with built-in types only. Where types that a source declares are ruled out, a
  projection has the result it has otherwise if it records no name, and else none (`Sifts`);
  it leaves the uses as they are in any case.

  A name that is ruled out ends a list of parameters early, so that the two projections part
  at the first name. Up to there they agree, and behind it the one has no result whatever
  comes and the other has recorded something (`Sifts.bind`). A struct that is blocked has no
  text in either, and is not recorded.
-/

namespace SolidityInterface

namespace Scope

variable {r : Record} {u : Uses} {α β : Type}

/-- Whether a projection has the result of another if that one records nothing, and else none, and
adds nothing to the uses. -/
def Sifts (p q : StateM Uses (Option α)) : Prop :=
  ∀ u : Uses, q u = (if (p []).2 = [] then (p []).1 else none, u)

theorem Sifts.pure (o : Option α) : Sifts (Pure.pure o) (Pure.pure o) := by
  intro u
  show (o, u) = (if ([] : Uses) = [] then o else none, u)
  rw [if_pos rfl]

theorem Sifts.bind {p q : StateM Uses (Option α)} {f g : Option α → StateM Uses (Option β)}
    (h : Sifts p q) (hsome : ∀ a, Sifts (f (some a)) (g (some a))) (hf : ∀ o, Records (f o))
    (hf' : ∀ u, (f none u).1 = none) (hg : ∀ u, g none u = (none, u)) : Sifts (p >>= f) (q >>= g) := by
  intro u
  show g (q u).1 (q u).2
    = (if (f (p []).1 (p []).2).2 = [] then (f (p []).1 (p []).2).1 else none, u)
  rw [h u]
  by_cases hnames : (p []).2 = []
  · -- Nothing is recorded so far, so both go on with the same.
    rw [if_pos hnames, hnames]
    cases (p []).1 with
    | none => rw [hg, hf', ite_self]
    | some a => exact hsome a u
  · rw [if_neg hnames, hg, if_neg]
    intro hnil
    obtain ⟨m, hm⟩ := List.exists_mem_of_ne_nil _ hnames
    have hkept : m ∈ (f (p []).1 (p []).2).2 := (hf _).mem_snd.mpr (.inl hm)
    rw [hnil] at hkept
    cases hkept

theorem Sifts.map {p q : StateM Uses (Option α)} (h : Sifts p q) (g : α → β) :
    Sifts (p >>= fun o => Pure.pure (o.map g)) (q >>= fun o => Pure.pure (o.map g)) :=
  h.bind (fun _ => .pure _) (fun _ => .pure _) (fun _ => rfl) fun _ => rfl

theorem Sifts.both {γ : Type} {p p' : StateM Uses (Option α)} {q q' : StateM Uses (Option β)}
    {f : Option α → Option β → Option γ} (hp : Sifts p p') (hq : Sifts q q') (hrecords : Records q)
    (hleft : ∀ b, f none b = none) (hright : ∀ a, f (some a) none = none) :
    Sifts (p >>= fun a => q >>= fun b => Pure.pure (f a b))
      (p' >>= fun a => q' >>= fun b => Pure.pure (f a b)) := by
  refine hp.bind (fun a => ?_) (fun _ => .bind hrecords fun _ => .pure _) (fun _ => hleft _) fun u => ?_
  · exact hq.bind (fun _ => .pure _) (fun _ => .pure _) (fun _ => hright a)
      fun u => Prod.ext (hright a) rfl
  · refine Prod.ext (hleft _) ?_
    show (q' u).2 = u
    rw [hq u]

/-! ## Types -/

theorem memberText_sifts (t : TypeName) :
    Sifts ((r.scope false).memberText t) ((r.scope true).memberText t) := by
  induction t with
  | elementary name => exact .pure _
  | named n =>
    intro u
    show (none, u) = _
    cases hblocked : (r.scope false).isBlocked n with
    | true =>
      have hnone : (r.scope false).memberText (.named n) [] = (none, []) := by
        simp only [memberText, hblocked]
        rfl
      rw [hnone, if_pos rfl]
    | false =>
      have hstate : ((r.scope false).memberText (.named n) []).2 = ((r.scope false).use n []).2 := by
        simp only [memberText, hblocked]
        rfl
      rw [if_neg]
      rw [hstate]
      intro hnil
      have hmem : (r.scope false).localName n ∈ ((r.scope false).use n []).2 :=
        mem_use.mpr (.inr (.inl rfl))
      rw [hnil] at hmem
      cases hmem
  | array base length ih => exact ih.map _
  | mapping key value => exact .pure _

theorem locatedText_sifts (location : Option DataLocation) (t : TypeName) :
    Sifts ((r.scope false).locatedText location t) ((r.scope true).locatedText location t) := by
  induction t with
  | elementary name => exact (memberText_sifts (.elementary name)).map _
  | named n =>
    refine (memberText_sifts (.named n)).bind (fun text => ?_) (fun text => ?_) (fun _ => rfl) fun _ => rfl
    · cases location with
      | some l => exact .pure _
      | none =>
        show Sifts (if (r.scope false).isLocalStruct ((r.scope false).localName n) then _ else _)
          (if (r.scope false).isLocalStruct ((r.scope false).localName n) then _ else _)
        split <;> exact .pure _
    · cases text with
      | none => exact .pure _
      | some text =>
        cases location with
        | some l => exact .pure _
        | none =>
          dsimp only
          split <;> exact .pure _
  | array base length => exact (memberText_sifts (.array base length)).map _
  | mapping key value _ ih => exact ih

theorem typeText_sifts (t : TypeName) (location : Option DataLocation) :
    Sifts ((r.scope false).typeText t location) ((r.scope true).typeText t location) :=
  locatedText_sifts _ t

theorem keyTexts_sifts (t : TypeName) :
    Sifts ((r.scope false).keyTexts t) ((r.scope true).keyTexts t) := by
  induction t with
  | mapping key value _ ih =>
    rw [keyTexts, keyTexts]
    exact (typeText_sifts key none).both ih (keyTexts_records value) (fun _ => rfl) fun _ => rfl
  | _ => exact .pure _

theorem parameterTexts_sifts (vs : List Variable) :
    Sifts ((r.scope false).parameterTexts vs) ((r.scope true).parameterTexts vs) := by
  induction vs with
  | nil => exact .pure _
  | cons v vs ih =>
    refine (typeText_sifts v.type v.location).bind (fun text => ih.map _) (fun text => ?_) (fun _ => rfl)
      fun _ => rfl
    cases text with
    | none => exact .pure _
    | some text => exact .bind (parameterTexts_records vs) fun _ => .pure _

/-! ## Stubs -/

theorem functionStubs_eq_each (s : Scope) : s.functionStubs
    = each (fun f => s.tentatively (s.functionText f)) s.record.exposedFunctions := rfl

theorem getterStubs_eq_each (s : Scope) : s.getterStubs
    = each (fun v => s.tentatively (s.getterText v)) s.record.publicVariables := rfl

theorem functionText_sifts (f : FunctionDecl) :
    Sifts ((r.scope false).functionText f) ((r.scope true).functionText f) :=
  (parameterTexts_sifts _).both (parameterTexts_sifts _) (parameterTexts_records _) (fun _ => rfl)
    fun _ => rfl

theorem getterText_sifts (v : Variable) :
    Sifts ((r.scope false).getterText v) ((r.scope true).getterText v) :=
  (keyTexts_sifts _).both (typeText_sifts _ _) (typeText_records _ _) (fun _ => rfl) fun _ => rfl

/-- A projection that has a result records nothing just if there is no name in its types. -/
theorem AddsJust.recorded_eq_nil_iff {s : Scope} {p : StateM Uses (Option α)} {names : List DottedName}
    (h : s.AddsJust p names) (hsome : (p []).1.isSome = true) : (p []).2 = [] ↔ names = [] := by
  constructor
  · intro hnil
    refine List.eq_nil_iff_forall_not_mem.mpr fun n hn => ?_
    have hmem := (h [] hsome (s.localName n)).mpr (.inr ⟨n, hn, .inl rfl⟩)
    rw [hnil] at hmem
    cases hmem
  · rintro rfl
    refine List.eq_nil_iff_forall_not_mem.mpr fun m hm => ?_
    simpa using (h [] hsome m).mp hm

/-! ## Lists of stubs -/

/-- The texts of some items that have one, in order, each with the names that it records. -/
def traced (text : α → StateM Uses (Option String)) (l : List α) : List (String × Uses) :=
  l.filterMap fun a => (text a []).1.map (·, (text a []).2)

section Lists

variable {s : Scope} {p q : α → StateM Uses (Option String)}

theorem each_tentatively (hp : ∀ a, Records (p a)) (l : List α) (u : Uses) :
    (each (fun a => s.tentatively (p a)) l u).1 = (traced p l).map (·.1) := by
  have htext : ∀ a ∈ l, ∀ u, (s.tentatively (p a) u).1 = (p a []).1 := by
    intro a _ u
    rw [tentatively_fst]
    exact (hp a).fst _ _
  rw [each_eq htext, traced, List.map_filterMap]
  refine List.filterMap_congr fun a _ => ?_
  rw [Option.map_map]
  exact Option.map_id'.symm

theorem each_tentatively_of_sifts (h : ∀ a, Sifts (p a) (q a)) (l : List α) (u : Uses) :
    (each (fun a => s.tentatively (q a)) l u).1 = ((traced p l).filter (·.2 = [])).map (·.1) := by
  have htext : ∀ a ∈ l, ∀ u,
      (s.tentatively (q a) u).1 = if (p a []).2 = [] then (p a []).1 else none := by
    intro a _ u
    rw [tentatively_fst, h a]
  rw [each_eq htext]
  clear htext
  induction l with
  | nil => rfl
  | cons a l ih =>
    rw [traced] at ih ⊢
    cases hp : (p a []).1 with
    | none => simpa [hp] using ih
    | some text => by_cases hnames : (p a []).2 = [] <;> simpa [hp, hnames] using ih

theorem tentatively_snd_of_sifts {p q : StateM Uses (Option α)} (h : Sifts p q)
    (hbase : s.baseUses ⊆ u) : (s.tentatively q u).2 = u := by
  have hside : (q s.baseUses).2 = s.baseUses := by rw [h]
  rw [tentatively_eq_onSide, onSide, hside, Distinct.addAll_of_subset hbase, ite_self]

theorem each_tentatively_snd_of_sifts (h : ∀ a, Sifts (p a) (q a)) (hbase : s.baseUses ⊆ u)
    (l : List α) : (each (fun a => s.tentatively (q a)) l u).2 = u := by
  induction l with
  | nil => rfl
  | cons a l ih =>
    show (each (fun a => s.tentatively (q a)) l (s.tentatively (q a) u).2).2 = u
    rw [tentatively_snd_of_sifts (h a) hbase, ih]

end Lists

/-- Where types that a source declares are ruled out, the stubs of functions and of getters are,
with the same texts and in the same order, those that record no name otherwise; a base counts as a
name there. A stub records none just if there is none in its signature. The uses stay as they are,
and no type is declared again. -/
theorem raw_stubs_are_those_that_record_no_name (r : Record) :
    (∀ u, ((r.scope false).functionStubs u).1
        = (traced (r.scope false).functionText r.exposedFunctions).map (·.1) ∧
      ((r.scope true).functionStubs u).1
        = ((traced (r.scope false).functionText r.exposedFunctions).filter (·.2 = [])).map (·.1)) ∧
    (∀ u, ((r.scope false).getterStubs u).1
        = (traced (r.scope false).getterText r.publicVariables).map (·.1) ∧
      ((r.scope true).getterStubs u).1
        = ((traced (r.scope false).getterText r.publicVariables).filter (·.2 = [])).map (·.1)) ∧
    (∀ f, ((r.scope false).functionText f []).1.isSome = true →
      (((r.scope false).functionText f []).2 = [] ↔
        Variable.signaturePaths f.parameters ++ Variable.signaturePaths f.returns = [])) ∧
    (∀ v, ((r.scope false).getterText v []).1.isSome = true →
      (((r.scope false).getterText v []).2 = [] ↔ v.type.keyPaths ++ v.type.signaturePaths = [])) ∧
    (∀ u, (r.scope true).baseUses ⊆ u → ((r.scope true).getterStubs u).2 = u ∧
      ((r.scope true).functionStubs u).2 = u ∧ (r.scope true).typeStubs u = ([], u)) := by
  refine ⟨fun u => ⟨?_, ?_⟩, fun u => ⟨?_, ?_⟩, fun f => (functionText_adds _ f).recorded_eq_nil_iff,
    fun v => (getterText_adds _ v).recorded_eq_nil_iff, fun u hbase => ⟨?_, ?_, rfl⟩⟩
  · rw [functionStubs_eq_each]
    exact each_tentatively (functionText_records _) _ u
  · rw [functionStubs_eq_each]
    exact each_tentatively_of_sifts functionText_sifts _ u
  · rw [getterStubs_eq_each]
    exact each_tentatively (getterText_records _) _ u
  · rw [getterStubs_eq_each]
    exact each_tentatively_of_sifts getterText_sifts _ u
  · rw [getterStubs_eq_each]
    exact each_tentatively_snd_of_sifts getterText_sifts hbase _
  · rw [functionStubs_eq_each]
    exact each_tentatively_snd_of_sifts functionText_sifts hbase _

/-- A function with a parameter of the type of a base. -/
def vaultGive : FunctionDecl :=
  { name := some "give", visibility := .external, parameters := [{ type := .named ["Owned"] }] }

/-- A contract with a base, and with functions and variables of types that are built in, declared
elsewhere, or cannot be written. -/
def vault : Record :=
  { path := ⟨.slash, ["Vault.sol"]⟩
    isPresent := true
    name := some "Vault"
    bases := [["Owned"]]
    structs :=
      [⟨"Table", [{ type := .mapping (.elementary "uint256") (.elementary "bool"), name := some "rows" }]⟩]
    members :=
      [.state [{ type := .mapping (.named ["Key"]) (.elementary "address"), name := some "owners"
                 visibility := .pub }],
        .state [{ type := .mapping (.elementary "address") (.elementary "string"), name := some "labels"
                  visibility := .pub }],
        .function vaultGive,
        .function
          { name := some "lock", visibility := .external
            parameters := [{ type := .array (.named ["Table"]) none, location := some .memory }] },
        .function
          { name := some "sum", visibility := .external
            parameters :=
              [{ type := .mapping (.named ["Key"]) (.array (.elementary "int8") none), name := some "rows"
                 location := some .storage }] }] }

/-- The function with the base and the getter with a name in its key are dropped, and what is kept
otherwise stays. The keys of the mapping that is a parameter do not count, and the function that
cannot be written is in neither list. -/
theorem vault_keeps_built_in_types :
    ((vault.scope false).functionStubs [["Owned"]]).1
      = ["function give(Owned) external;", "function sum(int8[] memory rows) external;"] ∧
    ((vault.scope true).functionStubs [["Owned"]]).1 = ["function sum(int8[] memory rows) external;"] ∧
    ((vault.scope true).getterStubs [["Owned"]]).1
      = ["function labels(address) external view returns (string memory);"] ∧
    ((vault.scope false).functionText vaultGive []).2 ≠ [] ∧
    ((vault.scope true).functionStubs [["Owned"]]).2 = [["Owned"]] := by
  obtain ⟨hfunctions, hgetters, hrecorded, -, hraw⟩ := raw_stubs_are_those_that_record_no_name vault
  refine ⟨?_, ?_, ?_, ?_, (hraw [["Owned"]] (by decide)).2.1⟩
  · rw [(hfunctions _).1]
    decide +kernel
  · rw [(hfunctions _).2]
    decide +kernel
  · rw [(hgetters _).2]
    decide +kernel
  · rw [ne_eq, hrecorded vaultGive (by decide +kernel)]
    decide

end Scope

end SolidityInterface
