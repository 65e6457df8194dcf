import SolidityInterface.Proofs.Projection.Recording

/-
  Data locations. A type in a signature has the text that it has as the type of a member, with
  one location behind it or none. A mapping stands for the values that it leads to, and what
  these are decides: strings, bytes, arrays and local structs always carry a location, any other
  named type if one is given, and other elementary types never.

  1. A mapping has the text of its values (`locatedText_valueType`).
  2. The text of a type that is no mapping is that of a member and the location behind it
     (`typeText_eq_memberText`).
  3. The text of a member is the text of a type, which has no location at any depth
     (`memberText_eq`), and so are the lines of a struct (`structStub_eq_lines`).
-/

namespace SolidityInterface

/-- The type of the values that a type leads to through its outer mappings. -/
def TypeName.valueType : TypeName → TypeName
  | mapping _ value => value.valueType
  | t => t

theorem TypeName.valueType_ne_mapping (t key value : TypeName) : t.valueType ≠ .mapping key value := by
  induction t with
  | mapping _ _ _ ih => exact ih
  | _ => simp [valueType]

namespace Scope

variable {s : Scope} {location : Option DataLocation}

/-- Whether a type that is no mapping carries a location in a signature, if the source gives this
one or none. -/
def CarriesLocation (s : Scope) (location : Option DataLocation) : TypeName → Prop
  | .elementary name => name = "string" ∨ name = "bytes"
  | .named path => location ≠ none ∨ ∃ d ∈ s.record.structs, s.localName path = [d.name]
  | .array _ _ => True
  | .mapping _ _ => False

instance (s : Scope) (location : Option DataLocation) : DecidablePred (s.CarriesLocation location)
  | .elementary name => inferInstanceAs (Decidable (name = "string" ∨ name = "bytes"))
  | .named path => inferInstanceAs (Decidable (location ≠ none ∨ ∃ d ∈ s.record.structs, s.localName path = [d.name]))
  | .array _ _ => inferInstanceAs (Decidable True)
  | .mapping _ _ => inferInstanceAs (Decidable False)

/-- The location behind a type in a signature, with the blank before it. -/
def locationText (s : Scope) (location : Option DataLocation) (t : TypeName) : String :=
  if s.CarriesLocation location t then
    if location = some .calldata then " calldata" else " memory"
  else ""

/-! ## Types in signatures -/

theorem locatedText_valueType (location : Option DataLocation) (t : TypeName) (u : Uses) :
    s.locatedText location t u = s.locatedText location t.valueType u := by
  induction t with
  | mapping key value _ ih => exact ih
  | _ => rfl

theorem isLocalStruct_iff {n : DottedName} :
    s.isLocalStruct n = true ↔ ∃ d ∈ s.record.structs, n = [d.name] := by
  simp [isLocalStruct, Record.structNames]

/-- The location that is written where one must be. -/
theorem located_eq (hlocation : ∀ w, location ≠ some (.other w)) (text : String) :
    located text ((location.map (·.external)).getD .fallback)
      = text ++ if location = some .calldata then " calldata" else " memory" := by
  rw [located, String.append_assoc]
  cases location with
  | none => rfl
  | some l =>
    cases l with
    | other w => exact absurd rfl (hlocation w)
    | storage => rfl
    | memory => rfl
    | calldata => rfl

theorem append_locationText {t : TypeName} (hlocation : ∀ w, location ≠ some (.other w))
    (text : String) : text ++ s.locationText location t
      = if s.CarriesLocation location t then located text ((location.map (·.external)).getD .fallback)
        else text := by
  rw [located_eq hlocation, locationText]
  split
  · rfl
  · exact String.append_empty

/-- The text of a type that is no mapping is that of a member, with a location behind it or none. -/
theorem locatedText_eq_memberText (hlocation : ∀ w, location ≠ some (.other w)) {t : TypeName}
    (ht : ∀ key value, t ≠ .mapping key value) (u : Uses) :
    s.locatedText (location.map (·.external)) t u
      = ((s.memberText t u).1.map (· ++ s.locationText location t), (s.memberText t u).2) := by
  simp only [append_locationText hlocation]
  cases t with
  | elementary name =>
    refine Prod.ext ?_ rfl
    refine congrArg (Option.map · (s.memberText (.elementary name) u).1) (funext fun text => ?_)
    by_cases h : name = "string" ∨ name = "bytes" <;> simp [CarriesLocation, h]
  | named path =>
    rw [locatedText]
    refine Prod.ext ?_ ?_
    · rw [bind_fst]
      cases (s.memberText (.named path) u).1 with
      | none => rfl
      | some text =>
        cases location with
        | some l =>
          have hcarries : s.CarriesLocation (some l) (.named path) := .inl (by simp)
          simp only [Option.map_some, if_pos hcarries]
          rfl
        | none =>
          -- Without a location the name decides: only a local struct is known to need one.
          have hcarries : s.CarriesLocation none (.named path) ↔ s.isLocalStruct (s.localName path) = true := by
            simp [CarriesLocation, isLocalStruct_iff]
          simp only [Option.map_none, Option.map_some, hcarries]
          split <;> rfl
    · rw [bind_snd]
      cases (s.memberText (.named path) u).1 with
      | none => rfl
      | some text =>
        cases location with
        | some l => rfl
        | none =>
          dsimp only [Option.map_none]
          split <;> rfl
  | array base length => rfl
  | mapping key value => exact absurd rfl (ht key value)

/-- A type has the text of its values as members, with a location behind it or none, and the same
names count as used. -/
theorem typeText_eq_memberText (hlocation : ∀ w, location ≠ some (.other w)) (t : TypeName) (u : Uses) :
    s.typeText t location u
      = ((s.memberText t.valueType u).1.map (· ++ s.locationText location t.valueType),
          (s.memberText t.valueType u).2) := by
  rw [typeText, locatedText_valueType]
  exact locatedText_eq_memberText hlocation t.valueType_ne_mapping u

/-! ## Members of structs -/

/-- The line of a member of a struct that has a type without a location. -/
def typedLine (name : Option String) (t : TypeName) : String :=
  "    " ++ t.render ++ " " ++ name.getD "" ++ ";"

theorem memberLines_eq_types (vs : List Variable) (u : Uses) :
    (s.memberLines vs u).1 = vs.mapM fun v => (s.memberType? v.type).map (typedLine v.name) := by
  induction vs generalizing u with
  | nil => rfl
  | cons v vs ih =>
    rw [memberLines, bind_fst, memberText_eq, List.mapM_cons]
    cases s.memberType? v.type with
    | none => rfl
    | some t =>
      have hrest := ih (s.memberText v.type u).2
      show Option.map _ (s.memberLines vs _).1 = _
      rw [hrest]
      cases vs.mapM fun v => (s.memberType? v.type).map (typedLine v.name) <;> rfl

theorem structStub_eq_lines (d : StructDecl) (u : Uses) :
    (s.structStub d u).1 = (d.members.mapM fun v => (s.memberType? v.type).map (typedLine v.name)).map
      fun lines => "\n".intercalate (["struct " ++ d.name ++ " \x7b"] ++ lines ++ ["\x7d"]) := by
  rw [structStub, tentatively_fst, bind_fst, memberLines_eq_types]
  rfl

/-! ## Locations -/

/-- A type has a text in a signature just if its values have one as members. It is that text, with
one location behind it just if the values carry one: `calldata` if the source says so, and
`memory` if it says so, says nothing, or says `storage`. The same names count as used. The
elements of arrays and the members of structs have the texts of types, and no location at any depth. -/
theorem locations_stand_behind_values (s : Scope) (t : TypeName) {location : Option DataLocation}
    (hlocation : ∀ w, location ≠ some (.other w)) (u : Uses) :
    ((s.typeText t location u).1 = none ↔ (s.memberText t.valueType u).1 = none) ∧
    (∀ text, (s.memberText t.valueType u).1 = some text →
      (s.typeText t location u).1 = some (text ++
        if s.CarriesLocation location t.valueType then
          if location = some .calldata then " calldata" else " memory"
        else "")) ∧
    (s.typeText t location u).2 = (s.memberText t.valueType u).2 ∧
    (s.memberText t u).1 = (s.memberType? t).map TypeName.render ∧
    ∀ d : StructDecl, (s.structStub d u).1
      = (d.members.mapM fun v => (s.memberType? v.type).map (typedLine v.name)).map
        fun lines => "\n".intercalate (["struct " ++ d.name ++ " \x7b"] ++ lines ++ ["\x7d"]) := by
  have htext := typeText_eq_memberText (s := s) hlocation t u
  refine ⟨?_, ?_, ?_, memberText_eq t u, fun d => structStub_eq_lines d u⟩
  · rw [htext, Option.map_eq_none_iff]
  · intro text hmember
    rw [htext, hmember]
    rfl
  · rw [htext]

/-- The record of a market with a struct of its own. -/
def market : Record :=
  { path := ⟨.slash, ["Market.sol"]⟩
    isPresent := true
    name := some "Market"
    structs :=
      [⟨"Order", [{ type := .elementary "uint256", name := some "id" },
        { type := .array (.elementary "string") none, name := some "notes" }]⟩] }

/-- The orders of each address, as they lie in storage. -/
def ordersByAddress : TypeName :=
  .mapping (.elementary "address") (.array (.named ["Market", "Order"]) (some "3"))

/-- In a signature the orders lie in memory, and neither they nor their notes have a location. -/
theorem orders_lie_in_memory :
    (∀ w, some DataLocation.storage ≠ some (.other w)) ∧
      ((market.scope false).typeText ordersByAddress (some .storage) []).1 = some "Order[3] memory" ∧
      ((market.scope false).typeText ordersByAddress (some .storage) []).2 = [["Order"]] ∧
      ∀ d ∈ market.structs, ((market.scope false).structStub d []).1
        = some "struct Order \x7b\n    uint256 id;\n    string[] notes;\n\x7d" := by
  have hstorage : ∀ w, some DataLocation.storage ≠ some (.other w) := by simp
  obtain ⟨-, htext, hnames, -, hstruct⟩ :=
    locations_stand_behind_values (market.scope false) ordersByAddress hstorage []
  refine ⟨hstorage, htext "Order[3]" (by decide +kernel), hnames.trans (by decide +kernel), ?_⟩
  intro d hd
  obtain rfl := List.mem_singleton.mp hd
  rw [hstruct]
  decide +kernel

end Scope

end SolidityInterface
