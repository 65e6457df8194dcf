import SolidityInterface.Proofs.Projection.Locations

/-
  Getters and the accessors that the compiler makes. An accessor takes one parameter for each
  layer of the type of its variable, from the outside in: the key of a mapping, and an index into
  an array. It gives what is left behind all layers. A stub takes the keys of the outer mappings
  alone, and gives what is left behind those.

  1. A stub that is kept has the texts of the keys and of the values (`getterStub_eq_viewText`).
  2. An array that has a text has mappings in no layer, so its accessor takes indices and has a
     text too (`mem_accessorKeys_of_hasText`, `hasText_accessorValue`).
  3. One more parameter shows in the text (`viewText_ne_of_more_keys`), so a stub is the accessor
     just if the values are no array.
-/

namespace SolidityInterface

namespace TypeName

/-- The keys of the outer mappings of a type. -/
def mappingKeys : TypeName → List TypeName
  | mapping key value => key :: value.mappingKeys
  | _ => []

/-- The types of the parameters of an accessor, one a layer: the key of a mapping, or the index
into an array. -/
def accessorKeys : TypeName → List TypeName
  | mapping key value => key :: value.accessorKeys
  | array base _ => elementary "uint256" :: base.accessorKeys
  | _ => []

/-- The type of what an accessor gives: what is left behind all layers. -/
def accessorValue : TypeName → TypeName
  | mapping _ value => value.accessorValue
  | array base _ => base.accessorValue
  | t => t

/-- Whether a type is an array. Strings and bytes are none. -/
def IsArray (t : TypeName) : Prop := ∃ base length, t = array base length

theorem accessorKeys_eq (t : TypeName) : t.accessorKeys = t.mappingKeys ++ t.valueType.accessorKeys := by
  induction t with
  | mapping key value _ ih => exact congrArg (key :: ·) ih
  | _ => rfl

theorem accessorValue_eq (t : TypeName) : t.accessorValue = t.valueType.accessorValue := by
  induction t with
  | mapping key value _ ih => exact ih
  | _ => rfl

/-- Values that are no array have no layers left. -/
theorem accessor_of_not_isArray {t : TypeName} (h : ¬ t.valueType.IsArray) :
    t.valueType.accessorKeys = [] ∧ t.valueType.accessorValue = t.valueType := by
  cases hvalue : t.valueType with
  | elementary name => exact ⟨rfl, rfl⟩
  | named path => exact ⟨rfl, rfl⟩
  | array base length => exact absurd ⟨base, length, hvalue⟩ h
  | mapping key value => exact absurd hvalue (t.valueType_ne_mapping key value)

end TypeName

namespace Scope

variable {s : Scope} {t : TypeName} {v : Variable} {location : Option DataLocation} {keys : List String}

/-- The text of a type in a signature. What is used already has no say in it. -/
def signatureText? (s : Scope) (location : Option DataLocation) (t : TypeName) : Option String :=
  (s.typeText t location []).1

/-- The text of an external function that takes some keys, gives a value and changes nothing. -/
def viewText (name : Option String) (keys : List String) (value : String) : String :=
  "function " ++ name.getD "" ++ "(" ++ ", ".intercalate keys ++ ") external view returns (" ++ value ++ ");"

/-- The text of the accessor that the compiler makes for a public variable. -/
def accessorText? (s : Scope) (v : Variable) : Option String :=
  match v.type.accessorKeys.mapM (s.signatureText? none), s.signatureText? v.location v.type.accessorValue with
  | some keys, some value => some (viewText v.name keys value)
  | _, _ => none

/-! ## Stubs of getters -/

theorem typeText_fst (t : TypeName) (location : Option DataLocation) (u : Uses) :
    (s.typeText t location u).1 = s.signatureText? location t :=
  (typeText_records t location).fst u []

theorem keyTexts_fst (t : TypeName) (u : Uses) :
    (s.keyTexts t u).1 = t.mappingKeys.mapM (s.signatureText? none) := by
  induction t generalizing u with
  | mapping key value _ ih =>
    rw [keyTexts, bind_fst, bind_fst, typeText_fst, ih, TypeName.mappingKeys, List.mapM_cons]
    cases s.signatureText? none key with
    | none => rfl
    | some text => cases value.mappingKeys.mapM (s.signatureText? none) <;> rfl
  | _ => rfl

theorem signatureText?_valueType (location : Option DataLocation) (t : TypeName) :
    s.signatureText? location t = s.signatureText? location t.valueType := by
  rw [signatureText?, signatureText?, typeText, typeText, locatedText_valueType]

/-- A kept stub has the keys of the outer mappings for parameters, and gives the values. -/
theorem getterStub_eq_viewText {u : Uses} {stub : String} (h : (s.getterStub v u).1 = some stub) :
    ∃ keys value, v.type.mappingKeys.mapM (s.signatureText? none) = some keys ∧
      s.signatureText? v.location v.type.valueType = some value ∧ stub = viewText v.name keys value := by
  rw [getterStub, tentatively_fst, bind_fst, bind_fst, keyTexts_fst, typeText_fst,
    signatureText?_valueType] at h
  cases hkeys : v.type.mappingKeys.mapM (s.signatureText? none) with
  | none =>
    rw [hkeys] at h
    cases h
  | some keys =>
    cases hvalue : s.signatureText? v.location v.type.valueType with
    | none =>
      rw [hkeys, hvalue] at h
      cases h
    | some value =>
      rw [hkeys, hvalue] at h
      cases h
      exact ⟨keys, value, rfl, rfl, rfl⟩

/-! ## Accessors of arrays -/

/-- Whether a type has a text as the type of a member. -/
def HasText (s : Scope) (t : TypeName) : Prop := (s.memberType? t).isSome = true

theorem signatureText?_isSome (location : Option DataLocation) (ht : ∀ key value, t ≠ .mapping key value) :
    (s.signatureText? location t).isSome = true ↔ s.HasText t := by
  rw [signatureText?, typeText_eq, Option.isSome_map, parameter?, Option.isSome_map, HasText]
  cases t with
  | mapping key value => exact absurd rfl (ht key value)
  | _ => rw [signature?, Option.isSome_map]

/-- A type with a text has no mapping among its layers, so its accessor takes indices. -/
theorem mem_accessorKeys_of_hasText (ht : s.HasText t) {key : TypeName} (hkey : key ∈ t.accessorKeys) :
    key = .elementary "uint256" := by
  induction t with
  | elementary name => cases hkey
  | named path => cases hkey
  | array base length ih =>
    have hbase : s.HasText base := by
      rwa [HasText, memberType?, Option.isSome_map] at ht
    rcases List.mem_cons.mp hkey with h | h
    · exact h
    · exact ih hbase h
  | mapping key value => cases ht

theorem hasText_accessorValue (ht : s.HasText t) :
    s.HasText t.accessorValue ∧ ∀ key value, t.accessorValue ≠ .mapping key value := by
  induction t with
  | elementary name => exact ⟨ht, by simp [TypeName.accessorValue]⟩
  | named path => exact ⟨ht, by simp [TypeName.accessorValue]⟩
  | array base length ih =>
    rw [HasText, memberType?, Option.isSome_map] at ht
    exact ih ht
  | mapping key value => cases ht

theorem indexTexts (keys : List TypeName) (h : ∀ key ∈ keys, key = .elementary "uint256") :
    keys.mapM (s.signatureText? none) = some (keys.map fun _ => "uint256") := by
  induction keys with
  | nil => rfl
  | cons key keys ih =>
    have hkey : s.signatureText? none (.elementary "uint256") = some "uint256" := rfl
    have hrest := ih fun k hk => h k (List.mem_cons_of_mem _ hk)
    simp [h key List.mem_cons_self, hkey, hrest]

/-! ## Texts of accessors -/

/-- What more parameters add to a list of parameters does not start with a closing parenthesis. -/
theorem intercalate_append_cons (keys more : List String) :
    ∃ c rest, c ≠ ')' ∧ (", ".intercalate (keys ++ "uint256" :: more)).toList
      = (", ".intercalate keys).toList ++ c :: rest := by
  induction keys with
  | nil =>
    cases more with
    | nil => exact ⟨'u', "int256".toList, by decide, by simp⟩
    | cons k more => exact ⟨'u', _, by decide, by simp; rfl⟩
  | cons key keys ih =>
    obtain ⟨c, rest, hc, hrest⟩ := ih
    cases keys with
    | nil => exact ⟨',', _, by decide, by simp; rfl⟩
    | cons k keys =>
      refine ⟨c, rest, hc, ?_⟩
      simp only [List.cons_append, String.intercalate_cons_cons, String.toList_append] at hrest ⊢
      rw [hrest]
      simp

theorem viewText_ne_of_more_keys (name : Option String) (keys more : List String) (value value' : String) :
    viewText name keys value ≠ viewText name (keys ++ "uint256" :: more) value' := by
  intro h
  obtain ⟨c, rest, hc, hkeys⟩ := intercalate_append_cons keys more
  have hlist := congrArg String.toList h
  simp only [viewText, String.toList_append, hkeys, List.append_assoc, List.append_cancel_left_eq] at hlist
  exact hc (List.cons.inj hlist).1.symm

/-- The accessor of a variable whose keys and values have texts. -/
theorem exists_accessorText (hkeys : v.type.mappingKeys.mapM (s.signatureText? none) = some keys)
    (hvalue : (s.signatureText? v.location v.type.valueType).isSome = true) :
    ∃ result, s.accessorText? v = some (viewText v.name
      (keys ++ v.type.valueType.accessorKeys.map fun _ => "uint256") result) := by
  have htext : s.HasText v.type.valueType :=
    (signatureText?_isSome v.location v.type.valueType_ne_mapping).mp hvalue
  obtain ⟨hresult, hne⟩ := hasText_accessorValue htext
  obtain ⟨result, hresult⟩ := Option.isSome_iff_exists.mp
    ((signatureText?_isSome v.location hne).mpr hresult)
  have hindices := indexTexts (s := s) v.type.valueType.accessorKeys
    fun key hkey => mem_accessorKeys_of_hasText htext hkey
  refine ⟨result, ?_⟩
  rw [accessorText?, v.type.accessorKeys_eq, mapM_append_of_some hkeys hindices,
    v.type.accessorValue_eq, hresult]

/-- A stub that is kept takes the keys of the outer mappings, and gives what is left behind them. The
variable has an accessor then, and the stub is the accessor just if what is left is no array: else
it lacks an index for each layer that is left, and gives the whole array. -/
theorem getters_are_accessors_unless_of_arrays {u : Uses} {stub : String}
    (h : (s.getterStub v u).1 = some stub) :
    ∃ keys value accessor,
      v.type.mappingKeys.mapM (s.signatureText? none) = some keys ∧
      s.signatureText? v.location v.type.valueType = some value ∧
      stub = viewText v.name keys value ∧
      s.accessorText? v = some accessor ∧
      (stub = accessor ↔ ¬ v.type.valueType.IsArray) := by
  obtain ⟨keys, value, hkeys, hvalue, rfl⟩ := getterStub_eq_viewText h
  obtain ⟨result, haccessor⟩ := exists_accessorText hkeys (by rw [hvalue]; rfl)
  refine ⟨keys, value, _, hkeys, hvalue, rfl, haccessor, ?_⟩
  constructor
  · rintro heq ⟨base, length, hbase⟩
    rw [hbase] at heq
    exact viewText_ne_of_more_keys _ _ _ _ _ heq
  · intro hne
    obtain ⟨hnone, hsame⟩ := TypeName.accessor_of_not_isArray hne
    have hfull : s.accessorText? v = some (viewText v.name keys value) := by
      rw [accessorText?, v.type.accessorKeys_eq, hnone, List.append_nil, v.type.accessorValue_eq, hsame,
        hkeys, hvalue]
    rw [hfull] at haccessor
    exact Option.some.inj haccessor

/-- The orders of an address, by their notes. -/
def ordersByNote : Variable :=
  { type := .mapping (.elementary "address") (.mapping (.elementary "string") (.named ["Market", "Order"]))
    name := some "orders"
    visibility := .pub }

/-- Two layers of mappings make two parameters, and the text of a note is no array. -/
theorem orders_are_found_by_their_accessor :
    ((market.scope false).getterStub ordersByNote []).1
        = some "function orders(address, string memory) external view returns (Order memory);" ∧
      (market.scope false).accessorText? ordersByNote
        = some "function orders(address, string memory) external view returns (Order memory);" := by
  have hstub : ((market.scope false).getterStub ordersByNote []).1
      = some "function orders(address, string memory) external view returns (Order memory);" := by
    decide +kernel
  have hvalue : ¬ ordersByNote.type.valueType.IsArray := by
    rintro ⟨base, length, h⟩
    cases h
  obtain ⟨-, -, accessor, -, -, -, haccessor, hsame⟩ := getters_are_accessors_unless_of_arrays hstub
  refine ⟨hstub, ?_⟩
  rw [haccessor, ← hsame.mpr hvalue]

/-- A contract with a public array of numbers. -/
def counter : String := "pragma solidity 1;contract A\x7buint256[] public xs;\x7d"

/-- The array. -/
def numbers : Variable :=
  { type := .array (.elementary "uint256") none, name := some "xs", visibility := .pub }

/-- What the contract is read as. -/
def counterUnit : SourceUnit :=
  { pragmas := [⟨"solidity", "1"⟩]
    contracts := [{ name := "A", kind := .contract, members := [.state [numbers]] }] }

/-- The stub for an array takes no index and gives the whole array, which no accessor does. -/
theorem array_stub_takes_no_index :
    ∃ r, Record.ofSource ⟨.slash, ["A.sol"]⟩ counter .null = .ok r ∧ r.publicVariables = [numbers] ∧
      ((r.scope false).getterStubs []).1 = ["function xs() external view returns (uint256[] memory);"] ∧
      (r.scope false).accessorText? numbers
        = some "function xs(uint256) external view returns (uint256);" := by
  have hunit : SourceUnit.ofSource counter = .ok counterUnit := by decide +kernel
  have hrecord : Record.ofSource ⟨.slash, ["A.sol"]⟩ counter .null
      = Record.ofUnit ⟨.slash, ["A.sol"]⟩ counterUnit (Record.licenseOf counter .null) := by
    simp only [Record.ofSource, hunit]
  exact ⟨_, hrecord.trans rfl, by decide +kernel, by decide +kernel, by decide +kernel⟩

end Scope

end SolidityInterface
