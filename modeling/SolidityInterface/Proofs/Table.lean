import SolidityInterface.Table

/-
  Tables through their look-ups: what `put` changes is the value of one key, and
  the keys stay in the order in which they first came.
-/

namespace SolidityInterface.Table

variable {κ α : Type} [DecidableEq κ] {key k : κ} {v : α} {t : Table κ α}

theorem get?_put (key k : κ) (v : α) (t : Table κ α) :
    get? k (put key v t) = if key = k then some v else get? k t := by
  induction t with
  | nil => simp [put, get?]
  | cons e rest ih =>
    obtain ⟨k', a⟩ := e
    by_cases hk : k' = key
    · subst hk
      by_cases h : k' = k <;> simp [put, get?, h]
    · by_cases h : k' = k
      · subst h
        simp [put, get?, hk, Ne.symm hk]
      · simp [put, get?, hk, h, ih]

@[simp] theorem get?_put_self (key : κ) (v : α) (t : Table κ α) :
    get? key (put key v t) = some v := by
  simp [get?_put]

theorem get?_put_of_ne (h : key ≠ k) : get? k (put key v t) = get? k t := by
  simp [get?_put, h]

theorem has_iff : has k t = true ↔ ∃ v, get? k t = some v := Option.isSome_iff_exists

theorem has_of_get? (h : get? k t = some v) : has k t = true := has_iff.mpr ⟨v, h⟩

theorem get?_eq_none_iff : get? k t = none ↔ has k t = false := by
  cases h : get? k t <;> simp [has, h]

theorem has_put_of_has (h : has k t = true) : has k (put key v t) = true := by
  obtain ⟨v', hv⟩ := has_iff.mp h
  by_cases hk : key = k
  · subst hk
    exact has_of_get? (get?_put_self key v t)
  · exact has_of_get? ((get?_put_of_ne hk).trans hv)

theorem mem_of_get? (h : get? k t = some v) : (k, v) ∈ t := by
  induction t with
  | nil => simp [get?] at h
  | cons e rest ih =>
    obtain ⟨k', a⟩ := e
    by_cases hk : k' = k
    · simp [get?, hk] at h
      simp [hk, h]
    · simp [get?, hk] at h
      exact List.mem_cons_of_mem _ (ih h)

/-- In a table whose keys are distinct every entry counts. -/
theorem get?_of_mem (ht : (keys t).Nodup) (h : (k, v) ∈ t) : get? k t = some v := by
  induction t with
  | nil => simp at h
  | cons e rest ih =>
    obtain ⟨k', a⟩ := e
    simp only [keys, List.map_cons, List.nodup_cons] at ht
    rcases List.mem_cons.mp h with heq | hmem
    · obtain ⟨rfl, rfl⟩ := Prod.mk.inj heq
      simp [get?]
    · have hne : k' ≠ k := by
        rintro rfl
        exact ht.1 (List.mem_map_of_mem hmem)
      simp [get?, hne, ih ht.2 hmem]

theorem mem_keys_iff : k ∈ keys t ↔ has k t = true := by
  induction t with
  | nil => simp [keys, has, get?]
  | cons e rest ih =>
    obtain ⟨k', a⟩ := e
    by_cases hk : k' = k
    · simp [keys, has, get?, hk]
    · have hne : ¬ k = k' := fun e => hk e.symm
      simp only [keys, has] at ih
      simp [keys, has, get?, hk, hne, ih]

/-- The keys after a value was put: those before, and a new one last. -/
theorem keys_put (key : κ) (v : α) (t : Table κ α) :
    keys (put key v t) = if has key t then keys t else keys t ++ [key] := by
  induction t with
  | nil => simp [put, keys, has, get?]
  | cons e rest ih =>
    obtain ⟨k', a⟩ := e
    by_cases hk : k' = key
    · simp [put, keys, has, get?, hk]
    · simp only [keys, has] at ih
      by_cases h : (get? key rest).isSome <;> simp [h] at ih <;> simp [put, keys, has, get?, hk, h, ih]

theorem keys_put_of_has (h : has key t = true) : keys (put key v t) = keys t := by
  simp [keys_put, h]

theorem nodup_keys_put (h : (keys t).Nodup) : (keys (put key v t)).Nodup := by
  rw [keys_put]
  split
  · exact h
  · rename_i hk
    refine List.nodup_append.mpr ⟨h, by simp, ?_⟩
    intro a ha b hb hab
    simp only [List.mem_singleton] at hb
    subst hb
    exact hk (mem_keys_iff.mp (hab ▸ ha))

/-! ## Tables made of others -/

theorem get?_map {β : Type} (f : α → β) (k : κ) (t : Table κ α) :
    get? k (t.map fun e => (e.1, f e.2)) = (get? k t).map f := by
  induction t with
  | nil => rfl
  | cons e rest ih =>
    obtain ⟨k', a⟩ := e
    by_cases hk : k' = k
    · simp [get?, hk]
    · simpa [get?, hk] using ih

theorem get?_filter_of_get? {p : κ × α → Bool} (h : get? k t = some v) (hp : p (k, v) = true) :
    get? k (t.filter p) = some v := by
  induction t with
  | nil => simp [get?] at h
  | cons e rest ih =>
    obtain ⟨k', a⟩ := e
    by_cases hk : k' = k
    · subst hk
      obtain rfl : a = v := by simpa [get?] using h
      simp [hp, get?]
    · have hrest := ih (by simpa [get?, hk] using h)
      by_cases ha : p (k', a) = true
      · simpa [ha, get?, hk] using hrest
      · simpa [ha] using hrest

/-- In a table whose keys are distinct nothing stands behind what is taken out. -/
theorem get?_filter (ht : (keys t).Nodup) (p : κ × α → Bool) (k : κ) :
    get? k (t.filter p) = (get? k t).filter fun v => p (k, v) := by
  cases hf : get? k (t.filter p) with
  | some v =>
    obtain ⟨hmem, hp⟩ := List.mem_filter.mp (mem_of_get? hf)
    simp [get?_of_mem ht hmem, Option.filter, hp]
  | none =>
    cases h : get? k t with
    | none => rfl
    | some v =>
      cases hp : p (k, v) with
      | false => simp [Option.filter, hp]
      | true =>
        rw [get?_filter_of_get? h hp] at hf
        simp at hf

end SolidityInterface.Table
