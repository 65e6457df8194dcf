import Mathlib.Data.List.Basic
import Mathlib.Data.List.Induction
import SolidityInterface.Distinct

/-
  Lists without repetitions. They hold what was added to them (`mem_ofList`), once each
  (`nodup_ofList`), and their elements stand in the order in which they first came
  (`exists_first`, and `ofList_eq_eraseDups` for the list as a whole).
-/

namespace SolidityInterface.Distinct

variable {α β γ : Type} [DecidableEq α] {l new : List α} {a : α}

theorem mem_add {b : α} : a ∈ add l b ↔ a ∈ l ∨ a = b := by
  unfold add
  split
  · rename_i hb
    exact ⟨.inl, fun h => h.elim id fun e => e ▸ hb⟩
  · simp

theorem mem_addAll : a ∈ addAll l new ↔ a ∈ l ∨ a ∈ new := by
  induction new generalizing l with
  | nil => simp [addAll]
  | cons b new ih =>
    have hrest := ih (l := add l b)
    rw [mem_add] at hrest
    rw [addAll, List.foldl_cons, List.mem_cons, ← or_assoc]
    exact hrest

/-- Elements that a list holds change nothing. -/
theorem addAll_of_subset (h : new ⊆ l) : addAll l new = l := by
  induction new with
  | nil => rfl
  | cons b new ih =>
    have hb : add l b = l := if_pos (h (by simp))
    rw [addAll, List.foldl_cons, hb]
    exact ih fun c hc => h (by simp [hc])

theorem addAll_append (l m new : List α) : addAll l (m ++ new) = addAll (addAll l m) new :=
  List.foldl_append

theorem addAll_add (l m : List α) (a : α) : addAll l (add m a) = add (addAll l m) a := by
  by_cases ha : a ∈ m
  · rw [add, add, if_pos ha, if_pos (mem_addAll.mpr (.inr ha))]
  · rw [add, if_neg ha, addAll_append]
    rfl

/-- Elements that were added to a list on the side can be added one after the other instead. -/
theorem addAll_addAll (l m new : List α) : addAll l (addAll m new) = addAll (addAll l m) new := by
  induction new generalizing m with
  | nil => rfl
  | cons a new ih =>
    have hrest := ih (add m a)
    rw [addAll_add] at hrest
    exact hrest

theorem mem_ofList : a ∈ ofList new ↔ a ∈ new := by
  simp [ofList, mem_addAll]

theorem ofList_append_singleton (l : List α) (a : α) : ofList (l ++ [a]) = add (ofList l) a := by
  simp [ofList, addAll, List.foldl_append]

theorem nodup_add (h : l.Nodup) (a : α) : (add l a).Nodup := by
  unfold add
  split
  · exact h
  · rename_i ha
    refine List.nodup_append.mpr ⟨h, by simp, ?_⟩
    rintro b hb c hc rfl
    exact ha (List.mem_singleton.mp hc ▸ hb)

theorem nodup_ofList (l : List α) : (ofList l).Nodup := by
  induction l using List.reverseRecOn with
  | nil => exact .nil
  | append_singleton l a ih =>
    rw [ofList_append_singleton]
    exact nodup_add ih a

/-- Of equal elements the first is kept. -/
theorem ofList_eq_eraseDups (l : List α) : ofList l = l.eraseDups := by
  induction l using List.reverseRecOn with
  | nil => rfl
  | append_singleton l a ih =>
    rw [ofList_append_singleton, List.eraseDups_append, ← ih]
    by_cases ha : a ∈ l
    · rw [add, if_pos (mem_ofList.mpr ha)]
      simp [ha, List.removeAll]
    · rw [add, if_neg fun h => ha (mem_ofList.mp h)]
      simp [ha, List.removeAll, List.eraseDups_cons]

theorem addAll_map [DecidableEq β] {f : α → β} (hf : Function.Injective f) (l new : List α) :
    addAll (l.map f) (new.map f) = (addAll l new).map f := by
  induction new generalizing l with
  | nil => rfl
  | cons a new ih =>
    have hadd : add (l.map f) (f a) = (add l a).map f := by
      simp only [add, List.mem_map_of_injective hf]
      split <;> simp
    rw [List.map_cons, addAll, List.foldl_cons, hadd]
    exact ih (add l a)

/-- What some elements of a list give, without repetitions, stands in the order in which
the elements first came. -/
theorem exists_first [BEq β] [LawfulBEq β] (g : β → Option γ) (f : γ → α) (l : List β) :
    ∃ given : List (β × γ),
      ofList (l.filterMap fun b => (g b).map f) = given.map (fun e => f e.2) ∧
      (∀ e ∈ given, e.1 ∈ l ∧ g e.1 = some e.2) ∧
      (given.map (·.1)).Pairwise fun b b' => l.idxOf b < l.idxOf b' := by
  induction l using List.reverseRecOn with
  | nil => exact ⟨[], rfl, by simp, .nil⟩
  | append_singleton l b ih =>
    obtain ⟨given, hgiven, hmem, horder⟩ := ih
    have hidx : ∀ c ∈ l, (l ++ [b]).idxOf c = l.idxOf c := fun c hc => List.idxOf_append_of_mem hc
    have hold : (given.map (·.1)).Pairwise fun c c' => (l ++ [b]).idxOf c < (l ++ [b]).idxOf c' := by
      refine horder.imp_of_mem ?_
      intro c c' hc hc' hlt
      obtain ⟨e, he, rfl⟩ := List.mem_map.mp hc
      obtain ⟨e', he', rfl⟩ := List.mem_map.mp hc'
      rw [hidx _ (hmem e he).1, hidx _ (hmem e' he').1]
      exact hlt
    have hmem' : ∀ e ∈ given, e.1 ∈ l ++ [b] ∧ g e.1 = some e.2 :=
      fun e he => ⟨List.mem_append_left _ (hmem e he).1, (hmem e he).2⟩
    rw [List.filterMap_append]
    cases hb : g b with
    | none => exact ⟨given, by simpa [hb] using hgiven, hmem', hold⟩
    | some c =>
      have hadd : ofList (l.filterMap (fun b => (g b).map f) ++ [b].filterMap fun b => (g b).map f)
          = add (given.map fun e => f e.2) (f c) := by
        rw [← hgiven, ← ofList_append_singleton]
        simp [hb]
      rw [hadd, add]
      split
      · exact ⟨given, rfl, hmem', hold⟩
      · -- An element that gives something new has not come before.
        rename_i hnew
        have hfresh : b ∉ l := by
          intro hbl
          apply hnew
          rw [← hgiven, mem_ofList]
          exact List.mem_filterMap.mpr ⟨b, hbl, by simp [hb]⟩
        refine ⟨given ++ [(b, c)], by simp, ?_, ?_⟩
        · intro e he
          rcases List.mem_append.mp he with he | he
          · exact hmem' e he
          · obtain rfl := List.mem_singleton.mp he
            exact ⟨by simp, hb⟩
        · rw [List.map_append, List.pairwise_append]
          refine ⟨hold, by simp, ?_⟩
          intro x hx y hy
          obtain ⟨e, he, rfl⟩ := List.mem_map.mp hx
          obtain rfl : y = b := by simpa using hy
          rw [hidx _ (hmem e he).1, List.idxOf_append_of_notMem hfresh]
          have hlt := List.idxOf_lt_length_of_mem (hmem e he).1
          omega

end SolidityInterface.Distinct
