import Mathlib.Data.List.Forall2

/-
  Lists through a function that may give nothing. A list gives something as a whole if each
  of its elements does (`isSome_mapM`), and then its elements and what they give stand in
  the same order (`forall₂_of_mapM`).
-/

namespace SolidityInterface

variable {α β : Type} {f : α → Option β} {l l' : List α} {m m' : List β}

theorem isSome_mapM (h : ∀ a ∈ l, (f a).isSome = true) : (l.mapM f).isSome = true := by
  induction l with
  | nil => rfl
  | cons a l ih =>
    have hrest := ih fun c hc => h c (List.mem_cons_of_mem a hc)
    cases hb : f a with
    | none =>
      have ha := h a List.mem_cons_self
      simp [hb] at ha
    | some b =>
      obtain ⟨bs, hbs⟩ := Option.isSome_iff_exists.mp hrest
      rw [List.mapM_cons, hb, hbs]
      rfl

theorem forall₂_of_mapM (h : l.mapM f = some m) : List.Forall₂ (fun a b => f a = some b) l m := by
  induction l generalizing m with
  | nil =>
    obtain rfl : [] = m := by simpa using h
    exact .nil
  | cons a l ih =>
    rw [List.mapM_cons] at h
    cases hb : f a with
    | none => simp [hb] at h
    | some b =>
      cases hbs : l.mapM f with
      | none => simp [hb, hbs] at h
      | some bs =>
        obtain rfl : b :: bs = m := by simpa [hb, hbs] using h
        exact .cons hb (ih hbs)

theorem exists_of_mem_mapM {b : β} (h : l.mapM f = some m) (hb : b ∈ m) : ∃ a ∈ l, f a = some b := by
  have hall := forall₂_of_mapM h
  clear h
  induction hall with
  | nil => simp at hb
  | @cons a b' l l' ha _ ih =>
    rcases List.mem_cons.mp hb with rfl | hb
    · exact ⟨a, by simp, ha⟩
    · obtain ⟨c, hc, hfc⟩ := ih hb
      exact ⟨c, List.mem_cons_of_mem _ hc, hfc⟩

theorem mapM_append_of_some (hl : l.mapM f = some m) (hl' : l'.mapM f = some m') :
    (l ++ l').mapM f = some (m ++ m') := by
  simp [hl, hl']

end SolidityInterface
