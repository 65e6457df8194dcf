import Mathlib.Order.WellFoundedSet
import SolidityInterface.Proofs.Run.Searching

/-
  Wait graphs without a cycle. An edge that closes no way back leaves the graph without
  a cycle (`Acyclic.insert`), and in a graph without a cycle every finite set of files
  has one that waits for none of the others (`Acyclic.exists_sink`).
-/

namespace SolidityInterface.Waiting

open Relation

/-- No file waits on itself, through others or directly. -/
def Acyclic (w : Waiting) : Prop := ∀ p, ¬ TransGen w.Edge p p

variable {w : Waiting} {a b : Path}

theorem acyclic_nil : Acyclic [] := by
  intro p h
  cases h with
  | single h => simp [Edge] at h
  | tail _ h => simp [Edge] at h

theorem Acyclic.mono {v : Waiting} (hw : w.Acyclic) (h : ∀ a b, v.Edge a b → w.Edge a b) :
    v.Acyclic :=
  fun p hp => hw p (TransGen.mono h p p hp)

theorem edge_insert {c d : Path} :
    (w.insert a b).Edge c d ↔ w.Edge c d ∨ (c = a ∧ d = b) := by
  unfold insert Edge
  split
  · rename_i h
    exact ⟨.inl, fun h' => h'.elim id (fun ⟨hc, hd⟩ => hc ▸ hd ▸ h)⟩
  · simp

theorem edge_discard {c d : Path} :
    (w.discard a b).Edge c d ↔ w.Edge c d ∧ ¬ (c = a ∧ d = b) := by
  simp [discard, Edge, imp_iff_not_or]

/-- A way in the graph with one more edge either avoids the edge or ends with a way
from its end. -/
theorem reach_insert {c d : Path} (h : TransGen (w.insert a b).Edge c d) :
    TransGen w.Edge c d ∨ (ReflTransGen w.Edge c a ∧ ReflTransGen w.Edge b d) := by
  induction h with
  | single he =>
    rcases edge_insert.mp he with he | ⟨rfl, rfl⟩
    · exact .inl (.single he)
    · exact .inr ⟨.refl, .refl⟩
  | tail _ he ih =>
    rcases edge_insert.mp he with he | ⟨rfl, rfl⟩
    · rcases ih with h | ⟨h, h'⟩
      · exact .inl (h.tail he)
      · exact .inr ⟨h, h'.tail he⟩
    · rcases ih with h | ⟨h, -⟩
      · exact .inr ⟨h.to_reflTransGen, .refl⟩
      · exact .inr ⟨h, .refl⟩

/-- An edge to a file from which no way leads back closes no cycle. -/
theorem Acyclic.insert (hw : w.Acyclic) (h : w.waitsOn b a = false) : (w.insert a b).Acyclic := by
  intro p hp
  rcases reach_insert hp with hp | ⟨h₁, h₂⟩
  · exact hw p hp
  · exact waitsOn_eq_false_iff.mp h (h₂.trans h₁)

theorem Acyclic.discard (hw : w.Acyclic) (a b : Path) : (w.discard a b).Acyclic :=
  hw.mono fun _ _ he => (edge_discard.mp he).1

/-- Among finitely many files of a graph without a cycle, one waits for none of them. -/
theorem Acyclic.exists_sink (hw : w.Acyclic) {S : Set Path} (hS : S.Finite) (hne : S.Nonempty) :
    ∃ p ∈ S, ∀ q ∈ S, ¬ w.Edge p q := by
  let r : Path → Path → Prop := fun a b => TransGen w.Edge b a
  have : IsStrictOrder Path r :=
    { irrefl := fun p hp => hw p hp
      trans := fun _ _ _ h₁ h₂ => h₂.trans h₁ }
  have hwf : S.WellFoundedOn r := hS.wellFoundedOn
  obtain ⟨p, hp⟩ := hne
  obtain ⟨⟨m, hm⟩, -, hmin⟩ := WellFounded.has_min hwf (Set.univ : Set S) ⟨⟨p, hp⟩, trivial⟩
  exact ⟨m, hm, fun q hq he => hmin ⟨q, hq⟩ trivial (.single he)⟩

end SolidityInterface.Waiting
