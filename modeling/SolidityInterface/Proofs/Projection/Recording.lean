import SolidityInterface.Proofs.Distinct
import SolidityInterface.Proofs.Projection.Projected

/-
  What a projection records. A projection never looks at the uses: it has the same result with
  any, and adds the same names to any (`Records`). So the names it records can be read off a
  run in which nothing is used before. A name is recorded together with its head (`Registers`).

  All projections record, since they are made of `use` and of projections in a row
  (`Records.bind`), and so do the stubs, which are made on the side (`tentatively_records`).
-/

namespace SolidityInterface

namespace Scope

variable {s : Scope} {u v : Uses} {n m : DottedName} {α β : Type}

theorem bind_snd (p : StateM Uses α) (f : α → StateM Uses β) (u : Uses) :
    ((p >>= f) u).2 = (f (p u).1 (p u).2).2 := rfl

/-- Whether a projection has the same result with any uses, and adds the same names to any. -/
def Records (p : StateM Uses α) : Prop := ∀ u : Uses, p u = ((p []).1, Distinct.addAll u (p []).2)

theorem Records.fst {p : StateM Uses α} (h : Records p) (u v : Uses) : (p u).1 = (p v).1 := by
  rw [h u, h v]

theorem Records.mem_snd {p : StateM Uses α} (h : Records p) :
    m ∈ (p u).2 ↔ m ∈ u ∨ m ∈ (p []).2 := by
  rw [h u]
  exact Distinct.mem_addAll

/-- Whether a projection keeps all uses that there are. -/
def Grows {α : Type} (p : StateM Uses α) : Prop := ∀ u : Uses, u ⊆ (p u).2

theorem Records.grows {p : StateM Uses α} (h : Records p) : Grows p :=
  fun _ _ hm => h.mem_snd.mpr (.inl hm)

theorem Records.pure (a : α) : Records (Pure.pure a : StateM Uses α) := fun _ => rfl

theorem Records.bind {p : StateM Uses α} {f : α → StateM Uses β} (hp : Records p)
    (hf : ∀ a, Records (f a)) : Records (p >>= f) := by
  intro u
  have hfirst := hf (p []).1 (p []).2
  have hnext := hf (p []).1 (Distinct.addAll u (p []).2)
  show f (p u).1 (p u).2 = ((f (p []).1 (p []).2).1, Distinct.addAll u (f (p []).1 (p []).2).2)
  rw [hp u, hnext, hfirst, Distinct.addAll_addAll]

theorem use_records (s : Scope) (n : DottedName) : Records (s.use n) := by
  intro u
  simp only [use]
  split
  · simp only [Distinct.addAll_add]
    rfl
  · simp only [Distinct.addAll_add]
    rfl

/-- The names that count as used if a dotted name is: the name as seen from the contract, and
its head. -/
def Registers (s : Scope) (n m : DottedName) : Prop :=
  m = s.localName n ∨ ∃ h, (s.localName n).head? = some h ∧ m = [h]

theorem mem_use : m ∈ (s.use n u).2 ↔ m ∈ u ∨ s.Registers n m := by
  unfold use Registers
  split
  · rename_i head second rest hlocal
    simp only [Distinct.mem_add, hlocal, List.head?_cons, Option.some.injEq, exists_eq_left', or_assoc]
  · rename_i hshort
    simp only [Distinct.mem_add]
    refine or_congr_right ⟨.inl, ?_⟩
    rintro (h | ⟨h, hhead, rfl⟩)
    · exact h
    · -- A name without a second segment is its head.
      cases hlocal : s.localName n with
      | nil => simp [hlocal] at hhead
      | cons a rest =>
        cases rest with
        | nil => simpa [hlocal, eq_comm] using hhead
        | cons b rest => exact absurd hlocal (hshort a b rest)

theorem memberText_records (s : Scope) (t : TypeName) : Records (s.memberText t) := by
  induction t with
  | elementary name => exact .pure _
  | named n =>
    rw [memberText]
    cases s.rawOnly with
    | true => exact .pure _
    | false =>
      cases s.isBlocked n with
      | true => exact .pure _
      | false => exact .bind (use_records s n) fun _ => .pure _
  | array base length ih => exact .bind ih fun _ => .pure _
  | mapping key value => exact .pure _

theorem locatedText_records (location : Option DataLocation) (t : TypeName) :
    Records (s.locatedText location t) := by
  induction t with
  | elementary name => exact .pure _
  | named n =>
    refine .bind (memberText_records s _) fun text => ?_
    cases text with
    | none => exact .pure _
    | some text =>
      cases location with
      | some l => exact .pure _
      | none =>
        dsimp only
        split <;> exact .pure _
  | array base length => exact .bind (memberText_records s _) fun _ => .pure _
  | mapping key value _ ih => exact ih

theorem typeText_records (t : TypeName) (location : Option DataLocation) :
    Records (s.typeText t location) := locatedText_records _ t

theorem keyTexts_records (t : TypeName) : Records (s.keyTexts t) := by
  induction t with
  | mapping key value _ ih => exact .bind (typeText_records _ _) fun _ => .bind ih fun _ => .pure _
  | _ => exact .pure _

theorem parameterTexts_records (vs : List Variable) : Records (s.parameterTexts vs) := by
  induction vs with
  | nil => exact .pure _
  | cons v vs ih =>
    refine .bind (typeText_records _ _) fun text => ?_
    cases text with
    | none => exact .pure _
    | some text => exact .bind ih fun _ => .pure _

theorem memberLines_records (vs : List Variable) : Records (s.memberLines vs) := by
  induction vs with
  | nil => exact .pure _
  | cons v vs ih =>
    refine .bind (memberText_records s _) fun text => ?_
    cases text with
    | none => exact .pure _
    | some text => exact .bind ih fun _ => .pure _

/-! ## Projections on the side -/

/-- Makes a projection on the side, which starts with the bases, and keeps what it records there
or not. -/
def onSide (s : Scope) (keep : Bool) (p : StateM Uses α) : StateM Uses α := fun u =>
  ((p s.baseUses).1, if keep then Distinct.addAll u (p s.baseUses).2 else u)

/-- A stub is made on the side, and what it records is kept if it has a text. -/
theorem tentatively_eq_onSide (p : StateM Uses (Option α)) :
    s.tentatively p = s.onSide (p s.baseUses).1.isSome p := by
  funext u
  rw [tentatively, onSide]
  split
  · rename_i a scratch hp
    rw [hp]
    rfl
  · rename_i scratch hp
    rw [hp]
    rfl

theorem tentatively_of_some {p : StateM Uses (Option α)} {a : α}
    (h : (p s.baseUses).1 = some a) (u : Uses) :
    s.tentatively p u = (some a, Distinct.addAll u (p s.baseUses).2) := by
  rw [tentatively_eq_onSide, onSide, h]
  rfl

theorem tentatively_snd_of_none {p : StateM Uses (Option α)}
    (h : (s.tentatively p u).1 = none) : (s.tentatively p u).2 = u := by
  rw [tentatively_fst] at h
  rw [tentatively_eq_onSide, onSide, h]
  rfl

theorem onSide_records (keep : Bool) (p : StateM Uses α) : Records (s.onSide keep p) := by
  intro u
  cases keep with
  | false => rfl
  | true =>
    simp only [onSide, if_true, Distinct.addAll_addAll]
    rfl

theorem tentatively_records (p : StateM Uses (Option α)) : Records (s.tentatively p) := by
  rw [tentatively_eq_onSide]
  exact onSide_records _ p

theorem each_records {p : α → StateM Uses (Option β)} (hp : ∀ a, Records (p a)) (l : List α) :
    Records (each p l) := by
  induction l with
  | nil => exact .pure _
  | cons a l ih => exact .bind (hp a) fun _ => .bind ih fun _ => .pure _

theorem functionStubs_records (s : Scope) : Records s.functionStubs :=
  each_records (fun _ => tentatively_records _) _

theorem getterStubs_records (s : Scope) : Records s.getterStubs :=
  each_records (fun _ => tentatively_records _) _

end Scope

end SolidityInterface
