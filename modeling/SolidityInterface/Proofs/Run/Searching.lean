import Mathlib.Logic.Relation
import SolidityInterface.Run.Waiting

/-
  The search in the wait graph, whatever the order in which it takes the files that a
  file waits for. A `Search` is one on its way, and `Search.Step` one step of it.

  1. A step takes one file off the stack, and a file gives its edges to the stack only
     once. So the entries of the stack and the edges still to be given become one less
     with each step (`Step.left_eq`), and every search ends.
  2. What is on the stack can be reached from the start. What has been searched is not
     the target, and all that it waits for has been searched or is on the stack. Each
     step keeps this (`Sound`, `Step.sound`).
  3. A search stops with the target on top of the stack, which can then be reached, or
     with nothing left. In the second case edges do not lead out of what has been
     searched, and the target is not in it (`Sound.answer_iff`).
  4. The search of `waitsOn` is one of these, and it is not cut off
     (`exists_steps_search`), so it finds a file exactly if edges lead to it
     (`waitsOn_iff`).
-/

namespace SolidityInterface.Waiting

open Relation

/-- Whether a file waits for another. -/
def Edge (w : Waiting) (a b : Path) : Prop := (a, b) ∈ w

variable {w : Waiting} {p q start target : Path}

theorem mem_successors : q ∈ w.successors p ↔ w.Edge p q := by
  simp [successors, Edge]

/-- The edges of files that have not been searched, split off those of one file. -/
theorem length_unseen {seen : List Path} (hp : p ∉ seen) :
    (w.successors p).length + (w.filter fun e => e.1 ∉ p :: seen).length
      = (w.filter fun e => e.1 ∉ seen).length := by
  induction w with
  | nil => simp [successors]
  | cons e rest ih =>
    simp only [successors, List.length_map] at ih ⊢
    by_cases he : e.1 = p
    · have hs : e.1 ∉ seen := he ▸ hp
      simp [he, hp] at ih ⊢
      omega
    · by_cases hs : e.1 ∈ seen <;> simp [he, hs] at ih ⊢ <;> omega

/-- A search on its way: the files it has yet to look at, the next one first, and the files
it has searched. -/
structure Search where
  stack : List Path
  seen : List Path

namespace Search

variable {s t : Search} {n : Nat}

/-- A search that has not looked at anything yet. -/
def begin (start : Path) : Search := ⟨[start], []⟩

/-- One step of a search whose next file is not the target. A file that has been searched is
dropped, any other one gives way to the files that it waits for, in some order. -/
inductive Step (w : Waiting) (target : Path) : Search → Search → Prop
  | drop {p : Path} {stack seen : List Path} (hne : p ≠ target) (hseen : p ∈ seen) :
      Step w target ⟨p :: stack, seen⟩ ⟨stack, seen⟩
  | enter {p : Path} {stack seen next : List Path} (hne : p ≠ target) (hnew : p ∉ seen)
      (hnext : next.Perm (w.successors p)) :
      Step w target ⟨p :: stack, seen⟩ ⟨next ++ stack, p :: seen⟩

/-- A number of steps. -/
inductive Steps (w : Waiting) (target : Path) : Nat → Search → Search → Prop
  | refl (s : Search) : Steps w target 0 s s
  | cons {n : Nat} {s t u : Search} (h : Step w target s t) (hs : Steps w target n t u) :
      Steps w target (n + 1) s u

/-- What a search answers once it has come to the target or has nothing left to look at. -/
def answer? (target : Path) (s : Search) : Option Bool :=
  match s.stack with
  | [] => some false
  | p :: _ => if p = target then some true else none

/-- A search that has no answer yet goes on. -/
theorem exists_step (w : Waiting) (h : s.answer? target = none) : ∃ t, Step w target s t := by
  obtain ⟨stack, seen⟩ := s
  cases stack with
  | nil => simp [answer?] at h
  | cons p stack =>
    have hne : p ≠ target := by simpa [answer?] using h
    by_cases hseen : p ∈ seen
    · exact ⟨_, .drop hne hseen⟩
    · exact ⟨_, .enter hne hseen (.refl _)⟩

/-! ## Every search ends -/

/-- The entries of the stack, and the edges of files that have not been searched. -/
def left (w : Waiting) (s : Search) : Nat :=
  s.stack.length + (w.filter fun e => e.1 ∉ s.seen).length

theorem Step.left_eq (h : Step w target s t) : t.left w + 1 = s.left w := by
  cases h with
  | drop _ _ =>
    simp only [left, List.length_cons]
    omega
  | enter _ hnew hnext =>
    have hunseen := length_unseen (w := w) hnew
    simp only [left, List.length_append, List.length_cons, hnext.length_eq]
    omega

theorem Steps.left_eq (h : Steps w target n s t) : t.left w + n = s.left w := by
  induction h with
  | refl s => rfl
  | cons h _ ih =>
    have hstep := h.left_eq
    omega

theorem left_begin (w : Waiting) (start : Path) : (begin start).left w = w.length + 1 := by
  have hall : (w.filter fun e => e.1 ∉ (begin start).seen) = w := by simp [begin]
  rw [left, hall, Nat.add_comm]
  rfl

/-! ## What a search keeps -/

/-- What holds of a search from a file for the target. -/
structure Sound (w : Waiting) (start target : Path) (s : Search) : Prop where
  reached : ∀ p ∈ s.stack, ReflTransGen w.Edge start p
  missed : target ∉ s.seen
  followed : ∀ p ∈ s.seen, ∀ q, w.Edge p q → q ∈ s.seen ∨ q ∈ s.stack
  begun : start ∈ s.seen ∨ start ∈ s.stack

theorem sound_begin (w : Waiting) (start target : Path) : (begin start).Sound w start target where
  reached := by simp [begin, ReflTransGen.refl]
  missed := by simp [begin]
  followed := by simp [begin]
  begun := by simp [begin]

theorem Step.sound (h : Step w target s t) (hs : s.Sound w start target) :
    t.Sound w start target := by
  cases h with
  | @drop p stack seen hne hseen =>
    -- The file is still among those searched, so nothing is lost from sight.
    have hmoved : ∀ q, q ∈ seen ∨ q ∈ p :: stack → q ∈ seen ∨ q ∈ stack := by
      rintro q (hq | hq)
      · exact .inl hq
      · rcases List.mem_cons.mp hq with rfl | hq
        · exact .inl hseen
        · exact .inr hq
    exact {
      reached := fun q hq => hs.reached q (List.mem_cons_of_mem _ hq)
      missed := hs.missed
      followed := fun q hq r he => hmoved r (hs.followed q hq r he)
      begun := hmoved start hs.begun }
  | @enter p stack seen next hne hnew hnext =>
    have hedge : ∀ q, q ∈ next ↔ w.Edge p q := fun q => hnext.mem_iff.trans mem_successors
    have hmoved : ∀ q, q ∈ seen ∨ q ∈ p :: stack → q ∈ p :: seen ∨ q ∈ next ++ stack := by
      rintro q (hq | hq)
      · exact .inl (List.mem_cons_of_mem _ hq)
      · rcases List.mem_cons.mp hq with rfl | hq
        · exact .inl List.mem_cons_self
        · exact .inr (List.mem_append_right _ hq)
    refine ⟨?_, ?_, ?_, hmoved start hs.begun⟩
    · intro q hq
      rcases List.mem_append.mp hq with hq | hq
      · exact (hs.reached p List.mem_cons_self).tail ((hedge q).mp hq)
      · exact hs.reached q (List.mem_cons_of_mem _ hq)
    · intro ht
      rcases List.mem_cons.mp ht with rfl | ht
      · exact hne rfl
      · exact hs.missed ht
    · intro q hq r he
      rcases List.mem_cons.mp hq with rfl | hq
      · exact .inr (List.mem_append_left _ ((hedge r).mpr he))
      · exact hmoved r (hs.followed q hq r he)

theorem Steps.sound (h : Steps w target n s t) (hs : s.Sound w start target) :
    t.Sound w start target := by
  induction h with
  | refl s => exact hs
  | cons h _ ih => exact ih (h.sound hs)

/-! ## What a search answers -/

/-- If nothing is left to look at, all that can be reached has been searched. -/
theorem Sound.mem_seen (hs : s.Sound w start target) (hempty : s.stack = [])
    (h : ReflTransGen w.Edge start q) : q ∈ s.seen := by
  induction h with
  | refl => simpa [hempty] using hs.begun
  | tail _ he ih => simpa [hempty] using hs.followed _ ih _ he

theorem Sound.answer_iff (hs : s.Sound w start target) {found : Bool}
    (h : s.answer? target = some found) : found = true ↔ ReflTransGen w.Edge start target := by
  obtain ⟨stack, seen⟩ := s
  cases stack with
  | nil =>
    obtain rfl : false = found := by simpa [answer?] using h
    exact iff_of_false Bool.false_ne_true fun hr => hs.missed (hs.mem_seen rfl hr)
  | cons p stack =>
    obtain ⟨rfl, rfl⟩ : p = target ∧ true = found := by simpa [answer?] using h
    exact iff_of_true rfl (hs.reached p List.mem_cons_self)

end Search

/-! ## The search of `waitsOn` -/

/-- With as many rounds as there are entries and edges left, the search comes to its answer. -/
theorem exists_steps_search (w : Waiting) (target : Path) (n : Nat) (stack seen : List Path)
    (hn : Search.left w ⟨stack, seen⟩ ≤ n) :
    ∃ k s, Search.Steps w target k ⟨stack, seen⟩ s ∧
      s.answer? target = some (w.search target n stack seen) := by
  fun_induction search w target n stack seen with
  | case1 stack seen =>
    -- Out of rounds, but then nothing is left on the stack.
    have hstack : stack = [] := List.eq_nil_of_length_eq_zero (by
      simp only [Search.left] at hn
      omega)
    exact ⟨0, _, .refl _, by simp [Search.answer?, hstack]⟩
  | case2 n seen => exact ⟨0, _, .refl _, rfl⟩
  | case3 n stack seen => exact ⟨0, _, .refl _, by simp [Search.answer?]⟩
  | case4 n p stack seen hne hseen ih =>
    have hstep : Search.Step w target ⟨p :: stack, seen⟩ ⟨stack, seen⟩ := .drop hne hseen
    have hleft := hstep.left_eq
    obtain ⟨k, s, hsteps, hanswer⟩ := ih (by omega)
    exact ⟨k + 1, s, .cons hstep hsteps, hanswer⟩
  | case5 n p stack seen hne hnew ih =>
    have hstep : Search.Step w target ⟨p :: stack, seen⟩ ⟨w.successors p ++ stack, p :: seen⟩ :=
      .enter hne hnew (.refl _)
    have hleft := hstep.left_eq
    obtain ⟨k, s, hsteps, hanswer⟩ := ih (by omega)
    exact ⟨k + 1, s, .cons hstep hsteps, hanswer⟩

theorem exists_steps_waitsOn (w : Waiting) (start target : Path) :
    ∃ n s, Search.Steps w target n (.begin start) s ∧
      s.answer? target = some (w.waitsOn start target) :=
  exists_steps_search w target _ [start] [] (Nat.le_of_eq (Search.left_begin w start))

/-- A file waits on another exactly if edges lead from the one to the other. -/
theorem waitsOn_iff : w.waitsOn start target = true ↔ ReflTransGen w.Edge start target := by
  obtain ⟨n, s, hsteps, hanswer⟩ := exists_steps_waitsOn w start target
  exact (hsteps.sound (Search.sound_begin w start target)).answer_iff hanswer

theorem waitsOn_eq_false_iff :
    w.waitsOn start target = false ↔ ¬ ReflTransGen w.Edge start target := by
  rw [← waitsOn_iff, Bool.not_eq_true]

/-- Graphs with the same edges, in whatever order they are listed, give the same answers. -/
theorem waitsOn_congr {v : Waiting} (h : ∀ a b, v.Edge a b ↔ w.Edge a b) (start target : Path) :
    v.waitsOn start target = w.waitsOn start target := by
  have hedge : v.Edge = w.Edge := funext₂ fun a b => propext (h a b)
  rw [Bool.eq_iff_iff, waitsOn_iff, waitsOn_iff, hedge]

/-- The search for a file that another one waits on, in whatever order it takes the files that
one waits for: it has at most one step more than the graph has edges, and stops only with an
answer; the answer is whether zero or more edges lead from the one file to the other. The
function makes one such search, and its answer depends on nothing but the edges. -/
theorem search_answers_whether_edges_lead_there (w : Waiting) (start target : Path) :
    (∀ n s, Search.Steps w target n (.begin start) s →
      n ≤ w.length + 1 ∧ (s.answer? target = none → ∃ t, Search.Step w target s t) ∧
      ∀ found, s.answer? target = some found →
        (found = true ↔ ReflTransGen w.Edge start target)) ∧
    (∃ n s, Search.Steps w target n (.begin start) s ∧
      s.answer? target = some (w.waitsOn start target)) ∧
    (w.waitsOn start target = true ↔ ReflTransGen w.Edge start target) ∧
    ∀ v : Waiting, (∀ a b, v.Edge a b ↔ w.Edge a b) →
      v.waitsOn start target = w.waitsOn start target := by
  refine ⟨fun n s hsteps => ⟨?_, Search.exists_step w, fun found => ?_⟩,
    exists_steps_waitsOn w start target, waitsOn_iff, fun v h => waitsOn_congr h start target⟩
  · have hleft := hsteps.left_eq
    rw [Search.left_begin] at hleft
    omega
  · exact (hsteps.sound (Search.sound_begin w start target)).answer_iff

/-! ### A graph with a cycle -/

namespace Knot

/-- A file that waits for the next two. -/
def first : Path := ⟨.slash, ["A.sol"]⟩

/-- A file that waits for itself and for the first. -/
def second : Path := ⟨.slash, ["B.sol"]⟩

/-- A file that waits for no other. -/
def third : Path := ⟨.slash, ["C.sol"]⟩

/-- A file that no other waits for. -/
def apart : Path := ⟨.slash, ["D.sol"]⟩

/-- Who waits for whom. -/
def graph : Waiting := [(first, second), (first, third), (second, second), (second, first)]

end Knot

open Knot in
/-- A search that takes the third file before the second finds it in one step, the function goes
round the cycle before, and so does the search in the graph turned round; all find it. The file
apart is found in no order, and looking for it takes five steps at most. -/
theorem knot_is_searched_in_any_order :
    (∃ s, Search.Steps graph third 1 (.begin first) s ∧ s.answer? third = some true) ∧
      ReflTransGen graph.Edge first third ∧ graph.waitsOn first third = true ∧
      Waiting.waitsOn graph.reverse first third = true ∧
      ∀ n s, Search.Steps graph apart n (.begin first) s →
        n ≤ 5 ∧ ∀ found, s.answer? apart = some found → found = false := by
  have horder : [third, second].Perm (graph.successors first) := by decide
  have hsteps : Search.Steps graph third 1 (.begin first) ⟨[third, second], [first]⟩ :=
    .cons (.enter (by decide) (by decide) horder) (.refl _)
  have hanswer : Search.answer? third ⟨[third, second], [first]⟩ = some true := by decide
  obtain ⟨hall, -, hfinds, hcongr⟩ := search_answers_whether_edges_lead_there graph first third
  have hreach : ReflTransGen graph.Edge first third :=
    ((hall 1 _ hsteps).2.2 true hanswer).mp rfl
  have hfound : graph.waitsOn first third = true := hfinds.mpr hreach
  have hturned := hcongr graph.reverse fun a b => List.mem_reverse
  obtain ⟨hapart, -, hmisses, -⟩ := search_answers_whether_edges_lead_there graph first apart
  have hcut : ¬ ReflTransGen graph.Edge first apart := fun h =>
    absurd (hmisses.mpr h) (by decide)
  refine ⟨⟨_, hsteps, hanswer⟩, hreach, hfound, hturned.trans hfound, fun n s h => ?_⟩
  obtain ⟨hle, -, hiff⟩ := hapart n s h
  refine ⟨hle, fun found hs => ?_⟩
  exact Bool.eq_false_iff.mpr fun ht => hcut ((hiff found hs).mp ht)

end SolidityInterface.Waiting
