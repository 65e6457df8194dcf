import SolidityInterface.Proofs.Declaration.Locality
import SolidityInterface.Proofs.Declaration.Sound

/-
  The course of the parser over a stream: the places to which its loops over declarations
  and members come (`AtDeclaration`, `AtMember`), and the bodies that it skips (`AtBody`).

  Two streams with the same symbols up to a token have the same course up to there
  (`AtDeclaration.transfer`, `members_transfer`), since every parser on the way sees no
  further than the token at which it stops. Only a state variable that is given up may
  have read on before the parser went back, so no such attempt may reach beyond the token
  (`NoneBeyond`).
-/

namespace SolidityInterface

open Token (Kind)

theorem Parser.bind_of_ok {α β : Type} {p : Parser α} {f : α → Parser β} {r r' : Reader} {a : α}
    (h : p r = .ok a r') : (p >>= f) r = f a r' := by
  show EStateM.bind p f r = _
  rw [EStateM.bind, h]

/-! ## Rounds of a loop -/

/-- Rounds of a loop from one state and reader to another. -/
inductive Rounds {σ : Type} (round : σ → Parser (Option σ)) (x : σ) (r : Reader) : σ → Reader → Prop
  | refl : Rounds round x r x r
  | step {y z : σ} {r₁ r₂ : Reader} (h : Rounds round x r y r₁)
      (hround : round y r₁ = .ok (some z) r₂) : Rounds round x r z r₂

namespace Rounds

variable {σ : Type} {round : σ → Parser (Option σ)} {x y z : σ} {r r₁ r₂ : Reader}

/-- A loop is its first round and a loop from there. -/
theorem iterate_eq_bind {v : Sight}
    (hround : ∀ s, Agrees v (fun _ => True) (round s) (round s) (·.isSome = true)) (x : σ) (r : Reader) :
    Parser.iterate round x r
      = (round x >>= fun o => o.elim (pure x) (Parser.iterate round)) r := by
  rw [Parser.iterate, Parser.iterateWithin]
  refine Parser.bind_congr rfl ?_
  intro o r' hr'
  cases o with
  | none => rfl
  | some y =>
    have hlt := (hround x).left_lt hr' rfl
    exact Agrees.iterateWithin_eq hround y (by omega) (by omega)

/-- Rounds that were run may be left out of a loop. -/
theorem iterate_eq {v : Sight}
    (hround : ∀ s, Agrees v (fun _ => True) (round s) (round s) (·.isSome = true))
    (h : Rounds round x r y r₁) : Parser.iterate round x r = Parser.iterate round y r₁ := by
  induction h with
  | refl => rfl
  | @step y z r₁ r₂ h hstep ih =>
    rw [ih, iterate_eq_bind hround y, Parser.bind_of_ok hstep]
    rfl

/-- Rounds up to one that gives none are a whole loop. -/
theorem iterate_ok {v : Sight}
    (hround : ∀ s, Agrees v (fun _ => True) (round s) (round s) (·.isSome = true))
    (h : Rounds round x r y r₁) (hlast : round y r₁ = .ok none r₂) :
    Parser.iterate round x r = .ok y r₂ := by
  rw [h.iterate_eq hround, iterate_eq_bind hround, Parser.bind_of_ok hlast]
  rfl

theorem cons (hround : round x r = .ok (some y) r₁) (h : Rounds round y r₁ z r₂) :
    Rounds round x r z r₂ := by
  induction h with
  | refl => exact .step .refl hround
  | step h hstep ih => exact .step ih hstep

/-- A loop that ends in a value has run rounds to a last one that gives none. -/
theorem of_iterate (h : Parser.iterate round x r = .ok y r₂) :
    ∃ r₁, Rounds round x r y r₁ ∧ round y r₁ = .ok none r₂ := by
  rw [Parser.iterate] at h
  generalize r.left + 1 = n at h
  induction n generalizing x r with
  | zero => cases h
  | succ n ih =>
    rw [Parser.iterateWithin] at h
    obtain ⟨o, r', hr', hrest⟩ := Sound.bind_ok h
    cases o with
    | none =>
      cases hrest
      exact ⟨r, .refl, hr'⟩
    | some t =>
      obtain ⟨r₁, hrounds, hlast⟩ := ih hrest
      exact ⟨r₁, .cons hr' hrounds, hlast⟩

end Rounds

/-! ## Places of a run -/

/-- The reader behind the first `i` tokens of a stream. -/
def TokenStream.readerAt (t : TokenStream) (i : Nat) : Reader := (Reader.ofStream t).drop i

/-- Whether the parser comes to a declaration of a stream, or to its end, with some
declarations read before. -/
def AtDeclaration (t : TokenStream) (u : SourceUnit) (r : Reader) : Prop :=
  Rounds Parser.unitRound {} (t.readerAt 0) u r

/-- Whether the parser comes to a member of a contract, or to its end. -/
def AtMember (t : TokenStream) (r : Reader) : Prop :=
  ∃ u r₁ c r₂ members, AtDeclaration t u r₁ ∧ startsContract r₁.current.kind = true ∧
    Parser.contractHead r₁ = .ok c r₂ ∧ Rounds Parser.memberRound [] r₂ members r

/-- Whether the parser comes to the body of a function, a constructor, a function for
receiving or falling back, or a modifier, or to the semicolon in its place. -/
inductive AtBody (t : TokenStream) : Reader → Prop
  | free {u : SourceUnit} {f : FunctionDecl} {r₁ r : Reader} (h : AtDeclaration t u r₁)
      (hk : r₁.current.kind = .kwFunction) (hhead : Parser.functionHead r₁ = .ok f r) : AtBody t r
  | function {f : FunctionDecl} {r₁ r : Reader} (h : AtMember t r₁)
      (hk : r₁.current.kind = .kwFunction) (hhead : Parser.functionHead r₁ = .ok f r) : AtBody t r
  | special {f : FunctionDecl} {r₁ r : Reader} (h : AtMember t r₁)
      (hk : r₁.current.kind = .kwConstructor ∨ r₁.current.kind = .kwReceive ∨
        r₁.current.kind = .kwFallback)
      (hparen : (r₁.peek 1).kind = .lparen) (hhead : Parser.specialHead r₁ = .ok f r) : AtBody t r
  | modifier {r₁ r : Reader} (h : AtMember t r₁) (hk : r₁.current.kind = .kwModifier)
      (hhead : Parser.modifierHead r₁ = .ok () r) : AtBody t r

/-- Whether the parser comes to a member that is no state variable, but is tried as one,
and where it gives up. -/
structure Rewinds (t : TokenStream) (r stop : Reader) : Prop where
  atMember : AtMember t r
  more : r.current.kind ≠ .rbrace ∧ r.current.kind ≠ .eof
  startsVariable : r.startsVariable = true
  given_up : ∃ e, Parser.stateVariable r = .error e stop ∧ e.isSyntax = true

/-! ## The run before the body -/

section Before

variable {t₁ t₂ : TokenStream} {limit : Nat}

theorem TokenStream.readerAt_drop (t : TokenStream) (i n : Nat) :
    (t.readerAt i).drop n = t.readerAt (i + n) :=
  Reader.drop_drop _ _ _

@[simp] theorem TokenStream.readerAt_index (t : TokenStream) (i : Nat) : (t.readerAt i).index = i :=
  Nat.zero_add i

theorem TokenStream.readerAt_inj {t : TokenStream} {i j : Nat} (h : t.readerAt i = t.readerAt j) :
    i = j := by
  simpa using congrArg Reader.index h

theorem TokenStream.readerAt_symbols (t : TokenStream) (i : Nat) :
    (t.readerAt i).symbols = t.symbols.drop i :=
  Reader.drop_symbols _ _

/-- A parser stops at a later place of the stream. -/
theorem Agrees.exists_readerAt {α : Type} {v : Sight} {P : Kind → Prop} {p q : Parser α}
    {Q : α → Prop} (h : Agrees v P p q Q) {t : TokenStream} {i : Nat} {a : α} {r : Reader}
    (hP : P (t.readerAt i).current.kind) (hr : p (t.readerAt i) = .ok a r) :
    ∃ j, i ≤ j ∧ r = t.readerAt j := by
  obtain ⟨n, rfl, -, -⟩ := h.exists_drop hP hr
  exact ⟨i + n, Nat.le_add_right i n, t.readerAt_drop i n⟩

theorem Rounds.exists_readerAt {σ : Type} {v : Sight} {round : σ → Parser (Option σ)}
    (hround : ∀ s, Agrees v (fun _ => True) (round s) (round s) (·.isSome = true)) {t : TokenStream}
    {x y : σ} {i : Nat} {r : Reader} (h : Rounds round x (t.readerAt i) y r) :
    ∃ j, i ≤ j ∧ r = t.readerAt j := by
  induction h with
  | refl => exact ⟨i, Nat.le_refl i, rfl⟩
  | step h hstep ih =>
    obtain ⟨j, hj, rfl⟩ := ih
    obtain ⟨k, hk, rfl⟩ := (hround _).exists_readerAt trivial hstep
    exact ⟨k, Nat.le_trans hj hk, rfl⟩

theorem AtDeclaration.exists_readerAt {t : TokenStream} {u : SourceUnit} {r : Reader}
    (h : AtDeclaration t u r) : ∃ i, r = t.readerAt i := by
  obtain ⟨i, -, hi⟩ := Rounds.exists_readerAt Agrees.unitRound h
  exact ⟨i, hi⟩

theorem AtMember.exists_readerAt {t : TokenStream} {r : Reader} (h : AtMember t r) :
    ∃ i, r = t.readerAt i := by
  obtain ⟨u, r₁, c, r₂, members, hat, -, hhead, hrounds⟩ := h
  obtain ⟨i₁, rfl⟩ := hat.exists_readerAt
  obtain ⟨i₂, -, rfl⟩ :=
    (Agrees.contractHead (v := .near) (P := fun _ => True)).exists_readerAt trivial hhead
  obtain ⟨i, -, hi⟩ := Rounds.exists_readerAt Agrees.memberRound hrounds
  exact ⟨i, hi⟩

variable (hshare : t₁.symbols.take (limit + 1) = t₂.symbols.take (limit + 1))
include hshare

/-- Up to the limit the streams show the same. -/
theorem shares_readerAt {i n : Nat} (h : i + n ≤ limit) :
    Sight.near.Shares n (t₁.readerAt i) (t₂.readerAt i) := by
  have hstart : Sight.near.Shares limit (Reader.ofStream t₁) (Reader.ofStream t₂) := hshare
  exact (hstart.of_le h).drop

/-- A parser that stops before the limit does the same on both streams. -/
theorem Agrees.transfer {α : Type} {P : Kind → Prop} {p : Parser α} {Q : α → Prop}
    (h : Agrees .near P p p Q) {i : Nat} {a : α} {r : Reader} (hP : P (t₁.readerAt i).current.kind)
    (hr : p (t₁.readerAt i) = .ok a r) (hle : r.index ≤ limit) :
    ∃ j, i ≤ j ∧ r = t₁.readerAt j ∧ p (t₂.readerAt i) = .ok a (t₂.readerAt j) := by
  obtain ⟨n, rfl, hother, -⟩ := h.exists_drop hP hr
  rw [t₁.readerAt_drop] at hle ⊢
  rw [t₁.readerAt_index] at hle
  refine ⟨i + n, Nat.le_add_right i n, rfl, ?_⟩
  rw [← t₂.readerAt_drop]
  exact hother _ (shares_readerAt hshare hle)

omit hshare in
theorem Agrees.index_le {α : Type} {P : Kind → Prop} {p : Parser α} {Q : α → Prop} {v : Sight}
    (h : Agrees v P p p Q) {r r' : Reader} {a : α} (hP : P r.current.kind) (hr : p r = .ok a r') :
    r.index ≤ r'.index := by
  obtain ⟨n, rfl, -, -⟩ := h.exists_drop hP hr
  exact Nat.le_add_right _ _

omit hshare in
/-- Rounds up to the limit are the same on both streams if each of them is. -/
theorem Rounds.transfer {σ : Type} {round : σ → Parser (Option σ)} {v : Sight} {x y : σ} {i : Nat}
    {r : Reader} (hround : ∀ s, Agrees v (fun _ => True) (round s) (round s) (·.isSome = true))
    (hstep : ∀ y z j r', Rounds round x (t₁.readerAt i) y (t₁.readerAt j) →
      round y (t₁.readerAt j) = .ok (some z) r' → r'.index ≤ limit →
      ∃ k, j ≤ k ∧ r' = t₁.readerAt k ∧ round y (t₂.readerAt j) = .ok (some z) (t₂.readerAt k))
    (h : Rounds round x (t₁.readerAt i) y r) (hle : r.index ≤ limit) :
    ∃ j, i ≤ j ∧ r = t₁.readerAt j ∧ Rounds round x (t₂.readerAt i) y (t₂.readerAt j) := by
  induction h with
  | refl => exact ⟨i, Nat.le_refl i, rfl, .refl⟩
  | @step y z r₁ r₂ h hstep' ih =>
    have hbefore := (hround y).index_le trivial hstep'
    obtain ⟨j, hj, rfl, hrounds⟩ := ih (Nat.le_trans hbefore hle)
    obtain ⟨k, hk, rfl, hother⟩ := hstep y z j r₂ h hstep' hle
    exact ⟨k, Nat.le_trans hj hk, rfl, .step hrounds hother⟩

/-- A state variable, or the statement that is skipped in its place, is the same on both streams
if it ends before the limit and the attempt reads no further. -/
theorem variableMember_transfer {i : Nat} {m : Option Member} {r : Reader}
    (hstop : ∀ e stop, Parser.stateVariable (t₁.readerAt i) = .error e stop →
      e.isSyntax = true → stop.index ≤ limit)
    (hr : Parser.variableMember (t₁.readerAt i) = .ok m r) (hle : r.index ≤ limit) :
    ∃ j, i ≤ j ∧ r = t₁.readerAt j ∧
      Parser.variableMember (t₂.readerAt i) = .ok m (t₂.readerAt j) := by
  obtain ⟨v?, r', hrecovering, hpure⟩ := Sound.bind_ok hr
  obtain ⟨rfl, rfl⟩ := EStateM.Result.ok.inj hpure
  have hsuffices : ∀ j, Parser.recovering Parser.stateVariable (t₂.readerAt i)
        = .ok v? (t₂.readerAt j) →
      Parser.variableMember (t₂.readerAt i) = .ok (v?.map fun v => .state [v]) (t₂.readerAt j) := by
    intro j hj
    exact Parser.bind_of_ok hj
  cases hvar : Parser.stateVariable (t₁.readerAt i) with
  | ok x r₁ =>
    rw [Parser.recovering_of_ok hvar] at hrecovering
    obtain ⟨rfl, rfl⟩ := EStateM.Result.ok.inj hrecovering
    obtain ⟨j, hj, rfl, hother⟩ := Agrees.transfer hshare (P := fun _ => True) Agrees.stateVariable
      trivial hvar hle
    exact ⟨j, hj, rfl, hsuffices j (Parser.recovering_of_ok hother)⟩
  | error e r₁ =>
    cases hsyntax : e.isSyntax with
    | false =>
      rw [Parser.recovering_of_error hvar hsyntax] at hrecovering
      cases hrecovering
    | true =>
      have hindex := hstop e r₁ hvar hsyntax
      rw [Parser.recovering_of_syntax hvar hsyntax] at hrecovering
      obtain ⟨rfl, rfl⟩ := EStateM.Result.ok.inj hrecovering
      have hagree := Agrees.stateVariable (v := .near) (P := fun _ => True)
      obtain ⟨n, rfl, hother⟩ := hagree.exists_drop_of_error trivial hvar
      rw [t₁.readerAt_drop, t₁.readerAt_index] at hindex hle
      obtain ⟨e', he', hsyntax'⟩ := hother _ (shares_readerAt hshare hindex)
      -- The statement that is skipped instead ends before the limit, like the attempt.
      have hlength : Parser.statementLength 0 (t₂.readerAt i).ahead
          = Parser.statementLength 0 (t₁.readerAt i).ahead :=
        Parser.statementLength_eq (shares_readerAt hshare (by omega)).take
      refine ⟨_, Nat.le_add_right i _, t₁.readerAt_drop i _, hsuffices _ ?_⟩
      rw [Parser.recovering_of_syntax he' (hsyntax'.trans hsyntax), hlength, t₂.readerAt_drop]

/-- A member that ends before the limit is the same on both streams, if no state variable
was tried there that reads beyond the limit. -/
theorem member_transfer {i : Nat} {m : Option Member} {r : Reader}
    (heof : (t₁.readerAt i).current.kind ≠ .eof)
    (hstop : i < limit → (t₁.readerAt i).startsVariable = true → ∀ e stop,
      Parser.stateVariable (t₁.readerAt i) = .error e stop → e.isSyntax = true → stop.index ≤ limit)
    (hr : Parser.member (t₁.readerAt i) = .ok m r) (hle : r.index ≤ limit) :
    ∃ j, i ≤ j ∧ r = t₁.readerAt j ∧ Parser.member (t₂.readerAt i) = .ok m (t₂.readerAt j) := by
  have htaken : i + 1 ≤ limit := by
    obtain ⟨n, rfl, -, htaken⟩ := (Agrees.member heof).exists_drop rfl hr
    have hpos := (htaken trivial).1
    rw [t₁.readerAt_drop, t₁.readerAt_index] at hle
    omega
  have hvariable : (t₁.readerAt i).startsVariable = (t₂.readerAt i).startsVariable :=
    Reader.startsVariable_eq (shares_readerAt hshare htaken)
  rw [Parser.member_eq] at hr
  rw [Parser.member_eq, ← hvariable]
  split at hr
  · rename_i hstarts
    rw [if_pos hstarts]
    exact variableMember_transfer hshare (hstop htaken hstarts) hr hle
  · rename_i hstarts
    rw [if_neg hstarts]
    exact Agrees.transfer hshare (Agrees.announcedMember heof) rfl hr hle

omit hshare in
theorem Parser.memberRound_eq (members : List Member) {r : Reader}
    (hk : r.current.kind ≠ .rbrace ∧ r.current.kind ≠ .eof) :
    memberRound members r = (member >>= fun m? => pure (some (members ++ m?.toList))) r := by
  rw [memberRound, kind_bind]
  generalize r.current.kind = k at hk ⊢
  cases k with
  | rbrace => exact absurd rfl hk.1
  | eof => exact absurd rfl hk.2
  | _ => rfl

omit hshare in
theorem Parser.memberRound_stop (members : List Member) {r : Reader}
    (hk : ¬ (r.current.kind ≠ .rbrace ∧ r.current.kind ≠ .eof)) :
    memberRound members r = .ok none r := by
  rw [memberRound, kind_bind]
  generalize r.current.kind = k at hk ⊢
  cases k with
  | rbrace | eof => rfl
  | _ => exact absurd ⟨by decide, by decide⟩ hk

/-- Whether no state variable that is tried before the limit reads beyond it. -/
def NoneBeyond (t : TokenStream) (limit : Nat) : Prop :=
  ∀ r stop, Rewinds t r stop → r.index < limit → stop.index ≤ limit

theorem memberRound_transfer (hnone : NoneBeyond t₁ limit) {i : Nat} {members : List Member}
    {next : Option (List Member)} {r : Reader} (hat : AtMember t₁ (t₁.readerAt i)) (hi : i ≤ limit)
    (hr : Parser.memberRound members (t₁.readerAt i) = .ok next r) (hle : r.index ≤ limit) :
    ∃ j, i ≤ j ∧ r = t₁.readerAt j ∧
      Parser.memberRound members (t₂.readerAt i) = .ok next (t₂.readerAt j) := by
  have hkind := (shares_readerAt (n := 0) hshare hi).kind
  by_cases hk : (t₁.readerAt i).current.kind ≠ .rbrace ∧ (t₁.readerAt i).current.kind ≠ .eof
  · rw [Parser.memberRound_eq members hk] at hr
    obtain ⟨m, r', hm, hpure⟩ := Sound.bind_ok hr
    obtain ⟨rfl, rfl⟩ := EStateM.Result.ok.inj hpure
    have hstop : i < limit → (t₁.readerAt i).startsVariable = true → ∀ e stop,
        Parser.stateVariable (t₁.readerAt i) = .error e stop → e.isSyntax = true →
        stop.index ≤ limit := by
      intro hlt hstarts e stop he hsyntax
      exact hnone _ stop ⟨hat, hk, hstarts, e, he, hsyntax⟩ (by simpa using hlt)
    obtain ⟨j, hj, rfl, hother⟩ := member_transfer hshare hk.2 hstop hm hle
    refine ⟨j, hj, rfl, ?_⟩
    rw [Parser.memberRound_eq members (hkind ▸ hk), Parser.bind_of_ok hother]
    rfl
  · rw [Parser.memberRound_stop members hk] at hr
    obtain ⟨rfl, rfl⟩ := EStateM.Result.ok.inj hr
    exact ⟨i, Nat.le_refl i, rfl, Parser.memberRound_stop members (hkind ▸ hk)⟩

/-- The members of a contract up to the limit. -/
theorem members_transfer (hnone : NoneBeyond t₁ limit) {u : SourceUnit} {c : Contract} {i j : Nat}
    {members : List Member} {r : Reader} (hat : AtDeclaration t₁ u (t₁.readerAt i))
    (hk : startsContract (t₁.readerAt i).current.kind = true)
    (hhead : Parser.contractHead (t₁.readerAt i) = .ok c (t₁.readerAt j))
    (h : Rounds Parser.memberRound [] (t₁.readerAt j) members r) (hle : r.index ≤ limit) :
    ∃ k, j ≤ k ∧ r = t₁.readerAt k ∧
      Rounds Parser.memberRound [] (t₂.readerAt j) members (t₂.readerAt k) := by
  refine Rounds.transfer Agrees.memberRound ?_ h hle
  intro y z k r' hrounds hround hr'
  have hmember : AtMember t₁ (t₁.readerAt k) := ⟨u, _, c, _, y, hat, hk, hhead, hrounds⟩
  have hbefore := (Agrees.memberRound (P := fun _ => True) y).index_le trivial hround
  rw [t₁.readerAt_index] at hbefore
  exact memberRound_transfer hshare hnone hmember (by omega) hround hr'

theorem contract_transfer (hnone : NoneBeyond t₁ limit) {u : SourceUnit} {c : Contract} {i : Nat}
    {r : Reader} (hat : AtDeclaration t₁ u (t₁.readerAt i))
    (hk : startsContract (t₁.readerAt i).current.kind = true)
    (hr : Parser.contract (t₁.readerAt i) = .ok c r) (hle : r.index ≤ limit) :
    ∃ j, i ≤ j ∧ r = t₁.readerAt j ∧ Parser.contract (t₂.readerAt i) = .ok c (t₂.readerAt j) := by
  rw [Parser.contract_eq] at hr ⊢
  obtain ⟨head, r₁, hhead, hrest⟩ := Sound.bind_ok hr
  obtain ⟨members, r₂, hloop, hend⟩ := Sound.bind_ok hrest
  obtain ⟨r₃, hrounds, hlast⟩ := Rounds.of_iterate hloop
  have hagree : Agrees .near (fun _ => True)
      (Functor.discard (Parser.expect .rbrace) >>= fun _ => pure { head with members })
      (Functor.discard (Parser.expect .rbrace) >>= fun _ => pure { head with members })
      fun _ => False :=
    (Agrees.expect (by decide)).seq fun _ => Agrees.pure' id
  have hle₂ := Nat.le_trans (hagree.index_le trivial hend) hle
  have hle₃ := Nat.le_trans ((Agrees.memberRound (P := fun _ => True) members).index_le trivial hlast) hle₂
  have hle₁ := Nat.le_trans ((Agrees.contractMembers (P := fun _ => True) head).index_le trivial hrest) hle
  obtain ⟨j₁, hj₁, rfl, hhead'⟩ :=
    Agrees.transfer hshare (P := fun _ => True) Agrees.contractHead trivial hhead hle₁
  obtain ⟨j₃, hj₃, rfl, hrounds'⟩ := members_transfer hshare hnone hat hk hhead hrounds hle₃
  rw [t₁.readerAt_index] at hle₃
  obtain ⟨j₂, hj₂, rfl, hlast'⟩ := memberRound_transfer hshare hnone
    ⟨u, _, head, _, members, hat, hk, hhead, hrounds⟩ hle₃ hlast hle₂
  obtain ⟨j, hj, rfl, hend'⟩ := Agrees.transfer hshare hagree trivial hend hle
  refine ⟨j, by omega, rfl, ?_⟩
  rw [Parser.bind_of_ok hhead', Parser.contractMembers,
    Parser.bind_of_ok (hrounds'.iterate_ok Agrees.memberRound hlast')]
  exact hend'

omit hshare in
theorem Parser.unitRound_contract (u : SourceUnit) {r : Reader}
    (hk : startsContract r.current.kind = true) :
    unitRound u r
      = (contract >>= fun c => pure (some { u with contracts := u.contracts ++ [c] })) r := by
  rw [unitRound, kind_bind]
  generalize r.current.kind = k at hk ⊢
  cases k with
  | kwContract | kwInterface | kwLibrary | kwAbstract => rfl
  | _ => cases hk

omit hshare in
/-- Declarations other than contracts are read without going back. -/
theorem Agrees.unitRound_near (u : SourceUnit) :
    Agrees .near (fun k => startsContract k = false) (Parser.unitRound u) (Parser.unitRound u)
      (·.isSome = true) := by
  refine unitRound_of u ?_
  intro k hother hk
  rw [hother] at hk
  cases hk

omit hshare in
theorem Parser.unitRound_function (u : SourceUnit) {r : Reader} (hk : r.current.kind = .kwFunction) :
    unitRound u r = (function >>= fun _ => pure (some u)) r := by
  rw [unitRound, kind_bind, hk, Agrees.discard_eq]
  simp only [bind_assoc, pure_bind]

omit hshare in
theorem Parser.member_function {r : Reader} (hk : r.current.kind = .kwFunction) :
    member r = (function >>= fun f => pure (some (.function f))) r := by
  rw [member, kind_bind, hk]

omit hshare in
theorem Parser.member_special {r : Reader} (hk : r.current.kind = .kwConstructor ∨
      r.current.kind = .kwReceive ∨ r.current.kind = .kwFallback)
    (hparen : (r.peek 1).kind = .lparen) :
    member r = (specialFunction >>= fun f => pure (some (.function f))) r := by
  have hstarts : r.startsVariable = false := by
    rcases hk with hk | hk | hk <;> simp [Reader.startsVariable, hk, hparen]
  rw [member_eq, hstarts, if_neg (by decide), announcedMember, kind_bind]
  rcases hk with hk | hk | hk <;> rw [hk]

omit hshare in
theorem Parser.member_modifier {r : Reader} (hk : r.current.kind = .kwModifier) :
    member r = (modifierHead >>= fun _ => modifierBody >>= fun _ => pure none) r := by
  rw [member, kind_bind, hk, ← modifier_eq]

/-- The declarations up to the limit. -/
theorem AtDeclaration.transfer (hnone : NoneBeyond t₁ limit) {u : SourceUnit} {r : Reader}
    (h : AtDeclaration t₁ u r) (hle : r.index ≤ limit) :
    ∃ i, r = t₁.readerAt i ∧ AtDeclaration t₂ u (t₂.readerAt i) := by
  have hstep : ∀ u u' j r', Rounds Parser.unitRound {} (t₁.readerAt 0) u (t₁.readerAt j) →
      Parser.unitRound u (t₁.readerAt j) = .ok (some u') r' → r'.index ≤ limit →
      ∃ k, j ≤ k ∧ r' = t₁.readerAt k ∧ Parser.unitRound u (t₂.readerAt j) = .ok (some u') (t₂.readerAt k) := by
    intro u u' j r' hrounds hround hr'
    have hbefore := (Agrees.unitRound (P := fun _ => True) u).index_le trivial hround
    rw [t₁.readerAt_index] at hbefore
    have hkind := (shares_readerAt (n := 0) hshare (Nat.le_trans hbefore hr')).kind
    cases hk : startsContract (t₁.readerAt j).current.kind with
    | false => exact Agrees.transfer hshare (Agrees.unitRound_near u) hk hround hr'
    | true =>
      rw [Parser.unitRound_contract u hk] at hround
      obtain ⟨c, r₁, hc, hpure⟩ := Sound.bind_ok hround
      obtain ⟨hu', rfl⟩ := EStateM.Result.ok.inj hpure
      obtain ⟨k, hj, rfl, hother⟩ := contract_transfer hshare hnone hrounds hk hc hr'
      refine ⟨k, hj, rfl, ?_⟩
      rw [Parser.unitRound_contract u (hkind ▸ hk), Parser.bind_of_ok hother, ← hu']
      rfl
  obtain ⟨i, -, hi, hrounds⟩ := Rounds.transfer Agrees.unitRound hstep h hle
  exact ⟨i, hi, hrounds⟩

end Before

end SolidityInterface
