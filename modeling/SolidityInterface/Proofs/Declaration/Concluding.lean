import SolidityInterface.Proofs.Declaration.Skipping

/-
  Members end behind their last token. A parser of the grammar sees the token at which it stops
  (`Sight.near`), since a loop ends when that token does not go on with it. But every member of a
  contract ends with a semicolon, a closing bracket or a group that is skipped, and so it has not
  looked at what comes behind (`Concludes`), with two exceptions: a statement and a modifier also
  end where the file ends, and a statement ends before a bracket that closes what was not opened.
  Where something else comes behind a member (`Reader.GoesOn`), it may be replaced by anything.

  A member that is read as a state variable and given up has been tried first, so what is behind
  it has no say in it if the attempt broke off within the statement that is skipped instead
  (`member_concludes`).
-/

namespace SolidityInterface

open Token (Kind)

/-! ## Symbols in common -/

namespace Reader

variable {r s : Reader} {n m : Nat}

/-- Whether neither the end nor a closing bracket comes. -/
def GoesOn (r : Reader) : Prop := r.current.kind ≠ .eof ∧ r.current.kind.isCloser = false

theorem take_of_le (h : r.symbols.take n = s.symbols.take n) (hm : m ≤ n) :
    r.symbols.take m = s.symbols.take m := by
  have hshorter := congrArg (·.take m) h
  simpa only [List.take_take, Nat.min_eq_left hm] using hshorter

theorem current_of_take (hn : 0 < n) (h : r.symbols.take n = s.symbols.take n) :
    r.current.symbol = s.current.symbol :=
  Sight.Shares.current (v := .near) (n := 0) (take_of_le h hn)

theorem kind_of_take (hn : 0 < n) (h : r.symbols.take n = s.symbols.take n) :
    r.current.kind = s.current.kind :=
  congrArg Prod.fst (current_of_take hn h)

theorem drop_of_take (h : r.symbols.take (n + m) = s.symbols.take (n + m)) :
    (r.drop n).symbols.take m = (s.drop n).symbols.take m := by
  have hrest := congrArg (·.drop n) h
  simpa only [List.drop_take, Nat.add_sub_cancel_left, r.drop_symbols, s.drop_symbols] using hrest

end Reader

namespace Parser

theorem statementDepth?_error {depth n : Nat} {k : Kind} (h : statementDepth? depth k = .error n) :
    (n = 0 ∧ k.isCloser = true) ∨ n = 1 := by
  unfold statementDepth? at h
  split at h
  · cases h
  split at h
  · cases depth with
    | zero =>
      cases h
      exact .inl ⟨rfl, ‹_›⟩
    | succ depth => cases h
  split at h
  · cases h
    exact .inr rfl
  · cases h

/-- A statement behind which neither the end nor a closing bracket comes ends with its own
semicolon, so its length depends on its own symbols. -/
theorem statementLength_of_take {depth : Nat} {ts us : List Token} {next : Token}
    (hnext : ts[statementLength depth ts]? = some next) (hcloser : next.kind.isCloser = false)
    (hshare : (ts.map Token.symbol).take (statementLength depth ts)
      = (us.map Token.symbol).take (statementLength depth ts)) :
    statementLength depth us = statementLength depth ts := by
  induction ts generalizing depth us with
  | nil => cases hnext
  | cons t ts ih =>
    rw [statementLength_cons] at hnext hshare ⊢
    have hhead : ∀ {n : Nat}, ((t :: ts).map Token.symbol).take (n + 1) = (us.map Token.symbol).take (n + 1) →
        ∃ u us', us = u :: us' ∧ t.kind = u.kind ∧
          (ts.map Token.symbol).take n = (us'.map Token.symbol).take n := by
      intro n h
      cases us with
      | nil => cases h
      | cons u us =>
        obtain ⟨hsymbol, hrest⟩ := List.cons.inj h
        exact ⟨u, us, rfl, congrArg Prod.fst hsymbol, hrest⟩
    cases hdepth : statementDepth? depth t.kind with
    | error n =>
      rw [hdepth] at hnext hshare
      obtain ⟨rfl, hclose⟩ | rfl := statementDepth?_error hdepth
      · obtain rfl : t = next := Option.some.inj hnext
        rw [hcloser] at hclose
        cases hclose
      · obtain ⟨u, us', rfl, hkind, -⟩ := hhead hshare
        rw [statementLength_cons, ← hkind, hdepth]
    | ok d =>
      rw [hdepth] at hnext hshare
      obtain ⟨u, us', rfl, hkind, hrest⟩ := hhead hshare
      rw [statementLength_cons, ← hkind, hdepth]
      exact congrArg (· + 1) (ih hnext hrest)

theorem statementLength_of_goesOn {r s : Reader}
    (hgoes : (r.drop (statementLength 0 r.ahead)).GoesOn)
    (hshare : r.symbols.take (statementLength 0 r.ahead) = s.symbols.take (statementLength 0 r.ahead)) :
    statementLength 0 s.ahead = statementLength 0 r.ahead := by
  obtain ⟨heof, hcloser⟩ := hgoes
  rw [Reader.current_drop, Reader.peek] at heof hcloser
  cases hnext : r.ahead[statementLength 0 r.ahead]? with
  | none =>
    rw [hnext] at heof
    exact absurd rfl heof
  | some next =>
    rw [hnext] at hcloser
    exact statementLength_of_take hnext hcloser hshare

/-- A state variable up to its name. -/
def variableHead : Parser Variable := do
  let start ← current
  let type ← typeName
  let v ← iterate variableWordRound { type }
  let n ← name s!"state variable declared at line {start.place.line}"
  return { v with name := some n }

/-- The initial value of a state variable, or the semicolon in its place. -/
def variableTail (v : Variable) : Parser Variable := do
  if (← kind) = .eq then skipStatement else discard (expect .semicolon)
  return v

theorem stateVariable_eq : stateVariable = variableHead >>= variableTail := by
  simp only [stateVariable, variableHead, bind_assoc, pure_bind]
  rfl

theorem skipBodyRound_none {u : Unit} {r r' : Reader} (h : skipBodyRound u r = .ok none r') :
    r'.current.kind = .lbrace ∨ r'.current.kind = .semicolon ∨ r'.current.kind = .eof := by
  rw [skipBodyRound, kind_bind] at h
  generalize hk : r.current.kind = k at h
  split at h
  · cases h
    exact .inl hk
  · cases h
    exact .inr (.inl hk)
  · cases h
    exact .inr (.inr hk)
  · rw [← ite_bind] at h
    exact absurd h bind_some_ne_none

end Parser

theorem Agrees.variableHead {v : Sight} {P : Kind → Prop} :
    Agrees v P Parser.variableHead Parser.variableHead fun _ => True := by
  refine current_bind fun t t' _ _ => typeName.bind_taken fun _ => ?_
  exact (iterate variableWordRound _).seq fun _ => name.seq fun _ => pure' id

/-! ## What concludes -/

/-- Whether a parser at a token of some class takes a token if it ends in a value where the file
goes on, and another parser then does the same on a reader that shows the same symbols up to there. -/
def Concludes {α : Type} (P : Kind → Prop) (p q : Parser α) : Prop :=
  ∀ r a r', P r.current.kind → p r = .ok a r' → r'.GoesOn →
    ∃ n, 0 < n ∧ r' = r.drop n ∧ ∀ s, r.symbols.take n = s.symbols.take n → q s = .ok a (s.drop n)

section

variable {α β : Type} {P : Kind → Prop} {Q : α → Prop}

/-- A parser concludes if what comes last in it does. What the first part may see at its stop is
seen by the last part too, which takes a token. -/
theorem Agrees.concludes_of {P' : α → Kind → Prop} {p q : Parser α} {f g : α → Parser β}
    (hp : Agrees .near P p q Q) (hstop : ∀ r a r', p r = .ok a r' → P' a r'.current.kind)
    (hf : ∀ a, Concludes (P' a) (f a) (g a)) : Concludes P (p >>= f) (q >>= g) := by
  intro r b r' hP hr hgoes
  obtain ⟨a, r₁, hpr, hfr⟩ := Sound.bind_ok hr
  obtain ⟨n, rfl, hother, -⟩ := hp.exists_drop hP hpr
  obtain ⟨m, hm, rfl, hrest⟩ := hf a _ b r' (hstop r a _ hpr) hfr hgoes
  refine ⟨n + m, by omega, r.drop_drop n m, ?_⟩
  intro s hs
  have hfirst : Sight.near.Shares n r s := Reader.take_of_le hs (by omega)
  rw [Parser.bind_of_ok (hother s hfirst), hrest _ (Reader.drop_of_take hs), s.drop_drop]

theorem Agrees.concludes {p q : Parser α} {f g : α → Parser β} (hp : Agrees .near P p q Q)
    (hf : ∀ a, Concludes (fun _ => True) (f a) (g a)) : Concludes P (p >>= f) (q >>= g) :=
  hp.concludes_of (fun _ _ _ _ => trivial) hf

/-- A parser that takes a token before one that concludes takes two. -/
theorem Agrees.two_le {p : Parser α} {f : α → Parser β} {r : Reader} {b : β} {n : Nat}
    (hp : Agrees .near P p p fun _ => True) (hf : ∀ a, Concludes (fun _ => True) (f a) (f a))
    (hP : P r.current.kind) (hr : (p >>= f) r = .ok b (r.drop n)) (hgoes : (r.drop n).GoesOn) :
    2 ≤ n := by
  obtain ⟨a, r₁, hpr, hfr⟩ := Sound.bind_ok hr
  obtain ⟨k, rfl, -, htaken⟩ := hp.exists_drop hP hpr
  obtain ⟨m, hm, hstop, -⟩ := hf a _ b _ trivial hfr hgoes
  rw [r.drop_drop] at hstop
  have hk := (htaken trivial).1
  have hn := Reader.drop_inj hstop
  omega

namespace Concludes

theorem bind_pure {p q : Parser α} (h : Concludes P p q) (f : α → β) :
    Concludes P (p >>= fun a => pure (f a)) (q >>= fun a => pure (f a)) := by
  intro r b r' hP hr hgoes
  obtain ⟨a, r₁, hpr, hpure⟩ := Sound.bind_ok hr
  obtain ⟨rfl, rfl⟩ := EStateM.Result.ok.inj hpure
  obtain ⟨n, hn, rfl, hother⟩ := h r a _ hP hpr hgoes
  refine ⟨n, hn, rfl, ?_⟩
  intro s hs
  rw [Parser.bind_of_ok (hother s hs)]
  rfl

theorem ite {p q p' q' : Parser α} {c : Prop} [Decidable c] (hp : c → Concludes P p p')
    (hq : ¬ c → Concludes P q q') : Concludes P (if c then p else q) (if c then p' else q') := by
  split
  · exact hp ‹_›
  · exact hq ‹_›

theorem kind_bind {f g : Kind → Parser β} (hf : ∀ k, P k → Concludes (· = k) (f k) (g k)) :
    Concludes P (Parser.kind >>= f) (Parser.kind >>= g) := by
  intro r b r' hP hr hgoes
  obtain ⟨n, hn, rfl, hother⟩ := hf _ hP r b r' rfl hr hgoes
  refine ⟨n, hn, rfl, ?_⟩
  intro s hs
  rw [Parser.kind_bind, ← Reader.kind_of_take hn hs]
  exact hother s hs

theorem advance : Concludes P (Functor.discard Parser.advance) (Functor.discard Parser.advance) := by
  intro r u r' _ hr _
  obtain ⟨-, rfl⟩ := EStateM.Result.ok.inj hr
  exact ⟨1, Nat.one_pos, rfl, fun s _ => rfl⟩

theorem expect {k : Kind} {note note' : String} :
    Concludes P (Functor.discard (Parser.expect k note)) (Functor.discard (Parser.expect k note')) := by
  intro r u r' _ hr _
  obtain ⟨t, ht⟩ := Sound.discard_ok hr
  obtain ⟨hk, rfl, rfl⟩ := Sound.expect_ok ht
  refine ⟨1, Nat.one_pos, rfl, ?_⟩
  intro s hs
  have hs' : s.current.kind = k := (Reader.kind_of_take Nat.one_pos hs).symm.trans hk
  rw [Agrees.discard_eq]
  refine Parser.bind_of_ok (a := s.current) ?_
  rw [Parser.expect, if_pos hs']

theorem skipGroup : Concludes P Parser.skipGroup Parser.skipGroup := by
  intro r u r' _ hr _
  rw [Parser.skipGroup] at hr
  split at hr
  · cases hr
  rename_i closer hcloser
  split at hr
  · rename_i n hlength
    obtain ⟨-, rfl⟩ := EStateM.Result.ok.inj hr
    refine ⟨n + 1, Nat.succ_pos n, rfl, ?_⟩
    intro s hs
    have hkind := Reader.kind_of_take (Nat.succ_pos n) hs
    have hrest : (r.drop 1).symbols.take n = (s.drop 1).symbols.take n :=
      Reader.drop_of_take (by rwa [Nat.add_comm])
    have hother : Parser.groupLength r.current.kind closer 0 (s.ahead.drop 1) = some n :=
      Parser.groupLength_eq_some hlength hrest
    rw [Parser.skipGroup, ← hkind]
    simp only [hcloser, hother]
  · cases hr

theorem skipStatement {k : Kind} (heof : k ≠ .eof) (hcloser : k.isCloser = false) :
    Concludes (· = k) Parser.skipStatement Parser.skipStatement := by
  rintro r u r' rfl hr hgoes
  obtain ⟨-, rfl⟩ := EStateM.Result.ok.inj hr
  refine ⟨_, Parser.statementLength_pos heof hcloser, rfl, ?_⟩
  intro s hs
  rw [Parser.skipStatement, Parser.statementLength_of_goesOn hgoes hs]

/-! ## Declarations -/

theorem struct : Concludes P Parser.struct Parser.struct := by
  refine (Agrees.expect (by decide)).concludes fun _ => Agrees.name.concludes fun _ => ?_
  refine (Agrees.expect (by decide)).concludes fun _ => ?_
  exact (Agrees.iterate Agrees.structMemberRound _).concludes fun _ => expect.bind_pure _

theorem enum : Concludes P Parser.enum Parser.enum := by
  refine (Agrees.expect (by decide)).concludes fun _ => Agrees.name.concludes fun _ => ?_
  refine (Agrees.expect (by decide)).concludes fun _ => ?_
  exact (Agrees.iterate Agrees.enumMemberRound _).concludes fun _ => expect.bind_pure _

theorem functionBody (f : FunctionDecl) :
    Concludes P (Parser.functionBody f) (Parser.functionBody f) :=
  kind_bind fun _ _ => ite (fun _ => skipGroup.bind_pure _) fun _ => expect.bind_pure _

theorem function : Concludes P Parser.function Parser.function := by
  rw [Parser.function_eq]
  exact Agrees.functionHead.concludes functionBody

theorem specialFunction {k : Kind} (hk : k ≠ .eof) :
    Concludes (· = k) Parser.specialFunction Parser.specialFunction := by
  rw [Parser.specialFunction_eq]
  exact (Agrees.specialHead hk).concludes functionBody

/-- Where the head of a modifier stops, its body starts, or the file ends. -/
theorem modifierBody : Concludes (fun k => k = .lbrace ∨ k = .semicolon ∨ k = .eof)
    Parser.modifierBody Parser.modifierBody := by
  refine kind_bind fun k hk => ?_
  split
  · exact skipGroup
  · exact advance
  · obtain rfl : k = .eof := by tauto
    rintro r u r' heof hr hgoes
    obtain ⟨-, rfl⟩ := EStateM.Result.ok.inj hr
    exact absurd heof hgoes.1

theorem modifier {k : Kind} (hk : k ≠ .eof) :
    Concludes (· = k) (Parser.modifierHead >>= fun _ => Parser.modifierBody)
      (Parser.modifierHead >>= fun _ => Parser.modifierBody) := by
  refine (Agrees.modifierHead hk).concludes_of ?_ fun _ => modifierBody
  intro r u r' hr
  obtain ⟨_, r₁, -, hloop⟩ := Sound.bind_ok hr
  obtain ⟨r₂, -, hlast⟩ := Rounds.of_iterate hloop
  exact Parser.skipBodyRound_none hlast

theorem announcedMember {k : Kind} (hk : k ≠ .eof) :
    Concludes (· = k) Parser.announcedMember Parser.announcedMember := by
  refine kind_bind ?_
  rintro _ rfl
  split
  · exact function.bind_pure _
  · exact struct.bind_pure _
  · exact enum.bind_pure _
  · rw [← bind_assoc]
    exact (modifier hk).bind_pure _
  · exact (skipStatement hk rfl).bind_pure _
  · exact (skipStatement hk rfl).bind_pure _
  · exact (skipStatement hk rfl).bind_pure _
  · exact (skipStatement hk rfl).bind_pure _
  · exact (specialFunction hk).bind_pure _

theorem variableTail (v : Variable) : Concludes P (Parser.variableTail v) (Parser.variableTail v) := by
  refine kind_bind fun k _ => ite (fun hk => ?_) fun _ => expect.bind_pure _
  exact (skipStatement (by rw [hk]; decide) (by rw [hk]; decide)).bind_pure _

theorem stateVariable : Concludes P Parser.stateVariable Parser.stateVariable := by
  rw [Parser.stateVariable_eq]
  exact Agrees.variableHead.concludes variableTail

theorem contractHead : Concludes P Parser.contractHead Parser.contractHead := by
  refine kind_bind fun k _ => ite (fun _ => ?_) fun _ => ?_
  · refine Agrees.step.concludes fun _ => Agrees.contractKind.concludes fun _ => ?_
    exact Agrees.name.concludes fun _ => Agrees.baseList.concludes fun _ => expect.bind_pure _
  · refine Agrees.contractKind.concludes fun _ => Agrees.name.concludes fun _ => ?_
    exact Agrees.baseList.concludes fun _ => expect.bind_pure _

end Concludes

end

/-! ## Members -/

section

variable {r r' : Reader}

/-- Whether the second token decides how the member at a reader is read. -/
def Reader.SecondDecides (r : Reader) : Prop :=
  r.current.kind = .kwConstructor ∨ r.current.kind = .kwReceive ∨ r.current.kind = .kwFallback

theorem Reader.startsVariable_of_take {s : Reader} {n : Nat} (hn : 0 < n)
    (h : r.symbols.take n = s.symbols.take n) (htwo : r.SecondDecides → 2 ≤ n) :
    r.startsVariable = s.startsVariable := by
  by_cases hk : r.SecondDecides
  · exact Reader.startsVariable_eq (Reader.take_of_le h (htwo hk))
  · rw [Reader.startsVariable, Reader.startsVariable, ← Reader.kind_of_take hn h]
    unfold Reader.SecondDecides at hk
    generalize r.current.kind = k at hk
    cases k with
    | kwConstructor | kwReceive | kwFallback => exact absurd (by decide) hk
    | _ => rfl

/-- A statement that starts with such a token takes another one. -/
theorem Parser.two_le_statementLength (hk : r.SecondDecides) (hgoes : (r.drop 1).GoesOn) :
    2 ≤ statementLength 0 r.ahead := by
  unfold Reader.SecondDecides at hk
  have hrest := statementLength_pos hgoes.1 hgoes.2
  cases hahead : r.ahead with
  | nil =>
    rw [Reader.current_of_nil hahead] at hk
    exact absurd hk (by simp [Token.eof])
  | cons t ts =>
    rw [Reader.current_of_cons hahead] at hk
    have hdepth : statementDepth? 0 t.kind = .ok 0 := by
      rcases hk with hk | hk | hk <;> rw [hk] <;> rfl
    rw [Reader.drop_one_ahead hahead] at hrest
    rw [statementLength_cons, hdepth]
    exact Nat.succ_le_succ hrest

/-- What is skipped for a member that was given up is its statement, or the closing bracket that
stands in its place. -/
theorem Parser.statementLength_of_take_max {s : Reader} (heof : r.current.kind ≠ .eof)
    (hgoes : (r.drop (max 1 (statementLength 0 r.ahead))).GoesOn)
    (hshare : r.symbols.take (max 1 (statementLength 0 r.ahead))
      = s.symbols.take (max 1 (statementLength 0 r.ahead))) :
    statementLength 0 s.ahead = statementLength 0 r.ahead := by
  cases hcloser : r.current.kind.isCloser with
  | true =>
    have hnone : statementLength 0 r.ahead = ([] : List Symbol).length :=
      statementLength_of_end rfl .nil (.inr (r.current_kind ▸ hcloser))
    refine statementLength_eq ?_
    rw [hnone] at hshare ⊢
    exact hshare
  | false =>
    have hpos := statementLength_pos heof hcloser
    rw [Nat.max_eq_right hpos] at hgoes hshare
    exact statementLength_of_goesOn hgoes hshare

/-- A member that is read as a state variable concludes, if an attempt at it that was given up
broke off before the end of the statement. -/
theorem variable_concludes {v? : Option Variable} (heof : r.current.kind ≠ .eof)
    (hstop : ∀ e stop, Parser.stateVariable r = .error e stop → e.isSyntax = true → stop.index < r'.index)
    (hr : Parser.recovering Parser.stateVariable r = .ok v? r') (hgoes : r'.GoesOn) :
    ∃ n, 0 < n ∧ r' = r.drop n ∧ (r.SecondDecides → 2 ≤ n) ∧
      ∀ s, r.symbols.take n = s.symbols.take n →
        Parser.recovering Parser.stateVariable s = .ok v? (s.drop n) := by
  cases hvar : Parser.stateVariable r with
  | ok x r₁ =>
    rw [Parser.recovering_of_ok hvar] at hr
    obtain ⟨rfl, rfl⟩ := EStateM.Result.ok.inj hr
    obtain ⟨n, hn, rfl, hother⟩ := Concludes.stateVariable (P := fun _ => True) r x _ trivial hvar hgoes
    rw [Parser.stateVariable_eq] at hvar
    have htwo := Agrees.variableHead.two_le Concludes.variableTail (P := fun _ => True) trivial hvar hgoes
    exact ⟨n, hn, rfl, fun _ => htwo, fun s hs => Parser.recovering_of_ok (hother s hs)⟩
  | error e r₁ =>
    cases hsyntax : e.isSyntax with
    | false =>
      rw [Parser.recovering_of_error hvar hsyntax] at hr
      cases hr
    | true =>
      have hbefore := hstop e r₁ hvar hsyntax
      rw [Parser.recovering_of_syntax hvar hsyntax] at hr
      obtain ⟨rfl, rfl⟩ := EStateM.Result.ok.inj hr
      have hagree := Agrees.stateVariable (v := .near) (P := fun _ => True)
      obtain ⟨k, rfl, hother⟩ := hagree.exists_drop_of_error trivial hvar
      rw [Reader.drop_index, Reader.drop_index] at hbefore
      refine ⟨_, Nat.le_max_left 1 _, rfl, ?_, ?_⟩
      · intro hk
        have hplain : r.current.kind.isCloser = false := by rcases hk with hk | hk | hk <;> rw [hk] <;> rfl
        have hpos := Parser.statementLength_pos heof hplain
        rw [Nat.max_eq_right hpos] at hgoes ⊢
        refine Nat.lt_of_le_of_ne hpos fun hone => ?_
        rw [← hone] at hgoes
        have htwo := Parser.two_le_statementLength hk hgoes
        omega
      · intro s hs
        obtain ⟨e', he', hsyntax'⟩ := hother s (Reader.take_of_le hs (by omega))
        rw [Parser.recovering_of_syntax he' (hsyntax'.trans hsyntax),
          Parser.statementLength_of_take_max heof hgoes hs]

theorem announced_concludes {m : Option Member} (heof : r.current.kind ≠ .eof)
    (hr : Parser.announcedMember r = .ok m r') (hgoes : r'.GoesOn) :
    ∃ n, 0 < n ∧ r' = r.drop n ∧ (r.SecondDecides → 2 ≤ n) ∧
      ∀ s, r.symbols.take n = s.symbols.take n → Parser.announcedMember s = .ok m (s.drop n) := by
  obtain ⟨n, hn, rfl, hother⟩ := Concludes.announcedMember heof r m r' rfl hr hgoes
  refine ⟨n, hn, rfl, ?_, hother⟩
  intro hk
  have hspecial : ∃ f, Parser.specialFunction r = .ok f (r.drop n) := by
    rw [Parser.announcedMember, Parser.kind_bind] at hr
    rcases hk with hk | hk | hk
    all_goals
      rw [hk] at hr
      obtain ⟨f, r₁, hf, hpure⟩ := Sound.bind_ok hr
      obtain ⟨-, rfl⟩ := EStateM.Result.ok.inj hpure
      exact ⟨f, hf⟩
  obtain ⟨f, hf⟩ := hspecial
  rw [Parser.specialFunction_eq] at hf
  exact (Agrees.specialHead heof).two_le Concludes.functionBody rfl hf hgoes

/-- A member concludes, if an attempt at a state variable that was given up broke off before its
end. -/
theorem member_concludes {m : Option Member} (heof : r.current.kind ≠ .eof)
    (hstop : r.startsVariable = true → ∀ e stop, Parser.stateVariable r = .error e stop →
      e.isSyntax = true → stop.index < r'.index)
    (hr : Parser.member r = .ok m r') (hgoes : r'.GoesOn) :
    ∃ n, 0 < n ∧ r' = r.drop n ∧
      ∀ s, r.symbols.take n = s.symbols.take n → Parser.member s = .ok m (s.drop n) := by
  rw [Parser.member_eq] at hr
  cases hstarts : r.startsVariable with
  | true =>
    rw [if_pos hstarts] at hr
    obtain ⟨v?, r₁, hrecovering, hpure⟩ := Sound.bind_ok hr
    obtain ⟨rfl, rfl⟩ := EStateM.Result.ok.inj hpure
    obtain ⟨n, hn, rfl, htwo, hother⟩ := variable_concludes heof (hstop hstarts) hrecovering hgoes
    refine ⟨n, hn, rfl, ?_⟩
    intro s hs
    rw [Parser.member_eq, ← Reader.startsVariable_of_take hn hs htwo, if_pos hstarts]
    exact Parser.bind_of_ok (hother s hs)
  | false =>
    rw [if_neg (by simp [hstarts])] at hr
    obtain ⟨n, hn, rfl, htwo, hother⟩ := announced_concludes heof hr hgoes
    refine ⟨n, hn, rfl, ?_⟩
    intro s hs
    rw [Parser.member_eq, ← Reader.startsVariable_of_take hn hs htwo, if_neg (by simp [hstarts])]
    exact hother s hs

end

end SolidityInterface
