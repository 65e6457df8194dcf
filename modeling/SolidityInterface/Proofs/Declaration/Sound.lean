import SolidityInterface.Declaration.Grammar
import SolidityInterface.Proofs.Token.Rounds

/-
  What parsers give on the tokens of a source. `Sound P p Q`: on a reader whose tokens
  are tidy and whose current token has the property `P`, if the parser `p` ends in a
  value, then the value has the property `Q` and the tokens left are tidy again. So no
  parser stops inside a pragma, whose name is an identifier but need not be a name.
-/

namespace SolidityInterface

open Token (Kind)

namespace Tidy

theorem drop_one {ts : List Token} (h : Tidy ts) (hk : ∀ t ∈ ts.head?, t.kind ≠ .kwPragma) :
    Tidy (ts.drop 1) := by
  cases h with
  | nil => exact nil
  | solid ht h => exact h
  | pragma hword hname hvalue hp h =>
    exact absurd (Prod.mk.inj hword).1 (hk _ rfl)

theorem drop_statement {ts : List Token} (h : Tidy ts) (depth : Nat) :
    Tidy (ts.drop (Parser.statementLength depth ts)) := by
  induction h generalizing depth with
  | nil => exact nil
  | @solid t rest ht h ih =>
    rw [Parser.statementLength.eq_def]
    dsimp only
    split
    · exact ih _
    split
    · cases depth with
      | zero => exact solid ht h
      | succ depth => exact ih _
    split
    · exact h
    · exact ih _
  | @pragma word name value rest hword hname hvalue hp h ih =>
    have hkind : word.kind = .kwPragma := (Prod.mk.inj hword).1
    simp only [Parser.statementLength, hkind, hname, hvalue, Kind.isOpener, Kind.closer?, Kind.isCloser]
    exact ih _

theorem drop_group {ts : List Token} {opener closer : Kind} {depth n : Nat} (h : Tidy ts)
    (hopener : opener.isOpener = true) (hcloser : closer.isCloser = true)
    (hn : Parser.groupLength opener closer depth ts = some n) : Tidy (ts.drop n) := by
  induction h generalizing depth n with
  | nil => simp [Parser.groupLength] at hn
  | @solid t rest ht h ih =>
    rw [Parser.groupLength.eq_def] at hn
    dsimp only at hn
    split at hn
    · obtain ⟨m, hm, rfl⟩ := Option.map_eq_some_iff.mp hn
      exact ih hm
    split at hn
    · cases depth with
      | zero =>
        obtain rfl : 1 = n := by simpa using hn
        exact h
      | succ depth =>
        obtain ⟨m, hm, rfl⟩ := Option.map_eq_some_iff.mp hn
        exact ih hm
    · obtain ⟨m, hm, rfl⟩ := Option.map_eq_some_iff.mp hn
      exact ih hm
  | @pragma word name value rest hword hname hvalue hp h ih =>
    -- The three tokens of a pragma are no brackets, so a group has all of them or none.
    have hkind : word.kind = .kwPragma := (Prod.mk.inj hword).1
    have hother : ∀ k : Kind, k = .kwPragma ∨ k = .identifier ∨ k = .pragmaValue →
        k ≠ opener ∧ k ≠ closer := by
      rintro k (rfl | rfl | rfl) <;> constructor <;> rintro rfl <;>
        simp [Kind.isOpener, Kind.closer?, Kind.isCloser] at hopener hcloser
    obtain ⟨hw₁, hw₂⟩ := hother _ (.inl hkind)
    obtain ⟨hn₁, hn₂⟩ := hother _ (.inr (.inl hname))
    obtain ⟨hv₁, hv₂⟩ := hother _ (.inr (.inr hvalue))
    simp only [Parser.groupLength, hw₁, hw₂, hn₁, hn₂, hv₁, hv₂, if_false, Option.map_map] at hn
    obtain ⟨m, hm, rfl⟩ := Option.map_eq_some_iff.mp hn
    exact ih hm

theorem drop_takeWhile {ts : List Token} (h : Tidy ts) :
    Tidy (ts.drop (ts.takeWhile (·.kind ≠ .rbracket)).length) := by
  induction h with
  | nil => exact nil
  | @solid t rest ht h ih =>
    by_cases hk : t.kind = .rbracket
    · rw [List.takeWhile_cons_of_neg (by simpa using hk)]
      exact solid ht h
    · rw [List.takeWhile_cons_of_pos (by simpa using hk)]
      exact ih
  | @pragma word name value rest hword hname hvalue hp h ih =>
    have hkind : word.kind = .kwPragma := (Prod.mk.inj hword).1
    simp only [List.takeWhile_cons, hkind, hname, hvalue]
    exact ih

end Tidy

/-- Whether a parser that starts at a token of some kind gives values of some kind and
leaves tidy tokens. -/
def Sound {α : Type} (P : Token → Prop) (p : Parser α) (Q : α → Prop) : Prop :=
  ∀ r a r', Tidy r.ahead → P r.current → p r = .ok a r' → Tidy r'.ahead ∧ Q a

theorem Reader.head?_kind {r : Reader} {k : Kind} (h : r.current.kind ≠ k) :
    ∀ t ∈ r.ahead.head?, t.kind ≠ k := by
  intro t ht
  obtain ⟨rest, hr⟩ : ∃ rest, r.ahead = t :: rest := by
    cases hr : r.ahead with
    | nil => simp [hr] at ht
    | cons u rest => exact ⟨rest, by rw [show u = t by simpa [hr] using ht]⟩
  simpa [current, hr] using h

/-- The current token of tidy tokens is solid, or a pragma starts there. -/
theorem Tidy.current_cases {r : Reader} (h : Tidy r.ahead) :
    r.current.Solid ∨ r.current.symbol = (.kwPragma, "pragma") := by
  unfold Reader.current
  cases hr : r.ahead with
  | nil => exact .inl ⟨by simp [Token.eof], by simp [Token.eof, Kind.isName]⟩
  | cons t rest =>
    rw [hr] at h
    cases h with
    | solid ht h => exact .inl ht
    | pragma hword hname hvalue hp h => exact .inr hword

theorem Tidy.current_solid {r : Reader} (h : Tidy r.ahead) (hk : r.current.kind ≠ .kwPragma) :
    r.current.Solid :=
  h.current_cases.resolve_right fun hsymbol => hk (Prod.mk.inj hsymbol).1

namespace Sound

variable {α β σ : Type} {P : Token → Prop} {Q : α → Prop} {R : β → Prop}

theorem bind_ok {p : Parser α} {f : α → Parser β} {r r' : Reader} {b : β}
    (h : (p >>= f) r = .ok b r') : ∃ a s, p r = .ok a s ∧ f a s = .ok b r' := by
  change EStateM.bind p f r = _ at h
  rw [EStateM.bind] at h
  split at h
  · exact ⟨_, _, ‹_›, h⟩
  · simp at h

theorem discard_ok {p : Parser α} {r r' : Reader} {u : Unit} (h : Functor.discard p r = .ok u r') :
    ∃ a, p r = .ok a r' := by
  change EStateM.map (Function.const α ()) p r = _ at h
  rw [EStateM.map] at h
  split at h
  · cases h
    exact ⟨_, ‹_›⟩
  · simp at h

theorem expect_ok {k : Kind} {note : String} {r r' : Reader} {t : Token}
    (h : Parser.expect k note r = .ok t r') : r.current.kind = k ∧ r.current = t ∧ r.drop 1 = r' := by
  rw [Parser.expect] at h
  split at h
  · cases h
    exact ⟨‹_›, rfl, rfl⟩
  · simp at h

theorem pure' {a : α} (ha : Q a) : Sound P (pure a) Q := by
  intro r b r' hr _ h
  cases h
  exact ⟨hr, ha⟩

theorem bind {p : Parser α} {f : α → Parser β} (hp : Sound P p Q)
    (hf : ∀ a, Q a → Sound (fun _ => True) (f a) R) : Sound P (p >>= f) R := by
  intro r b r' hr hP h
  obtain ⟨a, r₁, h₁, h₂⟩ := bind_ok h
  obtain ⟨hr₁, ha⟩ := hp r a r₁ hr hP h₁
  exact hf a ha r₁ b r' hr₁ trivial h₂

theorem discard {p : Parser α} (hp : Sound P p Q) : Sound P (Functor.discard p) fun _ => True := by
  intro r b r' hr hP h
  obtain ⟨a, h₁⟩ := discard_ok h
  exact ⟨(hp r a r' hr hP h₁).1, trivial⟩

theorem throw (e : ParseError) : Sound P (MonadExcept.throw e) Q := by
  intro r a r' _ _ h
  cases h

theorem ite {p q : Parser α} {c : Prop} [Decidable c] (hp : c → Sound P p Q)
    (hq : ¬ c → Sound P q Q) : Sound P (if c then p else q) Q := by
  split
  · exact hp ‹_›
  · exact hq ‹_›

theorem weaken {P' : Token → Prop} {p : Parser α} (hp : Sound P' p Q) (hP : ∀ t, P t → P' t) :
    Sound P p Q := fun r a r' hr hc h => hp r a r' hr (hP _ hc) h

theorem imp {Q' : α → Prop} {p : Parser α} (hp : Sound P p Q') (hQ : ∀ a, Q' a → Q a) :
    Sound P p Q := fun r a r' hr hc h => (hp r a r' hr hc h).imp_right (hQ a)

theorem of_some {a : α} (h : Q a) : ∀ b ∈ some a, Q b := by
  simpa using h

/-! ## Single tokens -/

theorem current_bind {f : Token → Parser β}
    (hf : ∀ t, P t → t.Solid ∨ t.symbol = (.kwPragma, "pragma") → Sound (· = t) (f t) R) :
    Sound P (Parser.current >>= f) R :=
  fun r b r' hr hP h => hf r.current hP hr.current_cases r b r' hr rfl h

theorem kind_bind {f : Kind → Parser β} (hf : ∀ k, Sound (fun t => t.kind = k) (f k) R) :
    Sound P (Parser.kind >>= f) R :=
  fun r b r' hr _ h => hf r.current.kind r b r' hr rfl h

theorem get_bind {f : Reader → Parser β} (hf : ∀ s, Sound P (f s) R) : Sound P (get >>= f) R :=
  fun r b r' hr hP h => hf r r b r' hr hP h

theorem advance (hP : ∀ t, P t → t.kind ≠ .kwPragma) :
    Sound P Parser.advance fun t => P t ∧ t.Solid := by
  intro r t r' hr hc h
  cases h
  exact ⟨hr.drop_one (Reader.head?_kind (hP _ hc)), hc, hr.current_solid (hP _ hc)⟩

/-- Takes a token of a class that is not that of pragmas. -/
theorem skip {k : Kind} (hk : k ≠ .kwPragma) :
    Sound (fun t => t.kind = k) (Functor.discard Parser.advance) fun _ => True := by
  refine discard (advance ?_)
  rintro t rfl
  exact hk

theorem expect {k : Kind} {note : String} (hk : k ≠ .kwPragma) :
    Sound P (Parser.expect k note) fun t => t.kind = k ∧ t.Solid := by
  intro r t r' hr _ h
  obtain ⟨hkind, rfl, rfl⟩ := expect_ok h
  have hne : r.current.kind ≠ .kwPragma := hkind ▸ hk
  exact ⟨hr.drop_one (Reader.head?_kind hne), hkind, hr.current_solid hne⟩

theorem name {note : String} : Sound P (Parser.name note) IsName := by
  intro r n r' hr _ h
  rw [Parser.name] at h
  split at h
  · rename_i hname
    cases h
    have hne : r.current.kind ≠ .kwPragma := by
      intro hk
      simp [hk, Kind.isName] at hname
    obtain ⟨hword, hkind⟩ := (hr.current_solid hne).2 (.inl hname)
    exact ⟨hr.drop_one (Reader.head?_kind hne), hword, hkind ▸ hname⟩
  · simp at h

/-! ## Loops -/

/-- What holds after every round holds when a loop ends. -/
theorem iterateWithin_inv {round : σ → Parser (Option σ)} {I E : σ → Reader → Prop}
    (hround : ∀ s r o r', I s r → round s r = .ok o r' → o.elim (E s r') (I · r')) {n : Nat}
    {s t : σ} {r r' : Reader} (hI : I s r) (h : Parser.iterateWithin round n s r = .ok t r') :
    E t r' := by
  induction n generalizing s r with
  | zero => cases h
  | succ n ih =>
    rw [Parser.iterateWithin] at h
    obtain ⟨o, r₁, h₁, h₂⟩ := bind_ok h
    have hstep := hround s r o r₁ hI h₁
    cases o with
    | none =>
      cases h₂
      exact hstep
    | some u => exact ih hstep h₂

theorem iterate {round : σ → Parser (Option σ)} {I : σ → Prop} {s : σ} (hs : I s)
    (hround : ∀ s, I s → Sound (fun _ => True) (round s) fun o => ∀ t ∈ o, I t) :
    Sound P (Parser.iterate round s) I := by
  intro r t r' hr _ h
  refine iterateWithin_inv (I := fun s r => Tidy r.ahead ∧ I s) (E := fun s r => Tidy r.ahead ∧ I s)
    ?_ ⟨hr, hs⟩ h
  rintro s r o r' ⟨hr, hs⟩ h
  obtain ⟨hr', ho⟩ := hround s hs r o r' hr trivial h
  cases o with
  | none => exact ⟨hr', hs⟩
  | some u => exact ⟨hr', ho u rfl⟩

/-! ## Skipping -/

theorem isCloser_of_closer? {k c : Kind} (h : k.closer? = some c) :
    k.isOpener = true ∧ c.isCloser = true ∧ k ≠ .kwPragma := by
  refine ⟨by rw [Kind.isOpener, h]; rfl, ?_⟩
  unfold Kind.closer? at h
  split at h <;> cases h <;> exact ⟨rfl, by decide⟩

theorem skipGroup : Sound P Parser.skipGroup fun _ => True := by
  intro r u r' hr _ h
  rw [Parser.skipGroup] at h
  split at h
  · simp at h
  · rename_i closer hcloser
    obtain ⟨hopener, hisCloser, hne⟩ := isCloser_of_closer? hcloser
    split at h
    · rename_i n hn
      cases h
      have hone := hr.drop_one (Reader.head?_kind hne)
      have hrest := hone.drop_group hopener hisCloser hn
      rw [List.drop_drop, Nat.add_comm] at hrest
      exact ⟨hrest, trivial⟩
    · simp at h

theorem skipStatement : Sound P Parser.skipStatement fun _ => True := by
  intro r u r' hr _ h
  cases h
  exact ⟨hr.drop_statement 0, trivial⟩

theorem lengthText : Sound P Parser.lengthText fun _ => True := by
  intro r text r' hr _ h
  cases h
  exact ⟨hr.drop_takeWhile, trivial⟩

theorem skipArguments : Sound P Parser.skipArguments fun _ => True :=
  kind_bind fun _ => ite (fun _ => skipGroup) fun _ => pure' trivial

theorem skipComma : Sound P Parser.skipComma fun _ => True :=
  kind_bind fun _ => ite (fun h => skip (by rw [h]; decide)) fun _ => pure' trivial

theorem skipName : Sound P Parser.skipName fun _ => True := by
  refine kind_bind fun k => ite (fun h => skip ?_) fun _ => pure' trivial
  rintro rfl
  simp [Kind.isName] at h

/-- Whether tokens are tidy but for some at the front that belong to a pragma. -/
def Loose (ts : List Token) : Prop :=
  ∃ front rest, ts = front ++ rest ∧ Tidy rest ∧
    ∀ t ∈ front, t.kind = .identifier ∨ t.kind = .pragmaValue

theorem Loose.tidy {r : Reader} (h : Loose r.ahead)
    (hk : r.current.kind ≠ .identifier ∧ r.current.kind ≠ .pragmaValue) : Tidy r.ahead := by
  obtain ⟨front, rest, hr, hrest, hfront⟩ := h
  cases front with
  | nil => exact hr ▸ hrest
  | cons t front =>
    have hcurrent : r.current = t := by rw [Reader.current, hr]; rfl
    rcases hfront t (by simp) with h | h
    · exact absurd (hcurrent ▸ h) hk.1
    · exact absurd (hcurrent ▸ h) hk.2

theorem Loose.drop_one {ts : List Token} (h : Loose ts) : Loose (ts.drop 1) := by
  obtain ⟨front, rest, rfl, hrest, hfront⟩ := h
  cases front with
  | cons t front => exact ⟨front, rest, rfl, hrest, fun u hu => hfront u (by simp [hu])⟩
  | nil =>
    cases hrest with
    | nil => exact ⟨[], [], rfl, .nil, by simp⟩
    | solid ht h => exact ⟨[], _, rfl, h, by simp⟩
    | pragma hword hname hvalue hp h =>
      exact ⟨[_, _], _, rfl, h, by simp [hname, hvalue]⟩

/-- The loop over the tokens before a body goes through pragmas token by token. -/
theorem skipBodyRound {r r' : Reader} {o : Option Unit} (hr : Loose r.ahead)
    (h : Parser.skipBodyRound () r = .ok o r') :
    o.elim (Loose r'.ahead ∧ r'.current.kind ≠ .identifier ∧ r'.current.kind ≠ .pragmaValue)
      fun _ => Loose r'.ahead := by
  unfold Parser.skipBodyRound at h
  change EStateM.bind Parser.kind _ r = _ at h
  simp only [EStateM.bind, Parser.kind] at h
  have hgroup : Sound (fun _ => True) (do Parser.skipGroup; return some ()) fun o => o = some () :=
    skipGroup.bind fun _ _ => pure' rfl
  cases hk : r.current.kind <;> simp only [hk] at h
  case lbrace | semicolon | eof =>
    cases h
    exact ⟨hr, by simp [hk]⟩
  case lparen | lbracket =>
    obtain ⟨hr', rfl⟩ := hgroup r o r' (hr.tidy (by simp [hk])) trivial h
    exact ⟨[], _, rfl, hr', by simp⟩
  all_goals
    cases h
    exact hr.drop_one

theorem skipBody : Sound P Parser.skipBody fun _ => True := by
  have hloop : Sound P (Parser.iterate Parser.skipBodyRound ()) fun _ => True := by
    intro r u r' hr _ h
    have hend : Loose r'.ahead ∧ r'.current.kind ≠ .identifier ∧ r'.current.kind ≠ .pragmaValue :=
      iterateWithin_inv (I := fun _ r => Loose r.ahead)
        (E := fun _ r => Loose r.ahead ∧ r.current.kind ≠ .identifier ∧ r.current.kind ≠ .pragmaValue)
        (fun _ _ _ _ hr h => skipBodyRound hr h) ⟨[], r.ahead, rfl, hr, by simp⟩ h
    exact ⟨hend.1.tidy hend.2, trivial⟩
  refine hloop.bind fun _ _ => kind_bind fun k => ?_
  split
  · exact skipGroup
  · exact skip (by decide)
  · exact pure' trivial

/-- A fault is passed over by whole statements, or by one closing bracket. -/
theorem recovering {p : Parser α} (hp : Sound P p Q) :
    Sound P (Parser.recovering p) fun o => ∀ a ∈ o, Q a := by
  intro r o r' hr hc h
  rw [Parser.recovering] at h
  split at h
  · rename_i a r₁ h₁
    cases h
    obtain ⟨hr₁, ha⟩ := hp r a _ hr hc h₁
    exact ⟨hr₁, by simpa using ha⟩
  · split at h
    · cases h
      refine ⟨?_, by simp⟩
      show Tidy (r.ahead.drop (max 1 (Parser.statementLength 0 r.ahead)))
      rcases Nat.eq_zero_or_pos (Parser.statementLength 0 r.ahead) with hzero | hpos
      · rw [hzero]
        refine hr.drop_one fun t ht hk => ?_
        obtain ⟨rest, hrest⟩ : ∃ rest, r.ahead = t :: rest := List.head?_eq_some_iff.mp ht
        simp [hrest, Parser.statementLength, hk, Kind.isOpener, Kind.closer?, Kind.isCloser] at hzero
      · rw [Nat.max_eq_right hpos]
        exact hr.drop_statement 0
    · simp at h

end Sound

end SolidityInterface
