import SolidityInterface.Proofs.Declaration.Parses

/-
  Two runs of a parser. `Agrees v P p q Q` compares the parser `p` on one reader with the
  parser `q` on another, where the two readers show the same symbols as far as `v` says:

  1. `Sight.near`: up to the token at which `p` stops, and that token. Nothing further
     ahead has a say in what `p` does.
  2. `Sight.whole`: all tokens ahead. Where the tokens stand has no say in what `p` does.

  Both end in the same value, or both in an error of the same gravity, and behind the same
  number of tokens. `P` is what the class of the current token is known to be, and where the
  value has the property `Q` a token is taken, so that loops end for want of rounds on
  neither side (`Agrees.iterate`).

  Two parsers are compared, since a token that is kept may stand at another place in the
  other run; the places show in errors only.
-/

namespace SolidityInterface

open Token (Kind)

/-! ## Readers alike -/

namespace Reader

theorem drop_drop (r : Reader) (n m : Nat) : (r.drop n).drop m = r.drop (n + m) := by
  unfold drop
  simp only [List.drop_drop, Nat.sub_sub, Nat.add_assoc]

@[simp] theorem drop_zero (r : Reader) : r.drop 0 = r := rfl

@[simp] theorem drop_index (r : Reader) (n : Nat) : (r.drop n).index = r.index + n := rfl

@[simp] theorem drop_left (r : Reader) (n : Nat) : (r.drop n).left = r.left - n := rfl

theorem length_symbols (r : Reader) : r.symbols.length = r.left := by
  rw [symbols, List.length_map, r.left_eq]

/-- The symbol of the current token is the first symbol ahead, or that of the end. -/
theorem current_symbol_eq (r : Reader) : r.current.symbol = r.symbols.head?.getD (.eof, "") := by
  unfold current symbols
  cases r.ahead with
  | nil => rfl
  | cons t ts => rfl

theorem left_pos {r : Reader} (h : r.current.kind ≠ .eof) : 0 < r.left := by
  rw [r.left_eq, List.length_pos_iff]
  intro hnil
  rw [current, hnil] at h
  exact h rfl

end Reader

/-- How far two readers have to show the same symbols. -/
inductive Sight where
  /-- Up to the token at which a parser stops. -/
  | near
  /-- To the end. -/
  | whole

/-- Whether two readers show the same symbols to a parser that takes `n` tokens. -/
def Sight.Shares : Sight → Nat → Reader → Reader → Prop
  | near, n, r, s => r.symbols.take (n + 1) = s.symbols.take (n + 1)
  | whole, _, r, s => r.symbols = s.symbols

namespace Sight.Shares

variable {v : Sight} {n m : Nat} {r s : Reader}

theorem take (h : v.Shares n r s) : r.symbols.take (n + 1) = s.symbols.take (n + 1) := by
  cases v with
  | near => exact h
  | whole => exact congrArg (·.take (n + 1)) h

theorem of_le (h : v.Shares n r s) (hm : m ≤ n) : v.Shares m r s := by
  cases v with
  | near =>
    have hlonger := congrArg (·.take (m + 1)) h.take
    simp only [List.take_take, Nat.min_eq_left (Nat.succ_le_succ hm)] at hlonger
    exact hlonger
  | whole => exact h

theorem drop (h : v.Shares (n + m) r s) : v.Shares m (r.drop n) (s.drop n) := by
  cases v with
  | near =>
    have hrest := congrArg (·.drop n) h.take
    simp only [List.drop_take, show n + m + 1 - n = m + 1 by omega] at hrest
    change (r.drop n).symbols.take (m + 1) = (s.drop n).symbols.take (m + 1)
    rw [r.drop_symbols, s.drop_symbols, hrest]
  | whole =>
    change (r.drop n).symbols = (s.drop n).symbols
    rw [r.drop_symbols, s.drop_symbols, show r.symbols = s.symbols from h]

theorem current (h : v.Shares n r s) : r.current.symbol = s.current.symbol := by
  have hhead := congrArg List.head? (h.of_le (Nat.zero_le n)).take
  simp only [List.head?_take, if_neg (Nat.succ_ne_zero _)] at hhead
  rw [r.current_symbol_eq, s.current_symbol_eq, hhead]

theorem kind (h : v.Shares n r s) : r.current.kind = s.current.kind :=
  congrArg Prod.fst h.current

/-- Readers that share the end share all. -/
theorem symbols_eq (h : v.Shares n r s) (hn : r.left ≤ n) : r.symbols = s.symbols := by
  have htake := h.take
  rw [List.take_of_length_le (by rw [r.length_symbols]; omega)] at htake
  have hlength := congrArg List.length htake
  rw [List.length_take, r.length_symbols] at hlength
  rw [htake, List.take_of_length_le (by omega)]

end Sight.Shares

/-! ## Runs alike -/

/-- Whether a parser takes `n` tokens of a reader and ends in a value, or in an error of
some gravity. -/
def Ends {α : Type} (p : Parser α) (r : Reader) (n : Nat) : Except Bool α → Prop
  | .ok a => p r = .ok a (r.drop n)
  | .error isSyntax => ∃ e, p r = .error e (r.drop n) ∧ e.isSyntax = isSyntax

theorem Reader.drop_inj {r : Reader} {n m : Nat} (h : r.drop n = r.drop m) : n = m := by
  have hindex := congrArg Reader.index h
  simpa using hindex

theorem Ends.congr {α : Type} {p q : Parser α} {r : Reader} {n : Nat} {o : Except Bool α}
    (h : Ends p r n o) (heq : q r = p r) : Ends q r n o := by
  unfold Ends at h ⊢
  rwa [heq]

theorem Ends.unique {α : Type} {p : Parser α} {r : Reader} {n m : Nat} {o o' : Except Bool α}
    (h : Ends p r n o) (h' : Ends p r m o') : n = m ∧ o = o' := by
  cases o with
  | ok a =>
    cases o' with
    | ok b =>
      obtain ⟨ha, hr⟩ := EStateM.Result.ok.inj (Eq.trans (Eq.symm h) h')
      exact ⟨Reader.drop_inj hr, congrArg _ ha⟩
    | error b =>
      obtain ⟨e, he, -⟩ := h'
      cases (Eq.symm h).trans he
  | error a =>
    obtain ⟨e, he, rfl⟩ := h
    cases o' with
    | ok b => cases (Eq.symm he).trans h'
    | error b =>
      obtain ⟨e', he', rfl⟩ := h'
      obtain ⟨rfl, hr⟩ := EStateM.Result.error.inj (he.symm.trans he')
      exact ⟨Reader.drop_inj hr, rfl⟩

/-- Whether a parser at a token of some class does what another does on a reader that shows
the same symbols, and takes a token if its value has a property. -/
def Agrees {α : Type} (v : Sight) (P : Kind → Prop) (p q : Parser α) (Q : α → Prop) : Prop :=
  ∀ r, P r.current.kind → ∃ n o, Ends p r n o ∧ (∀ s, v.Shares n r s → Ends q s n o) ∧
    ∀ a, o = .ok a → Q a → 0 < n ∧ 0 < r.left

namespace Agrees

variable {α β σ : Type} {v : Sight} {P : Kind → Prop} {Q : α → Prop} {R : β → Prop}

/-- Nothing is taken, and nothing is claimed to be. -/
theorem pure' {a : α} (ha : ¬ Q a) : Agrees v P (pure a) (pure a) Q := by
  intro r _
  refine ⟨0, .ok a, rfl, fun s _ => rfl, ?_⟩
  intro b hb hQ
  cases hb
  exact absurd hQ ha

theorem throw {e e' : ParseError} (he : e'.isSyntax = e.isSyntax) :
    Agrees v P (MonadExcept.throw e) (MonadExcept.throw e') Q := by
  intro r _
  refine ⟨0, .error e.isSyntax, ⟨e, rfl, rfl⟩, fun s _ => ⟨e', rfl, he⟩, ?_⟩
  intro a ha
  cases ha

theorem weaken {P' : Kind → Prop} {p q : Parser α} (h : Agrees v P' p q Q) (hP : ∀ k, P k → P' k) :
    Agrees v P p q Q := fun r hr => h r (hP _ hr)

theorem imp {Q' : α → Prop} {p q : Parser α} (h : Agrees v P p q Q') (hQ : ∀ a, Q a → Q' a) :
    Agrees v P p q Q := by
  intro r hr
  obtain ⟨n, o, hp, hq, htaken⟩ := h r hr
  exact ⟨n, o, hp, hq, fun a ha hQa => htaken a ha (hQ a hQa)⟩

theorem ends_bind_ok {p : Parser α} {f : α → Parser β} {r : Reader} {n m : Nat} {a : α}
    {o : Except Bool β} (hp : Ends p r n (.ok a)) (hf : Ends (f a) (r.drop n) m o) :
    Ends (p >>= f) r (n + m) o := by
  have hbind : (p >>= f) r = f a (r.drop n) := by
    show EStateM.bind p f r = _
    rw [EStateM.bind, show p r = .ok a (r.drop n) from hp]
  cases o with
  | ok b =>
    change (p >>= f) r = _
    rw [hbind, ← r.drop_drop]
    exact hf
  | error b =>
    obtain ⟨e, he, hsyntax⟩ := hf
    exact ⟨e, by rw [hbind, ← r.drop_drop, he], hsyntax⟩

theorem ends_bind_error {p : Parser α} (f : α → Parser β) {r : Reader} {n : Nat} {b : Bool}
    (hp : Ends p r n (.error b)) : Ends (p >>= f) r n (.error b) := by
  obtain ⟨e, he, hsyntax⟩ := hp
  refine ⟨e, ?_, hsyntax⟩
  show EStateM.bind p f r = _
  rw [EStateM.bind, he]

theorem bind_of {p q : Parser α} {f g : α → Parser β} (hp : Agrees v P p q Q)
    (hf : ∀ a, Agrees v (fun _ => True) (f a) (g a) fun b => R b ∧ ¬ Q a) :
    Agrees v P (p >>= f) (q >>= g) R := by
  intro r hr
  obtain ⟨n, o, hp, hq, htaken⟩ := hp r hr
  cases o with
  | error b =>
    refine ⟨n, .error b, ends_bind_error f hp, fun s hs => ends_bind_error g (hq s hs), ?_⟩
    intro c hc
    cases hc
  | ok a =>
    obtain ⟨m, o, hfa, hga, hmore⟩ := hf a (r.drop n) trivial
    refine ⟨n + m, o, ends_bind_ok hp hfa, ?_, ?_⟩
    · intro s hs
      exact ends_bind_ok (hq s (hs.of_le (Nat.le_add_right n m))) (hga _ hs.drop)
    · intro b hb hRb
      -- Either the first parser takes a token, or the second does.
      by_cases hQa : Q a
      · have := htaken a rfl hQa
        omega
      · have := hmore b hb ⟨hRb, hQa⟩
        rw [Reader.drop_left] at this
        omega

/-- A parser that has taken a token need not take another. -/
theorem bind_taken {p q : Parser α} {f g : α → Parser β} (hp : Agrees v P p q fun _ => True)
    (hf : ∀ a, Agrees v (fun _ => True) (f a) (g a) fun _ => False) :
    Agrees v P (p >>= f) (q >>= g) R :=
  hp.bind_of fun a => (hf a).imp fun _ h => h.2 trivial

/-- Parsers of which nothing is claimed to be taken. -/
theorem seq {p q : Parser α} {f g : α → Parser β} (hp : Agrees v P p q Q)
    (hf : ∀ a, Agrees v (fun _ => True) (f a) (g a) fun _ => False) :
    Agrees v P (p >>= f) (q >>= g) fun _ => False :=
  hp.bind_of fun a => (hf a).imp fun _ h => h.1

theorem ite {p q p' q' : Parser α} {c : Prop} [Decidable c] (hp : c → Agrees v P p p' Q)
    (hq : ¬ c → Agrees v P q q' Q) :
    Agrees v P (if c then p else q) (if c then p' else q') Q := by
  split
  · exact hp ‹_›
  · exact hq ‹_›

theorem discard_eq (p : Parser α) : Functor.discard p = (p >>= fun _ => pure ()) := by
  funext r
  change EStateM.map _ p r = EStateM.bind p _ r
  rw [EStateM.map, EStateM.bind]
  cases p r with
  | ok => rfl
  | error => rfl

theorem discard {p q : Parser α} (hp : Agrees v P p q fun _ => True) :
    Agrees v P (Functor.discard p) (Functor.discard q) fun _ => True := by
  rw [discard_eq, discard_eq]
  exact hp.bind_taken fun _ => pure' id

/-! ## Single tokens -/

theorem kind_bind {f g : Kind → Parser β} (hf : ∀ k, P k → Agrees v (· = k) (f k) (g k) R) :
    Agrees v P (Parser.kind >>= f) (Parser.kind >>= g) R := by
  intro r hr
  obtain ⟨n, o, hp, hq, htaken⟩ := hf _ hr r rfl
  refine ⟨n, o, hp.congr rfl, ?_, htaken⟩
  intro s hs
  have hgs := hq s hs
  rw [hs.kind] at hgs
  exact hgs.congr rfl

/-- A token that is kept stands at some place in each run. -/
theorem current_bind {f g : Token → Parser β}
    (hf : ∀ t t' : Token, t.symbol = t'.symbol → P t.kind → Agrees v (· = t.kind) (f t) (g t') R) :
    Agrees v P (Parser.current >>= f) (Parser.current >>= g) R := by
  intro r hr
  obtain ⟨n, o, hp, -, htaken⟩ := hf r.current r.current rfl hr r rfl
  refine ⟨n, o, hp.congr rfl, ?_, htaken⟩
  intro s hs
  obtain ⟨m, o', hp', hq, -⟩ := hf r.current s.current hs.current hr r rfl
  obtain ⟨rfl, rfl⟩ := hp.unique hp'
  exact (hq s hs).congr rfl

theorem advance_bind {k : Kind} {f g : Token → Parser β} (hk : k ≠ .eof)
    (hf : ∀ t t' : Token, t.symbol = t'.symbol →
      Agrees v (fun _ => True) (f t) (g t') fun _ => False) :
    Agrees v (· = k) (Parser.advance >>= f) (Parser.advance >>= g) R := by
  rintro r rfl
  have hpos := Reader.left_pos hk
  obtain ⟨n, o, hp, -, -⟩ := hf r.current r.current rfl (r.drop 1) trivial
  refine ⟨1 + n, o, ends_bind_ok (a := r.current) rfl hp, ?_, fun a _ _ => ⟨by omega, hpos⟩⟩
  intro s hs
  obtain ⟨m, o', hp', hq, -⟩ := hf r.current s.current hs.current (r.drop 1) trivial
  obtain ⟨rfl, rfl⟩ := hp.unique hp'
  exact ends_bind_ok (a := s.current) rfl (hq _ hs.drop)

/-- Takes a token of a class that is not that of the end. -/
theorem skip {k : Kind} (hk : k ≠ .eof) :
    Agrees v (· = k) (Functor.discard Parser.advance) (Functor.discard Parser.advance)
      fun _ => True := by
  rw [discard_eq]
  exact advance_bind hk fun _ _ _ => pure' id

/-- At the end too a step is made, but no token is taken. -/
theorem step : Agrees v P (Functor.discard Parser.advance) (Functor.discard Parser.advance)
    fun _ => False :=
  fun _ _ => ⟨1, .ok (), rfl, fun _ _ => rfl, fun _ _ h => h.elim⟩

theorem expect_bind {k : Kind} {note note' : String} {f g : Token → Parser β} (hk : k ≠ .eof)
    (hf : ∀ t t' : Token, t.symbol = t'.symbol →
      Agrees v (fun _ => True) (f t) (g t') fun _ => False) :
    Agrees v P (Parser.expect k note >>= f) (Parser.expect k note' >>= g) R := by
  have hok : ∀ {note : String} {f : Token → Parser β} {r : Reader}, r.current.kind = k →
      (Parser.expect k note >>= f) r = (Parser.advance >>= f) r := by
    intro note f r hr
    change EStateM.bind (Parser.expect k note) f r = EStateM.bind Parser.advance f r
    rw [EStateM.bind, EStateM.bind, Parser.expect, if_pos hr, Parser.advance]
  have herror : ∀ {note : String} {f : Token → Parser β} {r : Reader}, r.current.kind ≠ k →
      Ends (Parser.expect k note >>= f) r 0 (.error true) := by
    intro note f r hr
    refine ends_bind_error f ⟨.unexpected k r.current.kind r.current.place note, ?_, rfl⟩
    rw [Parser.expect, if_neg hr]
    rfl
  intro r _
  by_cases hr : r.current.kind = k
  · obtain ⟨n, o, hp, hq, htaken⟩ := advance_bind (v := v) (R := R) hk hf r hr
    refine ⟨n, o, hp.congr (hok hr), ?_, htaken⟩
    intro s hs
    exact (hq s hs).congr (hok (hs.kind ▸ hr))
  · refine ⟨0, .error true, herror hr, fun s hs => herror (hs.kind ▸ hr), ?_⟩
    intro a ha
    cases ha

theorem expect {k : Kind} {note note' : String} (hk : k ≠ .eof) :
    Agrees v P (Functor.discard (Parser.expect k note)) (Functor.discard (Parser.expect k note'))
      fun _ => True := by
  rw [discard_eq, discard_eq]
  exact expect_bind hk fun _ _ _ => pure' id

theorem name {note note' : String} : Agrees v P (Parser.name note) (Parser.name note') fun _ => True := by
  intro r _
  cases hname : r.current.kind.isName with
  | true =>
    have hpos : 0 < r.left := by
      refine Reader.left_pos fun heof => ?_
      rw [heof] at hname
      simp [Kind.isName] at hname
    refine ⟨1, .ok r.current.text, ?_, ?_, fun _ _ _ => ⟨Nat.one_pos, hpos⟩⟩
    · change Parser.name note r = _
      rw [Parser.name, if_pos hname]
    · intro s hs
      change Parser.name note' s = _
      rw [Parser.name, if_pos (hs.kind ▸ hname), show s.current.text = r.current.text from
        congrArg Prod.snd hs.current.symm]
  | false =>
    have herror : ∀ {note : String} {r : Reader}, r.current.kind.isName = false →
        Ends (Parser.name note) r 0 (.error true) := by
      intro note r hname
      refine ⟨.unexpected .identifier r.current.kind r.current.place note, ?_, rfl⟩
      rw [Parser.name, if_neg (by simp [hname])]
      rfl
    refine ⟨0, .error true, herror hname, fun s hs => herror (hs.kind ▸ hname), ?_⟩
    intro a ha
    cases ha

/-! ## Loops -/

/-- A parser that ends in a value leaves the reader some tokens on. -/
theorem exists_drop {p q : Parser α} (h : Agrees v P p q Q) {r r' : Reader} {a : α}
    (hP : P r.current.kind) (hr : p r = .ok a r') :
    ∃ n, r' = r.drop n ∧ (∀ s, v.Shares n r s → q s = .ok a (s.drop n)) ∧
      (Q a → 0 < n ∧ 0 < r.left) := by
  obtain ⟨n, o, hp, hq, htaken⟩ := h r hP
  cases o with
  | ok b =>
    obtain ⟨rfl, rfl⟩ := EStateM.Result.ok.inj (hr.symm.trans hp)
    exact ⟨n, rfl, hq, htaken a rfl⟩
  | error b =>
    obtain ⟨e, he, -⟩ := hp
    cases hr.symm.trans he

/-- A parser that ends in an error breaks off some tokens on. -/
theorem exists_drop_of_error {p q : Parser α} (h : Agrees v P p q Q) {r r' : Reader} {e : ParseError}
    (hP : P r.current.kind) (hr : p r = .error e r') :
    ∃ n, r' = r.drop n ∧
      ∀ s, v.Shares n r s → ∃ e', q s = .error e' (s.drop n) ∧ e'.isSyntax = e.isSyntax := by
  obtain ⟨n, o, hp, hq, -⟩ := h r hP
  cases o with
  | ok b => cases hr.symm.trans hp
  | error b =>
    obtain ⟨e', he', rfl⟩ := hp
    obtain ⟨rfl, rfl⟩ := EStateM.Result.error.inj (hr.symm.trans he')
    exact ⟨n, rfl, hq⟩

theorem left_le {p q : Parser α} (h : Agrees v (fun _ => True) p q Q) {r r' : Reader} {a : α}
    (hr : p r = .ok a r') : r'.left ≤ r.left := by
  obtain ⟨n, rfl, -, -⟩ := h.exists_drop trivial hr
  rw [Reader.drop_left]
  omega

/-- A round that goes on takes a token. -/
theorem left_lt {p q : Parser α} (h : Agrees v (fun _ => True) p q Q) {r r' : Reader} {a : α}
    (hr : p r = .ok a r') (ha : Q a) : r'.left < r.left := by
  obtain ⟨n, rfl, -, htaken⟩ := h.exists_drop trivial hr
  have hpos := htaken ha
  rw [Reader.drop_left]
  omega

section Loop

variable {round : σ → Parser (Option σ)}

theorem iterateWithin (hround : ∀ s, Agrees v (fun _ => True) (round s) (round s) (·.isSome = true))
    (n : Nat) (s : σ) :
    Agrees v P (Parser.iterateWithin round n s) (Parser.iterateWithin round n s) fun _ => False := by
  induction n generalizing s P with
  | zero => exact throw rfl
  | succ n ih =>
    rw [Parser.iterateWithin]
    refine ((hround s).weaken fun _ _ => trivial).bind_of fun o => ?_
    cases o with
    | none => exact pure' (by simp)
    | some t => exact (ih t).imp fun _ h => h.1

/-- As many rounds as there are tokens ahead, and one more, are enough. -/
theorem iterateWithin_eq
    (hround : ∀ s, Agrees v (fun _ => True) (round s) (round s) (·.isSome = true)) {n m : Nat} (s : σ)
    {r : Reader} (hn : r.left < n) (hm : r.left < m) :
    Parser.iterateWithin round n s r = Parser.iterateWithin round m s r := by
  induction n generalizing m s r with
  | zero => omega
  | succ n ih =>
    obtain ⟨m, rfl⟩ : ∃ k, m = k + 1 := ⟨m - 1, by omega⟩
    rw [Parser.iterateWithin, Parser.iterateWithin]
    change EStateM.bind (round s) _ r = EStateM.bind (round s) _ r
    rw [EStateM.bind, EStateM.bind]
    cases hs : round s r with
    | error e r' => rfl
    | ok o r' =>
      cases o with
      | none => rfl
      | some t =>
        have hlt := (hround s).left_lt hs rfl
        exact ih t (by omega) (by omega)

theorem iterate (hround : ∀ s, Agrees v (fun _ => True) (round s) (round s) (·.isSome = true)) (s : σ) :
    Agrees v P (Parser.iterate round s) (Parser.iterate round s) fun _ => False := by
  intro r hr
  obtain ⟨n, o, hp, -, -⟩ := iterateWithin (P := P) hround (r.left + 1) s r hr
  refine ⟨n, o, hp.congr rfl, ?_, fun _ _ h => h.elim⟩
  intro r' hr'
  -- Both loops are run for rounds that are enough for either reader.
  obtain ⟨m, o', hp', hq, -⟩ := iterateWithin (P := P) hround (max r.left r'.left + 1) s r hr
  obtain ⟨rfl, rfl⟩ := hp.unique (hp'.congr (iterateWithin_eq hround s (by omega) (by omega)))
  exact (hq r' hr').congr (iterateWithin_eq hround s (by omega) (by omega))

end Loop

end Agrees

/-! ## Skipping -/

namespace Parser

/-- How many inner groups are open behind a token, or none if it closes the group. -/
def groupDepth? (opener closer : Kind) (depth : Nat) (k : Kind) : Option Nat :=
  if k = opener then some (depth + 1)
  else if k = closer then
    match depth with
    | 0 => none
    | depth + 1 => some depth
  else some depth

theorem groupLength_cons (opener closer : Kind) (depth : Nat) (t : Token) (ts : List Token) :
    groupLength opener closer depth (t :: ts) =
      match groupDepth? opener closer depth t.kind with
      | none => some 1
      | some d => (groupLength opener closer d ts).map (· + 1) := by
  rw [groupLength.eq_def, groupDepth?.eq_def]
  dsimp only
  split
  · rfl
  split
  · cases depth with
    | zero => rfl
    | succ depth => rfl
  · rfl

/-- The length of a group depends on the symbols of the group. -/
theorem groupLength_eq_some {opener closer : Kind} {depth n : Nat} {ts us : List Token}
    (h : groupLength opener closer depth ts = some n)
    (hshare : (ts.map Token.symbol).take n = (us.map Token.symbol).take n) :
    groupLength opener closer depth us = some n := by
  induction ts generalizing depth n us with
  | nil => simp [groupLength] at h
  | cons t ts ih =>
    have hpos : n ≠ 0 := by
      rintro rfl
      rw [groupLength_cons] at h
      split at h <;> simp at h
    obtain ⟨m, rfl⟩ := Nat.exists_eq_succ_of_ne_zero hpos
    cases us with
    | nil => simp at hshare
    | cons u us =>
      simp only [List.map_cons, List.take_succ_cons, List.cons.injEq] at hshare
      obtain ⟨hhead, hrest⟩ := hshare
      rw [groupLength_cons] at h ⊢
      rw [← show t.kind = u.kind from congrArg Prod.fst hhead]
      cases hdepth : groupDepth? opener closer depth t.kind with
      | none => simpa [hdepth] using h
      | some d =>
        rw [hdepth] at h
        obtain ⟨k, hk, hm⟩ := Option.map_eq_some_iff.mp h
        obtain rfl : k = m := Nat.succ.inj hm
        show (groupLength opener closer d us).map (· + 1) = some (k + 1)
        rw [ih hk hrest]
        rfl

theorem groupLength_congr {opener closer : Kind} {depth : Nat} {ts us : List Token}
    (h : ts.map Token.symbol = us.map Token.symbol) :
    groupLength opener closer depth ts = groupLength opener closer depth us := by
  induction ts generalizing depth us with
  | nil =>
    obtain rfl : us = [] := by simpa using h.symm
    rfl
  | cons t ts ih =>
    cases us with
    | nil => simp at h
    | cons u us =>
      obtain ⟨hhead, hrest⟩ := List.cons.inj h
      rw [groupLength_cons, groupLength_cons, show t.kind = u.kind from congrArg Prod.fst hhead]
      simp only [ih hrest]

/-- How many groups are open behind a token of a statement, or how much of the token the
statement takes if it ends there. -/
def statementDepth? (depth : Nat) (k : Kind) : Except Nat Nat :=
  if k.isOpener then .ok (depth + 1)
  else if k.isCloser then
    match depth with
    | 0 => .error 0
    | depth + 1 => .ok depth
  else if k = .semicolon ∧ depth = 0 then .error 1
  else .ok depth

theorem statementLength_cons (depth : Nat) (t : Token) (ts : List Token) :
    statementLength depth (t :: ts) =
      match statementDepth? depth t.kind with
      | .error n => n
      | .ok d => statementLength d ts + 1 := by
  rw [statementLength.eq_def, statementDepth?.eq_def]
  dsimp only
  split
  · rfl
  split
  · cases depth with
    | zero => rfl
    | succ depth => rfl
  split
  · rfl
  · rfl

/-- The length of a statement depends on the symbols of the statement and on the one behind. -/
theorem statementLength_eq {depth : Nat} {ts us : List Token}
    (hshare : (ts.map Token.symbol).take (statementLength depth ts + 1)
      = (us.map Token.symbol).take (statementLength depth ts + 1)) :
    statementLength depth us = statementLength depth ts := by
  induction ts generalizing depth us with
  | nil =>
    obtain rfl : us = [] := by simpa [statementLength] using hshare.symm
    rfl
  | cons t ts ih =>
    cases us with
    | nil => simp at hshare
    | cons u us =>
      simp only [List.map_cons, List.take_succ_cons, List.cons.injEq] at hshare
      obtain ⟨hhead, hrest⟩ := hshare
      rw [statementLength_cons] at hrest
      rw [statementLength_cons, statementLength_cons,
        ← show t.kind = u.kind from congrArg Prod.fst hhead]
      cases hdepth : statementDepth? depth t.kind with
      | error n => rfl
      | ok d =>
        rw [hdepth] at hrest
        show statementLength d us + 1 = statementLength d ts + 1
        rw [ih hrest]

theorem statementLength_pos {r : Reader} (heof : r.current.kind ≠ .eof)
    (hcloser : r.current.kind.isCloser = false) : 0 < statementLength 0 r.ahead := by
  unfold Reader.current at heof hcloser
  cases hr : r.ahead with
  | nil =>
    rw [hr] at heof
    exact absurd rfl heof
  | cons t ts =>
    rw [hr] at hcloser
    change t.kind.isCloser = false at hcloser
    simp only [statementLength, hcloser]
    split
    · exact Nat.succ_pos _
    split
    · contradiction
    split
    · exact Nat.one_pos
    · exact Nat.succ_pos _

end Parser

namespace Agrees

variable {α β σ : Type} {v : Sight} {P : Kind → Prop} {Q : α → Prop}

theorem skipGroup : Agrees v P Parser.skipGroup Parser.skipGroup fun _ => True := by
  intro r _
  cases hcloser : r.current.kind.closer? with
  | none =>
    have herror : ∀ {r : Reader}, r.current.kind.closer? = none →
        Ends Parser.skipGroup r 0 (.error false) := by
      intro r hr
      refine ⟨.groupMissing r.current.kind, ?_, rfl⟩
      simp only [Parser.skipGroup, hr, Reader.drop_zero]
    refine ⟨0, .error false, herror hcloser, fun s hs => herror (hs.kind ▸ hcloser), ?_⟩
    intro a ha
    cases ha
  | some closer =>
    have hpos : 0 < r.left := by
      refine Reader.left_pos fun heof => ?_
      rw [heof] at hcloser
      simp [Kind.closer?] at hcloser
    have hahead : ∀ r : Reader, (r.ahead.drop 1).map Token.symbol = (r.drop 1).symbols := fun _ => rfl
    cases hlength : Parser.groupLength r.current.kind closer 0 (r.ahead.drop 1) with
    | some n =>
      refine ⟨n + 1, .ok (), ?_, ?_, fun _ _ _ => ⟨Nat.succ_pos n, hpos⟩⟩
      · change Parser.skipGroup r = _
        simp only [Parser.skipGroup, hcloser, hlength]
      · intro s hs
        have hrest : (r.drop 1).symbols.take n = (s.drop 1).symbols.take n := by
          have hdrop := (Sight.Shares.drop (n := 1) (m := n) (hs.of_le (by omega))).take
          have hprefix := congrArg (·.take n) hdrop
          simpa only [List.take_take, Nat.min_eq_left (Nat.le_succ n)] using hprefix
        have hother : Parser.groupLength r.current.kind closer 0 (s.ahead.drop 1) = some n :=
          Parser.groupLength_eq_some hlength hrest
        change Parser.skipGroup s = _
        simp only [Parser.skipGroup, ← hs.kind, hcloser, hother]
    | none =>
      have herror : ∀ {r : Reader}, r.current.kind.closer? = some closer →
          Parser.groupLength r.current.kind closer 0 (r.ahead.drop 1) = none →
          Ends Parser.skipGroup r r.left (.error true) := by
        intro r hr hnone
        refine ⟨.unterminated r.current.text r.current.place, ?_, rfl⟩
        simp only [Parser.skipGroup, hr, hnone]
      refine ⟨r.left, .error true, herror hcloser hlength, ?_, ?_⟩
      · intro s hs
        have hall := hs.symbols_eq (Nat.le_refl _)
        have hleft : r.left = s.left := by rw [← r.length_symbols, hall, s.length_symbols]
        rw [hleft]
        refine herror (hs.kind ▸ hcloser) ?_
        rw [← hs.kind, ← hlength]
        refine Parser.groupLength_congr ?_
        rw [hahead, hahead, r.drop_symbols, s.drop_symbols, hall]
      · intro a ha
        cases ha

theorem skipStatement {k : Kind} (heof : k ≠ .eof) (hcloser : k.isCloser = false) :
    Agrees v (· = k) Parser.skipStatement Parser.skipStatement fun _ => True := by
  rintro r rfl
  refine ⟨Parser.statementLength 0 r.ahead, .ok (), rfl, ?_, ?_⟩
  · intro s hs
    change Parser.skipStatement s = _
    rw [Parser.skipStatement, Parser.statementLength_eq hs.take]
  · exact fun _ _ _ => ⟨Parser.statementLength_pos heof hcloser, Reader.left_pos heof⟩

theorem skipArguments : Agrees v P Parser.skipArguments Parser.skipArguments fun _ => False :=
  kind_bind fun _ _ => ite (fun _ => skipGroup.imp fun _ h => h.elim) fun _ => pure' id

theorem skipComma : Agrees v P Parser.skipComma Parser.skipComma fun _ => False := by
  refine kind_bind fun k _ => ite (fun hk => ?_) fun _ => pure' id
  exact (skip (by rw [hk]; decide)).imp fun _ h => h.elim

end Agrees

end SolidityInterface
