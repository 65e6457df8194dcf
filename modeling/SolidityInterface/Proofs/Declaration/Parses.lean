import SolidityInterface.Declaration.Grammar
import SolidityInterface.Proofs.Token.Lexing

/-
  Parsers on symbols. `Parses p ss a ts`: on any reader whose tokens ahead are the
  symbols `ss`, the parser `p` ends in the value `a` and leaves `ts`. Where the tokens
  stand has no say in what is parsed, only in the messages of errors. `Loops` is the
  same for a loop, one round at a time; each round takes a symbol, so a loop never runs
  out of rounds (`Loops.iterate`).
-/

namespace SolidityInterface

open Token (Kind)

/-- The symbols ahead. -/
def Reader.symbols (r : Reader) : List Symbol := r.ahead.map Token.symbol

/-- The class of the first symbol, or that of the end. -/
def headKind (ss : List Symbol) : Kind := (ss.head?.map (·.1)).getD .eof

@[simp] theorem headKind_nil : headKind [] = .eof := rfl

@[simp] theorem headKind_cons (s : Symbol) (ss : List Symbol) : headKind (s :: ss) = s.1 := rfl

namespace Reader

theorem current_kind (r : Reader) : r.current.kind = headKind r.symbols := by
  unfold current symbols
  cases r.ahead <;> rfl

theorem current_symbol {r : Reader} {s : Symbol} {ss : List Symbol} (h : r.symbols = s :: ss) :
    r.current.symbol = s := by
  unfold current symbols at *
  cases hr : r.ahead with
  | nil => simp [hr] at h
  | cons t ts =>
    rw [hr, List.map_cons, List.cons.injEq] at h
    exact h.1

theorem drop_symbols (r : Reader) (n : Nat) : (r.drop n).symbols = r.symbols.drop n := by
  rw [symbols, symbols, drop, List.map_drop]

end Reader

/-- Whether a parser ends in a value on some symbols, and which it leaves. -/
def Parses {α : Type} (p : Parser α) (ss : List Symbol) (a : α) (ts : List Symbol) : Prop :=
  ∀ r : Reader, r.symbols = ss → ∃ r', p r = .ok a r' ∧ r'.symbols = ts

namespace Parses

variable {α β σ : Type} {ss ts us : List Symbol}

theorem pure' (a : α) : Parses (pure a) ss a ss := fun r h => ⟨r, rfl, h⟩

theorem bind {p : Parser α} {f : α → Parser β} {a : α} {b : β} (hp : Parses p ss a ts)
    (hf : Parses (f a) ts b us) : Parses (p >>= f) ss b us := by
  intro r h
  obtain ⟨r₁, h₁, hs₁⟩ := hp r h
  obtain ⟨r₂, h₂, hs₂⟩ := hf r₁ hs₁
  refine ⟨r₂, ?_, hs₂⟩
  show EStateM.bind p f r = _
  rw [EStateM.bind, h₁]
  exact h₂

theorem ite {p q : Parser α} {c : Prop} [Decidable c] {a : α} (hp : c → Parses p ss a ts)
    (hq : ¬ c → Parses q ss a ts) : Parses (if c then p else q) ss a ts := by
  split
  · exact hp ‹_›
  · exact hq ‹_›

/-! ## Single tokens -/

theorem kind : Parses Parser.kind ss (headKind ss) ss :=
  fun r h => ⟨r, by rw [Parser.kind, r.current_kind, h], h⟩

/-- A parser that looks at the class of the current token first. -/
theorem kind_bind {f : Kind → Parser β} {b : β} (hf : Parses (f (headKind ss)) ss b ts) :
    Parses (Parser.kind >>= f) ss b ts := kind.bind hf

theorem current_bind {f : Token → Parser β} {s : Symbol} {b : β}
    (hf : ∀ t : Token, t.symbol = s → Parses (f t) (s :: ss) b ts) :
    Parses (Parser.current >>= f) (s :: ss) b ts := by
  intro r h
  exact hf r.current (Reader.current_symbol h) r h

theorem advance_bind {f : Token → Parser β} {s : Symbol} {b : β}
    (hf : ∀ t : Token, t.symbol = s → Parses (f t) ss b ts) :
    Parses (Parser.advance >>= f) (s :: ss) b ts := by
  intro r h
  exact hf r.current (Reader.current_symbol h) (r.drop 1) (by rw [r.drop_symbols, h]; rfl)

theorem advance {s : Symbol} : Parses (Functor.discard Parser.advance) (s :: ss) () ss := by
  intro r h
  exact ⟨r.drop 1, rfl, by rw [r.drop_symbols, h]; rfl⟩

theorem expect_bind {k : Kind} {text note : String} {f : Token → Parser β} {b : β}
    (hf : ∀ t : Token, t.symbol = (k, text) → Parses (f t) ss b ts) :
    Parses (Parser.expect k note >>= f) ((k, text) :: ss) b ts := by
  intro r h
  have hkind : r.current.kind = k := by rw [r.current_kind, h, headKind_cons]
  obtain ⟨r', h', hs⟩ := hf r.current (Reader.current_symbol h) (r.drop 1)
    (by rw [r.drop_symbols, h]; rfl)
  refine ⟨r', ?_, hs⟩
  show EStateM.bind _ f r = _
  rw [EStateM.bind, Parser.expect, if_pos hkind]
  exact h'

theorem expect {k : Kind} {text note : String} :
    Parses (Functor.discard (Parser.expect k note)) ((k, text) :: ss) () ss := by
  intro r h
  have hkind : r.current.kind = k := by rw [r.current_kind, h, headKind_cons]
  refine ⟨r.drop 1, ?_, by rw [r.drop_symbols, h]; rfl⟩
  show EStateM.map (Function.const _ ()) _ r = _
  rw [EStateM.map, Parser.expect, if_pos hkind]

theorem name {s : Symbol} {note : String} (hs : s.1.isName = true) :
    Parses (Parser.name note) (s :: ss) s.2 ss := by
  intro r h
  have hsymbol := Reader.current_symbol h
  refine ⟨r.drop 1, ?_, by rw [r.drop_symbols, h]; rfl⟩
  rw [Parser.name, if_pos (by rw [r.current_kind, h]; exact hs), ← hsymbol]
  rfl

theorem skipComma_comma {text : String} : Parses Parser.skipComma ((.comma, text) :: ss) () ss :=
  kind_bind (ite (fun _ => advance) (fun h => absurd rfl h))

theorem skipComma_other (hs : headKind ss ≠ .comma) : Parses Parser.skipComma ss () ss :=
  kind_bind (ite (fun h => absurd h hs) (fun _ => pure' ()))

theorem skipArguments_other (hs : headKind ss ≠ .lparen) : Parses Parser.skipArguments ss () ss :=
  kind_bind (ite (fun h => absurd h hs) (fun _ => pure' ()))

end Parses

/-! ## Loops -/

/-- Whether rounds from a state end in a state, each of them but the last taking a
symbol. -/
inductive Loops {σ : Type} (round : σ → Parser (Option σ)) :
    σ → List Symbol → σ → List Symbol → Prop
  | stop {s : σ} {ss ts : List Symbol} (h : Parses (round s) ss none ts) : Loops round s ss s ts
  | step {s t u : σ} {ss ts us : List Symbol} (h : Parses (round s) ss (some t) ts)
      (hlt : ts.length < ss.length) (rest : Loops round t ts u us) : Loops round s ss u us

theorem Loops.iterateWithin {σ : Type} {round : σ → Parser (Option σ)} {s t : σ}
    {ss ts : List Symbol} (h : Loops round s ss t ts) {n : Nat} (hn : ss.length < n) :
    Parses (Parser.iterateWithin round n s) ss t ts := by
  induction h generalizing n with
  | stop h =>
    obtain ⟨m, rfl⟩ : ∃ m, n = m + 1 := ⟨n - 1, by omega⟩
    exact h.bind (Parses.pure' _)
  | step h hlt _ ih =>
    obtain ⟨m, rfl⟩ : ∃ m, n = m + 1 := ⟨n - 1, by omega⟩
    exact h.bind (ih (by omega))

/-- A loop has rounds enough. -/
theorem Loops.iterate {σ : Type} {round : σ → Parser (Option σ)} {s t : σ} {ss ts : List Symbol}
    (h : Loops round s ss t ts) : Parses (Parser.iterate round s) ss t ts := by
  intro r hr
  have hleft : ss.length < r.left + 1 := by
    rw [← hr, Reader.symbols, List.length_map, r.left_eq]
    omega
  exact h.iterateWithin hleft r hr

end SolidityInterface
