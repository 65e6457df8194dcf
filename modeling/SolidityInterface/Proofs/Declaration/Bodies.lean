import SolidityInterface.Proofs.Declaration.Course

/-
  Bodies have no say in the declarations. Two streams that differ in one body only are
  parsed alike:

  1. Up to the body the course of the parser is the same, as long as no state variable that
     was given up reads beyond the opening brace (`NoneBeyond`).
  2. The body is skipped by counting braces, which comes out even
     (`Parser.groupLength_of_balanced`).
  3. Behind the body the parser sees the same symbols, so the two runs have joined
     (`Rejoins`), and what joins inside a member or a declaration joins outside
     (`Rejoins.of_member`, `Rejoins.of_declaration`).
-/

namespace SolidityInterface

open Token (Kind)

/-! ## The body -/

/-- The number of tokens of a class. -/
def countKind (k : Kind) (ss : List Symbol) : Nat := ss.countP (·.1 = k)

/-- Whether the braces of some tokens balance: nowhere are more closed than opened, and in
the end all are closed. -/
structure BracesBalance (ss : List Symbol) : Prop where
  opened : ∀ p, p <+: ss → countKind .rbrace p ≤ countKind .lbrace p
  closed : countKind .rbrace ss = countKind .lbrace ss

instance (ss : List Symbol) : Decidable (BracesBalance ss) :=
  decidable_of_iff ((∀ n < ss.length + 1, countKind .rbrace (ss.take n) ≤ countKind .lbrace (ss.take n)) ∧
      countKind .rbrace ss = countKind .lbrace ss)
    ⟨fun h => ⟨fun _ hp => List.prefix_iff_eq_take.mp hp ▸
        h.1 _ (Nat.lt_succ_of_le hp.length_le), h.2⟩,
      fun h => ⟨fun n _ => h.opened _ (List.take_prefix n ss), h.closed⟩⟩

/-- Some tokens in braces, and what stands behind them. -/
def inBraces (b post : List Symbol) : List Symbol :=
  (.lbrace, "\x7b") :: (b ++ (.rbrace, "\x7d") :: post)

theorem countKind_cons (k : Kind) (x : Symbol) (ss : List Symbol) :
    countKind k (x :: ss) = countKind k [x] + countKind k ss := by
  rw [countKind, countKind, countKind, ← List.singleton_append, List.countP_append]

/-- How many inner groups are open is counted by braces. -/
theorem Parser.groupDepth?_eq {depth : Nat} {x : Symbol}
    (h : countKind .rbrace [x] ≤ depth + countKind .lbrace [x]) :
    ∃ d, groupDepth? .lbrace .rbrace depth x.1 = some d ∧
      d + countKind .rbrace [x] = depth + countKind .lbrace [x] := by
  unfold groupDepth?
  by_cases hl : x.1 = .lbrace
  · exact ⟨depth + 1, by simp [hl], by simp [countKind, hl]⟩
  by_cases hr : x.1 = .rbrace
  · have hpos : 1 ≤ depth := by simpa [countKind, hr] using h
    obtain ⟨d, rfl⟩ : ∃ d, depth = d + 1 := ⟨depth - 1, by omega⟩
    exact ⟨d, by simp [hr], by simp [countKind, hr]⟩
  · exact ⟨depth, by simp [hl, hr], by simp [countKind, hl, hr]⟩

/-- A group ends at the brace that closes it, behind inner groups that balance. The
invariant counts the inner groups that are open. -/
theorem Parser.groupLength_of_balanced {ts : List Token} {b post : List Symbol} {text : String}
    {depth : Nat} (hts : ts.map Token.symbol = b ++ (.rbrace, text) :: post)
    (hopened : ∀ p, p <+: b → countKind .rbrace p ≤ depth + countKind .lbrace p)
    (hclosed : countKind .rbrace b = depth + countKind .lbrace b) :
    groupLength .lbrace .rbrace depth ts = some (b.length + 1) := by
  induction b generalizing ts depth with
  | nil =>
    obtain rfl : depth = 0 := by simpa [countKind] using hclosed.symm
    cases ts with
    | nil => simp at hts
    | cons t ts =>
      have hkind : t.kind = .rbrace := congrArg Prod.fst (List.cons.inj hts).1
      rw [groupLength_cons, hkind]
      rfl
  | cons x b ih =>
    cases ts with
    | nil => simp at hts
    | cons t ts =>
      obtain ⟨hx, hrest⟩ := List.cons.inj hts
      have hkind : t.kind = x.1 := congrArg Prod.fst hx
      have hfirst : countKind .rbrace [x] ≤ depth + countKind .lbrace [x] :=
        hopened [x] (List.prefix_append [x] b)
      obtain ⟨d, hd, hcount⟩ := groupDepth?_eq hfirst
      rw [countKind_cons, countKind_cons .lbrace] at hclosed
      have hinner : groupLength .lbrace .rbrace d ts = some (b.length + 1) := by
        refine ih hrest ?_ (by omega)
        intro p hp
        have hlonger := hopened (x :: p) (List.cons_prefix_cons.mpr ⟨rfl, hp⟩)
        rw [countKind_cons, countKind_cons .lbrace] at hlonger
        omega
      rw [groupLength_cons, hkind, hd]
      show (groupLength .lbrace .rbrace d ts).map (· + 1) = _
      rw [hinner]
      rfl

/-- A body in braces is skipped. -/
theorem skipGroup_of_balanced {r : Reader} {b post : List Symbol} (hb : BracesBalance b)
    (hr : r.symbols = inBraces b post) : ∃ r', Parser.skipGroup r = .ok () r' ∧ r'.symbols = post := by
  rw [inBraces] at hr
  have hkind : r.current.kind = .lbrace := by rw [r.current_kind, hr, headKind_cons]
  have hrest : (r.ahead.drop 1).map Token.symbol = b ++ (.rbrace, "\x7d") :: post := by
    rw [List.map_drop, show r.ahead.map Token.symbol = r.symbols from rfl, hr]
    rfl
  have hlength : Parser.groupLength .lbrace .rbrace 0 (r.ahead.drop 1) = some (b.length + 1) := by
    apply Parser.groupLength_of_balanced hrest
    · intro p hp
      rw [Nat.zero_add]
      exact hb.opened p hp
    · rw [Nat.zero_add]
      exact hb.closed
  refine ⟨r.drop (b.length + 1 + 1), ?_, ?_⟩
  · rw [Parser.skipGroup, hkind]
    simp only [Kind.closer?, hlength]
  · rw [r.drop_symbols, hr, List.drop_succ_cons, List.drop_append]
    simp

/-! ## The run behind the body -/

/-- Whether a parser that ends in a value on one reader ends in the same value on another,
and leaves the same symbols. -/
def Rejoins {α : Type} (p : Parser α) (r s : Reader) : Prop :=
  ∀ a r', p r = .ok a r' → ∃ s', p s = .ok a s' ∧ r'.symbols = s'.symbols

namespace Rejoins

variable {α β σ : Type} {p : Parser α} {f : α → Parser β} {r s r₁ s₁ : Reader} {Q : β → Prop}

theorem congr {q : Parser α} (h : Rejoins p r s) (hr : q r = p r) (hs : q s = p s) : Rejoins q r s := by
  intro a r' hq
  rw [hr] at hq
  rw [hs]
  exact h a r' hq

/-- Two runs that join later join after the same beginning. -/
theorem bind_right {a : α} (hr : p r = .ok a r₁) (hs : p s = .ok a s₁) (h : Rejoins (f a) r₁ s₁) :
    Rejoins (p >>= f) r s := by
  intro b r' hb
  rw [Parser.bind_of_ok hr] at hb
  rw [Parser.bind_of_ok hs]
  exact h b r' hb

/-- Two runs that have joined go on alike. -/
theorem bind_left (h : Rejoins p r s)
    (hf : ∀ a, Agrees .whole (fun _ => True) (f a) (f a) Q) : Rejoins (p >>= f) r s := by
  intro b r' hb
  obtain ⟨a, r₁, hr, hfa⟩ := Sound.bind_ok hb
  obtain ⟨s₁, hs, hjoined⟩ := h a r₁ hr
  obtain ⟨n, rfl, hother, -⟩ := (hf a).exists_drop trivial hfa
  refine ⟨s₁.drop n, ?_, ?_⟩
  · rw [Parser.bind_of_ok hs]
    exact hother s₁ hjoined
  · rw [r₁.drop_symbols, s₁.drop_symbols, hjoined]

theorem bind_pure (h : Rejoins p r s) (g : α → β) : Rejoins (p >>= fun a => pure (g a)) r s :=
  h.bind_left (Q := fun _ => False) fun _ => Agrees.pure' id

/-- Loops join if they do so in one round, behind the same rounds. -/
theorem iterate {round : σ → Parser (Option σ)} {x y : σ}
    (hround : ∀ s, Agrees .whole (fun _ => True) (round s) (round s) (·.isSome = true))
    (hr : Rounds round x r y r₁) (hs : Rounds round x s y s₁) (h : Rejoins (round y) r₁ s₁) :
    Rejoins (Parser.iterate round x) r s := by
  have hloop : Rejoins (round y >>= fun o => o.elim (pure y) (Parser.iterate round)) r₁ s₁ := by
    refine h.bind_left (Q := fun _ => False) fun o => ?_
    cases o with
    | none => exact Agrees.pure' id
    | some z => exact Agrees.iterate hround z
  have heq : ∀ {r r₁ : Reader}, Rounds round x r y r₁ → Parser.iterate round x r
      = (round y >>= fun o => o.elim (pure y) (Parser.iterate round)) r₁ := by
    intro r r₁ hrounds
    rw [hrounds.iterate_eq hround, Rounds.iterate_eq_bind hround]
  intro z r' hz
  rw [heq hr] at hz
  rw [heq hs]
  exact hloop z r' hz

end Rejoins

/-- Whether a reader is at a body in braces, and what stands behind it. -/
def BodyAt (r : Reader) (post : List Symbol) : Prop :=
  ∃ b, BracesBalance b ∧ r.symbols = inBraces b post

theorem BodyAt.kind {r : Reader} {post : List Symbol} (h : BodyAt r post) :
    r.current.kind = .lbrace := by
  obtain ⟨b, -, hr⟩ := h
  rw [r.current_kind, hr, inBraces, headKind_cons]

namespace Rejoins

variable {r s r₁ s₁ : Reader} {post : List Symbol}

/-- Two runs join behind two bodies. -/
theorem skipGroup (hr : BodyAt r post) (hs : BodyAt s post) : Rejoins Parser.skipGroup r s := by
  obtain ⟨b₁, hb₁, hr⟩ := hr
  obtain ⟨b₂, hb₂, hs⟩ := hs
  obtain ⟨r', hr', hpost⟩ := skipGroup_of_balanced hb₁ hr
  obtain ⟨s', hs', hpost'⟩ := skipGroup_of_balanced hb₂ hs
  intro a r'' h
  obtain ⟨-, rfl⟩ := EStateM.Result.ok.inj (hr'.symm.trans h)
  exact ⟨s', hs', hpost.trans hpost'.symm⟩

theorem functionBody (f : FunctionDecl) (hr : BodyAt r post) (hs : BodyAt s post) :
    Rejoins (Parser.functionBody f) r s := by
  have heq : ∀ {r : Reader}, BodyAt r post →
      Parser.functionBody f r = (Parser.skipGroup >>= fun _ => pure f) r := by
    intro r hr
    rw [Parser.functionBody, Parser.kind_bind, hr.kind, if_pos rfl]
  exact ((skipGroup hr hs).bind_pure fun _ => f).congr (heq hr) (heq hs)

theorem modifierBody (hr : BodyAt r post) (hs : BodyAt s post) :
    Rejoins Parser.modifierBody r s := by
  have heq : ∀ {r : Reader}, BodyAt r post → Parser.modifierBody r = Parser.skipGroup r := by
    intro r hr
    rw [Parser.modifierBody, Parser.kind_bind, hr.kind]
  exact (skipGroup hr hs).congr (heq hr) (heq hs)

theorem function {f : FunctionDecl} (hr : Parser.functionHead r = .ok f r₁)
    (hs : Parser.functionHead s = .ok f s₁) (hr₁ : BodyAt r₁ post) (hs₁ : BodyAt s₁ post) :
    Rejoins Parser.function r s := by
  rw [Parser.function_eq]
  exact bind_right hr hs (functionBody f hr₁ hs₁)

theorem specialFunction {f : FunctionDecl} (hr : Parser.specialHead r = .ok f r₁)
    (hs : Parser.specialHead s = .ok f s₁) (hr₁ : BodyAt r₁ post) (hs₁ : BodyAt s₁ post) :
    Rejoins Parser.specialFunction r s := by
  rw [Parser.specialFunction_eq]
  exact bind_right hr hs (functionBody f hr₁ hs₁)

end Rejoins

section Behind

variable {t₁ t₂ : TokenStream} {limit : Nat}
  (hshare : t₁.symbols.take (limit + 1) = t₂.symbols.take (limit + 1)) (hnone : NoneBeyond t₁ limit)
include hshare hnone

/-- Runs that join in a declaration end alike. -/
theorem Rejoins.of_declaration {u : SourceUnit} {i : Nat} (hi : i ≤ limit)
    (hat : AtDeclaration t₁ u (t₁.readerAt i))
    (h : Rejoins (Parser.unitRound u) (t₁.readerAt i) (t₂.readerAt i)) :
    Rejoins Parser.sourceUnit (t₁.readerAt 0) (t₂.readerAt 0) := by
  obtain ⟨j, hj, hat'⟩ := hat.transfer hshare hnone (by simpa using hi)
  obtain rfl := TokenStream.readerAt_inj hj
  exact Rejoins.iterate Agrees.unitRound hat hat' h

/-- Runs that join in a member of a contract end alike. -/
theorem Rejoins.of_member {i : Nat} (hi : i ≤ limit) (hat : AtMember t₁ (t₁.readerAt i))
    (hk : (t₁.readerAt i).current.kind ≠ .rbrace ∧ (t₁.readerAt i).current.kind ≠ .eof)
    (h : Rejoins Parser.member (t₁.readerAt i) (t₂.readerAt i)) :
    Rejoins Parser.sourceUnit (t₁.readerAt 0) (t₂.readerAt 0) := by
  obtain ⟨u, r₁, c, r₂, members, hdeclaration, hcontract, hhead, hrounds⟩ := hat
  have hagree := Agrees.contractHead (v := .near) (P := fun _ => True)
  obtain ⟨i₁, rfl⟩ := hdeclaration.exists_readerAt
  obtain ⟨i₂, hi₂, rfl⟩ := hagree.exists_readerAt trivial hhead
  obtain ⟨i₃, hi₃, heq⟩ := hrounds.exists_readerAt Agrees.memberRound
  obtain rfl := TokenStream.readerAt_inj heq
  have hle₁ : i₁ ≤ limit := by omega
  obtain ⟨j, -, hj, hhead'⟩ :=
    hagree.transfer hshare trivial hhead (by rw [t₁.readerAt_index]; omega)
  obtain rfl := TokenStream.readerAt_inj hj
  obtain ⟨k, -, hk', hrounds'⟩ :=
    members_transfer hshare hnone hdeclaration hcontract hhead hrounds (by simpa using hi)
  obtain rfl := TokenStream.readerAt_inj hk'
  -- From the member outwards: the round of its loop, the loop, the contract, the declaration.
  have hkind := (shares_readerAt (n := 0) hshare hi).kind
  have hround : Rejoins (Parser.memberRound members) (t₁.readerAt i) (t₂.readerAt i) :=
    (h.bind_pure fun m? => some (members ++ m?.toList)).congr (Parser.memberRound_eq members hk)
      (Parser.memberRound_eq members (hkind ▸ hk))
  have hmembers : Rejoins (Parser.contractMembers c) (t₁.readerAt i₂) (t₂.readerAt i₂) :=
    (Rejoins.iterate Agrees.memberRound hrounds hrounds' hround).bind_left
      fun _ => (Agrees.expect (by decide)).seq fun _ => Agrees.pure' id
  have hcontracts : Rejoins Parser.contract (t₁.readerAt i₁) (t₂.readerAt i₁) := by
    rw [Parser.contract_eq]
    exact Rejoins.bind_right hhead hhead' hmembers
  have hkind₁ := (shares_readerAt (n := 0) hshare hle₁).kind
  refine Rejoins.of_declaration hshare hnone hle₁ hdeclaration ?_
  have hunit := hcontracts.bind_pure fun c => some { u with contracts := u.contracts ++ [c] }
  exact hunit.congr (Parser.unitRound_contract u hcontract)
    (Parser.unitRound_contract u (hkind₁ ▸ hcontract))

omit hnone in
/-- A head that stops at the limit is the same on the other stream. -/
theorem head_transfer {α : Type} {P : Kind → Prop} {p : Parser α} {i : Nat} {a : α} {r : Reader}
    (h : Agrees .near P p p fun _ => True) (hP : P (t₁.readerAt i).current.kind)
    (hr : p (t₁.readerAt i) = .ok a r) (hindex : r.index = limit) :
    i < limit ∧ p (t₁.readerAt i) = .ok a (t₁.readerAt limit) ∧
      p (t₂.readerAt i) = .ok a (t₂.readerAt limit) := by
  obtain ⟨n, hn, -, htaken⟩ := h.exists_drop hP hr
  obtain ⟨j, -, rfl, hother⟩ := h.transfer hshare hP hr (by omega)
  obtain rfl : j = limit := by simpa using hindex
  have hpos := (htaken trivial).1
  rw [t₁.readerAt_drop] at hn
  have hsum := TokenStream.readerAt_inj hn
  exact ⟨by omega, hr, hother⟩

/-- Runs that come to a body at the limit, with the same symbols behind it, end alike. -/
theorem AtBody.rejoins {r : Reader} {post : List Symbol} (hbody : AtBody t₁ r)
    (hindex : r.index = limit) (h₁ : BodyAt (t₁.readerAt limit) post)
    (h₂ : BodyAt (t₂.readerAt limit) post) :
    Rejoins Parser.sourceUnit (t₁.readerAt 0) (t₂.readerAt 0) := by
  have hkinds : ∀ {i : Nat}, i ≤ limit → (t₁.readerAt i).current.kind = (t₂.readerAt i).current.kind :=
    fun hi => (shares_readerAt (n := 0) hshare hi).kind
  cases hbody with
  | @free u f r₁ _ hat hk hhead =>
    obtain ⟨i, rfl⟩ := hat.exists_readerAt
    obtain ⟨hi, hhead₁, hhead₂⟩ := head_transfer hshare (P := fun _ => True)
      Agrees.functionHead trivial hhead hindex
    have hk₂ := (hkinds (Nat.le_of_lt hi)).symm.trans hk
    refine Rejoins.of_declaration hshare hnone (Nat.le_of_lt hi) hat ?_
    have hfunction := (Rejoins.function hhead₁ hhead₂ h₁ h₂).bind_pure fun _ => some u
    exact hfunction.congr (Parser.unitRound_function u hk) (Parser.unitRound_function u hk₂)
  | @function f r₁ _ hat hk hhead =>
    obtain ⟨i, rfl⟩ := hat.exists_readerAt
    obtain ⟨hi, hhead₁, hhead₂⟩ := head_transfer hshare (P := fun _ => True)
      Agrees.functionHead trivial hhead hindex
    have hk₂ := (hkinds (Nat.le_of_lt hi)).symm.trans hk
    refine Rejoins.of_member hshare hnone (Nat.le_of_lt hi) hat (by rw [hk]; decide) ?_
    have hfunction := (Rejoins.function hhead₁ hhead₂ h₁ h₂).bind_pure fun f => some (Member.function f)
    exact hfunction.congr (Parser.member_function hk) (Parser.member_function hk₂)
  | @special f r₁ _ hat hk hparen hhead =>
    obtain ⟨i, rfl⟩ := hat.exists_readerAt
    have hmore : (t₁.readerAt i).current.kind ≠ .rbrace ∧ (t₁.readerAt i).current.kind ≠ .eof := by
      rcases hk with hk | hk | hk <;> rw [hk] <;> decide
    obtain ⟨hi, hhead₁, hhead₂⟩ :=
      head_transfer hshare (Agrees.specialHead hmore.2) rfl hhead hindex
    have hk₂ := hkinds (Nat.le_of_lt hi) ▸ hk
    have hparen₂ : ((t₂.readerAt i).peek 1).kind = .lparen := by
      rw [← Reader.current_drop, TokenStream.readerAt_drop] at hparen ⊢
      exact (hkinds hi).symm.trans hparen
    refine Rejoins.of_member hshare hnone (Nat.le_of_lt hi) hat hmore ?_
    have hfunction :=
      (Rejoins.specialFunction hhead₁ hhead₂ h₁ h₂).bind_pure fun f => some (Member.function f)
    exact hfunction.congr (Parser.member_special hk hparen) (Parser.member_special hk₂ hparen₂)
  | @modifier r₁ _ hat hk hhead =>
    obtain ⟨i, rfl⟩ := hat.exists_readerAt
    have hmore : (t₁.readerAt i).current.kind ≠ .rbrace ∧ (t₁.readerAt i).current.kind ≠ .eof := by
      rw [hk]
      decide
    obtain ⟨hi, hhead₁, hhead₂⟩ :=
      head_transfer hshare (Agrees.modifierHead hmore.2) rfl hhead hindex
    have hk₂ := (hkinds (Nat.le_of_lt hi)).symm.trans hk
    refine Rejoins.of_member hshare hnone (Nat.le_of_lt hi) hat hmore ?_
    have hbody := (Rejoins.modifierBody h₁ h₂).bind_pure fun _ => (none : Option Member)
    have hmodifier := Rejoins.bind_right
      (f := fun _ => Parser.modifierBody >>= fun _ => pure (none : Option Member)) hhead₁ hhead₂ hbody
    exact hmodifier.congr (Parser.member_modifier hk) (Parser.member_modifier hk₂)

end Behind

/-- Bodies have no say in the declarations. If a stream has declarations, and the parser
comes to one of its opening braces as to a body before any state variable was tried that
reads beyond the brace, then with another body there the stream has the same declarations. -/
theorem SourceUnit.bodies_have_no_say {t₁ t₂ : TokenStream} {pre b₁ b₂ post : List Symbol}
    {u : SourceUnit} {r : Reader} (ht₁ : t₁.symbols = pre ++ inBraces b₁ post)
    (ht₂ : t₂.symbols = pre ++ inBraces b₂ post) (hb₁ : BracesBalance b₁)
    (hb₂ : BracesBalance b₂) (hparse : ofTokens t₁ = .ok u) (hbody : AtBody t₁ r)
    (hr : r.index = pre.length) (hnone : NoneBeyond t₁ pre.length) : ofTokens t₂ = .ok u := by
  have hshare : t₁.symbols.take (pre.length + 1) = t₂.symbols.take (pre.length + 1) := by
    rw [ht₁, ht₂, List.take_length_add_append, List.take_length_add_append]
    rfl
  have h₁ : BodyAt (t₁.readerAt pre.length) post := by
    refine ⟨b₁, hb₁, ?_⟩
    rw [t₁.readerAt_symbols, ht₁, List.drop_left]
  have h₂ : BodyAt (t₂.readerAt pre.length) post := by
    refine ⟨b₂, hb₂, ?_⟩
    rw [t₂.readerAt_symbols, ht₂, List.drop_left]
  have hjoin := hbody.rejoins hshare hnone hr h₁ h₂
  unfold ofTokens at hparse ⊢
  split at hparse
  · rename_i u' r' hu'
    obtain ⟨s', hs', -⟩ := hjoin u' r' hu'
    rw [show Parser.sourceUnit (Reader.ofStream t₂) = .ok u' s' from hs']
    exact hparse
  · cases hparse

/-- A contract up to the body of its first function. -/
def contractFront : List Symbol :=
  [(.kwContract, "contract"), (.identifier, "C"), (.lbrace, "\x7b"), (.kwFunction, "function"),
    (.identifier, "f"), (.lparen, "("), (.rparen, ")")]

/-- The contract with some tokens for the body. -/
def contractWithBody (body : List Symbol) : TokenStream where
  tokens := (contractFront ++ inBraces body [(.rbrace, "\x7d")]).map fun s => ⟨s.1, s.2, {}⟩
  stop := {}

/-- The declarations of the contract. -/
def unitWithBody : SourceUnit where
  contracts := [{ name := "C", kind := .contract,
                  members := [.function { name := some "f", kind := .ordinary }] }]

/-- Where a state variable at a reader ends, or breaks off. -/
def Parser.variableEnd (r : Reader) : Nat :=
  match stateVariable r with
  | .ok _ r' => r'.index
  | .error _ r' => r'.index

/-- A body with a stray parenthesis and a semicolon, and one with a block and a stray
parenthesis of the other kind. -/
theorem SourceUnit.body_with_a_block_has_no_say :
    ofTokens (contractWithBody [(.rparen, ")"), (.semicolon, ";")]) = .ok unitWithBody ∧
      ofTokens (contractWithBody [(.lbrace, "\x7b"), (.rbrace, "\x7d"), (.lparen, "(")])
        = .ok unitWithBody := by
  obtain ⟨t, ht⟩ : ∃ t, t = contractWithBody [(.rparen, ")"), (.semicolon, ";")] := ⟨_, rfl⟩
  have hparse : ofTokens t = .ok unitWithBody := by
    rw [ht]
    rfl
  have hmember : AtMember t (t.readerAt 3) := by
    rw [ht]
    exact ⟨{}, _, { name := "C", kind := .contract }, _, [], .refl, rfl, rfl, .refl⟩
  have hbody : AtBody t (t.readerAt 7) := by
    refine .function (f := { name := some "f", kind := .ordinary }) hmember ?_ ?_
    · rw [ht]
      rfl
    · rw [ht]
      rfl
  have hends : ∀ i < contractFront.length, Parser.variableEnd (t.readerAt i) ≤ contractFront.length := by
    rw [ht]
    decide
  have hnone : NoneBeyond t contractFront.length := by
    rintro r stop ⟨hat, -, -, e, he, -⟩ hindex
    obtain ⟨i, rfl⟩ := hat.exists_readerAt
    have hend := hends i (by simpa using hindex)
    rwa [Parser.variableEnd, he] at hend
  have hsymbols : t.symbols
      = contractFront ++ inBraces [(.rparen, ")"), (.semicolon, ";")] [(.rbrace, "\x7d")] := by
    rw [ht]
    rfl
  have hother : (contractWithBody [(.lbrace, "\x7b"), (.rbrace, "\x7d"), (.lparen, "(")]).symbols
      = contractFront ++ inBraces [(.lbrace, "\x7b"), (.rbrace, "\x7d"), (.lparen, "(")]
        [(.rbrace, "\x7d")] := rfl
  rw [← ht]
  exact ⟨hparse, bodies_have_no_say hsymbols hother (by decide) (by decide) hparse hbody rfl hnone⟩

end SolidityInterface
