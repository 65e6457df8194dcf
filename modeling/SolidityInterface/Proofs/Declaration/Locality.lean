import SolidityInterface.Proofs.Declaration.Agreement

/-
  The parsers of the grammar see no further than the token at which they stop
  (`Sight.near`), but for those that go back when a state variable breaks the grammar. All
  of them see the symbols of the tokens and not their places (`Sight.whole`), so streams
  with the same symbols have the same declarations (`SourceUnit.ofTokens_of_symbols`).

  A loop has rounds enough by `Agrees.iterate`; a type has levels enough since a mapping
  takes two tokens before it reads its key (`Parser.typeNameWithin_eq`).
-/

namespace SolidityInterface

open Token (Kind)

namespace Agrees

variable {α : Type} {v : Sight} {P : Kind → Prop}

/-! ## Names and types -/

theorem segmentRound (path : DottedName) :
    Agrees v P (Parser.segmentRound path) (Parser.segmentRound path) (·.isSome = true) := by
  refine kind_bind fun k _ => ite (fun hk => ?_) fun _ => pure' (by simp)
  exact (skip (by rw [hk]; decide)).bind_taken fun _ => name.seq fun _ => pure' id

theorem dottedName : Agrees v P Parser.dottedName Parser.dottedName fun _ => True :=
  name.bind_taken fun _ => iterate segmentRound _

theorem typeAttributeRound (u : Unit) :
    Agrees v P (Parser.typeAttributeRound u) (Parser.typeAttributeRound u) (·.isSome = true) := by
  refine kind_bind fun k _ => ite (fun hk => ?_) fun _ => pure' (by simp)
  refine (skip ?_).bind_taken fun _ => pure' id
  rintro rfl
  simp [Parser.visibility?, Parser.stateMutability?] at hk

theorem functionType : Agrees v P Parser.functionType Parser.functionType fun _ => True := by
  refine (expect (by decide)).bind_taken fun _ => skipGroup.seq fun _ => ?_
  refine (iterate typeAttributeRound _).seq fun _ => kind_bind fun k _ => ?_
  refine ite (fun hk => ?_) fun _ => (pure' (Q := fun _ => False) id).seq fun _ => pure' id
  exact (skip (by rw [hk]; decide)).seq fun _ => skipGroup.seq fun _ => pure' id

theorem skipName : Agrees v P Parser.skipName Parser.skipName fun _ => False := by
  refine kind_bind fun k _ => ite (fun hk => ?_) fun _ => pure' id
  refine (skip ?_).imp fun _ h => h.elim
  rintro rfl
  simp [Kind.isName] at hk

theorem mappingType {inner : Parser TypeName}
    (hinner : Agrees v (fun _ => True) inner inner fun _ => False) :
    Agrees v P (Parser.mappingType inner) (Parser.mappingType inner) fun _ => True := by
  refine (expect (by decide)).bind_taken fun _ => (expect (by decide)).seq fun _ => ?_
  refine hinner.seq fun _ => skipName.seq fun _ => (expect (by decide)).seq fun _ => ?_
  exact hinner.seq fun _ => skipName.seq fun _ => (expect (by decide)).seq fun _ => pure' id

/-- The text of a length depends on its tokens and the one that stops it. -/
theorem takeWhile_eq {ts us : List Token} {n : Nat}
    (hn : n = (ts.takeWhile (·.kind ≠ .rbracket)).length)
    (hshare : (ts.map Token.symbol).take (n + 1) = (us.map Token.symbol).take (n + 1)) :
    (us.takeWhile (·.kind ≠ .rbracket)).map Token.symbol
      = (ts.takeWhile (·.kind ≠ .rbracket)).map Token.symbol := by
  subst hn
  induction ts generalizing us with
  | nil =>
    obtain rfl : us = [] := by simpa using hshare.symm
    rfl
  | cons t ts ih =>
    cases us with
    | nil => simp at hshare
    | cons u us =>
      simp only [List.map_cons, List.take_succ_cons, List.cons.injEq] at hshare
      obtain ⟨hhead, hrest⟩ := hshare
      have hkind : t.kind = u.kind := congrArg Prod.fst hhead
      by_cases hstop : t.kind = .rbracket
      · have hstop' : u.kind = .rbracket := hkind ▸ hstop
        rw [List.takeWhile_cons_of_neg (by simpa using hstop'),
          List.takeWhile_cons_of_neg (by simpa using hstop)]
      · have hgo' : u.kind ≠ .rbracket := hkind ▸ hstop
        have hgo : (t :: ts).takeWhile (·.kind ≠ .rbracket) = t :: ts.takeWhile (·.kind ≠ .rbracket) :=
          List.takeWhile_cons_of_pos (by simpa using hstop)
        rw [hgo, List.length_cons] at hrest
        rw [hgo, List.takeWhile_cons_of_pos (by simpa using hgo'), List.map_cons, List.map_cons,
          ih hrest, hhead]

theorem lengthText : Agrees v P Parser.lengthText Parser.lengthText fun _ => False := by
  intro r _
  obtain ⟨ts, hts⟩ : ∃ ts : List Token, ts = r.ahead.takeWhile (·.kind ≠ .rbracket) := ⟨_, rfl⟩
  refine ⟨ts.length, .ok (String.join (ts.map (·.text))), ?_, ?_, fun _ _ h => h.elim⟩
  · rw [hts]
    rfl
  subst hts
  intro s hs
  have hsymbols := takeWhile_eq rfl hs.take
  have htexts := congrArg (List.map Prod.snd) hsymbols
  have hlength := congrArg List.length hsymbols
  rw [List.map_map, List.map_map] at htexts
  rw [List.length_map, List.length_map] at hlength
  change Parser.lengthText s = _
  rw [Parser.lengthText, hlength]
  exact congrArg (EStateM.Result.ok · _) (congrArg String.join htexts)

theorem bracketRound (type : TypeName) :
    Agrees v P (Parser.bracketRound type) (Parser.bracketRound type) (·.isSome = true) := by
  refine kind_bind fun k _ => ite (fun hk => ?_) fun _ => pure' (by simp)
  refine (skip (by rw [hk]; decide)).bind_taken fun _ => lengthText.seq fun _ => ?_
  exact (expect (by decide)).seq fun _ => pure' id

theorem baseType {inner : Parser TypeName}
    (hinner : Agrees v (fun _ => True) inner inner fun _ => False) :
    Agrees v P (Parser.baseType inner) (Parser.baseType inner) fun _ => True := by
  refine current_bind ?_
  rintro ⟨k, text, p⟩ ⟨k', text', p'⟩ hsymbol -
  obtain ⟨rfl, rfl⟩ := Prod.mk.inj hsymbol
  dsimp only
  split
  · exact mappingType hinner
  · exact functionType
  · refine (skip (by decide)).bind_taken fun _ => kind_bind fun k _ => ite (fun hk => ?_) fun _ => pure' id
    refine (skip ?_).seq fun _ => pure' id
    rintro rfl
    simp at hk
  · refine ite (fun _ => ?_) fun _ => throw rfl
    exact dottedName.bind_taken fun _ => pure' id

theorem typeNameWithin (n : Nat) :
    Agrees v P (Parser.typeNameWithin n) (Parser.typeNameWithin n) fun _ => True := by
  induction n generalizing P with
  | zero => exact throw rfl
  | succ n ih =>
    rw [Parser.typeNameWithin]
    exact (baseType (ih.imp fun _ _ => trivial)).bind_taken fun _ => iterate bracketRound _

end Agrees

/-! ## Levels enough -/

namespace Parser

theorem bind_congr {α β : Type} {p q : Parser α} {f g : α → Parser β} {r : Reader} (hp : p r = q r)
    (hf : ∀ a r', p r = .ok a r' → f a r' = g a r') : (p >>= f) r = (q >>= g) r := by
  change EStateM.bind p f r = EStateM.bind q g r
  rw [EStateM.bind, EStateM.bind, ← hp]
  cases h : p r with
  | ok a r' => exact hf a r' h
  | error e r' => rfl

theorem kind_bind {α : Type} (f : Kind → Parser α) (r : Reader) :
    (kind >>= f) r = f r.current.kind r := rfl

/-- A mapping reads its key and its value behind the tokens it starts with. -/
theorem mappingType_congr {inner inner' : Parser TypeName} {r : Reader}
    (hle : ∀ s a s', inner s = .ok a s' → s'.left ≤ s.left)
    (heq : ∀ s : Reader, s.left < r.left → inner s = inner' s) :
    mappingType inner r = mappingType inner' r := by
  have htaken : ∀ {k : Kind}, k ≠ .eof → ∀ {s s' : Reader} {u : Unit},
      Functor.discard (expect k) s = .ok u s' → s'.left < s.left := by
    intro k hk s s' u h
    have hexpect : Agrees .whole (fun _ => True) (Functor.discard (expect k))
        (Functor.discard (expect k)) fun _ => True := .expect hk
    exact hexpect.left_lt h trivial
  have hname : ∀ {s s' : Reader} {u : Unit}, skipName s = .ok u s' → s'.left ≤ s.left := by
    intro s s' u h
    exact Agrees.left_le (Agrees.skipName (v := .whole)) h
  refine bind_congr rfl fun _ r₁ h₁ => bind_congr rfl fun _ r₂ h₂ => ?_
  have hr₁ := htaken (by decide) h₁
  have hr₂ := htaken (by decide) h₂
  refine bind_congr (heq r₂ (by omega)) fun key r₃ h₃ => bind_congr rfl fun _ r₄ h₄ => ?_
  have hr₃ := hle r₂ key r₃ h₃
  have hr₄ := hname h₄
  refine bind_congr rfl fun _ r₅ h₅ => ?_
  have hr₅ := htaken (by decide) h₅
  exact bind_congr (heq r₅ (by omega)) fun _ _ _ => rfl

/-- Only in a mapping are types nested. -/
theorem baseType_congr {inner inner' : Parser TypeName} {r : Reader}
    (h : mappingType inner r = mappingType inner' r) : baseType inner r = baseType inner' r := by
  refine bind_congr rfl ?_
  intro token r' hr
  obtain ⟨rfl, rfl⟩ := EStateM.Result.ok.inj hr
  cases r.current.kind with
  | kwMapping => exact h
  | _ => rfl

theorem typeNameWithin_eq {n m : Nat} {r : Reader} (hn : r.left < n) (hm : r.left < m) :
    typeNameWithin n r = typeNameWithin m r := by
  induction n generalizing m r with
  | zero => omega
  | succ n ih =>
    obtain ⟨m, rfl⟩ : ∃ k, m = k + 1 := ⟨m - 1, by omega⟩
    rw [typeNameWithin, typeNameWithin]
    refine bind_congr (baseType_congr (mappingType_congr ?_ ?_)) fun _ _ _ => rfl
    · intro s a s' hs
      exact Nat.le_of_lt ((Agrees.typeNameWithin (v := .whole) n).left_lt hs trivial)
    · intro s hs
      exact ih (by omega) (by omega)

end Parser

namespace Agrees

variable {α : Type} {v : Sight} {P : Kind → Prop}

theorem typeName : Agrees v P Parser.typeName Parser.typeName fun _ => True := by
  intro r hr
  obtain ⟨n, o, hp, -, htaken⟩ := typeNameWithin (v := v) (P := P) (r.left + 1) r hr
  refine ⟨n, o, hp.congr rfl, ?_, htaken⟩
  intro s hs
  obtain ⟨m, o', hp', hq, -⟩ := typeNameWithin (v := v) (P := P) (max r.left s.left + 1) r hr
  obtain ⟨rfl, rfl⟩ := hp.unique (hp'.congr (Parser.typeNameWithin_eq (by omega) (by omega)))
  exact (hq s hs).congr (Parser.typeNameWithin_eq (by omega) (by omega))

/-! ## Variables -/

theorem parameterWordRound (x : Variable) :
    Agrees v P (Parser.parameterWordRound x) (Parser.parameterWordRound x) (·.isSome = true) := by
  refine kind_bind fun k _ => ?_
  have hlocation : ∀ l, Parser.location? k = some l → k ≠ .eof := by
    rintro l hl rfl
    simp [Parser.location?] at hl
  split
  · exact (skip (hlocation _ ‹_›)).bind_taken fun _ => pure' id
  · refine ite (fun hk => ?_) fun _ => pure' (by simp)
    exact (skip (by rw [hk]; decide)).bind_taken fun _ => pure' id

theorem parameter : Agrees v P Parser.parameter Parser.parameter fun _ => True := by
  refine typeName.bind_taken fun _ => (iterate parameterWordRound _).seq fun _ => ?_
  refine kind_bind fun k _ => ite (fun hk => ?_) fun _ => pure' id
  refine advance_bind ?_ ?_
  · rintro rfl
    simp [Kind.isName] at hk
  · intro t t' hsymbol
    rw [show t'.text = t.text from congrArg Prod.snd hsymbol.symm]
    exact pure' id

theorem parameterRound (vs : List Variable) :
    Agrees v P (Parser.parameterRound vs) (Parser.parameterRound vs) (·.isSome = true) := by
  refine kind_bind fun k _ => ?_
  split
  · exact pure' (by simp)
  · exact pure' (by simp)
  · exact parameter.bind_taken fun _ => skipComma.seq fun _ => pure' id

theorem parameterList : Agrees v P Parser.parameterList Parser.parameterList fun _ => True := by
  refine (expect (by decide)).bind_taken fun _ => (iterate parameterRound _).seq fun _ => ?_
  exact (expect (by decide)).seq fun _ => pure' id

theorem variableWordRound (x : Variable) :
    Agrees v P (Parser.variableWordRound x) (Parser.variableWordRound x) (·.isSome = true) := by
  refine kind_bind fun k _ => ite (fun hk => ?_) fun _ => ?_
  · exact (skip (by rw [hk]; decide)).bind_taken fun _ => skipArguments.seq fun _ => pure' id
  have hmode : ∀ m, Parser.mode? k = some m → k ≠ .eof := by
    rintro m hm rfl
    simp [Parser.mode?] at hm
  have hvisibility : ∀ x, Parser.visibility? k = some x → k ≠ .eof := by
    rintro m hm rfl
    simp [Parser.visibility?] at hm
  split
  · exact (skip (hmode _ ‹_›)).bind_taken fun _ => pure' id
  split
  · exact pure' (by simp)
  · exact (skip (hvisibility _ ‹_›)).bind_taken fun _ => pure' id
  · exact pure' (by simp)

theorem stateVariable : Agrees v P Parser.stateVariable Parser.stateVariable fun _ => True := by
  refine current_bind fun t t' _ _ => ?_
  refine typeName.bind_taken fun _ => (iterate variableWordRound _).seq fun _ => name.seq fun _ => ?_
  refine kind_bind fun k _ => ite (fun hk => ?_) fun _ => (expect (by decide)).seq fun _ => pure' id
  exact (skipStatement (by rw [hk]; decide) (by rw [hk]; decide)).seq fun _ => pure' id

/-! ## Structs, enums and functions -/

theorem structMemberRound (vs : List Variable) :
    Agrees v P (Parser.structMemberRound vs) (Parser.structMemberRound vs) (·.isSome = true) := by
  refine kind_bind fun k _ => ?_
  split
  · exact pure' (by simp)
  · exact pure' (by simp)
  · refine typeName.bind_taken fun _ => name.seq fun _ => ?_
    exact (expect (by decide)).seq fun _ => pure' id

theorem struct : Agrees v P Parser.struct Parser.struct fun _ => True := by
  refine (expect (by decide)).bind_taken fun _ => name.seq fun _ => (expect (by decide)).seq fun _ => ?_
  exact (iterate structMemberRound _).seq fun _ => (expect (by decide)).seq fun _ => pure' id

theorem enumMemberRound (names : List String) :
    Agrees v P (Parser.enumMemberRound names) (Parser.enumMemberRound names) (·.isSome = true) := by
  refine kind_bind fun k _ => ?_
  split
  · exact pure' (by simp)
  · exact pure' (by simp)
  · exact name.bind_taken fun _ => skipComma.seq fun _ => pure' id

theorem enum : Agrees v P Parser.enum Parser.enum fun _ => True := by
  refine (expect (by decide)).bind_taken fun _ => name.seq fun _ => (expect (by decide)).seq fun _ => ?_
  exact (iterate enumMemberRound _).seq fun _ => (expect (by decide)).seq fun _ => pure' id

theorem functionAttributeRound (f : FunctionDecl) :
    Agrees v P (Parser.functionAttributeRound f) (Parser.functionAttributeRound f) (·.isSome = true) := by
  refine kind_bind fun k _ => ?_
  have hvisibility : ∀ x, Parser.visibility? k = some x → k ≠ .eof := by
    rintro m hm rfl
    simp [Parser.visibility?] at hm
  have hmutability : ∀ x, Parser.stateMutability? k = some x → k ≠ .eof := by
    rintro m hm rfl
    simp [Parser.stateMutability?] at hm
  split
  · exact (skip (hvisibility _ ‹_›)).bind_taken fun _ => pure' id
  · exact (skip (hmutability _ ‹_›)).bind_taken fun _ => pure' id
  refine ite (fun hk => ?_) fun _ => ite (fun hk => ?_) fun _ => ite (fun hk => ?_) fun _ =>
    ite (fun hk => ?_) fun _ => pure' (by simp)
  · exact (skip (by rw [hk]; decide)).bind_taken fun _ => pure' id
  · exact (skip (by rw [hk]; decide)).bind_taken fun _ => skipArguments.seq fun _ => pure' id
  · exact (skip (by rw [hk]; decide)).bind_taken fun _ => parameterList.seq fun _ => pure' id
  · exact dottedName.bind_taken fun _ => skipArguments.seq fun _ => pure' id

end Agrees

/-! ## Heads and bodies -/

namespace Parser

/-- Parameters and attributes of a function. -/
def signature (f : FunctionDecl) : Parser FunctionDecl := do
  let parameters ← parameterList
  iterate functionAttributeRound { f with parameters }

/-- The body of a function, or the semicolon in its place. -/
def functionBody (f : FunctionDecl) : Parser FunctionDecl := do
  if (← kind) = .lbrace then skipGroup
  else discard (expect .semicolon s!"after function {functionTitle f}")
  return f

theorem functionTail_eq (f : FunctionDecl) : functionTail f = signature f >>= functionBody := by
  simp only [functionTail, signature, bind_assoc]
  rfl

/-- A function up to its body. -/
def functionHead : Parser FunctionDecl := do
  discard (expect .kwFunction)
  if (← kind) = .lparen then signature { name := none, kind := .special "fallback" }
  else
    let n ← name
    signature { name := some n, kind := if n.isEmpty then .special "fallback" else .ordinary }

theorem ite_bind {α β : Type} {c : Prop} [Decidable c] (p q : Parser α) (f : α → Parser β) :
    (if c then p else q) >>= f = if c then p >>= f else q >>= f := by
  split
  · rfl
  · rfl

theorem function_eq : function = functionHead >>= functionBody := by
  simp only [function, functionHead, functionTail_eq, bind_assoc, ite_bind]

/-- A function that a keyword introduces, up to its body. -/
def specialHead : Parser FunctionDecl := do
  let token ← advance
  signature { name := none, kind := .special token.text }

theorem specialFunction_eq : specialFunction = specialHead >>= functionBody := by
  simp only [specialFunction, specialHead, functionTail_eq, bind_assoc]

/-- A modifier up to its body. -/
def modifierHead : Parser Unit := do
  discard advance
  iterate skipBodyRound ()

/-- The body of a modifier, or the semicolon in its place. -/
def modifierBody : Parser Unit := do
  match ← kind with
  | .lbrace => skipGroup
  | .semicolon => discard advance
  | _ => pure ()

theorem modifier_eq {α : Type} (p : Parser α) :
    (discard advance >>= fun _ => skipBody >>= fun _ => p)
      = modifierHead >>= fun _ => modifierBody >>= fun _ => p := by
  have hskip : skipBody = iterate skipBodyRound () >>= fun _ => modifierBody := rfl
  rw [hskip, modifierHead, bind_assoc, bind_assoc]

/-- A contract up to its members. -/
def contractHead : Parser Contract := do
  let isAbstract := (← kind) = .kwAbstract
  if isAbstract then discard advance
  let k ← contractKind
  let n ← name
  let bases ← baseList
  discard (expect .lbrace)
  return { name := n, kind := k, isAbstract, bases, members := [] }

/-- The members of a contract. -/
def contractMembers (c : Contract) : Parser Contract := do
  let members ← iterate memberRound []
  discard (expect .rbrace)
  return { c with members }

theorem contract_eq : contract = contractHead >>= contractMembers := by
  simp only [contract, contractHead, bind_assoc, ite_bind, pure_bind]
  rfl

end Parser

namespace Agrees

variable {α : Type} {v : Sight} {P : Kind → Prop}

theorem signature (f : FunctionDecl) :
    Agrees v P (Parser.signature f) (Parser.signature f) fun _ => False :=
  parameterList.seq fun _ => iterate functionAttributeRound _

theorem functionBody (f : FunctionDecl) :
    Agrees v P (Parser.functionBody f) (Parser.functionBody f) fun _ => False := by
  refine kind_bind fun k _ => ite (fun _ => ?_) fun _ => ?_
  · exact skipGroup.seq fun _ => pure' id
  · exact (expect (by decide)).seq fun _ => pure' id

theorem functionHead : Agrees v P Parser.functionHead Parser.functionHead fun _ => True := by
  refine (expect (by decide)).bind_taken fun _ => kind_bind fun k _ => ite (fun _ => ?_) fun _ => ?_
  · exact signature _
  · exact name.seq fun _ => signature _

theorem function : Agrees v P Parser.function Parser.function fun _ => True := by
  rw [Parser.function_eq]
  exact functionHead.bind_taken functionBody

theorem specialHead {k : Kind} (hk : k ≠ .eof) :
    Agrees v (· = k) Parser.specialHead Parser.specialHead fun _ => True := by
  refine advance_bind hk fun t t' hsymbol => ?_
  rw [show t'.text = t.text from congrArg Prod.snd hsymbol.symm]
  exact signature _

theorem specialFunction {k : Kind} (hk : k ≠ .eof) :
    Agrees v (· = k) Parser.specialFunction Parser.specialFunction fun _ => True := by
  rw [Parser.specialFunction_eq]
  exact (specialHead hk).bind_taken functionBody

theorem skipBodyRound (u : Unit) :
    Agrees v P (Parser.skipBodyRound u) (Parser.skipBodyRound u) (·.isSome = true) := by
  refine kind_bind fun k _ => ?_
  split
  · exact pure' (by simp)
  · exact pure' (by simp)
  · exact pure' (by simp)
  · refine ite (fun _ => ?_) fun _ => ?_
    · exact skipGroup.bind_taken fun _ => pure' id
    · exact (skip ‹_›).bind_taken fun _ => pure' id

theorem modifierHead {k : Kind} (hk : k ≠ .eof) :
    Agrees v (· = k) Parser.modifierHead Parser.modifierHead fun _ => True :=
  (skip hk).bind_taken fun _ => iterate skipBodyRound _

theorem modifierBody : Agrees v P Parser.modifierBody Parser.modifierBody fun _ => False := by
  refine kind_bind fun k _ => ?_
  split
  · exact skipGroup.imp fun _ h => h.elim
  · exact (skip (by decide)).imp fun _ h => h.elim
  · exact pure' id

/-! ## Contracts -/

theorem baseRound (state : List DottedName × Bool) :
    Agrees v P (Parser.baseRound state) (Parser.baseRound state) (·.isSome = true) := by
  refine ite (fun _ => ?_) fun _ => pure' (by simp)
  refine dottedName.bind_taken fun _ => skipArguments.seq fun _ => kind_bind fun k _ => ?_
  refine ite (fun hk => ?_) fun _ => pure' id
  exact (skip (by rw [hk]; decide)).seq fun _ => pure' id

theorem baseList : Agrees v P Parser.baseList Parser.baseList fun _ => False := by
  refine kind_bind fun k _ => ite (fun hk => ?_) fun _ => pure' id
  exact (skip (by rw [hk]; decide)).seq fun _ => (iterate baseRound _).seq fun _ => pure' id

theorem contractKind : Agrees v P Parser.contractKind Parser.contractKind fun _ => True := by
  refine kind_bind fun k _ => ?_
  split
  · exact (skip (by decide)).bind_taken fun _ => pure' id
  · exact (skip (by decide)).bind_taken fun _ => pure' id
  · exact (expect (by decide)).bind_taken fun _ => pure' id

theorem contractHead : Agrees v P Parser.contractHead Parser.contractHead fun _ => True := by
  have hrest : ∀ (isAbstract : Bool) (P : Kind → Prop), Agrees v P
      (do
        let k ← Parser.contractKind
        let n ← Parser.name
        let bases ← Parser.baseList
        Functor.discard (Parser.expect .lbrace)
        return ({ name := n, kind := k, isAbstract, bases, members := [] } : Contract))
      (do
        let k ← Parser.contractKind
        let n ← Parser.name
        let bases ← Parser.baseList
        Functor.discard (Parser.expect .lbrace)
        return ({ name := n, kind := k, isAbstract, bases, members := [] } : Contract))
      fun _ => True := by
    intro isAbstract P
    refine contractKind.bind_taken fun _ => name.seq fun _ => baseList.seq fun _ => ?_
    exact (expect (by decide)).seq fun _ => pure' id
  refine kind_bind fun k _ => ite (fun hk => ?_) fun _ => hrest _ _
  have hk' : k = .kwAbstract := by simpa using hk
  exact (skip (by rw [hk']; decide)).bind_taken fun _ => (hrest _ _).imp fun _ h => h.elim

/-! ## Files -/

theorem pragma : Agrees v P Parser.pragma Parser.pragma fun _ => True := by
  refine (expect (by decide)).bind_taken fun _ => ?_
  refine expect_bind (by decide) fun n n' hn => expect_bind (by decide) fun w w' hw => ?_
  rw [show n'.text = n.text from congrArg Prod.snd hn.symm,
    show w'.text = w.text from congrArg Prod.snd hw.symm]
  exact (expect (by decide)).seq fun _ => pure' id

theorem alias? : Agrees v P Parser.alias? Parser.alias? fun _ => False := by
  refine current_bind fun t t' hsymbol _ => ?_
  rw [show t'.text = t.text from congrArg Prod.snd hsymbol.symm]
  refine ite (fun _ => ?_) fun _ => pure' id
  exact step.seq fun _ => name.seq fun _ => pure' id

theorem symbolRound (symbols : List (String × Option String)) :
    Agrees v P (Parser.symbolRound symbols) (Parser.symbolRound symbols) (·.isSome = true) := by
  refine kind_bind fun k _ => ?_
  split
  · exact pure' (by simp)
  · exact pure' (by simp)
  · exact name.bind_taken fun _ => alias?.seq fun _ => skipComma.seq fun _ => pure' id

theorem importedFile : Agrees v P Parser.importedFile Parser.importedFile fun _ => False := by
  refine current_bind fun t t' hsymbol _ => ?_
  rw [show t'.text = t.text from congrArg Prod.snd hsymbol.symm]
  refine ite (fun _ => seq (Q := fun _ => False) (throw rfl) fun _ => ?_) fun _ => ?_
  all_goals
    refine step.seq fun _ => expect_bind (by decide) fun t t' hsymbol => ?_
    rw [show t'.text = t.text from congrArg Prod.snd hsymbol.symm]
    exact pure' id

theorem importDirective : Agrees v P Parser.importDirective Parser.importDirective fun _ => True := by
  refine (expect (by decide)).bind_taken fun _ => kind_bind fun k _ => ?_
  split
  · refine advance_bind (by decide) fun t t' hsymbol => ?_
    rw [show t'.text = t.text from congrArg Prod.snd hsymbol.symm]
    exact alias?.seq fun _ => (expect (by decide)).seq fun _ => pure' id
  · refine step.seq fun _ => alias?.seq fun _ => importedFile.seq fun _ => ?_
    exact (expect (by decide)).seq fun _ => pure' id
  · refine (expect (by decide)).seq fun _ => (iterate symbolRound _).seq fun _ => ?_
    refine (expect (by decide)).seq fun _ => importedFile.seq fun _ => ?_
    exact (expect (by decide)).seq fun _ => pure' id

end Agrees

/-! ## Going back -/

namespace Parser

variable {α : Type} {p : Parser α} {r r' : Reader} {a : α} {e : ParseError}

theorem recovering_of_ok (h : p r = .ok a r') : recovering p r = .ok (some a) r' := by
  rw [recovering, h]

theorem recovering_of_syntax (h : p r = .error e r') (he : e.isSyntax = true) :
    recovering p r = .ok none (r.drop (max 1 (statementLength 0 r.ahead))) := by
  rw [recovering, h]
  exact if_pos he

theorem recovering_of_error (h : p r = .error e r') (he : e.isSyntax = false) :
    recovering p r = .error e r' := by
  rw [recovering, h]
  exact if_neg (by simp [he])

/-- A member that is read as a state variable. -/
def variableMember : Parser (Option Member) := do
  let v? ← recovering stateVariable
  return v?.map fun v => .state [v]

/-- A member that its first tokens announce. -/
def announcedMember : Parser (Option Member) := do
  match ← kind with
  | .kwFunction => return some (.function (← function))
  | .kwStruct => return some (.struct (← struct))
  | .kwEnum => return some (.enum (← enum))
  | .kwModifier =>
    modifierHead
    modifierBody
    return none
  | .kwEvent | .kwError | .kwUsing | .kwType =>
    skipStatement
    return none
  | _ => return some (.function (← specialFunction))

end Parser

/-- Whether a token of some class introduces a contract, an interface or a library. -/
def startsContract : Kind → Bool
  | .kwContract | .kwInterface | .kwLibrary | .kwAbstract => true
  | _ => false

/-- Whether the member at a reader is read as a state variable. -/
def Reader.startsVariable (r : Reader) : Bool :=
  match r.current.kind with
  | .kwFunction | .kwStruct | .kwEnum | .kwModifier | .kwEvent | .kwError | .kwUsing | .kwType => false
  | .kwConstructor | .kwReceive | .kwFallback => (r.peek 1).kind ≠ .lparen
  | _ => true

theorem Parser.member_eq (r : Reader) :
    member r = if r.startsVariable then variableMember r else announcedMember r := by
  rw [member, kind_bind, announcedMember, kind_bind, Reader.startsVariable]
  generalize r.current.kind = k
  cases k with
  | kwModifier => exact congrFun (modifier_eq (pure none)) r
  | kwConstructor | kwReceive | kwFallback =>
    -- Only here the second token decides.
    have hget : ∀ {β : Type} (f : Reader → Parser β), (get >>= f) r = f r r := fun _ => rfl
    by_cases hparen : (r.peek 1).kind = .lparen
    · simp [hget, hparen]
    · simp [hget, hparen, variableMember]
  | _ => rfl

namespace Agrees

variable {α : Type} {v : Sight} {P : Kind → Prop}

theorem announcedMember {k : Kind} (hk : k ≠ .eof) :
    Agrees v (· = k) Parser.announcedMember Parser.announcedMember fun _ => True := by
  refine kind_bind ?_
  rintro _ rfl
  split
  · exact function.bind_taken fun _ => pure' id
  · exact struct.bind_taken fun _ => pure' id
  · exact enum.bind_taken fun _ => pure' id
  · exact (modifierHead hk).bind_taken fun _ => modifierBody.seq fun _ => pure' id
  · exact (skipStatement hk rfl).bind_taken fun _ => pure' id
  · exact (skipStatement hk rfl).bind_taken fun _ => pure' id
  · exact (skipStatement hk rfl).bind_taken fun _ => pure' id
  · exact (skipStatement hk rfl).bind_taken fun _ => pure' id
  · exact (specialFunction hk).bind_taken fun _ => pure' id

/-! ## All symbols in sight -/

/-- Where a parser breaks off is seen by going back only if all symbols are in sight. -/
theorem recovering {k : Kind} {p : Parser α} (hk : k ≠ .eof)
    (hp : Agrees .whole (· = k) p p fun _ => True) :
    Agrees .whole (· = k) (Parser.recovering p) (Parser.recovering p) fun _ => True := by
  rintro r rfl
  have hpos := Reader.left_pos hk
  obtain ⟨n, o, hp, hq, htaken⟩ := hp r rfl
  match o with
  | .ok a =>
    refine ⟨n, .ok (some a), Parser.recovering_of_ok hp, ?_, fun _ _ _ => htaken a rfl trivial⟩
    intro s hs
    exact Parser.recovering_of_ok (hq s hs)
  | .error true =>
    obtain ⟨e, he, hsyntax⟩ := hp
    refine ⟨_, .ok none, Parser.recovering_of_syntax he hsyntax, ?_, ?_⟩
    · intro s hs
      obtain ⟨e', he', hsyntax'⟩ := hq s hs
      have hlength : Parser.statementLength 0 s.ahead = Parser.statementLength 0 r.ahead :=
        Parser.statementLength_eq (Sight.Shares.take (v := .whole) hs)
      change Parser.recovering p s = _
      rw [Parser.recovering_of_syntax he' hsyntax', hlength]
    · intro _ _ _
      exact ⟨Nat.lt_of_lt_of_le Nat.one_pos (Nat.le_max_left _ _), hpos⟩
  | .error false =>
    obtain ⟨e, he, hsyntax⟩ := hp
    refine ⟨n, .error false, ⟨e, Parser.recovering_of_error he hsyntax, hsyntax⟩, ?_, ?_⟩
    · intro s hs
      obtain ⟨e', he', hsyntax'⟩ := hq s hs
      exact ⟨e', Parser.recovering_of_error he' hsyntax', hsyntax'⟩
    · intro a ha
      cases ha

theorem variableMember {k : Kind} (hk : k ≠ .eof) :
    Agrees .whole (· = k) Parser.variableMember Parser.variableMember fun _ => True :=
  (recovering hk stateVariable).bind_taken fun _ => pure' id

end Agrees

theorem Reader.current_drop (r : Reader) (n : Nat) : (r.drop n).current = r.peek n := by
  simp [current, drop, peek, List.headD_eq_head?_getD, List.head?_drop]

/-- The token that decides how a member is read stands at most one ahead. -/
theorem Reader.startsVariable_eq {r s : Reader} (h : r.symbols.take 2 = s.symbols.take 2) :
    r.startsVariable = s.startsVariable := by
  have hshares : Sight.near.Shares 1 r s := h
  have hpeek : (r.peek 1).kind = (s.peek 1).kind := by
    have hnext := (Sight.Shares.drop (n := 1) (m := 0) hshares).kind
    rwa [Reader.current_drop, Reader.current_drop] at hnext
  rw [Reader.startsVariable, Reader.startsVariable, hshares.kind, hpeek]

namespace Agrees

variable {P : Kind → Prop}

theorem member {k : Kind} (hk : k ≠ .eof) :
    Agrees .whole (· = k) Parser.member Parser.member fun _ => True := by
  intro r hr
  have hsame : ∀ {s : Reader}, r.symbols = s.symbols → s.startsVariable = r.startsVariable :=
    fun h => (Reader.startsVariable_eq (congrArg (·.take 2) h)).symm
  cases hvariable : r.startsVariable with
  | true =>
    obtain ⟨n, o, hp, hq, htaken⟩ := variableMember hk r hr
    refine ⟨n, o, hp.congr ?_, ?_, htaken⟩
    · rw [Parser.member_eq, hvariable, if_pos rfl]
    · intro s hs
      exact (hq s hs).congr (by rw [Parser.member_eq, hsame hs, hvariable, if_pos rfl])
  | false =>
    obtain ⟨n, o, hp, hq, htaken⟩ := announcedMember (v := .whole) hk r hr
    refine ⟨n, o, hp.congr ?_, ?_, htaken⟩
    · rw [Parser.member_eq, hvariable, if_neg (by decide)]
    · intro s hs
      exact (hq s hs).congr (by rw [Parser.member_eq, hsame hs, hvariable, if_neg (by decide)])

theorem memberRound (members : List Member) :
    Agrees .whole P (Parser.memberRound members) (Parser.memberRound members) (·.isSome = true) := by
  refine kind_bind fun k _ => ?_
  split
  · exact pure' (by simp)
  · exact pure' (by simp)
  · exact (member ‹_›).bind_taken fun _ => pure' id

theorem contractMembers (c : Contract) :
    Agrees .whole P (Parser.contractMembers c) (Parser.contractMembers c) fun _ => False :=
  (iterate memberRound _).seq fun _ => (expect (by decide)).seq fun _ => pure' id

theorem contract : Agrees .whole P Parser.contract Parser.contract fun _ => True := by
  rw [Parser.contract_eq]
  exact contractHead.bind_taken contractMembers

/-- Only contracts are read by going back. -/
theorem unitRound_of {v : Sight} (u : SourceUnit)
    (hcontract : ∀ k, P k → startsContract k = true →
      Agrees v (· = k) Parser.contract Parser.contract fun _ => True) :
    Agrees v P (Parser.unitRound u) (Parser.unitRound u) (·.isSome = true) := by
  refine kind_bind fun k hP => ?_
  split
  · exact pure' (by simp)
  · exact pragma.bind_taken fun _ => pure' id
  · exact importDirective.bind_taken fun _ => pure' id
  · exact (hcontract _ hP rfl).bind_taken fun _ => pure' id
  · exact (hcontract _ hP rfl).bind_taken fun _ => pure' id
  · exact (hcontract _ hP rfl).bind_taken fun _ => pure' id
  · exact (hcontract _ hP rfl).bind_taken fun _ => pure' id
  · exact struct.bind_taken fun _ => pure' id
  · exact enum.bind_taken fun _ => pure' id
  · exact (discard function).bind_taken fun _ => pure' id
  · rename_i heof _ _ _ _ _ _ _ _ _
    refine ite (fun hk => ?_) fun hk => ?_
    · exact (skip heof).bind_taken fun _ => pure' id
    · exact (skipStatement heof (by simpa using hk)).bind_taken fun _ => pure' id

theorem unitRound (u : SourceUnit) :
    Agrees .whole P (Parser.unitRound u) (Parser.unitRound u) (·.isSome = true) :=
  unitRound_of u fun _ _ _ => contract

theorem sourceUnit : Agrees .whole P Parser.sourceUnit Parser.sourceUnit fun _ => False :=
  iterate unitRound _

end Agrees

/-- Streams with the same symbols have the same declarations, or none. -/
theorem SourceUnit.ofTokens_of_symbols {s t : TokenStream} {u : SourceUnit}
    (h : s.symbols = t.symbols) (hs : ofTokens s = .ok u) :
    ofTokens t = .ok u := by
  unfold ofTokens at hs ⊢
  split at hs
  · rename_i u' r' hr
    obtain ⟨n, -, hother, -⟩ := (Agrees.sourceUnit (P := fun _ => True)).exists_drop trivial hr
    rw [hother (Reader.ofStream t) h]
    exact hs
  · cases hs

end SolidityInterface
