import SolidityInterface.Proofs.Declaration.Sound
import SolidityInterface.Proofs.Declaration.Agreement

/-
  Brackets that match. The parser skips groups and statements by counting: brackets of one
  kind in a group, of all kinds together in a statement. Where the brackets match, as they do
  in programs, both counts come back to what they were behind every group
  (`groupLength_matched`, `statementLength_matched`), so a group is skipped up to its own
  bracket and a statement up to its own semicolon.
-/

namespace SolidityInterface

open Token (Kind)

/-- Whether the brackets of some symbols match: what is opened is closed by a bracket of the
same kind, and so is everything in between. -/
inductive Matched : List Symbol → Prop
  | nil : Matched []
  | plain {x : Symbol} {ss : List Symbol} (hopener : x.1.isOpener = false)
      (hcloser : x.1.isCloser = false) (rest : Matched ss) : Matched (x :: ss)
  | group {x y : Symbol} {ss ts : List Symbol} (hxy : x.1.closer? = some y.1) (inside : Matched ss)
      (rest : Matched ts) : Matched (x :: (ss ++ y :: ts))

/-- Whether the brackets of some symbols match and no semicolon stands outside them. -/
inductive Unbroken : List Symbol → Prop
  | nil : Unbroken []
  | plain {x : Symbol} {ss : List Symbol} (hopener : x.1.isOpener = false)
      (hcloser : x.1.isCloser = false) (hsemicolon : x.1 ≠ .semicolon) (rest : Unbroken ss) :
      Unbroken (x :: ss)
  | group {x y : Symbol} {ss ts : List Symbol} (hxy : x.1.closer? = some y.1) (inside : Matched ss)
      (rest : Unbroken ts) : Unbroken (x :: (ss ++ y :: ts))

/-! ## Kinds of brackets -/

namespace Token.Kind

variable {k c o : Kind}

theorem isOpener_of_isCloser (h : c.isCloser = true) : c.isOpener = false := by
  cases c <;> simp [isCloser] at h <;> rfl

theorem isCloser_of_isOpener (h : o.isOpener = true) : o.isCloser = false := by
  cases o <;> simp [isOpener, closer?] at h <;> rfl

/-- A closing bracket belongs to one kind of opening bracket. -/
theorem closer?_inj (hk : k.closer? = some c) (ho : o.closer? = some c) : k = o := by
  cases k <;> simp [closer?] at hk <;> subst hk <;> cases o <;> simp [closer?] at ho <;> rfl

theorem ne_of_isOpener (h : k.isOpener = true) (hc : c.isOpener = false) : c ≠ k := by
  rintro rfl
  exact Bool.noConfusion (h.symm.trans hc)

theorem ne_of_isCloser (h : k.isCloser = true) (hc : c.isCloser = false) : c ≠ k := by
  rintro rfl
  exact Bool.noConfusion (h.symm.trans hc)

end Token.Kind

/-! ## Counting -/

/-- The tokens of a group. -/
theorem exists_group {ts : List Token} {x y : Symbol} {ss us : List Symbol}
    (h : ts.map Token.symbol = x :: (ss ++ y :: us)) :
    ∃ t inside u rest, ts = t :: (inside ++ u :: rest) ∧ t.symbol = x ∧
      inside.map Token.symbol = ss ∧ u.symbol = y ∧ rest.map Token.symbol = us := by
  obtain ⟨t, ts, rfl, ht, h⟩ := List.map_eq_cons_iff.mp h
  obtain ⟨inside, ts, rfl, hinside, h⟩ := List.map_eq_append_iff.mp h
  obtain ⟨u, rest, rfl, hu, hrest⟩ := List.map_eq_cons_iff.mp h
  exact ⟨t, inside, u, rest, rfl, ht, hinside, hu, hrest⟩

namespace Parser

variable {opener closer k c : Kind} {depth : Nat} {ss : List Symbol} {us : List Token}

theorem groupDepth?_of_plain (h : opener.closer? = some closer) (hopener : k.isOpener = false)
    (hcloser : k.isCloser = false) : groupDepth? opener closer depth k = some depth := by
  obtain ⟨hisOpener, hisCloser, -⟩ := Sound.isCloser_of_closer? h
  simp only [groupDepth?, Kind.ne_of_isOpener hisOpener hopener,
    Kind.ne_of_isCloser hisCloser hcloser, if_false]

/-- Two brackets that belong together are both counted or both passed over. -/
theorem groupDepth?_of_pair (depth : Nat) (h : opener.closer? = some closer) (hk : k.closer? = some c) :
    ∃ d, groupDepth? opener closer depth k = some d ∧ groupDepth? opener closer d c = some depth := by
  obtain ⟨hisOpener, hisCloser, -⟩ := Sound.isCloser_of_closer? h
  obtain ⟨hkOpener, hcCloser, -⟩ := Sound.isCloser_of_closer? hk
  have hc : c ≠ opener := Kind.ne_of_isOpener hisOpener (Kind.isOpener_of_isCloser hcCloser)
  by_cases hko : k = opener
  · subst hko
    obtain rfl : closer = c := Option.some.inj (h.symm.trans hk)
    exact ⟨depth + 1, by simp [groupDepth?], by simp [groupDepth?, hc]⟩
  · -- Brackets of another kind are not counted at all.
    have hkc : k ≠ closer := Kind.ne_of_isCloser hisCloser (Kind.isCloser_of_isOpener hkOpener)
    have hcc : c ≠ closer := by
      rintro rfl
      exact hko (Kind.closer?_inj hk h)
    exact ⟨depth, by simp [groupDepth?, hko, hkc], by simp [groupDepth?, hc, hcc]⟩

theorem groupLength_step {t : Token} {d : Nat} (h : groupDepth? opener closer depth t.kind = some d)
    (ts : List Token) :
    groupLength opener closer depth (t :: ts) = (groupLength opener closer d ts).map (· + 1) := by
  rw [groupLength_cons, h]

/-- Symbols whose brackets match lie in a group as a whole. -/
theorem groupLength_matched (h : opener.closer? = some closer) (hss : Matched ss) {ts : List Token}
    (hts : ts.map Token.symbol = ss) :
    groupLength opener closer depth (ts ++ us)
      = (groupLength opener closer depth us).map (· + ts.length) := by
  induction hss generalizing ts us depth with
  | nil =>
    obtain rfl : ts = [] := List.map_eq_nil_iff.mp hts
    simp
  | plain hopener hcloser _ ih =>
    obtain ⟨t, ts, rfl, rfl, hrest⟩ := List.map_eq_cons_iff.mp hts
    rw [List.cons_append, groupLength_step (groupDepth?_of_plain h hopener hcloser), ih hrest,
      Option.map_map]
    rfl
  | group hxy _ _ ihInside ihRest =>
    obtain ⟨t, inside, u, rest, rfl, rfl, hinside, rfl, hrest⟩ := exists_group hts
    obtain ⟨d, hopen, hclose⟩ := groupDepth?_of_pair depth h hxy
    rw [List.cons_append, List.append_assoc, List.cons_append, groupLength_step hopen,
      ihInside hinside, groupLength_step hclose, ihRest hrest, Option.map_map, Option.map_map,
      Option.map_map]
    congr 1
    funext n
    simp
    omega

theorem statementLength_step {t : Token} {d : Nat} (h : statementDepth? depth t.kind = .ok d)
    (ts : List Token) : statementLength depth (t :: ts) = statementLength d ts + 1 := by
  rw [statementLength_cons, h]

theorem statementDepth?_of_plain (hopener : k.isOpener = false) (hcloser : k.isCloser = false)
    (hk : k = .semicolon → depth ≠ 0) : statementDepth? depth k = .ok depth := by
  have hgoes : ¬ (k = .semicolon ∧ depth = 0) := fun h => hk h.1 h.2
  simp [statementDepth?, hopener, hcloser, hgoes]

theorem statementDepth?_of_pair (depth : Nat) (hk : k.closer? = some c) :
    statementDepth? depth k = .ok (depth + 1) ∧ statementDepth? (depth + 1) c = .ok depth := by
  obtain ⟨hopener, hcloser, -⟩ := Sound.isCloser_of_closer? hk
  constructor
  · simp [statementDepth?, hopener]
  · simp [statementDepth?, Kind.isOpener_of_isCloser hcloser, hcloser]

/-- Symbols whose brackets match lie in a group of a statement as a whole. -/
theorem statementLength_matched (hss : Matched ss) {ts : List Token} (hts : ts.map Token.symbol = ss) :
    statementLength (depth + 1) (ts ++ us) = ts.length + statementLength (depth + 1) us := by
  induction hss generalizing ts us depth with
  | nil =>
    obtain rfl : ts = [] := List.map_eq_nil_iff.mp hts
    simp
  | plain hopener hcloser _ ih =>
    obtain ⟨t, ts, rfl, rfl, hrest⟩ := List.map_eq_cons_iff.mp hts
    have hdepth : statementDepth? (depth + 1) t.kind = .ok (depth + 1) :=
      statementDepth?_of_plain hopener hcloser fun _ => Nat.succ_ne_zero _
    rw [List.cons_append, statementLength_step hdepth, ih hrest, List.length_cons]
    omega
  | group hxy _ _ ihInside ihRest =>
    obtain ⟨t, inside, u, rest, rfl, rfl, hinside, rfl, hrest⟩ := exists_group hts
    obtain ⟨hopen, hclose⟩ := statementDepth?_of_pair (depth + 1) hxy
    rw [List.cons_append, List.append_assoc, List.cons_append, statementLength_step hopen,
      ihInside hinside, statementLength_step hclose, ihRest hrest]
    simp
    omega

/-- A statement goes on behind symbols without a semicolon of its own. -/
theorem statementLength_unbroken (hss : Unbroken ss) {ts : List Token}
    (hts : ts.map Token.symbol = ss) :
    statementLength 0 (ts ++ us) = ts.length + statementLength 0 us := by
  induction hss generalizing ts us with
  | nil =>
    obtain rfl : ts = [] := List.map_eq_nil_iff.mp hts
    simp
  | plain hopener hcloser hsemicolon _ ih =>
    obtain ⟨t, ts, rfl, rfl, hrest⟩ := List.map_eq_cons_iff.mp hts
    have hdepth : statementDepth? 0 t.kind = .ok 0 :=
      statementDepth?_of_plain hopener hcloser fun h => absurd h hsemicolon
    rw [List.cons_append, statementLength_step hdepth, ih hrest, List.length_cons]
    omega
  | group hxy inside _ ihRest =>
    obtain ⟨t, inner, u, rest, rfl, rfl, hinner, rfl, hrest⟩ := exists_group hts
    obtain ⟨hopen, hclose⟩ := statementDepth?_of_pair 0 hxy
    rw [List.cons_append, List.append_assoc, List.cons_append, statementLength_step hopen,
      statementLength_matched inside hinner, statementLength_step hclose, ihRest hrest]
    simp
    omega

end Parser

/-! ## Skipping -/

/-- A group whose brackets match is skipped up to the bracket that closes it. -/
theorem Parser.skipGroup_matched {r : Reader} {x y : Symbol} {ss ts : List Symbol}
    (hxy : x.1.closer? = some y.1) (hss : Matched ss) (hr : r.symbols = x :: (ss ++ y :: ts)) :
    skipGroup r = .ok () (r.drop (ss.length + 2)) := by
  obtain ⟨t, inside, u, behind, hahead, rfl, rfl, rfl, rfl⟩ := exists_group hr
  change t.kind.closer? = some u.kind at hxy
  have hcurrent : r.current = t := by
    rw [Reader.current, hahead]
    rfl
  have hclose : groupLength t.kind u.kind 0 (u :: behind) = some 1 := by
    have hne : u.kind ≠ t.kind :=
      Kind.ne_of_isOpener (Sound.isCloser_of_closer? hxy).1
        (Kind.isOpener_of_isCloser (Sound.isCloser_of_closer? hxy).2.1)
    rw [groupLength, if_neg hne, if_pos rfl]
  have hlength : groupLength t.kind u.kind 0 (r.ahead.drop 1) = some (1 + inside.length) := by
    rw [hahead, List.drop_succ_cons, List.drop_zero, groupLength_matched hxy hss rfl, hclose]
    rfl
  rw [skipGroup, hcurrent]
  simp only [hxy, hlength, List.length_map, Nat.add_comm 1]

namespace Parses

variable {x y : Symbol} {ss ts : List Symbol}

/-- A group is skipped up to the bracket that closes it. -/
theorem skipGroup (hxy : x.1.closer? = some y.1) (hss : Matched ss) :
    Parses Parser.skipGroup (x :: (ss ++ y :: ts)) () ts := by
  intro r hr
  refine ⟨r.drop (ss.length + 2), Parser.skipGroup_matched hxy hss hr, ?_⟩
  rw [r.drop_symbols, hr, List.drop_succ_cons, List.drop_append]
  simp

/-- A statement is skipped with its semicolon. -/
theorem skipStatement (hss : Unbroken ss) :
    Parses Parser.skipStatement (ss ++ (.semicolon, ";") :: ts) () ts := by
  intro r hr
  obtain ⟨statement, ahead, hahead, hstatement, hrest⟩ := List.map_eq_append_iff.mp hr
  obtain ⟨u, behind, rfl, hu, rfl⟩ := List.map_eq_cons_iff.mp hrest
  have hkind : u.kind = .semicolon := congrArg Prod.fst hu
  have hlast : Parser.statementLength 0 (u :: behind) = 1 := by
    rw [Parser.statementLength_cons, hkind]
    rfl
  refine ⟨r.drop (statement.length + 1), ?_, ?_⟩
  · rw [Parser.skipStatement, hahead, Parser.statementLength_unbroken hss hstatement, hlast]
  · rw [r.drop_symbols, hr, ← hstatement, List.drop_append]
    simp

/-- Arguments in parentheses are skipped. -/
theorem skipArguments (hss : Matched ss) :
    Parses Parser.skipArguments ((.lparen, "(") :: (ss ++ (.rparen, ")") :: ts)) () ts :=
  kind_bind (ite (fun _ => skipGroup rfl hss) fun h => absurd rfl h)

end Parses

end SolidityInterface
