import Reckoner.Proofs.Evaluation
import Reckoner.Proofs.Lexemes
import Reckoner.Proofs.Parser.Depth
import Reckoner.Proofs.Parser.Language
import Reckoner.Proofs.Parser.Plan

/-!
# Groups of equal value

`Exchange` relates two sequences of tokens that are alike, but for what stands between the parentheses
here and there: there both have an expression, and the two have the same value. A parser runs through
both side by side. Outside of these parentheses it meets the same tokens, and an expression between
them is read in one go, in either sequence, up to the closing parenthesis (`Entered.expr`). So both
runs end with the same error, or with trees of one value (`TokenStream.parse_exchange`), unless the
limit on nesting cuts one of them off.

The induction is on the depth, as always, and `Matches` is what it proves of each function of the parser.
-/

namespace Reckoner

open TokenStream (ofTokens)

/-- The error without the places it names. -/
def CalcError.unplaced : CalcError → CalcError
  | unexpectedChar c _ => unexpectedChar c 0
  | unexpectedToken found expected => unexpectedToken found.unplaced expected
  | e => e

theorem Token.unplaced_eq_iff {t u : Token} :
    t.unplaced = u.unplaced ↔ t.kind = u.kind ∧ t.value = u.value := by
  simp [unplaced]

/-- The same tokens, but for expressions of the same value in parentheses. -/
inductive Exchange : List Token → List Token → Prop
  | nil : Exchange [] []
  | cons {t u : Token} {ts us : List Token} (h : t.unplaced = u.unplaced) (hs : Exchange ts us) :
      Exchange (t :: ts) (u :: us)
  | group {opening opening' closing closing' : Token} {xs ys ts us : List Token} {x y : Expr}
      (hopening : opening.kind = .lparen) (hsame : opening.unplaced = opening'.unplaced)
      (hx : Spells .expr xs x) (hy : Spells .expr ys y) (hxy : x.eval = y.eval)
      (hclosing : closing.kind = .rparen) (hsame' : closing.unplaced = closing'.unplaced)
      (hs : Exchange ts us) :
      Exchange (opening :: (xs ++ closing :: ts)) (opening' :: (ys ++ closing' :: us))

namespace Exchange

variable {ts us : List Token}

theorem refl (ts : List Token) : Exchange ts ts := by
  induction ts with
  | nil => exact .nil
  | cons t ts ih => exact .cons rfl ih

theorem append {vs ws : List Token} (h : Exchange ts us) (h' : Exchange vs ws) :
    Exchange (ts ++ vs) (us ++ ws) := by
  induction h with
  | nil => exact h'
  | cons h _ ih => exact .cons h ih
  | group hopening hsame hx hy hxy hclosing hsame' _ ih =>
    simpa using group hopening hsame hx hy hxy hclosing hsame' ih

theorem of_map_unplaced (h : ts.map Token.unplaced = us.map Token.unplaced) : Exchange ts us := by
  induction ts generalizing us with
  | nil =>
    cases List.map_eq_nil_iff.mp h.symm
    exact .nil
  | cons t ts ih =>
    cases us with
    | nil => cases h
    | cons u us =>
      obtain ⟨htu, hts⟩ := List.cons.inj h
      exact .cons htu (ih hts)

theorem head (h : Exchange ts us) : ts.head?.map Token.unplaced = us.head?.map Token.unplaced := by
  cases h with
  | nil => rfl
  | cons h _ => exact congrArg some h
  | group _ hsame _ _ _ _ _ _ => exact congrArg some hsame

theorem symm (h : Exchange ts us) : Exchange us ts := by
  induction h with
  | nil => exact .nil
  | cons h _ ih => exact .cons h.symm ih
  | group hopening hsame hx hy hxy hclosing hsame' _ ih =>
    exact .group ((Token.unplaced_eq_iff.mp hsame).1 ▸ hopening) hsame.symm hy hx hxy.symm
      ((Token.unplaced_eq_iff.mp hsame').1 ▸ hclosing) hsame'.symm ih

theorem eq_nil_iff (h : Exchange ts us) : ts = [] ↔ us = [] := by
  cases h <;> simp

end Exchange

namespace Parser

variable {α β γ δ : Type}

/-- Streams of such tokens that break off alike. -/
structure Parallel (s s' : TokenStream) : Prop where
  pending : Exchange s.pending s'.pending
  failure : s.failure.map CalcError.unplaced = s'.failure.map CalcError.unplaced

/-- Streams behind an opening parenthesis: there may be two different expressions in front. -/
inductive Entered : TokenStream → TokenStream → Prop
  | parallel {s s' : TokenStream} (h : Parallel s s') : Entered s s'
  | group {closing closing' : Token} {xs ys ts us : List Token} {x y : Expr}
      {failure failure' : Option CalcError} (hx : Spells .expr xs x) (hy : Spells .expr ys y)
      (hxy : x.eval = y.eval) (hclosing : closing.kind = .rparen)
      (hsame : closing.unplaced = closing'.unplaced)
      (hs : Parallel ⟨closing :: ts, failure⟩ ⟨closing' :: us, failure'⟩) :
      Entered ⟨xs ++ closing :: ts, failure⟩ ⟨ys ++ closing' :: us, failure'⟩

/-- Two runs end alike: with answers and streams that are related or with errors that differ in
places only. Of a run that is cut off by the limit on nesting nothing is said. -/
inductive Agrees (S : TokenStream → TokenStream → Prop) (R : α → β → Prop) :
    EStateM.Result CalcError TokenStream α → EStateM.Result CalcError TokenStream β → Prop
  | cutLeft {s : TokenStream} {r : EStateM.Result CalcError TokenStream β} :
      Agrees S R (.error .nestedTooDeeply s) r
  | cutRight {s : TokenStream} {r : EStateM.Result CalcError TokenStream α} :
      Agrees S R r (.error .nestedTooDeeply s)
  | ok {a : α} {b : β} {s s' : TokenStream} (h : R a b) (hs : S s s') : Agrees S R (.ok a s) (.ok b s')
  | error {e e' : CalcError} {s s' : TokenStream} (h : e.unplaced = e'.unplaced) :
      Agrees S R (.error e s) (.error e' s')

/-- On streams that run in parallel the two end alike. -/
def Matches (R : α → β → Prop) (p : Parser α) (q : Parser β) : Prop :=
  ∀ s s', Parallel s s' → Agrees Parallel R (p s) (q s')

/-- The trees have the same value, or their evaluation ends with the same error. -/
def SameValue (x y : Expr) : Prop := x.eval = y.eval

theorem Agrees.bind {S T : TokenStream → TokenStream → Prop} {R : α → β → Prop} {Q : γ → δ → Prop}
    {p : Parser α} {q : Parser β} {f : α → Parser γ} {g : β → Parser δ} {s s' : TokenStream}
    (h : Agrees S R (p s) (q s'))
    (hf : ∀ {a b t t'}, R a b → S t t' → Agrees T Q (f a t) (g b t')) :
    Agrees T Q ((p >>= f) s) ((q >>= g) s') := by
  generalize hp : p s = r at h
  generalize hq : q s' = r' at h
  cases h with
  | cutLeft =>
    rw [bind_of_error hp]
    exact .cutLeft
  | cutRight =>
    rw [bind_of_error hq]
    exact .cutRight
  | ok h hs =>
    rw [bind_of_ok hp, bind_of_ok hq]
    exact hf h hs
  | error h =>
    rw [bind_of_error hp, bind_of_error hq]
    exact .error h

theorem Agrees.mono {S T : TokenStream → TokenStream → Prop} {R : α → β → Prop}
    {r : EStateM.Result CalcError TokenStream α} {r' : EStateM.Result CalcError TokenStream β}
    (h : Agrees S R r r') (hST : ∀ {s s'}, S s s' → T s s') : Agrees T R r r' := by
  cases h with
  | cutLeft => exact .cutLeft
  | cutRight => exact .cutRight
  | ok h hs => exact .ok h (hST hs)
  | error h => exact .error h

theorem Matches.pure {R : α → β → Prop} {a : α} {b : β} (h : R a b) :
    Matches R (Pure.pure a) (Pure.pure b) :=
  fun _ _ hs => .ok h hs

theorem Matches.bind {R : α → β → Prop} {Q : γ → δ → Prop} {p : Parser α} {q : Parser β}
    {f : α → Parser γ} {g : β → Parser δ} (h : Matches R p q)
    (hf : ∀ {a b}, R a b → Matches Q (f a) (g b)) : Matches Q (p >>= f) (q >>= g) :=
  fun s s' hs => (h s s' hs).bind fun hab ht => hf hab _ _ ht

/-! ## Single tokens -/

section Tokens

variable {s s' : TokenStream}

theorem lookahead_congr (h : Parallel s s') :
    s.lookahead.map Token.unplaced = s'.lookahead.map Token.unplaced :=
  h.pending.head

/-- Either stream is at its end, or both go on with tokens that are alike. -/
theorem lookahead_cases (h : Parallel s s') : s.lookahead = none ∧ s'.lookahead = none ∨
    ∃ t t', s.lookahead = some t ∧ s'.lookahead = some t' ∧ t.unplaced = t'.unplaced := by
  have hnext := lookahead_congr h
  cases ht : s.lookahead with
  | none =>
    rw [ht] at hnext
    exact .inl ⟨rfl, Option.map_eq_none_iff.mp hnext.symm⟩
  | some t =>
    rw [ht] at hnext
    obtain ⟨t', ht', hsame⟩ := Option.map_eq_some_iff.mp hnext.symm
    exact .inr ⟨t, t', rfl, ht', hsame.symm⟩

theorem isAt_congr {kind : TokenKind}
    (h : s.lookahead.map Token.unplaced = s'.lookahead.map Token.unplaced) :
    isAt kind [] s = isAt kind [] s' := by
  unfold isAt
  cases hs : s.lookahead with
  | none =>
    rw [hs] at h
    rw [Option.map_eq_none_iff.mp h.symm]
  | some t =>
    rw [hs] at h
    obtain ⟨t', ht', hsame⟩ := Option.map_eq_some_iff.mp h.symm
    simp [ht', (Token.unplaced_eq_iff.mp hsame).1]

theorem lookahead_operator {op : String} {pos : Nat} (h : Parallel s s')
    (hnext : s.lookahead = some ⟨.operator, .text op, pos⟩) :
    ∃ pos', s'.lookahead = some ⟨.operator, .text op, pos'⟩ := by
  rcases lookahead_cases h with ⟨hend, -⟩ | ⟨t, ⟨kind, value, pos'⟩, ht, ht', hsame⟩
  · cases hend.symm.trans hnext
  · cases ht.symm.trans hnext
    cases hsame
    exact ⟨pos', ht'⟩

theorem advance_cons {t u : Token} {ts us : List Token} {failure failure' : Option CalcError}
    (h : Parallel ⟨ts, failure⟩ ⟨us, failure'⟩) :
    Agrees Parallel (fun _ _ => True) (advance ⟨t :: ts, failure⟩) (advance ⟨u :: us, failure'⟩) := by
  have hnil := h.pending.eq_nil_iff
  cases ts with
  | nil =>
    cases hnil.mp rfl
    cases failure with
    | none =>
      cases Option.map_eq_none_iff.mp h.failure.symm
      exact .ok trivial h
    | some e =>
      obtain ⟨e', rfl, he⟩ := Option.map_eq_some_iff.mp h.failure.symm
      exact .error he.symm
  | cons t' ts =>
    cases us with
    | nil => cases hnil.mpr rfl
    | cons u' us => exact .ok trivial h

/-- Taking a token that is no opening parenthesis. -/
theorem advance_matches {t : Token} (h : Parallel s s') (hnext : s.lookahead = some t)
    (ht : t.kind ≠ .lparen) : Agrees Parallel (fun _ _ => True) (advance s) (advance s') := by
  obtain ⟨hpending, hfailure⟩ := h
  obtain ⟨ts, failure⟩ := s
  obtain ⟨us, failure'⟩ := s'
  cases hpending with
  | nil => cases hnext
  | cons _ hs => exact advance_cons ⟨hs, hfailure⟩
  | group hopening =>
    cases hnext
    exact absurd hopening ht

/-- Behind an opening parenthesis the streams may differ. -/
theorem advance_enters (h : Parallel s s') :
    Agrees Entered (fun _ _ => True) (advance s) (advance s') := by
  obtain ⟨hpending, hfailure⟩ := h
  obtain ⟨ts, failure⟩ := s
  obtain ⟨us, failure'⟩ := s'
  cases hpending with
  | nil => exact .ok trivial (.parallel ⟨.nil, hfailure⟩)
  | cons _ hs => exact (advance_cons ⟨hs, hfailure⟩).mono .parallel
  | @group opening opening' closing closing' xs ys ts us x y _ _ hx hy hxy hclosing hsame hs =>
    obtain ⟨t, ts', hxs, -⟩ := hx.head
    obtain ⟨u, us', hys, -⟩ := hy.head
    have hleft : advance ⟨opening :: (xs ++ closing :: ts), failure⟩ =
        .ok (some opening) ⟨xs ++ closing :: ts, failure⟩ := by rw [hxs]; rfl
    have hright : advance ⟨opening' :: (ys ++ closing' :: us), failure'⟩ =
        .ok (some opening') ⟨ys ++ closing' :: us, failure'⟩ := by rw [hys]; rfl
    rw [hleft, hright]
    exact .ok trivial (.group hx hy hxy hclosing hsame ⟨.cons hsame hs, hfailure⟩)

theorem operator?_matches (symbols : List String) :
    Matches Eq (operator? symbols) (operator? symbols) := by
  intro s s' h
  by_cases hop : IsOperator symbols s.lookahead
  · obtain ⟨op, hmem, pos, hnext⟩ := hop
    obtain ⟨pos', hnext'⟩ := lookahead_operator h hnext
    rw [operator?_of_isOperator hnext hmem, operator?_of_isOperator hnext' hmem]
    exact (advance_matches h hnext nofun).bind fun _ ht => .ok rfl ht
  · have hop' : ¬IsOperator symbols s'.lookahead := by
      rintro ⟨op, hmem, pos, hnext⟩
      obtain ⟨pos', hnext'⟩ := lookahead_operator ⟨h.pending.symm, h.failure.symm⟩ hnext
      exact hop ⟨op, hmem, pos', hnext'⟩
    rw [operator?_of_not hop, operator?_of_not hop']
    exact .ok rfl h

theorem expect_agrees {S : TokenStream → TokenStream → Prop} {kind : TokenKind} (expected : String)
    (h : Parallel s s')
    (hadvance : ∀ {t}, s.lookahead = some t → t.kind = kind →
      Agrees S (fun _ _ => True) (advance s) (advance s')) :
    Agrees S (fun _ _ => True) (expect kind expected s) (expect kind expected s') := by
  rcases lookahead_cases h with ⟨hend, hend'⟩ | ⟨t, t', ht, ht', hsame⟩
  · rw [expect_of_none hend, expect_of_none hend']
    exact .error rfl
  · have hkinds := (Token.unplaced_eq_iff.mp hsame).1
    by_cases hkind : t.kind = kind
    · rw [expect_of_kind ht hkind, expect_of_kind ht' (hkinds ▸ hkind)]
      exact (hadvance ht hkind).bind fun _ ht => .ok trivial ht
    · rw [expect_of_ne ht hkind, expect_of_ne ht' (hkinds ▸ hkind)]
      exact .error (congrArg (CalcError.unexpectedToken · expected) hsame)

theorem expect_matches {kind : TokenKind} (hkind : kind ≠ .lparen) (expected : String) :
    Matches (fun _ _ => True) (expect kind expected) (expect kind expected) :=
  fun _ _ h => expect_agrees expected h fun ht hk => advance_matches h ht (hk ▸ hkind)

end Tokens

/-! ## Chains -/

section Chains

variable {symbols : List String} {operand : Parser Expr} (hplanned : Planned operand)
  (hoperand : Matches SameValue operand operand)

include hoperand in
theorem chainFrom_matches (rounds : Nat) {left left' : Expr} (h : SameValue left left') :
    Matches SameValue (chainFrom symbols operand rounds left)
      (chainFrom symbols operand rounds left') := by
  induction rounds generalizing left left' with
  | zero => exact .pure h
  | succ rounds ih =>
    refine (operator?_matches symbols).bind fun {o o'} ho => ?_
    subst ho
    cases o with
    | none => exact .pure h
    | some op =>
      refine hoperand.bind fun {r r'} hr => ih ?_
      rw [SameValue, Expr.eval_binary, Expr.eval_binary, h, hr]

include hplanned hoperand in
theorem chain_matches : Matches SameValue (chain symbols operand) (chain symbols operand) := by
  refine hoperand.bind fun {x x'} hx => ?_
  intro s s' h
  -- The two loops count to different numbers; both are large enough.
  have hle := Nat.le_max_left s.pending.length s'.pending.length
  have hle' := Nat.le_max_right s.pending.length s'.pending.length
  rw [get_bind, get_bind, chainFrom_rounds hplanned (Nat.le_refl _) hle,
    chainFrom_rounds hplanned (Nat.le_refl _) hle']
  exact chainFrom_matches hoperand _ hx s s' h

end Chains

/-! ## Behind an opening parenthesis -/

/-- An expression in parentheses is read up to the closing one, whatever follows. -/
theorem expr_of_spells {xs : List Token} {x : Expr} {closing : Token} (hx : Spells .expr xs x)
    (hclosing : closing.kind = .rparen) (d : Nat) (ts : List Token) (failure : Option CalcError) :
    (∃ s, expr d ⟨xs ++ closing :: ts, failure⟩ = .error .nestedTooDeeply s) ∨
      expr d ⟨xs ++ closing :: ts, failure⟩ = .ok x ⟨closing :: ts, failure⟩ := by
  have hdeep : expr (max d xs.length) (ofTokens (xs ++ [closing])) =
      ending (.ok x) (ofTokens [closing]) :=
    (hx.accepts _ (Nat.le_max_right d _)).expr_eq (by simp [hclosing])
  have hstop := (expr_planned _).stops_in_front hdeep ts failure
  rcases Extends.expr_of_le (Nat.le_max_left d xs.length) ⟨xs ++ closing :: ts, failure⟩ with
    hnested | hsame
  · exact .inl hnested
  · exact .inr (hsame.symm.trans hstop)

section Entered

variable {d : Nat} {s s' : TokenStream}
  (hexpr : Matches SameValue (Parser.expr d) (Parser.expr d))

/-- No expression begins with a closing parenthesis. -/
theorem Entered.rparen_cases (h : Entered s s') :
    Parallel s s' ∧ isAt .rparen [] s = true ∧ isAt .rparen [] s' = true ∨
      ¬isAt .rparen [] s = true ∧ ¬isAt .rparen [] s' = true := by
  cases h with
  | parallel h =>
    rw [isAt_congr (lookahead_congr h)]
    by_cases hat : isAt .rparen [] s' = true
    · exact .inl ⟨h, hat, hat⟩
    · exact .inr ⟨hat, hat⟩
  | group hx hy =>
    obtain ⟨t, ts, rfl, ht⟩ := hx.head
    obtain ⟨u, us, rfl, hu⟩ := hy.head
    exact .inr (by simp [isAt, TokenStream.lookahead, ht, hu])

include hexpr in
/-- Two expressions in front are read in one go, each up to its own closing parenthesis. -/
theorem Entered.expr (h : Entered s s') :
    Agrees Parallel SameValue (Parser.expr d s) (Parser.expr d s') := by
  cases h with
  | parallel h => exact hexpr _ _ h
  | @group closing closing' xs ys ts us x y failure failure' hx hy hxy hclosing hsame hs =>
    have hclosing' : closing'.kind = .rparen := (Token.unplaced_eq_iff.mp hsame).1 ▸ hclosing
    rcases expr_of_spells hx hclosing d ts failure with ⟨t, ht⟩ | hleft
    · rw [ht]
      exact .cutLeft
    · rcases expr_of_spells hy hclosing' d us failure' with ⟨t, ht⟩ | hright
      · rw [ht]
        exact .cutRight
      · rw [hleft, hright]
        exact .ok hxy hs

include hexpr in
theorem moreArgs_matches (rounds : Nat) :
    Matches (List.Forall₂ SameValue) (moreArgs (Parser.expr d) rounds)
      (moreArgs (Parser.expr d) rounds) := by
  induction rounds with
  | zero => exact .pure .nil
  | succ rounds ih =>
    intro s s' h
    have hat : isAt .comma [] s = isAt .comma [] s' := isAt_congr (lookahead_congr h)
    by_cases hcomma : isAt .comma [] s = true
    · rw [moreArgs_of_comma hcomma, moreArgs_of_comma (hat ▸ hcomma)]
      obtain ⟨t, ht, hkind⟩ := isAt_nil_iff.mp hcomma
      refine (advance_matches h ht (by simp [hkind])).bind fun _ h => ?_
      exact (hexpr _ _ h).bind fun hx h => (ih _ _ h).bind fun hxs h => .ok (.cons hx hxs) h
    · rw [moreArgs_of_not hcomma, moreArgs_of_not (hat ▸ hcomma)]
      exact .ok .nil h

include hexpr in
theorem Entered.args (h : Entered s s') :
    Agrees Parallel (List.Forall₂ SameValue) (Parser.args (Parser.expr d) s)
      (Parser.args (Parser.expr d) s') := by
  rw [Parser.args, get_bind, get_bind]
  rcases h.rparen_cases with ⟨h, hat, hat'⟩ | ⟨hat, hat'⟩
  · rw [if_pos hat, if_pos hat']
    exact .ok .nil h
  · rw [if_neg hat, if_neg hat']
    refine (h.expr hexpr).bind fun {x y t t'} hx ht => ?_
    have hle := Nat.le_max_left t.pending.length t'.pending.length
    have hle' := Nat.le_max_right t.pending.length t'.pending.length
    have hmore := moreArgs_matches hexpr (max t.pending.length t'.pending.length) t t' ht
    rw [← moreArgs_rounds (expr_planned d) (Nat.le_refl _) hle,
      ← moreArgs_rounds (expr_planned d) (Nat.le_refl _) hle'] at hmore
    rw [get_bind, get_bind]
    exact hmore.bind fun hxs ht => .ok (.cons hx hxs) ht

end Entered

/-! ## Operands -/

theorem eval_call_congr {xs ys : List Expr} (h : List.Forall₂ SameValue xs ys) (f : String) :
    SameValue (.call f xs) (.call f ys) := by
  have hmap : xs.mapM Expr.eval = ys.mapM Expr.eval := by
    induction h with
    | nil => rfl
    | cons hx _ ih => rw [List.mapM_cons, List.mapM_cons, hx, ih]
  rw [SameValue, Expr.eval_call, Expr.eval_call, hmap]

theorem checkedCall_congr {xs ys : List Expr} (h : List.Forall₂ SameValue xs ys)
    (function : Payload) :
    (∃ x y, checkedCall function xs = .ok x ∧ checkedCall function ys = .ok y ∧ SameValue x y) ∨
      ∃ e, checkedCall function xs = .error e ∧ checkedCall function ys = .error e := by
  unfold checkedCall
  rw [h.length_eq]
  cases function.function? with
  | none => exact .inr ⟨_, rfl, rfl⟩
  | some f =>
    by_cases harity : ys.length = f.arity
    · simp only [if_pos harity]
      exact .inl ⟨_, _, rfl, rfl, eval_call_congr h _⟩
    · simp only [if_neg harity]
      exact .inr ⟨_, rfl, rfl⟩

section Operands

variable {d : Nat} (hexpr : Matches SameValue (expr d) (expr d))

include hexpr

theorem callOf_matches (function : Payload) :
    Matches SameValue (callOf (expr d) function) (callOf (expr d) function) := by
  intro s s' h
  refine (expect_agrees (S := Entered) _ h fun _ _ => advance_enters h).bind fun _ h => ?_
  refine (h.args hexpr).bind fun {xs ys t t'} hxs h => ?_
  refine (expect_matches (by decide) _ t t' h).bind fun {_ _ u u'} _ h => ?_
  rcases checkedCall_congr hxs function with ⟨x, y, hx, hy, hxy⟩ | ⟨e, hx, hy⟩
  · rw [hx, hy]
    exact .ok hxy h
  · rw [hx, hy]
    exact .error rfl

theorem primaryOf_matches : Matches SameValue (primaryOf (expr d)) (primaryOf (expr d)) := by
  intro s s' h
  rw [primaryOf, get_bind, get_bind]
  rcases lookahead_cases h with ⟨hend, hend'⟩ | ⟨t, t', ht, ht', hsame⟩
  · rw [hend, hend']
    exact .error rfl
  · obtain ⟨hkind, hvalue⟩ := Token.unplaced_eq_iff.mp hsame
    rw [ht, ht']
    dsimp only
    rw [← hkind, ← hvalue]
    cases hk : t.kind with
    | number => exact (advance_matches h ht (by simp [hk])).bind fun _ h => .ok rfl h
    | lparen =>
      refine (advance_enters h).bind fun _ h => (h.expr hexpr).bind fun hx h => ?_
      exact (expect_matches (by decide) _ _ _ h).bind fun _ h => .ok hx h
    | function =>
      refine (advance_matches h ht (by simp [hk])).bind fun _ h => ?_
      exact callOf_matches hexpr t.value _ _ h
    | _ => exact .error (congrArg (CalcError.unexpectedToken · operandName) hsame)

end Operands

/-- The induction on the depth: an operand behind a sign and an expression in parentheses are one
level down. -/
theorem unary_matches (d : Nat) : Matches SameValue (unary d) (unary d) := by
  induction d with
  | zero => exact fun _ _ _ => .cutLeft
  | succ d ih =>
    have hterm : Matches SameValue (term d) (term d) := chain_matches (unary_planned d) ih
    have hexpr : Matches SameValue (expr d) (expr d) :=
      chain_matches (chain_planned (unary_planned d)) hterm
    refine (operator?_matches ["-"]).bind fun {o o'} ho => ?_
    subst ho
    cases o with
    | none => exact primaryOf_matches hexpr
    | some _ =>
      refine ih.bind fun {x y} hx => .pure ?_
      rw [SameValue, Expr.eval_negate, Expr.eval_negate, hx]

theorem expr_matches (d : Nat) : Matches SameValue (expr d) (expr d) :=
  chain_matches (chain_planned (unary_planned d)) (chain_matches (unary_planned d) (unary_matches d))

theorem whole_matches (d : Nat) : Matches SameValue (whole d) (whole d) := by
  intro s s' h
  rw [whole, get_bind, get_bind]
  rcases lookahead_cases h with ⟨hend, hend'⟩ | ⟨t, t', ht, ht', -⟩
  · rw [hend, hend']
    exact .error rfl
  · rw [ht, ht']
    refine (expr_matches d s s' h).bind fun {x y u u'} hx h => ?_
    rw [get_bind, get_bind]
    rcases lookahead_cases h with ⟨hend, hend'⟩ | ⟨v, v', hv, hv', hsame⟩
    · rw [hend, hend']
      exact .ok hx h
    · rw [hv, hv']
      exact .error (congrArg (CalcError.unexpectedToken · "end of input") hsame)

end Parser

namespace TokenStream

theorem opened_congr {s s' : TokenStream} (h : Parser.Parallel s s') :
    s.opened = .ok s ∧ s'.opened = .ok s' ∨
      ∃ e e', s.opened = .error e ∧ s'.opened = .error e' ∧ e.unplaced = e'.unplaced := by
  obtain ⟨ts, failure⟩ := s
  obtain ⟨us, failure'⟩ := s'
  have hnil := h.pending.eq_nil_iff
  have hfailure : failure.map CalcError.unplaced = failure'.map CalcError.unplaced := h.failure
  cases ts with
  | nil =>
    cases hnil.mp rfl
    cases failure with
    | none =>
      cases Option.map_eq_none_iff.mp hfailure.symm
      exact .inl ⟨rfl, rfl⟩
    | some e =>
      obtain ⟨e', rfl, he⟩ := Option.map_eq_some_iff.mp hfailure.symm
      exact .inr ⟨e, e', rfl, rfl, he.symm⟩
  | cons t ts =>
    cases us with
    | nil => cases hnil.mpr rfl
    | cons u us => exact .inl ⟨rfl, rfl⟩

/-- **Groups of equal value can be exchanged.** The parser makes trees of equal value or reports the
same error, unless it is cut off. -/
theorem parse_exchange {s s' : TokenStream} (h : Parser.Parallel s s') (limit : Nat) :
    s.parse limit = .error .nestedTooDeeply ∨ s'.parse limit = .error .nestedTooDeeply ∨
      (∃ x y, s.parse limit = .ok x ∧ s'.parse limit = .ok y ∧ x.eval = y.eval) ∨
      ∃ e e', s.parse limit = .error e ∧ s'.parse limit = .error e' ∧
        e.unplaced = e'.unplaced := by
  rcases opened_congr h with ⟨hs, hs'⟩ | ⟨e, e', hs, hs', he⟩
  · have hwhole := Parser.whole_matches limit s s' h
    generalize hr : Parser.whole limit s = r at hwhole
    generalize hr' : Parser.whole limit s' = r' at hwhole
    cases hwhole with
    | cutLeft => exact .inl (Parser.run_of_error hs hr)
    | cutRight => exact .inr (.inl (Parser.run_of_error hs' hr'))
    | ok hxy =>
      exact .inr (.inr (.inl ⟨_, _, Parser.run_of_ok hs hr, Parser.run_of_ok hs' hr', hxy⟩))
    | error he =>
      exact .inr (.inr (.inr ⟨_, _, Parser.run_of_error hs hr, Parser.run_of_error hs' hr', he⟩))
  · exact .inr (.inr (.inr ⟨e, e', Parser.run_of_opened hs, Parser.run_of_opened hs', he⟩))

end TokenStream

end Reckoner
