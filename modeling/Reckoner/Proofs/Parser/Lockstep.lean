import Reckoner.Proofs.Equality
import Reckoner.Proofs.Parser.Language

/-!
# Parsers on equal tokens

On two sequences of tokens that are equal one by one a parser takes the same steps: it meets the same
kinds and texts, takes equally many tokens and ends with equal trees, or with errors of one cause in front
of the same token (`whole_lockstep`). The limit on nesting is reached by both or by neither.
-/

namespace Reckoner

open TokenStream (ofTokens)

namespace Parser

variable {α β γ δ : Type} {s s' : TokenStream}

/-- Streams of tokens that are equal one by one and break off alike. -/
structure Abreast (s s' : TokenStream) : Prop where
  pending : List.Forall₂ (fun t t' => (t == t') = true) s.pending s'.pending
  failure : s.failure = s'.failure

/-- Two runs end alike, in front of equal tokens: with related answers or with errors of one cause. -/
inductive InStep (R : α → β → Prop) :
    EStateM.Result CalcError TokenStream α → EStateM.Result CalcError TokenStream β → Prop
  | ok {a : α} {b : β} {s s' : TokenStream} (h : R a b) (hs : Abreast s s') :
      InStep R (.ok a s) (.ok b s')
  | error {e e' : CalcError} {s s' : TokenStream} (h : e.SameCause e') (hs : Abreast s s') :
      InStep R (.error e s) (.error e' s')

/-- On streams that are abreast the two end alike. -/
def Lockstep (R : α → β → Prop) (p : Parser α) (q : Parser β) : Prop :=
  ∀ s s', Abreast s s' → InStep R (p s) (q s')

/-- The trees are equal. -/
def EqualTrees (x y : Expr) : Prop := (x == y) = true

theorem InStep.bind {R : α → β → Prop} {Q : γ → δ → Prop} {p : Parser α} {q : Parser β}
    {f : α → Parser γ} {g : β → Parser δ} (h : InStep R (p s) (q s'))
    (hf : ∀ {a b t t'}, R a b → Abreast t t' → InStep Q (f a t) (g b t')) :
    InStep Q ((p >>= f) s) ((q >>= g) s') := by
  generalize hp : p s = r at h
  generalize hq : q s' = r' at h
  cases h with
  | ok h hs =>
    rw [bind_of_ok hp, bind_of_ok hq]
    exact hf h hs
  | error h hs =>
    rw [bind_of_error hp, bind_of_error hq]
    exact .error h hs

theorem Lockstep.pure {R : α → β → Prop} {a : α} {b : β} (h : R a b) :
    Lockstep R (Pure.pure a) (Pure.pure b) :=
  fun _ _ hs => .ok h hs

theorem Lockstep.bind {R : α → β → Prop} {Q : γ → δ → Prop} {p : Parser α} {q : Parser β}
    {f : α → Parser γ} {g : β → Parser δ} (h : Lockstep R p q)
    (hf : ∀ {a b}, R a b → Lockstep Q (f a) (g b)) : Lockstep Q (p >>= f) (q >>= g) :=
  fun s s' hs => (h s s' hs).bind fun hab ht => hf hab _ _ ht

/-! ## Single tokens -/

/-- Both streams are at their end, or both go on with tokens that are equal. -/
theorem Abreast.lookahead (h : Abreast s s') : s.lookahead = none ∧ s'.lookahead = none ∨
    ∃ t t', s.lookahead = some t ∧ s'.lookahead = some t' ∧ (t == t') = true := by
  obtain ⟨ts, failure⟩ := s
  obtain ⟨us, failure'⟩ := s'
  cases h.pending with
  | nil => exact .inl ⟨rfl, rfl⟩
  | cons ht _ => exact .inr ⟨_, _, rfl, rfl, ht⟩

theorem Abreast.isAt (h : Abreast s s') (kind : TokenKind) :
    Parser.isAt kind [] s = Parser.isAt kind [] s' := by
  unfold Parser.isAt
  rcases h.lookahead with ⟨hend, hend'⟩ | ⟨t, t', ht, ht', heq⟩
  · rw [hend, hend']
  · rw [ht, ht']
    simp only [(Token.beq_iff.mp heq).1, List.isEmpty_nil, Bool.true_or]

theorem Abreast.operator_iff {op : String} (h : Abreast s s') :
    (∃ pos, s.lookahead = some ⟨.operator, .text op, pos⟩) ↔
      ∃ pos, s'.lookahead = some ⟨.operator, .text op, pos⟩ := by
  rcases h.lookahead with ⟨hend, hend'⟩ | ⟨⟨kind, p, pos⟩, ⟨kind', q, pos'⟩, ht, ht', heq⟩
  · rw [hend, hend']
  · obtain ⟨hkind, hvalue⟩ := Token.beq_iff.mp heq
    cases hkind
    rw [ht, ht']
    rcases Payload.beq_cases hvalue with ⟨v, w, rfl, rfl, -⟩ | ⟨text, rfl, rfl⟩
    · exact iff_of_false nofun nofun
    · constructor
      · rintro ⟨_, hnext⟩
        cases hnext
        exact ⟨pos', rfl⟩
      · rintro ⟨_, hnext⟩
        cases hnext
        exact ⟨pos, rfl⟩

/-- Behind equal tokens the streams are still abreast, and they break off at the same place. -/
theorem advance_lockstep : Lockstep (fun _ _ => True) advance advance := by
  rintro ⟨ts, failure⟩ ⟨us, failure'⟩ ⟨hpending, rfl⟩
  cases hpending with
  | nil => exact .ok trivial ⟨.nil, rfl⟩
  | cons ht hts =>
    cases hts with
    | cons hu hs => exact .ok trivial ⟨.cons hu hs, rfl⟩
    | nil =>
      cases failure with
      | none => exact .ok trivial ⟨.nil, rfl⟩
      | some e => exact .error (.refl e) ⟨.cons ht .nil, rfl⟩

theorem operator?_lockstep (symbols : List String) :
    Lockstep Eq (operator? symbols) (operator? symbols) := by
  intro s s' h
  by_cases hop : IsOperator symbols s.lookahead
  · obtain ⟨op, hmem, pos, hnext⟩ := hop
    obtain ⟨pos', hnext'⟩ := h.operator_iff.mp ⟨pos, hnext⟩
    rw [operator?_of_isOperator hnext hmem, operator?_of_isOperator hnext' hmem]
    exact (advance_lockstep s s' h).bind fun _ ht => .ok rfl ht
  · have hop' : ¬IsOperator symbols s'.lookahead := by
      rintro ⟨op, hmem, pos, hnext⟩
      obtain ⟨pos', hnext'⟩ := h.operator_iff.mpr ⟨pos, hnext⟩
      exact hop ⟨op, hmem, pos', hnext'⟩
    rw [operator?_of_not hop, operator?_of_not hop']
    exact .ok rfl h

theorem expect_lockstep (kind : TokenKind) (expected : String) :
    Lockstep (fun _ _ => True) (expect kind expected) (expect kind expected) := by
  intro s s' h
  rcases h.lookahead with ⟨hend, hend'⟩ | ⟨t, t', ht, ht', heq⟩
  · rw [expect_of_none hend, expect_of_none hend']
    exact .error (.refl _) h
  · have hkinds := (Token.beq_iff.mp heq).1
    by_cases hkind : t.kind = kind
    · rw [expect_of_kind ht hkind, expect_of_kind ht' (hkinds ▸ hkind)]
      exact (advance_lockstep s s' h).bind fun _ h => .ok trivial h
    · rw [expect_of_ne ht hkind, expect_of_ne ht' (hkinds ▸ hkind)]
      exact .error (.unexpectedToken heq expected) h

/-! ## Chains -/

section Chains

variable {symbols : List String} {operand : Parser Expr}
  (hoperand : Lockstep EqualTrees operand operand)

include hoperand

theorem chainFrom_lockstep (rounds : Nat) {left left' : Expr} (h : EqualTrees left left') :
    Lockstep EqualTrees (chainFrom symbols operand rounds left)
      (chainFrom symbols operand rounds left') := by
  induction rounds generalizing left left' with
  | zero => exact .pure h
  | succ rounds ih =>
    refine (operator?_lockstep symbols).bind fun {o o'} ho => ?_
    subst ho
    cases o with
    | none => exact .pure h
    | some op => exact hoperand.bind fun hr => ih (Expr.beq_binary op h hr)

theorem chain_lockstep :
    Lockstep EqualTrees (chain symbols operand) (chain symbols operand) := by
  refine hoperand.bind fun hx s s' h => ?_
  rw [get_bind, get_bind, h.pending.length_eq]
  exact chainFrom_lockstep hoperand _ hx s s' h

end Chains

/-! ## Operands -/

section Operands

variable {expr : Parser Expr} (hexpr : Lockstep EqualTrees expr expr)

include hexpr

theorem moreArgs_lockstep (rounds : Nat) :
    Lockstep (List.Forall₂ EqualTrees) (moreArgs expr rounds) (moreArgs expr rounds) := by
  induction rounds with
  | zero => exact .pure .nil
  | succ rounds ih =>
    intro s s' h
    rw [moreArgs, get_bind, get_bind, h.isAt]
    split
    · refine (advance_lockstep s s' h).bind fun _ h => ?_
      exact (hexpr _ _ h).bind fun hx h => (ih _ _ h).bind fun hxs h => .ok (.cons hx hxs) h
    · exact .ok .nil h

theorem args_lockstep : Lockstep (List.Forall₂ EqualTrees) (args expr) (args expr) := by
  intro s s' h
  rw [args, get_bind, get_bind, h.isAt]
  split
  · exact .ok .nil h
  · refine (hexpr s s' h).bind fun hx h => ?_
    rw [get_bind, get_bind, h.pending.length_eq]
    exact (moreArgs_lockstep hexpr _ _ _ h).bind fun hxs h => .ok (.cons hx hxs) h

omit hexpr in
/-- Equal names have one arity, and equally many arguments are checked against it. -/
theorem checkedCall_alike {p q : Payload} (hpq : (p == q) = true) {xs ys : List Expr}
    (h : List.Forall₂ EqualTrees xs ys) : Alike EqualTrees (checkedCall p xs) (checkedCall q ys) := by
  unfold checkedCall
  rcases Payload.beq_cases hpq with ⟨v, w, rfl, rfl, -⟩ | ⟨name, rfl, rfl⟩
  · exact .error (.unknownKey hpq)
  · rw [h.length_eq]
    cases (Payload.text name).function? with
    | none => exact .error (.refl _)
    | some f =>
      dsimp only
      split
      · exact .ok (Expr.beq_call f.name h)
      · exact .error (.refl _)

theorem callOf_lockstep {p q : Payload} (hpq : (p == q) = true) :
    Lockstep EqualTrees (callOf expr p) (callOf expr q) := by
  refine (expect_lockstep _ _).bind fun _ => ?_
  refine (args_lockstep hexpr).bind fun {xs ys} hxs => ?_
  refine (expect_lockstep _ _).bind fun _ s s' h => ?_
  have hcall := checkedCall_alike hpq hxs
  generalize checkedCall p xs = r, checkedCall q ys = r' at hcall
  cases hcall with
  | ok hx => exact .ok hx h
  | error he => exact .error he h

theorem primaryOf_lockstep : Lockstep EqualTrees (primaryOf expr) (primaryOf expr) := by
  intro s s' h
  rw [primaryOf, get_bind, get_bind]
  rcases h.lookahead with ⟨hend, hend'⟩ | ⟨t, t', ht, ht', heq⟩
  · rw [hend, hend']
    exact .error (.refl _) h
  · obtain ⟨hkind, hvalue⟩ := Token.beq_iff.mp heq
    rw [ht, ht']
    dsimp only
    rw [← hkind]
    cases t.kind with
    | number => exact (advance_lockstep s s' h).bind fun _ h => .ok hvalue h
    | lparen =>
      refine (advance_lockstep s s' h).bind fun _ h => (hexpr _ _ h).bind fun hx h => ?_
      exact (expect_lockstep _ _ _ _ h).bind fun _ h => .ok hx h
    | function =>
      exact (advance_lockstep s s' h).bind fun _ h => callOf_lockstep hexpr hvalue _ _ h
    | _ => exact .error (.unexpectedToken heq _) h

end Operands

/-- By induction on the limit, which both parsers reach together. -/
theorem unary_lockstep (d : Nat) : Lockstep EqualTrees (unary d) (unary d) := by
  induction d with
  | zero => exact fun _ _ h => .error (.refl _) h
  | succ d ih =>
    refine (operator?_lockstep ["-"]).bind fun {o o'} ho => ?_
    subst ho
    cases o with
    | none => exact primaryOf_lockstep (chain_lockstep (chain_lockstep ih))
    | some _ => exact ih.bind fun hx => .pure hx

/-- **On equal tokens the parser makes equal trees**, or fails for one cause in front of the same
token. -/
theorem whole_lockstep (d : Nat) : Lockstep EqualTrees (whole d) (whole d) := by
  intro s s' h
  rw [whole, get_bind, get_bind]
  rcases h.lookahead with ⟨hend, hend'⟩ | ⟨t, t', ht, ht', -⟩
  · rw [hend, hend']
    exact .error (.refl _) h
  · rw [ht, ht']
    refine (chain_lockstep (chain_lockstep (unary_lockstep d)) s s' h).bind fun hx h => ?_
    rw [get_bind, get_bind]
    rcases h.lookahead with ⟨hend, hend'⟩ | ⟨u, u', hu, hu', heq⟩
    · rw [hend, hend']
      exact .ok hx h
    · rw [hu, hu']
      exact .error (.unexpectedToken heq _) h

end Parser

/-- Where parsing fails there are as many tokens left in either sequence. -/
theorem parseTokens_lockstep {ts us : List Token}
    (h : List.Forall₂ (fun t u => (t == u) = true) ts us) (limit : Nat) :
    (∃ x y, parseTokens limit ts = .ok x ∧ parseTokens limit us = .ok y ∧ (x == y) = true) ∨
      ∃ e e' s s', parseTokens limit ts = .error e ∧ parseTokens limit us = .error e' ∧
        e.SameCause e' ∧ Parser.whole limit (ofTokens ts) = .error e s ∧
        Parser.whole limit (ofTokens us) = .error e' s' ∧ s.pending.length = s'.pending.length := by
  have hwhole := Parser.whole_lockstep limit (ofTokens ts) (ofTokens us) ⟨h, rfl⟩
  generalize hr : Parser.whole limit (ofTokens ts) = r,
    hr' : Parser.whole limit (ofTokens us) = r' at hwhole
  cases hwhole with
  | ok hxy _ => exact .inl ⟨_, _, parseTokens_of_ok hr, parseTokens_of_ok hr', hxy⟩
  | error he hs =>
    exact .inr ⟨_, _, _, _, parseTokens_of_error hr, parseTokens_of_error hr', he, rfl, rfl,
      hs.pending.length_eq⟩

end Reckoner
