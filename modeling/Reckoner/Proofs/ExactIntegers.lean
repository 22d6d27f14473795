import Reckoner.Proofs.Evaluation

/-!
# Exact integers

Evaluation in 64 bits against evaluation in unbounded integers. A tree has an integer value exactly
if all its nodes belong to integer arithmetic and the exact value of each fits; the value is then the
exact one. When all nodes belong to integer arithmetic but some exact value does not fit, the first
such node in postorder is the operation that overflows, even if the value of the root would fit.
-/

namespace Reckoner

open Number (Fits checkedInt intPow powBound)

namespace Expr

/-! ## The exact value of a tree -/

/-- The value in unbounded integers, where every node belongs to integer arithmetic. -/
def exact : Expr → Int
  | literal (.number (.int n)) => n
  | literal _ => 0
  | binary "+" left right => left.exact + right.exact
  | binary "-" left right => left.exact - right.exact
  | binary "*" left right => left.exact * right.exact
  | binary .. => 0
  | call _ [base, exponent] => Int.pow base.exact exponent.exact.toNat
  | call .. => 0
  | negate operand => -operand.exact

/-- The node belongs to integer arithmetic: an integer literal, a sum, difference or product, a
negation, or a power with an exponent that is not negative. -/
def Integral : Expr → Prop
  | literal (.number (.int _)) => True
  | literal _ => False
  | binary op _ _ => op ≠ "/"
  | call "pow" [_, exponent] => 0 ≤ exponent.exact
  | call .. => False
  | negate _ => True

/-- What the overflow of a node is called. -/
def operation : Expr → String
  | literal _ => "integer arithmetic"
  | binary op _ _ => op
  | call f _ => f
  | negate _ => "negation"

/-- The first of the nodes whose exact value does not fit. -/
def firstUnfit? (ss : List Expr) : Option Expr := ss.find? fun s => ¬Fits s.exact

/-- What becomes of an exact value: it is answered if no node is unfit. -/
def outcome (n : Int) : Option Expr → Except CalcError Number
  | none => .ok (.int n)
  | some s => .error (.overflow s.operation)

theorem firstUnfit?_eq_none {ss : List Expr} :
    firstUnfit? ss = none ↔ ∀ s ∈ ss, Fits s.exact := by
  simp [firstUnfit?]

theorem outcome_eq_ok {n m : Int} {o : Option Expr} :
    outcome n o = .ok (.int m) ↔ o = none ∧ m = n := by
  constructor
  · intro h
    cases o with
    | none =>
      cases h
      exact ⟨rfl, rfl⟩
    | some s => cases h
  · rintro ⟨rfl, rfl⟩
    rfl

theorem outcome_bind {n m : Int} {ss ss' : List Expr} {f : Number → Except CalcError Number}
    (h : f (.int n) = outcome m (firstUnfit? ss')) :
    (outcome n (firstUnfit? ss) >>= f) = outcome m (firstUnfit? (ss ++ ss')) := by
  rw [firstUnfit?, firstUnfit?, List.find?_append]
  cases ss.find? fun s => ¬Fits s.exact with
  | none => exact h
  | some s => rfl

theorem checkedInt_exact (e : Expr) :
    checkedInt e.operation e.exact = outcome e.exact (firstUnfit? [e]) := by
  by_cases h : Fits e.exact
  · rw [checkedInt, if_pos h, firstUnfit?_eq_none.mpr (by simpa using h)]
    rfl
  · have hunfit : firstUnfit? [e] = some e := List.find?_cons_of_pos (by simpa using h)
    rw [checkedInt, if_neg h, hunfit]
    rfl

end Expr

/-! ## Operations on integers -/

namespace Number

/-- The exponents that are refused have no power that fits. -/
theorem intPow_eq (b : Int) (e : Nat) : intPow b e = checkedInt "pow" (Int.pow b e) := by
  rw [intPow_eq_ite]
  split
  · rfl
  · next hlarge =>
    split
    · next hbound =>
      have hpow : 2 ^ 64 ≤ (b ^ e).natAbs := by
        rw [Int.natAbs_pow]
        calc 2 ^ 64 ≤ 2 ^ e := Nat.pow_le_pow_right (by decide) hbound
          _ ≤ b.natAbs ^ e := Nat.pow_le_pow_left (by omega) e
      have hunfit : ¬Fits (Int.pow b e) := by
        change ¬Fits (b ^ e)
        unfold Fits intMin intMax
        omega
      rw [checkedInt, if_neg hunfit]
    · rfl

theorem pow_ints (b : Int) {e : Int} (he : 0 ≤ e) :
    pow (.int b) (.int e) = checkedInt "pow" (Int.pow b e.toNat) := by
  obtain ⟨k, rfl⟩ := Int.eq_ofNat_of_zero_le he
  exact intPow_eq b k

theorem checkedFloat_ne_int {operation : String} {x : Float} {n : Int} :
    checkedFloat operation x ≠ .ok (.int n) := by
  unfold checkedFloat
  split <;> intro h <;> cases h

theorem bind_checkedFloat_ne_int {r : Except CalcError Float} {operation : String} {n : Int} :
    (r >>= checkedFloat operation) ≠ .ok (.int n) := by
  intro h
  obtain ⟨x, -, h⟩ := ok_of_bind h
  exact checkedFloat_ne_int h

theorem ints_of_apply {op : Operator} {x y : Number} {n : Int} (h : apply op x y = .ok (.int n)) :
    op ≠ .div ∧ ∃ a b, x = .int a ∧ y = .int b := by
  unfold apply at h
  split at h
  · next hop =>
    refine ⟨?_, _, _, rfl, rfl⟩
    rintro rfl
    cases hop
  · exact absurd h bind_checkedFloat_ne_int

theorem int_of_negate {x : Number} {n : Int} (h : x.negate = .ok (.int n)) : ∃ a, x = .int a := by
  cases x with
  | int a => exact ⟨a, rfl⟩
  | float y => exact absurd h checkedFloat_ne_int

theorem ints_of_pow {x y : Number} {n : Int} (h : pow x y = .ok (.int n)) :
    ∃ b e, x = .int b ∧ y = .int e ∧ 0 ≤ e := by
  unfold pow at h
  split at h
  · next b e => exact ⟨b, _, rfl, rfl, Int.natCast_nonneg e⟩
  · unfold floatPow at h
    split at h
    · cases h
    · split at h
      · cases h
      · exact absurd h checkedFloat_ne_int

end Number

theorem MathFunction.pow_of_apply {f : MathFunction} {xs : List Number} {n : Int}
    (h : f.apply xs = .ok (.int n)) :
    f = .pow ∧ ∃ b e, xs = [.int b, .int e] ∧ 0 ≤ e := by
  unfold apply at h
  split at h
  · obtain ⟨b, e, rfl, rfl, he⟩ := Number.ints_of_pow h
    exact ⟨rfl, b, e, rfl, he⟩
  · cases h
  · simp only at h
    split at h
    · exact absurd h Number.checkedFloat_ne_int
    · cases h
  · cases h

/-! ## Trees of integer arithmetic -/

namespace Expr

theorem apply_exact {op : Operator} {l r : Expr} (h : Integral (binary op.symbol l r)) :
    Number.applySymbol op.symbol (.int l.exact) (.int r.exact) =
      outcome (binary op.symbol l r).exact (firstUnfit? [binary op.symbol l r]) := by
  rw [← checkedInt_exact, Number.applySymbol_symbol]
  cases op with
  | div => exact absurd rfl h
  | _ => rfl

theorem pow_exact {base exponent : Expr} (h : Integral (call "pow" [base, exponent])) :
    Number.applyNamed "pow" [.int base.exact, .int exponent.exact] =
      outcome (call "pow" [base, exponent]).exact (firstUnfit? [call "pow" [base, exponent]]) := by
  rw [← checkedInt_exact]
  exact (Number.applyNamed_name .pow _).trans (Number.pow_ints base.exact h)

theorem eval_call_pair (f : String) (a b : Expr) :
    (call f [a, b]).eval =
      a.eval >>= fun x => b.eval >>= fun y => Number.applyNamed f [x, y] := by
  simp [eval_call]

/-- A function in integer arithmetic is a power. -/
theorem call_of_integral {f : String} {args : List Expr} (h : Integral (call f args)) :
    f = "pow" ∧ ∃ base exponent, args = [base, exponent] := by
  unfold Integral at h
  split at h <;> simp_all

/-- By induction over the tree: the first node out of range, operands before their operator,
decides. -/
theorem eval_of_integral {e : Expr} (h : e.WellFormed) (hint : ∀ s ∈ e.nodes, s.Integral) :
    e.eval = outcome e.exact (firstUnfit? e.nodes) := by
  induction h with
  | @literal v hv =>
    cases v with
    | int n =>
      have hfit : firstUnfit? [literal (.number (.int n))] = none := by
        rw [firstUnfit?_eq_none]
        intro s hs
        rw [List.mem_singleton.mp hs]
        exact hv
      rw [nodes, hfit]
      rfl
    | float x => exact (hint _ (mem_nodes_self _)).elim
  | @binary op l r _ _ ihl ihr =>
    have hroot := hint _ (mem_nodes_self _)
    simp only [nodes, List.mem_append] at hint
    have hl := ihl fun s hs => hint s (.inl (.inl hs))
    have hr := ihr fun s hs => hint s (.inl (.inr hs))
    rw [eval_binary, hl, hr, nodes, List.append_assoc]
    exact outcome_bind (outcome_bind (apply_exact hroot))
  | @call f args _ _ ih =>
    have hroot := hint _ (mem_nodes_self _)
    obtain ⟨hf, base, exponent, rfl⟩ := call_of_integral hroot
    rw [hf] at hroot hint ⊢
    simp only [nodes, nodesOfArgs, List.append_nil, List.mem_append] at hint
    have hb := ih base (by simp) fun s hs => hint s (.inl (.inl hs))
    have he := ih exponent (by simp) fun s hs => hint s (.inl (.inr hs))
    rw [eval_call_pair, hb, he]
    simp only [nodes, nodesOfArgs, List.append_nil, List.append_assoc]
    exact outcome_bind (outcome_bind (pow_exact hroot))
  | @negate e _ ih =>
    simp only [nodes, List.mem_append] at hint
    rw [eval_negate, ih fun s hs => hint s (.inl hs), nodes]
    exact outcome_bind (checkedInt_exact e.negate)

/-- A tree with an integer as its value has integers at all its nodes. -/
theorem integral_of_eval {e : Expr} (h : e.WellFormed) {n : Int} (hn : e.eval = .ok (.int n)) :
    ∀ s ∈ e.nodes, s.Integral := by
  induction h generalizing n with
  | literal hv =>
    cases hn
    simp [nodes, Integral]
  | @binary op l r hl hr ihl ihr =>
    rw [eval_binary] at hn
    obtain ⟨x, hx, hn⟩ := ok_of_bind hn
    obtain ⟨y, hy, hn⟩ := ok_of_bind hn
    rw [Number.applySymbol_symbol] at hn
    obtain ⟨hop, a, b, rfl, rfl⟩ := Number.ints_of_apply hn
    have hroot : Integral (binary op.symbol l r) := by
      cases op with
      | div => exact absurd rfl hop
      | _ => simp [Integral, Operator.symbol]
    simp only [nodes, List.mem_append, List.mem_singleton]
    rintro s ((hs | hs) | rfl)
    · exact ihl hx s hs
    · exact ihr hy s hs
    · exact hroot
  | @call f args harity hargs ih =>
    rw [eval_call] at hn
    obtain ⟨xs, -, hpow⟩ := ok_of_bind hn
    rw [Number.applyNamed_name] at hpow
    obtain ⟨rfl, -⟩ := MathFunction.pow_of_apply hpow
    obtain ⟨base, exponent, rfl⟩ := exists_pair harity
    rw [← eval_call, eval_call_pair] at hn
    obtain ⟨x, hx, hn⟩ := ok_of_bind hn
    obtain ⟨y, hy, hn⟩ := ok_of_bind hn
    rw [Number.applyNamed_name] at hn
    obtain ⟨-, b, k, hxy, hk⟩ := MathFunction.pow_of_apply hn
    cases hxy
    have hnodes := ih exponent (by simp) hy
    -- The sign that was checked is that of the computed exponent, which is the exact one.
    have hexact := eval_of_integral (hargs exponent (by simp)) hnodes
    obtain ⟨-, rfl⟩ := outcome_eq_ok.mp (hexact.symm.trans hy)
    simp only [nodes, nodesOfArgs, List.append_nil, List.mem_append, List.mem_singleton]
    rintro s ((hs | hs) | rfl)
    · exact ih base (by simp) hx s hs
    · exact hnodes s hs
    · exact hk
  | @negate e _ ih =>
    rw [eval_negate] at hn
    obtain ⟨x, hx, hn⟩ := ok_of_bind hn
    obtain ⟨a, rfl⟩ := Number.int_of_negate hn
    simp only [nodes, List.mem_append, List.mem_singleton]
    rintro s (hs | rfl)
    · exact ih hx s hs
    · trivial

/-- **Integer results are exact**, and they are there exactly if every node belongs to integer
arithmetic and has an exact value that fits. In integer arithmetic every other tree overflows, in the
first node that does not fit. -/
theorem eval_exact {e : Expr} (h : e.WellFormed) :
    (∀ n, e.eval = .ok (.int n) ↔
      (∀ s ∈ e.nodes, s.Integral ∧ Fits s.exact) ∧ n = e.exact) ∧
    ((∀ s ∈ e.nodes, s.Integral) → (∃ s ∈ e.nodes, ¬Fits s.exact) →
      ∃ before s after, e.nodes = before ++ s :: after ∧ (∀ u ∈ before, Fits u.exact) ∧
        ¬Fits s.exact ∧ e.eval = .error (.overflow s.operation)) := by
  constructor
  · intro n
    constructor
    · intro hn
      have hint := integral_of_eval h hn
      have heval := eval_of_integral h hint
      obtain ⟨hfits, hexact⟩ := outcome_eq_ok.mp (heval.symm.trans hn)
      exact ⟨fun s hs => ⟨hint s hs, firstUnfit?_eq_none.mp hfits s hs⟩, hexact⟩
    · rintro ⟨hnodes, rfl⟩
      rw [eval_of_integral h fun s hs => (hnodes s hs).1,
        firstUnfit?_eq_none.mpr fun s hs => (hnodes s hs).2]
      rfl
  · rintro hint ⟨s, hs, hunfit⟩
    cases hfirst : firstUnfit? e.nodes with
    | none => exact absurd (firstUnfit?_eq_none.mp hfirst s hs) hunfit
    | some s =>
      obtain ⟨hs, before, after, hnodes, hbefore⟩ := List.find?_eq_some_iff_append.mp hfirst
      refine ⟨before, s, after, hnodes, fun u hu => ?_, by simpa using hs, ?_⟩
      · simpa using hbefore u hu
      · rw [eval_of_integral h hint, hfirst]
        rfl

/-- `pow(-2, 63)` is the least integer that fits, and `-pow(-2, 63)` overflows in the negation. -/
theorem eval_exact_least :
    (call "pow" [negate (literal (.number (.int 2))), literal (.number (.int 63))]).eval =
      .ok (.int Number.intMin) ∧
    ∀ n, (negate (call "pow" [negate (literal (.number (.int 2))),
      literal (.number (.int 63))])).eval ≠ .ok (.int n) := by
  have htwo : WellFormed (literal (.number (.int 2))) := .literal (by decide)
  have hexponent : WellFormed (literal (.number (.int 63))) := .literal (by decide)
  have hpow : WellFormed (call "pow" [negate (literal (.number (.int 2))),
      literal (.number (.int 63))]) :=
    .call .pow rfl (by simp [htwo.negate, hexponent])
  refine ⟨((eval_exact hpow).1 _).mpr ⟨?_, by decide⟩, fun n hn => ?_⟩
  · simp only [nodes, nodesOfArgs, List.append_nil, List.cons_append, List.nil_append,
      List.forall_mem_cons, List.not_mem_nil, false_implies, implies_true, and_true]
    have hsign : Integral (call "pow" [negate (literal (.number (.int 2))),
        literal (.number (.int 63))]) := Int.natCast_nonneg 63
    exact ⟨⟨trivial, by decide⟩, ⟨trivial, by decide⟩, ⟨trivial, by decide⟩, hsign, by decide⟩
  · obtain ⟨hnodes, -⟩ := ((eval_exact hpow.negate).1 n).mp hn
    exact absurd (hnodes _ (mem_nodes_self _)).2 (by decide)

end Expr

end Reckoner
