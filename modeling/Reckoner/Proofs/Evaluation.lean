import Reckoner.Evaluation
import Reckoner.Proofs.Arithmetic
import Reckoner.Proofs.Tree

/-!
# Evaluation

Above its height a tree has one value, whatever the bound on nesting (`evalWithin_eq_eval`), so
`eval` follows the tree: the operands from left to right, then the operator or function. The trees
that are well-formed are those the parser makes of tokens that hold valid numbers.
-/

namespace Reckoner

theorem mapM_congr {α β : Type} {f g : α → Except CalcError β} {as : List α}
    (h : ∀ a ∈ as, f a = g a) : as.mapM f = as.mapM g := by
  induction as with
  | nil => rfl
  | cons a as ih =>
    rw [List.mapM_cons, List.mapM_cons, h a List.mem_cons_self,
      ih fun b hb => h b (List.mem_cons_of_mem a hb)]

namespace Expr

/-! ## Depth -/

/-- Above the height of a tree one level more makes no difference. -/
theorem evalWithin_succ {e : Expr} {depth : Nat} (h : e.height < depth) :
    e.evalWithin (depth + 1) = e.evalWithin depth := by
  induction depth generalizing e with
  | zero => exact absurd h (Nat.not_lt_zero _)
  | succ d ih =>
    cases e with
    | literal v => rfl
    | binary op l r =>
      simp only [height] at h
      have hl : l.height < d := by omega
      have hr : r.height < d := by omega
      rw [evalWithin, evalWithin, ih hl, ih hr]
    | call f args =>
      have hargs := height_call_le_iff.mp (Nat.le_of_lt_succ h)
      rw [evalWithin, evalWithin, mapM_congr fun a ha => ih (hargs a ha)]
    | negate e =>
      simp only [height] at h
      have he : e.height < d := by omega
      rw [evalWithin, evalWithin, ih he]

/-- So from there on the value does not depend on the limit. -/
theorem evalWithin_eq_eval {e : Expr} {depth : Nat} (h : e.height < depth) :
    e.evalWithin depth = e.eval := by
  obtain ⟨k, rfl⟩ := Nat.exists_eq_add_of_lt h
  induction k with
  | zero => rfl
  | succ k ih =>
    have hk : e.height < e.height + k + 1 := by omega
    exact (evalWithin_succ hk).trans (ih hk)

theorem eval_binary (op : String) (l r : Expr) :
    (binary op l r).eval = l.eval >>= fun x => r.eval >>= fun y => Number.applySymbol op x y := by
  have hl : l.height < (binary op l r).height := by simp only [height]; omega
  have hr : r.height < (binary op l r).height := by simp only [height]; omega
  rw [eval, evalWithin, evalWithin_eq_eval hl, evalWithin_eq_eval hr]

theorem eval_call (f : String) (args : List Expr) :
    (call f args).eval = args.mapM eval >>= Number.applyNamed f := by
  rw [eval, evalWithin, mapM_congr fun a ha => evalWithin_eq_eval (height_lt_of_mem ha)]

theorem eval_negate (e : Expr) : (negate e).eval = e.eval >>= Number.negate := by
  have he : e.height < (negate e).height := by simp only [height]; omega
  rw [eval, evalWithin, evalWithin_eq_eval he]

/-! ## Well-formed trees -/

/-- The literals are valid numbers, the operators are known, and so are the functions, which have as
many arguments as they take. -/
inductive WellFormed : Expr → Prop
  | literal {v : Number} (h : v.Valid) : WellFormed (literal (.number v))
  | binary (op : Operator) {l r : Expr} (hl : WellFormed l) (hr : WellFormed r) :
      WellFormed (binary op.symbol l r)
  | call (f : MathFunction) {args : List Expr} (harity : args.length = f.arity)
      (hargs : ∀ a ∈ args, WellFormed a) : WellFormed (call f.name args)
  | negate {e : Expr} (h : WellFormed e) : WellFormed (negate e)

/-- How evaluating the tree can fail: in arithmetic, or because the tree is too high. -/
def FailsWith (e : Expr) (depth : Nat) (err : CalcError) : Prop :=
  err.IsArithmetic ∨ err = .nestedTooDeeply ∧ depth ≤ e.height

theorem FailsWith.lift {e e' : Expr} {depth : Nat} {err : CalcError} (h : e.FailsWith depth err)
    (hlt : e.height < e'.height) : e'.FailsWith (depth + 1) err := by
  rcases h with h | ⟨herr, hdepth⟩
  · exact .inl h
  · exact .inr ⟨herr, by omega⟩

theorem FailsWith.stage_eq {e : Expr} {depth : Nat} {err : CalcError} (h : e.FailsWith depth err) :
    err.stage? = some .evaluation := by
  rcases h with h | ⟨rfl, -⟩
  · exact h.stage_eq
  · rfl

theorem WellFormed.evaluates {e : Expr} (h : e.WellFormed) (depth : Nat) :
    Evaluates Number.Valid (e.FailsWith depth) (e.evalWithin depth) := by
  induction depth generalizing e with
  | zero => exact .of_error (.inr ⟨rfl, Nat.zero_le _⟩)
  | succ depth ih =>
    cases h with
    | literal h => exact .of_ok h
    | @binary op l r hl hr =>
      have hlt : l.height < (Expr.binary op.symbol l r).height := by simp only [height]; omega
      have hrt : r.height < (Expr.binary op.symbol l r).height := by simp only [height]; omega
      rw [evalWithin]
      refine ((ih hl).mono fun _ h => h.lift hlt).bind fun x _ => ?_
      refine ((ih hr).mono fun _ h => h.lift hrt).bind fun y _ => ?_
      rw [Number.applySymbol_symbol]
      exact (Number.apply_evaluates op x y).mono fun _ => .inl
    | call f harity hargs =>
      have hxs := Evaluates.mapM fun a ha => (ih (hargs a ha)).mono fun _ h =>
        h.lift (height_lt_of_mem (f := f.name) ha)
      rw [evalWithin]
      refine hxs.bind fun xs hxs => ?_
      rw [Number.applyNamed_name]
      exact (MathFunction.apply_evaluates (hxs.1.trans harity)).mono fun _ => .inl
    | @negate e h =>
      have hlt : e.height < (Expr.negate e).height := by simp only [height]; omega
      rw [evalWithin]
      refine ((ih h).mono fun _ h => h.lift hlt).bind fun x _ => ?_
      exact x.negate_evaluates.mono fun _ => .inl

end Expr

end Reckoner
