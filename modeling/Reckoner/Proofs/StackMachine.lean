import Reckoner.Proofs.Evaluation

/-!
# Evaluation on a stack

The nodes of a tree in postorder are a program for a machine with a stack of values: each takes the
values of its operands off the stack and puts its own on it. The program of a tree leaves the value of
the tree on whatever was on the stack before (`run_nodes`), and where evaluation fails it is the first
failing step of the program that tells why, with the values of all operands of that node on the stack
(`eval_eq_run`).
-/

namespace Reckoner

/-- Why the machine stops before the end of its program. -/
inductive Halt where
  /-- There are fewer values on the stack than the node has operands. -/
  | underflow
  | error (e : CalcError)

namespace Expr

/-! ## The machine -/

/-- The answer of an evaluation, as an answer of the machine. -/
def halting {α : Type} (x : Except CalcError α) : Except Halt α := x.mapError .error

/-- Puts a value on the stack, if there is one. -/
def push (stack : List Number) (x : Except CalcError Number) : Except Halt (List Number) := do
  return (← halting x) :: stack

/-- A step of the machine. Only the root of the node counts; its last operand is on top. -/
def step : Expr → List Number → Except Halt (List Number)
  | literal v, stack => push stack v.toNumber
  | binary op _ _, y :: x :: stack => push stack (Number.applySymbol op x y)
  | call f args, stack =>
    if args.length ≤ stack.length then
      push (stack.drop args.length) (Number.applyNamed f (stack.take args.length).reverse)
    else .error .underflow
  | negate _, x :: stack => push stack x.negate
  | _, _ => .error .underflow

/-- Runs nodes one after the other, up to the first step that fails. -/
def run : List Expr → List Number → Except Halt (List Number)
  | [], stack => .ok stack
  | s :: rest, stack => do run rest (← step s stack)

theorem run_append (ss ss' : List Expr) (stack : List Number) :
    run (ss ++ ss') stack = run ss stack >>= run ss' := by
  induction ss generalizing stack with
  | nil => rfl
  | cons s ss ih =>
    rw [List.cons_append, run, run]
    cases step s stack with
    | error h => rfl
    | ok stack => exact ih stack

theorem run_singleton (s : Expr) (stack : List Number) : run [s] stack = step s stack := by
  rw [run]
  cases step s stack <;> rfl

/-- A run that fails has a first step that does. -/
theorem run_eq_error_iff {ss : List Expr} {stack : List Number} {h : Halt} :
    run ss stack = .error h ↔ ∃ before s after stack', ss = before ++ s :: after ∧
      run before stack = .ok stack' ∧ step s stack' = .error h := by
  constructor
  · intro hrun
    induction ss generalizing stack with
    | nil => cases hrun
    | cons s ss ih =>
      rw [run] at hrun
      cases hs : step s stack with
      | error h' =>
        rw [hs] at hrun
        cases hrun
        exact ⟨[], s, ss, stack, rfl, rfl, hs⟩
      | ok stack' =>
        rw [hs] at hrun
        obtain ⟨before, u, after, stack'', rfl, hbefore, hu⟩ := ih hrun
        exact ⟨s :: before, u, after, stack'', rfl, by rw [run, hs]; exact hbefore, hu⟩
  · rintro ⟨before, s, after, stack', rfl, hbefore, hs⟩
    rw [run_append, hbefore]
    change run (s :: after) stack' = _
    rw [run, hs]
    rfl

/-! ## The program of a tree -/

theorem step_call (f : String) (args : List Expr) {xs : List Number} (h : xs.length = args.length)
    (stack : List Number) :
    step (call f args) (xs.reverse ++ stack) = push stack (Number.applyNamed f xs) := by
  have hlength : xs.reverse.length = args.length := by rw [List.length_reverse, h]
  have hle : args.length ≤ (xs.reverse ++ stack).length := by
    rw [List.length_append, hlength]
    exact Nat.le_add_right ..
  rw [step, if_pos hle, ← hlength, List.drop_left, List.take_left, List.reverse_reverse]

theorem length_of_mapM {args : List Expr} {xs : List Number} (h : args.mapM eval = .ok xs) :
    xs.length = args.length := by
  have hargs : Evaluates (fun ys : List Number => ys.length = args.length ∧ ∀ y ∈ ys, True)
      (fun _ => True) (args.mapM eval) :=
    .mapM fun _ _ => ⟨fun _ => trivial, fun _ => trivial⟩
  exact (hargs.ok h).1

theorem run_nodesOfArgs {args : List Expr}
    (h : ∀ a ∈ args, ∀ stack, run a.nodes stack = push stack a.eval) (stack : List Number) :
    run (nodesOfArgs args) stack = do return (← halting (args.mapM eval)).reverse ++ stack := by
  induction args generalizing stack with
  | nil => rfl
  | cons a args ih =>
    have hargs := ih fun b hb => h b (List.mem_cons_of_mem a hb)
    rw [nodesOfArgs, run_append, h a List.mem_cons_self, List.mapM_cons]
    cases a.eval with
    | error e => rfl
    | ok x =>
      change run (nodesOfArgs args) (x :: stack) = _
      rw [hargs]
      cases args.mapM eval with
      | error e => rfl
      | ok xs =>
        change Except.ok _ = Except.ok _
        rw [List.reverse_cons, List.append_assoc]
        rfl

/-- The nodes of a tree leave its value on the stack, or fail as its evaluation does. -/
theorem run_nodes (e : Expr) (stack : List Number) : run e.nodes stack = push stack e.eval := by
  induction e generalizing stack with
  | literal v => exact run_singleton _ _
  | binary op l r ihl ihr =>
    rw [nodes, run_append, run_append, ihl, eval_binary]
    cases l.eval with
    | error e => rfl
    | ok x =>
      change (run r.nodes (x :: stack) >>= run [binary op l r]) = _
      rw [ihr]
      cases r.eval with
      | error e => rfl
      | ok y => exact run_singleton _ _
  | call f args ih =>
    rw [nodes, run_append, run_nodesOfArgs ih, eval_call]
    cases hxs : args.mapM eval with
    | error e => rfl
    | ok xs =>
      exact (run_singleton _ _).trans (step_call f args (length_of_mapM hxs) stack)
  | negate e ih =>
    rw [nodes, run_append, ih, eval_negate]
    cases e.eval with
    | error e => rfl
    | ok x => exact run_singleton _ _

/-! ## Operands in front of their node -/

/-- The trees whose values a node takes. -/
def operands : Expr → List Expr
  | literal _ => []
  | binary _ left right => [left, right]
  | call _ args => args
  | negate operand => [operand]

theorem nodes_eq (e : Expr) : e.nodes = nodesOfArgs e.operands ++ [e] := by
  cases e <;> simp [nodes, operands, nodesOfArgs]

/-- The nodes of the operands of each node stand right in front of it. -/
def OperandsFirst (ss : List Expr) : Prop :=
  ∀ before s after, ss = before ++ s :: after → ∃ front, before = front ++ nodesOfArgs s.operands

theorem OperandsFirst.append {ss ss' : List Expr} (h : OperandsFirst ss)
    (h' : ∀ before s after, ss' = before ++ s :: after →
      ∃ front, ss ++ before = front ++ nodesOfArgs s.operands) : OperandsFirst (ss ++ ss') := by
  intro before s after hss
  rcases List.append_eq_append_iff.mp hss with ⟨mid, rfl, hss'⟩ | ⟨mid, rfl, hmid⟩
  · exact h' mid s after hss'
  · cases mid with
    | nil => simpa using h' [] s after hmid.symm
    | cons u mid =>
      obtain ⟨rfl, rfl⟩ := List.cons.inj hmid
      exact h before s mid rfl

theorem operandsFirst_nodesOfArgs {args : List Expr} (h : ∀ a ∈ args, OperandsFirst a.nodes) :
    OperandsFirst (nodesOfArgs args) := by
  induction args with
  | nil =>
    intro before s after hss
    simp [nodesOfArgs] at hss
  | cons a args ih =>
    have hargs := ih fun b hb => h b (List.mem_cons_of_mem a hb)
    refine (h a List.mem_cons_self).append fun before s after hss => ?_
    obtain ⟨front, rfl⟩ := hargs before s after hss
    exact ⟨a.nodes ++ front, (List.append_assoc ..).symm⟩

theorem operandsFirst_nodes (e : Expr) : OperandsFirst e.nodes := by
  have hroot {e : Expr} (h : ∀ a ∈ e.operands, OperandsFirst a.nodes) : OperandsFirst e.nodes := by
    rw [nodes_eq]
    refine (operandsFirst_nodesOfArgs h).append fun before s after hss => ?_
    obtain ⟨rfl, hs⟩ := List.append_eq_singleton_iff.mp hss.symm |>.resolve_right nofun
    cases hs
    exact ⟨[], List.append_nil _⟩
  induction e with
  | literal v => exact hroot nofun
  | binary op l r ihl ihr => exact hroot (by simp [operands, ihl, ihr])
  | call f args ih => exact hroot ih
  | negate e ih => exact hroot (by simp [operands, ih])

/-- When the program comes to a node, the values of its operands are on top of the stack. -/
theorem exists_operands_of_run {e s : Expr} {before after : List Expr} {stack : List Number}
    (hnodes : e.nodes = before ++ s :: after) (hrun : run before [] = .ok stack) :
    ∃ xs rest, s.operands.mapM eval = .ok xs ∧ stack = xs.reverse ++ rest := by
  obtain ⟨front, rfl⟩ := operandsFirst_nodes e before s after hnodes
  rw [run_append] at hrun
  cases hfront : run front [] with
  | error h =>
    rw [hfront] at hrun
    cases hrun
  | ok rest =>
    rw [hfront] at hrun
    change run (nodesOfArgs s.operands) rest = _ at hrun
    rw [run_nodesOfArgs fun a _ => run_nodes a] at hrun
    cases hxs : s.operands.mapM eval with
    | error e =>
      rw [hxs] at hrun
      cases hrun
    | ok xs =>
      rw [hxs] at hrun
      cases hrun
      exact ⟨xs, rest, rfl, rfl⟩

/-- **Evaluation is a run of the nodes.** The value is what the run leaves on the stack, alone, and an
error is that of the first step that fails. When a node has its turn, all its operands have a value. -/
theorem eval_eq_run (e : Expr) :
    (∀ v, e.eval = .ok v ↔ run e.nodes [] = .ok [v]) ∧
    (∀ stack, run e.nodes [] = .ok stack → ∃ v, stack = [v]) ∧
    (∀ err, e.eval = .error err ↔ ∃ before s after stack, e.nodes = before ++ s :: after ∧
      run before [] = .ok stack ∧ step s stack = .error (.error err)) ∧
    run e.nodes [] ≠ .error .underflow ∧
    ∀ before s after stack, e.nodes = before ++ s :: after → run before [] = .ok stack →
      ∃ xs rest, s.operands.mapM eval = .ok xs ∧ stack = xs.reverse ++ rest := by
  have hnodes := run_nodes e []
  have herror : ∀ err, e.eval = .error err ↔ run e.nodes [] = .error (.error err) := by
    rw [hnodes]
    intro err
    cases e.eval with
    | ok v => exact ⟨nofun, nofun⟩
    | error err' => exact ⟨fun h => by cases h; rfl, fun h => by cases h; rfl⟩
  refine ⟨?_, ?_, fun err => (herror err).trans run_eq_error_iff, ?_,
    fun before s after stack => exists_operands_of_run⟩
  · rw [hnodes]
    intro v
    cases e.eval with
    | ok v' => exact ⟨fun h => by cases h; rfl, fun h => by cases h; rfl⟩
    | error err => exact ⟨nofun, nofun⟩
  · rw [hnodes]
    intro stack h
    cases hv : e.eval with
    | ok v =>
      rw [hv] at h
      cases h
      exact ⟨v, rfl⟩
    | error err =>
      rw [hv] at h
      cases h
  · rw [hnodes]
    cases e.eval <;> nofun

/-- The name of an operator is looked up when both its operands have values, and not before. -/
theorem eval_eq_run_unknown :
    (binary "%" (literal (.number (.int 1))) (negate (literal (.number (.int Number.intMin))))).eval =
      .error (.overflow "negation") ∧
    (binary "%" (literal (.number (.int 1))) (literal (.number (.int 2)))).eval =
      .error (.unknownKey (.text "%")) := by
  obtain ⟨-, -, hoverflow, -⟩ := eval_eq_run
    (binary "%" (literal (.number (.int 1))) (negate (literal (.number (.int Number.intMin)))))
  obtain ⟨-, -, hunknown, -⟩ := eval_eq_run
    (binary "%" (literal (.number (.int 1))) (literal (.number (.int 2))))
  constructor
  · rw [hoverflow]
    exact ⟨[_, _], _, [_], [.int Number.intMin, .int 1], rfl, rfl, rfl⟩
  · rw [hunknown]
    exact ⟨[_, _], _, [], [.int 2, .int 1], rfl, rfl, rfl⟩

end Expr

end Reckoner
