import Reckoner.Expr

/-!
# Induction on expression trees

The arguments of a call are a list of trees, so the induction principle of the type speaks of lists
as well. `Expr.induction` is the one that proofs about trees use: a property of all arguments gives
the property of the call. The height of a call is compared with a bound argument by argument.
`Expr.nodes` lists the nodes of a tree in the order in which evaluation finishes them.
-/

namespace Reckoner

namespace Expr

@[elab_as_elim, induction_eliminator]
theorem induction {P : Expr → Prop} (literal : ∀ v, P (.literal v))
    (binary : ∀ op l r, P l → P r → P (.binary op l r))
    (call : ∀ f args, (∀ a ∈ args, P a) → P (.call f args))
    (negate : ∀ e, P e → P (.negate e)) : ∀ e, P e
  | .literal v => literal v
  | .binary op l r =>
    binary op l r (induction literal binary call negate l) (induction literal binary call negate r)
  | .call f args => call f args fun a _ => induction literal binary call negate a
  | .negate e => negate e (induction literal binary call negate e)

private theorem foldr_max_le_iff {ns : List Nat} {n : Nat} :
    ns.foldr max 0 ≤ n ↔ ∀ m ∈ ns, m ≤ n := by
  induction ns with
  | nil => simp
  | cons m ns ih => simp only [List.foldr_cons, Nat.max_le, ih, List.forall_mem_cons]

/-- A call is at most as high as a bound below which all its arguments are. -/
theorem height_call_le_iff {f : String} {args : List Expr} {n : Nat} :
    (call f args).height ≤ n ↔ ∀ a ∈ args, a.height < n := by
  rw [height, foldr_max_le_iff]
  constructor
  · intro h a ha
    exact h (a.height + 1) (List.mem_map.mpr ⟨⟨a, ha⟩, List.mem_attach .., rfl⟩)
  · intro h m hm
    obtain ⟨⟨a, ha⟩, -, rfl⟩ := List.mem_map.mp hm
    exact h a ha

theorem height_lt_of_mem {f : String} {args : List Expr} {a : Expr} (ha : a ∈ args) :
    a.height < (call f args).height :=
  height_call_le_iff.mp (Nat.le_refl _) a ha

mutual

/-- The nodes of a tree in postorder: those of the operands from left to right, then the root. -/
def nodes : Expr → List Expr
  | e@(literal _) => [e]
  | e@(binary _ left right) => nodes left ++ nodes right ++ [e]
  | e@(call _ args) => nodesOfArgs args ++ [e]
  | e@(negate operand) => nodes operand ++ [e]

/-- The nodes of several trees. -/
def nodesOfArgs : List Expr → List Expr
  | [] => []
  | e :: es => nodes e ++ nodesOfArgs es

end

theorem mem_nodes_self (e : Expr) : e ∈ e.nodes := by
  cases e <;> simp [nodes]

end Expr

end Reckoner
