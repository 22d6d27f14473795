import Reckoner.Error

/-!
# Expression trees

What parsing makes of tokens and evaluation works on. Operators and functions are kept by name,
since a tree can be built with names that no table knows; only evaluating it finds out.
-/

namespace Reckoner

/-- An expression. -/
inductive Expr where
  | literal (value : Payload)
  | binary (op : String) (left right : Expr)
  | call (function : String) (args : List Expr)
  | negate (operand : Expr)
deriving Inhabited

namespace Expr

/-- The number of steps from the root to the farthest leaf. -/
def height : Expr → Nat
  | literal _ => 0
  | binary _ left right => max left.height right.height + 1
  | call _ args => (args.attach.map fun ⟨a, _⟩ => a.height + 1).foldr max 0
  | negate operand => operand.height + 1

mutual

/-- Trees are equal if they have the same shape, names and literals. -/
def same : Expr → Expr → Bool
  | literal v, literal w => v == w
  | binary op l r, binary op' l' r' => op == op' && same l l' && same r r'
  | call f args, call f' args' => f == f' && sameList args args'
  | negate e, negate e' => same e e'
  | _, _ => false

/-- Equal trees one by one. -/
def sameList : List Expr → List Expr → Bool
  | [], [] => true
  | e :: es, e' :: es' => same e e' && sameList es es'
  | _, _ => false

end

instance : BEq Expr := ⟨same⟩

mutual

/-- The tree on one line. -/
def inspect : Expr → String
  | literal v => "Literal(" ++ v.inspect ++ ")"
  | binary op left right =>
    "BinaryOp(" ++ Text.quoted op ++ ", " ++ inspect left ++ ", " ++ inspect right ++ ")"
  | call f args => "FunctionCall(" ++ Text.quoted f ++ ", (" ++ inspectArgs args ++ "))"
  | negate operand => "Negate(" ++ inspect operand ++ ")"

/-- Arguments separated by commas; a single one is followed by a comma too. -/
def inspectArgs : List Expr → String
  | [] => ""
  | [e] => inspect e ++ ","
  | e :: es => inspect e ++ inspectMore es

/-- Arguments after the first. -/
def inspectMore : List Expr → String
  | [] => ""
  | e :: es => ", " ++ inspect e ++ inspectMore es

end

/-- What the dump shows of the root. -/
def label : Expr → String
  | literal v => v.inspect
  | binary op _ _ => "BinaryOp " ++ Text.quoted op
  | call f _ => "FunctionCall " ++ f
  | negate _ => "Negate"

/-- Spaces per level of the dump. -/
def indentWidth : Nat := 4

/-- A line of the dump, `level` levels deep. -/
def dumpLine (level : Nat) (label : String) : String :=
  String.ofList (List.replicate (indentWidth * level) ' ') ++ label ++ "\n"

mutual

/-- The lines of the dump of a tree `level` levels deep: the root, then its operands one level
deeper. -/
def dumpLines (level : Nat) : Expr → List String
  | e@(literal _) => [dumpLine level e.label]
  | e@(binary _ left right) =>
    dumpLine level e.label :: (dumpLines (level + 1) left ++ dumpLines (level + 1) right)
  | e@(call _ args) => dumpLine level e.label :: dumpArgs (level + 1) args
  | e@(negate operand) => dumpLine level e.label :: dumpLines (level + 1) operand

/-- The lines of the dumps of several trees. -/
def dumpArgs (level : Nat) : List Expr → List String
  | [] => []
  | e :: es => dumpLines level e ++ dumpArgs level es

end

/-- The tree in lines, indented by depth. -/
def dump (e : Expr) : String := String.join (dumpLines 0 e)

/-- The dump of a tree that is no higher than the limit on nesting admits. -/
def dumpWithin (limit : Nat) (e : Expr) : Except CalcError String :=
  if e.height < limit then .ok e.dump else .error .nestedTooDeeply

end Expr

end Reckoner
