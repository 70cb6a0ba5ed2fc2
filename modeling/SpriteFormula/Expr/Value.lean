import SpriteFormula.Expr
import SpriteFormula.Machine

/-!
The value of an expression by recursion over its tree, and the divisions by zero met on the way.
No stack and no program is involved.
-/

namespace SpriteFormula

namespace Expr

/-- How many nodes the tree has, which is how many instructions compute it. -/
def size : Expr → Nat
  | .constant _ | .var _ => 1
  | .binary _ left right => left.size + right.size + 1
  | .negative operand => operand.size + 1
  | .call _ argument => argument.size + 1
  | .extremum _ left right => left.size + right.size + 1

/-- The value is absent where an operand is, but an extremum takes the operand that is there. A
quotient by zero of either sign is zero. -/
def eval (env : Environment) : Expr → Value
  | .constant value => some value
  | .var name => env.lookup name
  | .binary op left right =>
    match left.eval env, right.eval env with
    | some left, some right =>
      if op = .divide ∧ right.isZero then some .zero else some (op.apply left right)
    | _, _ => none
  | .negative operand => (operand.eval env).map Binary64.neg
  | .call .cos argument => (argument.eval env).map Binary64.cos
  | .call .sin argument => (argument.eval env).map Binary64.sin
  | .call .sqrt argument => (argument.eval env).map Binary64.sqrt
  | .call .zoom argument => argument.eval env
  | .extremum f left right =>
    match left.eval env, right.eval env with
    | some left, some right => some (f.apply left right)
    | some left, none => some left
    | none, some right => some right
    | none, none => none

/-- A division whose operands are both there and whose divisor is zero. -/
def DividesByZero (env : Environment) (op : Operator) (left right : Expr) : Prop :=
  op = .divide ∧ (left.eval env).isSome ∧ (right.eval env).any Binary64.isZero

instance (env : Environment) (op : Operator) (left right : Expr) :
    Decidable (DividesByZero env op left right) := by
  unfold DividesByZero
  infer_instance

/-- Where the divisions by zero stand in the postfix order, from left to right, if its first
instruction stands at a position. -/
def zeroDivisions (env : Environment) (position : Nat) : Expr → List Nat
  | .constant _ | .var _ => []
  | .binary op left right =>
    left.zeroDivisions env position ++ right.zeroDivisions env (position + left.size) ++
      if DividesByZero env op left right then [position + left.size + right.size] else []
  | .negative operand => operand.zeroDivisions env position
  | .call _ argument => argument.zeroDivisions env position
  | .extremum _ left right =>
    left.zeroDivisions env position ++ right.zeroDivisions env (position + left.size)

theorem length_postfixOrder (tree : Expr) : tree.postfixOrder.length = tree.size := by
  induction tree with
  | constant value => rfl
  | var name => rfl
  | binary op left right ihl ihr =>
    rw [postfixOrder_binary, List.length_append, List.length_append, ihl, ihr]
    rfl
  | negative operand ih =>
    rw [postfixOrder_negative, List.length_append, ih]
    rfl
  | call f argument ih =>
    rw [postfixOrder_call, List.length_append, ih]
    rfl
  | extremum f left right ihl ihr =>
    rw [postfixOrder_extremum, List.length_append, List.length_append, ihl, ihr]
    rfl

end Expr

end SpriteFormula
