import SpriteFormula.Instruction

/-!
Expressions as trees, and the program that computes one.
-/

namespace SpriteFormula

inductive Expr where
  | constant (value : Binary64)
  | var (name : String)
  | binary (op : Operator) (left right : Expr)
  | negative (operand : Expr)
  | call (f : UnaryFunction) (argument : Expr)
  | extremum (f : Extremum) (left right : Expr)
  deriving DecidableEq, Repr

namespace Expr

/-- The instructions that compute the expression, put in front of a program. -/
def before (rest : Program) : Expr → Program
  | .constant value => .constant value :: rest
  | .var name => .var name :: rest
  | .binary op left right => left.before (right.before (.operator op :: rest))
  | .negative operand => operand.before (.negative :: rest)
  | .call f argument => argument.before (.function (.unary f) :: rest)
  | .extremum f left right => left.before (right.before (.function (.extremum f) :: rest))

/-- The instructions that compute the expression: operands before what is done to them. -/
def postfixOrder (expr : Expr) : Program := expr.before []

theorem before_eq (expr : Expr) (rest : Program) :
    expr.before rest = expr.postfixOrder ++ rest := by
  unfold postfixOrder
  induction expr generalizing rest with
  | constant value => rfl
  | var name => rfl
  | negative operand ih => rw [before, before, ih, ih [_], List.append_assoc]; rfl
  | call f argument ih => rw [before, before, ih, ih [_], List.append_assoc]; rfl
  | binary op left right ihl ihr =>
    rw [before, before, ihl, ihl (before _ right), ihr, ihr [_]]
    simp only [List.append_assoc, List.cons_append, List.nil_append]
  | extremum f left right ihl ihr =>
    rw [before, before, ihl, ihl (before _ right), ihr, ihr [_]]
    simp only [List.append_assoc, List.cons_append, List.nil_append]

@[simp] theorem postfixOrder_constant (value : Binary64) :
    (constant value).postfixOrder = [.constant value] := rfl

@[simp] theorem postfixOrder_var (name : String) : (var name).postfixOrder = [.var name] := rfl

@[simp] theorem postfixOrder_binary (op : Operator) (left right : Expr) :
    (binary op left right).postfixOrder =
      left.postfixOrder ++ right.postfixOrder ++ [.operator op] := by
  rw [postfixOrder, before, before_eq, before_eq, List.append_assoc]

@[simp] theorem postfixOrder_negative (operand : Expr) :
    (negative operand).postfixOrder = operand.postfixOrder ++ [.negative] := by
  rw [postfixOrder, before, before_eq]

@[simp] theorem postfixOrder_call (f : UnaryFunction) (argument : Expr) :
    (call f argument).postfixOrder = argument.postfixOrder ++ [.function (.unary f)] := by
  rw [postfixOrder, before, before_eq]

@[simp] theorem postfixOrder_extremum (f : Extremum) (left right : Expr) :
    (extremum f left right).postfixOrder =
      left.postfixOrder ++ right.postfixOrder ++ [.function (.extremum f)] := by
  rw [postfixOrder, before, before_eq, before_eq, List.append_assoc]

/-! ### What holds of each instruction -/

section
variable {p : Instruction → Prop} {left right operand argument : Expr}

theorem forall_binary {op : Operator} :
    (∀ i ∈ (binary op left right).postfixOrder, p i) ↔
      (∀ i ∈ left.postfixOrder, p i) ∧ (∀ i ∈ right.postfixOrder, p i) ∧ p (.operator op) := by
  rw [postfixOrder_binary, List.forall_mem_append, List.forall_mem_append,
    List.forall_mem_singleton, and_assoc]

theorem forall_negative :
    (∀ i ∈ (negative operand).postfixOrder, p i) ↔
      (∀ i ∈ operand.postfixOrder, p i) ∧ p .negative := by
  rw [postfixOrder_negative, List.forall_mem_append, List.forall_mem_singleton]

theorem forall_call {f : UnaryFunction} :
    (∀ i ∈ (call f argument).postfixOrder, p i) ↔
      (∀ i ∈ argument.postfixOrder, p i) ∧ p (.function (.unary f)) := by
  rw [postfixOrder_call, List.forall_mem_append, List.forall_mem_singleton]

theorem forall_extremum {f : Extremum} :
    (∀ i ∈ (extremum f left right).postfixOrder, p i) ↔
      (∀ i ∈ left.postfixOrder, p i) ∧ (∀ i ∈ right.postfixOrder, p i) ∧
        p (.function (.extremum f)) := by
  rw [postfixOrder_extremum, List.forall_mem_append, List.forall_mem_append,
    List.forall_mem_singleton, and_assoc]

end

end Expr

end SpriteFormula
