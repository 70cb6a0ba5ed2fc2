import SpriteFormula.Expr
import SpriteFormula.Fault

/-!
Reading programs back as trees: the assignments a program makes, and the expressions whose values
it leaves on the stack.
-/

namespace SpriteFormula

/-- One assignment: the value of an expression goes to a part of the sprite. -/
structure Statement where
  directive : Directive
  value : Expr
  deriving DecidableEq, Repr

/-- The instructions that compute the value and then write it. -/
def Statement.program (statement : Statement) : Program :=
  statement.value.postfixOrder ++ [.directive statement.directive]

/-- The assignments in order, and the expressions left on the stack, the top one first. -/
structure Outline where
  statements : List Statement
  values : List Expr
  deriving DecidableEq, Repr

namespace Outline

/-- The expressions on the stack after an instruction, unless there are too few before it. -/
def push? (values : List Expr) : Instruction → Option (List Expr)
  | .constant value => some (.constant value :: values)
  | .var name => some (.var name :: values)
  | .operator op =>
    match values with
    | right :: left :: values => some (.binary op left right :: values)
    | _ => none
  | .negative =>
    match values with
    | operand :: values => some (.negative operand :: values)
    | _ => none
  | .function (.unary f) =>
    match values with
    | argument :: values => some (.call f argument :: values)
    | _ => none
  | .function (.extremum f) =>
    match values with
    | right :: left :: values => some (.extremum f left right :: values)
    | _ => none
  | .directive _ =>
    match values with
    | _ :: values => some values
    | _ => none

/-- The assignment an instruction makes of the top expression. -/
def assigned (values : List Expr) : Instruction → List Statement
  | .directive d => values.head?.toList.map fun value => ⟨d, value⟩
  | _ => []

/-- The constant that an instruction pushes is one to refuse. -/
def refusal? (refuse : Binary64 → Option EncodeError) : Instruction → Option EncodeError
  | .constant value => refuse value
  | _ => none

/-- The outline of the instructions from a position on, of which the first to take too many values
or to push a refused constant is reported. -/
def readFrom (refuse : Binary64 → Option EncodeError) (position : Nat) (values : List Expr) :
    Program → Except Fault Outline
  | [] => .ok ⟨[], values⟩
  | i :: rest =>
    match refusal? refuse i with
    | some error => .error (.encode error)
    | none =>
      match push? values i with
      | none => .error (.stack (.underflow ⟨position, i⟩))
      | some next =>
        match readFrom refuse (position + 1) next rest with
        | .error fault => .error fault
        | .ok outline => .ok ⟨assigned values i ++ outline.statements, outline.values⟩

end Outline

end SpriteFormula
