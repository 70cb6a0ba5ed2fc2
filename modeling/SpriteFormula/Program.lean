import SpriteFormula.Instruction

/-!
The depth of the stack along a program, and whether the program is well formed.
-/

namespace SpriteFormula

/-- An instruction that needs more values than the stack holds, and its place in the program. -/
structure Underflow where
  position : Nat
  instruction : Instruction
  deriving DecidableEq, Repr

inductive StackFault where
  | underflow (fault : Underflow)
  | unbalanced (remaining : Nat)
  deriving DecidableEq, Repr

namespace Underflow

def message (fault : Underflow) : String :=
  "instruction " ++ toString fault.position ++ " (" ++ fault.instruction.text ++
    "): stack underflow"

end Underflow

namespace StackFault

def message : StackFault → String
  | .underflow fault => fault.message
  | .unbalanced remaining =>
    "operation leaves " ++ toString remaining ++ " values on the stack"

end StackFault

namespace Program

/-- The depth of the stack after a program that starts at some position and depth. -/
def depthFrom (position depth : Nat) : Program → Except Underflow Nat
  | [] => .ok depth
  | i :: rest =>
    if i.arity ≤ depth then
      depthFrom (position + 1) (depth - i.arity + if i.pushes then 1 else 0) rest
    else .error ⟨position, i⟩

/-- The depth that a well-formed program leaves: none or one. -/
def validate (program : Program) : Except StackFault Nat :=
  match depthFrom 0 0 program with
  | .error fault => .error (.underflow fault)
  | .ok depth => if 1 < depth then .error (.unbalanced depth) else .ok depth

/-- Whether the program ends in a directive, so that it gives no value. -/
def isDeclaration (program : Program) : Bool := program.getLast?.any fun i => !i.pushes

end Program

end SpriteFormula
