import SpriteFormula.Binary64.Arithmetic
import SpriteFormula.Program
import SpriteFormula.Record
import SpriteFormula.Sprite

/-!
Running programs on a stack of values. A run is an outcome also when it ends in an underflow: the
sprite as it stands then and all that was recorded.
-/

namespace SpriteFormula

/-- Names bound to texts. Of two bindings of a name the later one holds. -/
abbrev Bindings := List (String × String)

def Bindings.find? (bindings : Bindings) (name : String) : Option String :=
  bindings.reverse.lookup name

/-- What the variables of a program mean: the positional parameter, and a table of texts that are
read as numbers when they are asked for. -/
structure Environment where
  x : Binary64 := .zero
  bindings : Option Bindings := none

/-- The number a bound text stands for, blanks around it aside. -/
def Bindings.number? (value : String) : Option Binary64 :=
  Binary64.ofText? (String.ofList (Text.trim value.toList))

namespace Environment

/-- The text bound to a name. The positional parameter has none, whatever the table holds. -/
def bound? (env : Environment) (name : String) : Option String :=
  if name = positional then none else env.bindings.bind fun bindings => bindings.find? name

def lookup (env : Environment) (name : String) : Option Binary64 :=
  if name = positional then some env.x else (env.bound? name).bind Bindings.number?

/-- What looking a variable up records: a text that is not a number. -/
def lookupRecords (env : Environment) (name : String) : List Record :=
  match env.bound? name with
  | none => []
  | some value =>
    if (Bindings.number? value).isSome then [] else [.notNumeric name value]

end Environment

/-- A place of the stack; a variable without a number leaves it empty. -/
abbrev Value := Option Binary64

namespace Operator

def apply (left right : Binary64) : Operator → Binary64
  | .add => left.add right
  | .subtract => left.sub right
  | .multiply => left.mul right
  | .divide => left.div right
  | .pow => left.pow right

def dividesByZero (left right : Value) (op : Operator) : Bool :=
  op = .divide && left.isSome && right.any Binary64.isZero

/-- An operator on places of the stack. Division by zero gives zero. -/
def onValues (left right : Value) (op : Operator) : Value :=
  if op.dividesByZero left right then some .zero
  else
    match left, right with
    | some left, some right => some (op.apply left right)
    | _, _ => none

end Operator

def UnaryFunction.apply (value : Binary64) : UnaryFunction → Binary64
  | .cos => value.cos
  | .sin => value.sin
  | .sqrt => value.sqrt
  | .zoom => value

def Extremum.apply (left right : Binary64) : Extremum → Binary64
  | .min => left.min right
  | .max => left.max right

/-- An extremum on places of the stack; an empty place gives way to the other one. -/
def Extremum.onValues (f : Extremum) : Value → Value → Value
  | some left, some right => some (f.apply left right)
  | some left, none => some left
  | none, right => right

namespace Directive

/-- The sprite after a directive, which needs a sprite and a value it can take. -/
def applyTo (value : Value) (sprite : Option Sprite) (d : Directive) : Option Sprite :=
  match value, sprite with
  | some value, some sprite => some ((d.write? sprite value).getD sprite)
  | _, sprite => sprite

/-- What a directive records when it writes nothing. -/
def records (value : Value) (sprite : Option Sprite) (d : Directive) : List Record :=
  match value, sprite with
  | none, _ => [.nothingWritten d]
  | some value, none => [.discarded d value]
  | some value, some sprite =>
    if (d.write? sprite value).isSome then [] else [.warning (.ignoredValue d value)]

end Directive

/-- The stack, its top first, and the sprite that is being written, if one is attached. -/
structure Machine where
  stack : List Value := []
  sprite : Option Sprite := none

namespace Machine

/-- The machine after one instruction, unless the stack holds too few values. -/
def step? (env : Environment) (machine : Machine) : Instruction → Option Machine
  | .constant value => some { machine with stack := some value :: machine.stack }
  | .var name => some { machine with stack := env.lookup name :: machine.stack }
  | .operator op =>
    match machine.stack with
    | right :: left :: stack =>
      some { machine with stack := op.onValues left right :: stack }
    | _ => none
  | .negative =>
    match machine.stack with
    | value :: stack => some { machine with stack := value.map Binary64.neg :: stack }
    | _ => none
  | .function (.unary f) =>
    match machine.stack with
    | value :: stack => some { machine with stack := value.map f.apply :: stack }
    | _ => none
  | .function (.extremum f) =>
    match machine.stack with
    | right :: left :: stack => some { machine with stack := f.onValues left right :: stack }
    | _ => none
  | .directive d =>
    match machine.stack with
    | value :: stack => some ⟨stack, d.applyTo value machine.sprite⟩
    | _ => none

/-- What an instruction records beside its own step. -/
def stepRecords (env : Environment) (position : Nat) (machine : Machine) :
    Instruction → List Record
  | .var name => env.lookupRecords name
  | .operator op =>
    match machine.stack with
    | right :: left :: _ =>
      if op.dividesByZero left right then [.warning (.divisionByZero position)] else []
    | _ => []
  | .directive d =>
    match machine.stack with
    | value :: _ => d.records value machine.sprite
    | _ => []
  | _ => []

end Machine

/-- How a run ends: the machine, what was recorded, and the underflow it stopped at, if any. -/
structure Outcome where
  machine : Machine
  records : List Record
  fault : Option Underflow

namespace Outcome

/-- The value on top of the stack, or the underflow. -/
def result (outcome : Outcome) : Except Underflow Value :=
  match outcome.fault with
  | some fault => .error fault
  | none => .ok outcome.machine.stack.head?.join

/-- The value on top of the stack, zero standing for an empty place or an empty stack. -/
def number (outcome : Outcome) : Except Underflow Binary64 :=
  outcome.result.map fun value => value.getD .zero

def warnings (outcome : Outcome) : List Warning := outcome.records.filterMap Record.warning?

end Outcome

namespace Program

/-- Runs the instructions from a position on. Each step is recorded before it is taken. -/
def execute (env : Environment) (position : Nat) (machine : Machine) : Program → Outcome
  | [] => ⟨machine, [], none⟩
  | i :: rest =>
    match machine.step? env i with
    | none => ⟨machine, [.step position i], some ⟨position, i⟩⟩
    | some next =>
      let outcome := execute env (position + 1) next rest
      { outcome with
        records := .step position i :: machine.stepRecords env position i ++ outcome.records }

/-- Runs a program on a machine. What an earlier run left on the stack is dropped first. Values left
under the top one are worth a record. -/
def runOn (env : Environment) (machine : Machine) (program : Program) : Outcome :=
  let outcome := program.execute env 0 { machine with stack := [] }
  let left := outcome.machine.stack.length
  if outcome.fault.isNone && 1 < left then
    { outcome with records := outcome.records ++ [.surplus left] }
  else outcome

def run (env : Environment) (sprite : Option Sprite) (program : Program) : Outcome :=
  program.runOn env { sprite := sprite }

def runAt (x : Binary64) (program : Program) : Outcome :=
  program.run { x } none

end Program

end SpriteFormula
