import SpriteFormula.Binary64.Shortest
import SpriteFormula.Text.Quoted

/-!
The instructions of a program, which work on a stack of values, and what the other parts ask of
them: how many values they take and leave, how tightly they bind in source text, their kind.
-/

namespace SpriteFormula

inductive Operator where
  | add
  | subtract
  | multiply
  | divide
  | pow
  deriving DecidableEq, Repr

inductive UnaryFunction where
  | cos
  | sin
  | sqrt
  /-- Kept for a scaling convention of callers; leaves its argument alone. -/
  | zoom
  deriving DecidableEq, Repr

inductive Extremum where
  | min
  | max
  deriving DecidableEq, Repr

inductive Function where
  | unary (f : UnaryFunction)
  | extremum (f : Extremum)
  deriving DecidableEq, Repr

/-- Takes one value and writes it into the sprite. -/
inductive Directive where
  | direction
  | var (name : String)
  | hitboxTop
  | animation
  deriving DecidableEq, Repr

inductive Instruction where
  | constant (value : Binary64)
  | var (name : String)
  | operator (op : Operator)
  | negative
  | function (f : Function)
  | directive (d : Directive)
  deriving DecidableEq, Repr

/-- A sequence of instructions; an expression comes in postfix order. -/
abbrev Program := List Instruction

/-- How tightly a construct binds, the loosest first. -/
inductive Priority where
  | logical
  | compare
  | addSubtract
  | multiplyDivide
  | function
  | unary
  deriving DecidableEq, Repr

def Priority.rank : Priority → Nat
  | .logical => 0
  | .compare => 1
  | .addSubtract => 2
  | .multiplyDivide => 3
  | .function => 4
  | .unary => 5

/-- Instructions without their payloads. The two circle and growth constants and the positional
parameter are kinds of their own. -/
inductive Kind where
  | constant
  | pi
  | e
  | var
  | namedVar
  | add
  | subtract
  | multiply
  | divide
  | pow
  | negative
  | cos
  | sin
  | sqrt
  | min
  | max
  | zoom
  | spriteVar
  | spriteDirection
  | spriteAnimation
  | spriteHitboxTop
  deriving DecidableEq, Repr

def positional : String := "x"

namespace Operator

def kind : Operator → Kind
  | .add => .add
  | .subtract => .subtract
  | .multiply => .multiply
  | .divide => .divide
  | .pow => .pow

def priority : Operator → Priority
  | .add | .subtract => .addSubtract
  | .multiply | .divide | .pow => .multiplyDivide

end Operator

namespace Function

def kind : Function → Kind
  | .unary .cos => .cos
  | .unary .sin => .sin
  | .unary .sqrt => .sqrt
  | .unary .zoom => .zoom
  | .extremum .min => .min
  | .extremum .max => .max

def arity : Function → Nat
  | .unary _ => 1
  | .extremum _ => 2

def ofName? (name : String) : Option Function :=
  if name = "cos" then some (.unary .cos)
  else if name = "sin" then some (.unary .sin)
  else if name = "sqrt" then some (.unary .sqrt)
  else if name = "min" then some (.extremum .min)
  else if name = "max" then some (.extremum .max)
  else if name = "zoom" then some (.unary .zoom)
  else none

end Function

namespace Directive

def kind : Directive → Kind
  | .direction => .spriteDirection
  | .var _ => .spriteVar
  | .hitboxTop => .spriteHitboxTop
  | .animation => .spriteAnimation

/-- The value of a keyword that may stand for a direction. -/
def keywordValue? (name : String) : Option Binary64 :=
  if name = "LeftDirection" then some .zero
  else if name = "RightDirection" then some .one
  else none

/-- The keyword for a value that is exactly one's. -/
def keyword? (value : Binary64) : Option String :=
  if value.beq .zero then some "LeftDirection"
  else if value.beq .one then some "RightDirection"
  else none

def text : Directive → String
  | .direction => "SpriteDirection"
  | .var name => "SpriteVariable " ++ Text.quoted name
  | .hitboxTop => "SpriteHitboxTop"
  | .animation => "SpriteAnimation"

end Directive

namespace Kind

/-- All kinds, those of operands first and those of directives last. -/
def all : List Kind :=
  [.constant, .pi, .e, .var, .namedVar, .add, .subtract, .multiply, .divide, .pow,
    .negative, .cos, .sin, .sqrt, .min, .max, .zoom, .spriteVar, .spriteDirection,
    .spriteAnimation, .spriteHitboxTop]

/-- The spelling in formulas and declarations. Kinds that their payload spells have none. -/
def symbol? : Kind → Option String
  | .constant | .var | .namedVar | .spriteVar => none
  | .pi => some "pi"
  | .e => some "e"
  | .add => some "+"
  | .subtract => some "-"
  | .multiply => some "*"
  | .divide => some "/"
  | .pow => some "^"
  | .negative => some "-"
  | .cos => some "cos"
  | .sin => some "sin"
  | .sqrt => some "sqrt"
  | .min => some "min"
  | .max => some "max"
  | .zoom => some "zoom"
  | .spriteDirection => some "sprite.Direction"
  | .spriteAnimation => some "sprite.Animation"
  | .spriteHitboxTop => some "sprite.Hitbox.Top"

end Kind

namespace Instruction

/-- The kind of a constant: the two named constants by their exact bits. -/
def constantKind (value : Binary64) : Kind :=
  if value = .pi then .pi else if value = .e then .e else .constant

def kind : Instruction → Kind
  | .constant value => constantKind value
  | .var name => if name = positional then .var else .namedVar
  | .operator op => op.kind
  | .negative => .negative
  | .function f => f.kind
  | .directive d => d.kind

/-- The priority of the construct that the instruction ends; operands have none. -/
def priority? : Instruction → Option Priority
  | .constant _ | .var _ => none
  | .operator op => some op.priority
  | .negative => some .unary
  | .function _ => some .function
  | .directive _ => some .logical

/-- How many values the instruction takes from the stack. -/
def arity : Instruction → Nat
  | .constant _ | .var _ => 0
  | .operator _ => 2
  | .negative => 1
  | .function f => f.arity
  | .directive _ => 1

/-- A stack that holds all that an instruction takes has the taken values on top. -/
@[elab_as_elim]
theorem enough_cases {α : Type}
    {motive : (i : Instruction) → (stack : List α) → i.arity ≤ stack.length → Prop}
    (constant : ∀ value stack, motive (.constant value) stack (Nat.zero_le _))
    (var : ∀ name stack, motive (.var name) stack (Nat.zero_le _))
    (operator : ∀ op right left stack,
      motive (.operator op) (right :: left :: stack) (Nat.le_add_left 2 stack.length))
    (negative : ∀ value stack, motive .negative (value :: stack) (Nat.le_add_left 1 stack.length))
    (unary : ∀ f value stack,
      motive (.function (.unary f)) (value :: stack) (Nat.le_add_left 1 stack.length))
    (extremum : ∀ f right left stack,
      motive (.function (.extremum f)) (right :: left :: stack) (Nat.le_add_left 2 stack.length))
    (directive : ∀ d value stack,
      motive (.directive d) (value :: stack) (Nat.le_add_left 1 stack.length))
    {i : Instruction} {stack : List α} (h : i.arity ≤ stack.length) : motive i stack h := by
  cases i with
  | constant value => exact constant value stack
  | var name => exact var name stack
  | operator op =>
    match stack, h with
    | right :: left :: stack, _ => exact operator op right left stack
  | negative =>
    match stack, h with
    | value :: stack, _ => exact negative value stack
  | function f =>
    cases f with
    | unary f =>
      match stack, h with
      | value :: stack, _ => exact unary f value stack
    | extremum f =>
      match stack, h with
      | right :: left :: stack, _ => exact extremum f right left stack
  | directive d =>
    match stack, h with
    | value :: stack, _ => exact directive d value stack

/-- A stack that holds less than an instruction takes is empty, or it holds one value of two. -/
@[elab_as_elim]
theorem short_cases {α : Type}
    {motive : (i : Instruction) → (stack : List α) → stack.length < i.arity → Prop}
    (operator : ∀ op, motive (.operator op) [] Nat.zero_lt_two)
    (operand : ∀ op value, motive (.operator op) [value] Nat.one_lt_two)
    (negative : motive .negative [] Nat.zero_lt_one)
    (unary : ∀ f, motive (.function (.unary f)) [] Nat.zero_lt_one)
    (extremum : ∀ f, motive (.function (.extremum f)) [] Nat.zero_lt_two)
    (argument : ∀ f value, motive (.function (.extremum f)) [value] Nat.one_lt_two)
    (directive : ∀ d, motive (.directive d) [] Nat.zero_lt_one)
    {i : Instruction} {stack : List α} (h : stack.length < i.arity) : motive i stack h := by
  cases i with
  | constant value => exact absurd h (Nat.not_lt_zero _)
  | var name => exact absurd h (Nat.not_lt_zero _)
  | operator op =>
    match stack, h with
    | [], _ => exact operator op
    | [value], _ => exact operand op value
  | negative =>
    match stack, h with
    | [], _ => exact negative
  | function f =>
    cases f with
    | unary f =>
      match stack, h with
      | [], _ => exact unary f
    | extremum f =>
      match stack, h with
      | [], _ => exact extremum f
      | [value], _ => exact argument f value
  | directive d =>
    match stack, h with
    | [], _ => exact directive d

/-- Whether the instruction leaves a value on the stack. -/
def pushes : Instruction → Bool
  | .directive _ => false
  | _ => true

/-- The instruction in a listing. -/
def text : Instruction → String
  | .constant value => "Constant " ++ value.text
  | .var name => "Variable " ++ name
  | .operator .add => "Add"
  | .operator .subtract => "Subtract"
  | .operator .multiply => "Multiply"
  | .operator .divide => "Divide"
  | .operator .pow => "Pow"
  | .negative => "Negative"
  | .function (.unary .cos) => "Cos"
  | .function (.unary .sin) => "Sin"
  | .function (.unary .sqrt) => "Sqrt"
  | .function (.unary .zoom) => "Zoom"
  | .function (.extremum .min) => "Min"
  | .function (.extremum .max) => "Max"
  | .directive d => d.text

end Instruction

end SpriteFormula
