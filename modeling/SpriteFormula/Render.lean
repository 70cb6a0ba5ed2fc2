import SpriteFormula.Outline
import SpriteFormula.Profile

/-!
Rendering programs as source text of a target language: a line for each assignment, and the
expression that is left, if there is one. Parentheses stand only where the text would be read
differently without them.
-/

namespace SpriteFormula

/-- Source text of an expression and the priority of its outermost construct; names, calls aside,
and numbers without a sign have none. -/
structure Fragment where
  text : List Char
  priority : Option Priority
  deriving DecidableEq, Repr

namespace Fragment

def parenthesized (fragment : Fragment) (needed : Bool) : List Char :=
  if needed then '(' :: fragment.text ++ [')'] else fragment.text

/-- Whether the text binds less tightly than a construct around it. -/
def isLooser (fragment : Fragment) (than : Priority) : Bool :=
  fragment.priority.any fun priority => priority.rank < than.rank

/-- Whether the text binds no more tightly than a construct around it. -/
def isNoTighter (fragment : Fragment) (than : Priority) : Bool :=
  fragment.priority.any fun priority => priority.rank ≤ than.rank

/-- A sign in front of its operand. A text that starts with a minus sign does not follow it
directly. -/
def behind (name : List Char) (priority : Priority) (operand : Fragment) : Fragment :=
  let needed := operand.isLooser .function || operand.text.head? = some '-'
  ⟨name ++ operand.parenthesized needed, some priority⟩

/-- A sign between its operands, which group to the left. -/
def around (name : List Char) (priority : Priority) (left right : Fragment) : Fragment :=
  ⟨left.parenthesized (left.isLooser priority) ++ ' ' :: name ++
    ' ' :: right.parenthesized (right.isNoTighter priority), some priority⟩

def call (name : List Char) (arguments : List Fragment) : Fragment :=
  ⟨name ++ '(' :: [',', ' '].intercalate (arguments.map Fragment.text) ++ [')'], some .function⟩

end Fragment

namespace Profile

/-- The spelling and priority of the construct that an instruction ends. -/
def construct (profile : Profile) (i : Instruction) : List Char × Priority :=
  (((profile.spelling? i.kind).getD "").toList, (profile.priority? i).getD .function)

def apply (profile : Profile) (i : Instruction) (operand : Fragment) : Fragment :=
  match profile.construct i with
  | (name, .function) => .call name [operand]
  | (name, priority) => .behind name priority operand

def apply₂ (profile : Profile) (i : Instruction) (left right : Fragment) : Fragment :=
  match profile.construct i with
  | (name, .function) => .call name [left, right]
  | (name, priority) => .around name priority left right

/-- A constant by its spelling, or else a literal. -/
def literal (profile : Profile) (value : Binary64) : Fragment :=
  match profile.spelling? (Instruction.constantKind value) with
  | some spelling => ⟨spelling.toList, none⟩
  | none =>
    let suffix := if value.hasFraction then profile.floatSuffix.getD "" else ""
    ⟨value.text.toList ++ suffix.toList, if value.isNegative then some .unary else none⟩

/-- Only finite numbers have literals. -/
def refuse (profile : Profile) (value : Binary64) : Option EncodeError :=
  if (profile.spelling? (Instruction.constantKind value)).isNone && !value.isFinite then
    some (.noLiteral value profile.name)
  else none

def layout (profile : Profile) : Expr → Fragment
  | .constant value => profile.literal value
  | .var name => ⟨name.toList, none⟩
  | .binary op left right =>
    profile.apply₂ (.operator op) (profile.layout left) (profile.layout right)
  | .negative operand => profile.apply .negative (profile.layout operand)
  | .call f argument => profile.apply (.function (.unary f)) (profile.layout argument)
  | .extremum f left right =>
    profile.apply₂ (.function (.extremum f)) (profile.layout left) (profile.layout right)

def target (profile : Profile) (d : Directive) : String :=
  match d with
  | .var name => "sprite.Variables[" ++ Text.quoted name ++ "]"
  | d => (profile.spelling? d.kind).getD ""

/-- The keyword for a constant that is written to the direction. -/
def directionKeyword? (statement : Statement) : Option String :=
  match statement.directive, statement.value with
  | .direction, .constant value => Directive.keyword? value
  | _, _ => none

def assignedText (profile : Profile) (statement : Statement) : List Char :=
  match directionKeyword? statement with
  | some keyword => keyword.toList
  | none => (profile.layout statement.value).text

def statementLine (profile : Profile) (statement : Statement) : List Char :=
  (profile.target statement.directive).toList ++ [' ', '=', ' '] ++
    profile.assignedText statement ++ profile.statementEnd.toList

end Profile

namespace Program

def render (profile : Profile) (program : Program) : Except Fault String :=
  match Outline.readFrom profile.refuse 0 [] program with
  | .error fault => .error fault
  | .ok ⟨statements, values⟩ =>
    if 1 < values.length then .error (.stack (.unbalanced values.length))
    else
      let lines := statements.map profile.statementLine ++
        values.map fun value => (profile.layout value).text
      .ok (String.ofList (['\n'].intercalate lines))

end Program

end SpriteFormula
