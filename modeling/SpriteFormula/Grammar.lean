import SpriteFormula.Binary64.Literal
import SpriteFormula.Expr
import SpriteFormula.Token.Basic

/-!
The grammar of formulas, as rules that do not say how a formula is read. Signs of one tier group
to the left, so that a sum is a shorter sum with one more product behind it.
-/

namespace SpriteFormula

namespace Grammar

inductive Symbol where
  | sum
  | product
  | factor
  | primary
  deriving DecidableEq, Repr

/-- The signs between products. -/
def additive : List (TokenKind × Operator) := [(.plus, .add), (.minus, .subtract)]

/-- The signs between factors; powers are one tier with products. -/
def multiplicative : List (TokenKind × Operator) :=
  [(.star, .multiply), (.slash, .divide), (.caret, .pow)]

def unaryNames : List (String × UnaryFunction) :=
  [("cos", .cos), ("sin", .sin), ("sqrt", .sqrt), ("zoom", .zoom)]

def extremumNames : List (String × Extremum) := [("min", .min), ("max", .max)]

def constantNames : List (String × Binary64) := [("pi", .pi), ("π", .pi), ("e", .e)]

/-- The next token does not open a parenthesis, so that a name in front of it is not called. -/
def NotCalled (rest : List Token) : Prop := ∀ next ∈ rest.head?, next.kind ≠ .leftParen

/-- The tokens in front of `rest` are of the symbol and stand for the tree. -/
inductive Derives : Symbol → List Token → Expr → List Token → Prop where
  | product {tokens tree rest} : Derives .product tokens tree rest → Derives .sum tokens tree rest
  | additive {tokens left sign middle op right rest} :
      Derives .sum tokens left (sign :: middle) → (sign.kind, op) ∈ additive →
      Derives .product middle right rest → Derives .sum tokens (.binary op left right) rest
  | factor {tokens tree rest} :
      Derives .factor tokens tree rest → Derives .product tokens tree rest
  | multiplicative {tokens left sign middle op right rest} :
      Derives .product tokens left (sign :: middle) → (sign.kind, op) ∈ multiplicative →
      Derives .factor middle right rest → Derives .product tokens (.binary op left right) rest
  /-- Two operands with no sign between them are multiplied. -/
  | adjacent {tokens left middle right rest} :
      Derives .product tokens left middle → Derives .primary middle right rest →
      Derives .product tokens (.binary .multiply left right) rest
  | primary {tokens tree rest} :
      Derives .primary tokens tree rest → Derives .factor tokens tree rest
  | negative {minus tokens operand rest} :
      minus.kind = .minus → Derives .factor tokens operand rest →
      Derives .factor (minus :: tokens) (.negative operand) rest
  | number {token value rest} :
      token.kind = .number → Binary64.ofText? token.text = some value →
      Derives .primary (token :: rest) (.constant value) rest
  | named {token value rest} :
      token.kind = .identifier → (token.text, value) ∈ constantNames → NotCalled rest →
      Derives .primary (token :: rest) (.constant value) rest
  | var {token rest} :
      token.kind = .identifier → token.text ∉ constantNames.map Prod.fst → NotCalled rest →
      Derives .primary (token :: rest) (.var token.text) rest
  | call {token opening tokens f argument closing rest} :
      token.kind = .identifier → (token.text, f) ∈ unaryNames → opening.kind = .leftParen →
      Derives .sum tokens argument (closing :: rest) → closing.kind = .rightParen →
      Derives .primary (token :: opening :: tokens) (.call f argument) rest
  | extremum {token opening tokens f left comma middle right closing rest} :
      token.kind = .identifier → (token.text, f) ∈ extremumNames → opening.kind = .leftParen →
      Derives .sum tokens left (comma :: middle) → comma.kind = .comma →
      Derives .sum middle right (closing :: rest) → closing.kind = .rightParen →
      Derives .primary (token :: opening :: tokens) (.extremum f left right) rest
  | parentheses {opening tokens tree closing rest} :
      opening.kind = .leftParen → Derives .sum tokens tree (closing :: rest) →
      closing.kind = .rightParen → Derives .primary (opening :: tokens) tree rest

end Grammar

end SpriteFormula
