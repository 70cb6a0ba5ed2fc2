import SpriteFormula.Grammar
import SpriteFormula.Profile
import SpriteFormula.Token.Scan

/-!
The grammar of formulas in the words of a target language. The tiers and their signs are those of
formulas. A language has names of its own, which may have a period in them, it may call powers by a
name instead of writing a sign between their operands, and it may write something behind a number
that is not whole.
-/

namespace SpriteFormula

/-- What a name of two arguments stands for. -/
inductive PairFunction where
  | extremum (f : Extremum)
  | power
  deriving DecidableEq, Repr

def PairFunction.tree (left right : Expr) : PairFunction → Expr
  | .extremum f => .extremum f left right
  | .power => .binary .pow left right

/-- The words of a language. -/
structure Dialect where
  unaryNames : List (String × UnaryFunction)
  pairNames : List (String × PairFunction)
  constantNames : List (String × Binary64)
  /-- Follows a number that is not whole. -/
  suffix? : Option String := none

namespace Dialect

/-- The words of formulas. -/
def formulas : Dialect where
  unaryNames := Grammar.unaryNames
  pairNames := Grammar.extremumNames.map fun (name, f) => (name, .extremum f)
  constantNames := Grammar.constantNames

def names (dialect : Dialect) : List String :=
  dialect.unaryNames.map Prod.fst ++ dialect.pairNames.map Prod.fst ++
    dialect.constantNames.map Prod.fst

/-! ### Names with a period -/

def dotted (first second : Token) : String := first.text ++ "." ++ second.text

/-- Whether three tokens with nothing between them are a name of the language. -/
def joins (dialect : Dialect) (first period second : Token) : Bool :=
  first.kind = .identifier && period.kind = .period && second.kind = .identifier &&
    period.start = first.stop && second.start = period.stop &&
    dialect.names.contains (dotted first second)

/-- The tokens, of which those of a name of the language are one. -/
def joined (dialect : Dialect) : List Token → List Token
  | first :: period :: second :: rest =>
    if dialect.joins first period second then
      ⟨.identifier, dotted first second, first.start⟩ :: dialect.joined rest
    else first :: dialect.joined (period :: second :: rest)
  | tokens => tokens

/-- The tokens of a text whose first character stands at a byte offset. -/
def scanFrom (dialect : Dialect) (offset : Nat) (text : List Char) : List Token :=
  dialect.joined (Token.scanFrom offset text)

def scan (dialect : Dialect) (text : String) : List Token := dialect.scanFrom 0 text.toList

/-! ### Rules -/

def callsPowers (dialect : Dialect) : Bool := dialect.pairNames.any fun name => name.2 = .power

/-- The signs between factors. Where powers are called they have none. -/
def multiplicative (dialect : Dialect) : List (TokenKind × Operator) :=
  Grammar.multiplicative.filter fun sign => sign.2 ≠ .pow || !dialect.callsPowers

/-- What a name stands for that is not called. -/
def named (dialect : Dialect) (name : String) : Expr :=
  match dialect.constantNames.lookup name with
  | some value => .constant value
  | none => .var name

/-- What has to follow a number that ends at a byte offset. -/
def suffixTokens (dialect : Dialect) (value : Binary64) (stop : Nat) : List Token :=
  if value.hasFraction then dialect.suffix?.toList.map fun suffix => ⟨.identifier, suffix, stop⟩
  else []

/-- The tokens in front of `rest` are of the symbol and stand for the tree. -/
inductive Derives (dialect : Dialect) :
    Grammar.Symbol → List Token → Expr → List Token → Prop where
  | product {tokens tree rest} :
      dialect.Derives .product tokens tree rest → dialect.Derives .sum tokens tree rest
  | additive {tokens left sign middle op right rest} :
      dialect.Derives .sum tokens left (sign :: middle) → (sign.kind, op) ∈ Grammar.additive →
      dialect.Derives .product middle right rest →
      dialect.Derives .sum tokens (.binary op left right) rest
  | factor {tokens tree rest} :
      dialect.Derives .factor tokens tree rest → dialect.Derives .product tokens tree rest
  | multiplicative {tokens left sign middle op right rest} :
      dialect.Derives .product tokens left (sign :: middle) →
      (sign.kind, op) ∈ dialect.multiplicative → dialect.Derives .factor middle right rest →
      dialect.Derives .product tokens (.binary op left right) rest
  | adjacent {tokens left middle right rest} :
      dialect.Derives .product tokens left middle → dialect.Derives .primary middle right rest →
      dialect.Derives .product tokens (.binary .multiply left right) rest
  | primary {tokens tree rest} :
      dialect.Derives .primary tokens tree rest → dialect.Derives .factor tokens tree rest
  | negative {minus tokens operand rest} :
      minus.kind = .minus → dialect.Derives .factor tokens operand rest →
      dialect.Derives .factor (minus :: tokens) (.negative operand) rest
  | number {token after value rest} :
      token.kind = .number → Binary64.ofText? token.text = some value →
      after = dialect.suffixTokens value token.stop ++ rest →
      dialect.Derives .primary (token :: after) (.constant value) rest
  | name {token rest} :
      token.kind = .identifier → Grammar.NotCalled rest →
      dialect.Derives .primary (token :: rest) (dialect.named token.text) rest
  | call {token opening tokens f argument closing rest} :
      token.kind = .identifier → dialect.unaryNames.lookup token.text = some f →
      opening.kind = .leftParen → dialect.Derives .sum tokens argument (closing :: rest) →
      closing.kind = .rightParen →
      dialect.Derives .primary (token :: opening :: tokens) (.call f argument) rest
  | pair {token opening tokens f left comma middle right closing rest} :
      token.kind = .identifier → dialect.pairNames.lookup token.text = some f →
      opening.kind = .leftParen → dialect.Derives .sum tokens left (comma :: middle) →
      comma.kind = .comma → dialect.Derives .sum middle right (closing :: rest) →
      closing.kind = .rightParen →
      dialect.Derives .primary (token :: opening :: tokens) (f.tree left right) rest
  | parentheses {opening tokens tree closing rest} :
      opening.kind = .leftParen → dialect.Derives .sum tokens tree (closing :: rest) →
      closing.kind = .rightParen → dialect.Derives .primary (opening :: tokens) tree rest

/-- A text that is one identifier and not the name of a constant. -/
def NamesVariable (dialect : Dialect) (name : String) : Prop :=
  Token.scan name = [⟨.identifier, name, 0⟩] ∧ name ∉ dialect.constantNames.map Prod.fst

end Dialect

/-- An instruction of an expression that the language can express. -/
def Instruction.WritableIn (dialect : Dialect) : Instruction → Prop
  | .constant value => value.isFinite
  | .var name => dialect.NamesVariable name
  | .directive _ => False
  | _ => True

/-! ### Languages -/

/-- The words that a profile spells. Powers are called where they are displayed as calls. -/
def Profile.dialect (profile : Profile) : Dialect where
  unaryNames := [.cos, .sin, .sqrt, .zoom].filterMap fun f =>
    (profile.spelling? (Function.unary f).kind).map (·, f)
  pairNames :=
    ([.min, .max].filterMap fun f =>
      (profile.spelling? (Function.extremum f).kind).map (·, .extremum f)) ++
    if profile.priority? (.operator .pow) = some .function then
      (profile.spelling? .pow).toList.map (·, .power)
    else []
  constantNames := [(.pi, .pi), (.e, .e)].filterMap fun (kind, value) =>
    (profile.spelling? kind).map (·, value)
  suffix? := profile.floatSuffix

/-- Formulas have a second name of a constant, which is never written. -/
def Language.dialect : Language → Dialect
  | .generic => .formulas
  | language => language.profile.dialect

example : (Language.javaScript.dialect.scan "Math.cos(Math)").map Token.text =
    ["Math.cos", "(", "Math", ")"] := by
  decide +kernel

end SpriteFormula
