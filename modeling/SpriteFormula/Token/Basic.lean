/-!
The tokens of formulas and declarations.
-/

namespace SpriteFormula

inductive TokenKind where
  | identifier
  | string
  | number
  | plus
  | minus
  | star
  | slash
  | caret
  | assign
  | leftParen
  | rightParen
  | leftBracket
  | rightBracket
  | comma
  | period
  | invalid
  | endOfInput
  deriving DecidableEq, Repr

/-- A token with its text as it stands in the source and the byte offset of its first character. -/
structure Token where
  kind : TokenKind
  text : String
  start : Nat
  deriving DecidableEq, Repr

/-- Whether a token of this kind can begin an operand other than a negation. Next to an operand it
stands for a product. -/
def TokenKind.startsOperand : TokenKind → Bool
  | .number | .identifier | .leftParen => true
  | _ => false

namespace Token

/-- The byte offset just past the token. -/
def stop (token : Token) : Nat := token.start + token.text.utf8ByteSize

/-- The token that closes an input of some length in bytes. -/
def endOfInput (length : Nat) : Token := ⟨.endOfInput, "", length⟩

/-- The name of a token in a message. -/
def shown (token : Token) : String :=
  if token.kind = .endOfInput then "<end of input>" else token.text

end Token

end SpriteFormula
