import SpriteFormula.Instruction
import SpriteFormula.Location
import SpriteFormula.Token.Basic

/-!
Why a text is not a formula or declaration, and where.
-/

namespace SpriteFormula

inductive Issue where
  | missingExpression
  | missingOperand
  | emptyParentheses
  | unclosedArguments
  | strayToken
  | strayClosing
  | unclosedParenthesis
  | badNumber
  | unknownFunction
  | wrongArgumentCount (f : Function) (name : String)
  deriving DecidableEq, Repr

def Issue.message (issue : Issue) (token : String) : String :=
  match issue with
  | .missingExpression => expected "an expression"
  | .missingOperand => expected "an operand"
  | .emptyParentheses => expected "an expression inside '()'"
  | .unclosedArguments => expected "')' to close the argument list"
  | .strayToken => "unexpected token '" ++ token ++ "'"
  | .badNumber => "unexpected number '" ++ token ++ "'"
  | .unknownFunction => "undefined function '" ++ token ++ "'"
  | .strayClosing => "mismatched ')' without a matching '('"
  | .unclosedParenthesis => "mismatched '(' without a matching ')'"
  | .wrongArgumentCount f name =>
    "'" ++ name ++ "' takes " ++ toString f.arity ++
      if f.arity = 1 then " argument" else " arguments"
where
  expected (what : String) : String := "expected " ++ what ++ " got '" ++ token ++ "'"

/-- The place of an issue and the token found there, as it is shown. An open parenthesis that is
never closed is placed at the parenthesis, the token being the one found instead of its end. -/
structure ParseError where
  location : Location
  token : String
  issue : Issue
  deriving DecidableEq, Repr

def ParseError.content (error : ParseError) : String := error.issue.message error.token

def ParseError.message (error : ParseError) : String :=
  error.location.text ++ ": " ++ error.content

end SpriteFormula
