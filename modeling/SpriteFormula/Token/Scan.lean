import SpriteFormula.Text.Alphabetic
import SpriteFormula.Text.Lines
import SpriteFormula.Text.CharClass
import SpriteFormula.Token.Basic

/-!
Cutting a text into tokens. Every text has tokens: characters that belong to none are tokens of
their own kind, for the reader to refuse.
-/

namespace SpriteFormula

namespace Token

def isNameStart (c : Char) : Bool := Text.isAlphabetic c || c = '_'

def isNamePart (c : Char) : Bool := Text.isAlphabetic c || Text.isNumeric c || c = '_'

/-- Whether a character may continue a number. How many points a number may hold is not decided
here. -/
def isNumberPart (c : Char) : Bool := c.isDigit || c = '.'

/-- The kind of the token that starts with a character, and how many of the characters after it
belong to the token. A string that does not end is invalid and takes all that is left. -/
def measure (first : Char) (rest : List Char) : TokenKind × Nat :=
  if first = '+' then (.plus, 0)
  else if first = '-' then (.minus, 0)
  else if first = '*' then (.star, 0)
  else if first = '/' then (.slash, 0)
  else if first = '^' then (.caret, 0)
  else if first = '=' then (.assign, 0)
  else if first = '(' then (.leftParen, 0)
  else if first = ')' then (.rightParen, 0)
  else if first = '[' then (.leftBracket, 0)
  else if first = ']' then (.rightBracket, 0)
  else if first = ',' then (.comma, 0)
  else if first = '.' && !(rest.head?.any Char.isDigit) then (.period, 0)
  else if first = '"' then
    let body := (rest.takeWhile (· ≠ '"')).length
    if body < rest.length then (.string, body + 1) else (.invalid, rest.length)
  else if isNumberPart first then (.number, (rest.takeWhile isNumberPart).length)
  else if isNameStart first then (.identifier, (rest.takeWhile isNamePart).length)
  else (.invalid, 0)

/-- The tokens of a text whose first character stands at a byte offset. -/
def scanFrom (offset : Nat) (text : List Char) : List Token :=
  match text with
  | [] => []
  | c :: rest =>
    if Text.isBlank c then scanFrom (offset + c.utf8Size) rest
    else
      let (kind, count) := measure c rest
      let body := c :: rest.take count
      ⟨kind, String.ofList body, offset⟩ ::
        scanFrom (offset + Text.byteLength body) (rest.drop count)
termination_by text.length
decreasing_by
  · simp
  · simp only [List.length_drop, List.length_cons]; omega

def scan (text : String) : List Token := scanFrom 0 text.toList

/-- The tokens of a text and the one that closes it. -/
def tokenize (text : String) : List Token := scan text ++ [endOfInput text.utf8ByteSize]

end Token

end SpriteFormula
