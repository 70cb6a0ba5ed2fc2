import SpriteFormula.Formula
import SpriteFormula.Token.Cursor

/-!
Reading a formula with a cursor, token by token. What comes next is looked at with a copy of the
cursor. Nothing here says that reading ends: expressions are only read inside of one another up to a
limit, and a loop goes round up to another one. Coming to a limit would be an outcome of its own,
and so would be a token whose bytes are no slice of the text.
-/

namespace SpriteFormula

/-- A formula that stands in a text from a byte offset on. -/
structure Piece where
  whole : String
  offset : Nat
  content : List Char
  deriving DecidableEq, Repr

/-- The formula that is a whole text. -/
def Piece.ofText (text : String) : Piece := ⟨text, 0, text.toList⟩

/-- A cursor in a formula, and what was emitted on the way to it. -/
structure FormulaReader where
  cursor : Cursor
  emitted : Program
  deriving DecidableEq, Repr

/-- How an attempt to read ends: with the reader behind what is read, with an error, at a token that
is not in the text, or at a limit. -/
inductive Attempt where
  | read (next : FormulaReader)
  | refused (error : ParseError)
  | outside
  | exceeded
  deriving DecidableEq, Repr

def Attempt.andThen (attempt : Attempt) (more : FormulaReader → Attempt) : Attempt :=
  match attempt with
  | .read next => more next
  | .refused error => .refused error
  | .outside => .outside
  | .exceeded => .exceeded

/-- What was read or refused, if reading came to an end. -/
def Attempt.result? : Attempt → Option (Except ParseError Program)
  | .read next => some (.ok next.emitted)
  | .refused error => some (.error error)
  | .outside => none
  | .exceeded => none

namespace Piece

/-- The name of a lexeme in a message, if its bytes are a slice of the formula. -/
def shown? (piece : Piece) (lexeme : Lexeme) : Option String :=
  if lexeme.kind = .endOfInput then some "<end of input>"
  else (Text.slice? piece.content lexeme.start lexeme.stop).map String.ofList

/-- An error at the place of one lexeme that shows another one. -/
def refuse (piece : Piece) (issue : Issue) (place found : Lexeme) : Attempt :=
  match piece.shown? found with
  | none => .outside
  | some token => .refused ⟨.of piece.whole (piece.offset + place.start), token, issue⟩

end Piece

namespace FormulaReader

def start (piece : Piece) : FormulaReader := ⟨.start piece.content, []⟩

def peek (r : FormulaReader) : Lexeme := r.cursor.next.1

def take (r : FormulaReader) : FormulaReader := { r with cursor := r.cursor.next.2 }

def emit (i : Instruction) (r : FormulaReader) : FormulaReader :=
  { r with emitted := r.emitted ++ [i] }

@[simp] theorem take_emitted (r : FormulaReader) : r.take.emitted = r.emitted := rfl

@[simp] theorem emit_emitted (i : Instruction) (r : FormulaReader) :
    (r.emit i).emitted = r.emitted ++ [i] := rfl

/-- The operator that goes on with an expression, and the reader in front of its right operand. -/
def continuation? (r : FormulaReader) : Option (Operator × FormulaReader) :=
  match r.peek.kind.sign? with
  | some op => some (op, r.take)
  | none => if r.peek.kind.startsOperand then some (.multiply, r) else none

section

-- the expressions inside of the one that is read are left to `inner`
variable (piece : Piece) (inner : Option Priority → FormulaReader → Attempt)

def number (r : FormulaReader) : Attempt :=
  match piece.shown? r.peek with
  | none => .outside
  | some literal =>
    match Binary64.ofText? literal with
    | none => piece.refuse .badNumber r.peek r.peek
    | some value => .read (r.take.emit (.constant value))

def negative (r : FormulaReader) : Attempt :=
  (inner (some .unary) r.take).andThen fun behind => .read (behind.emit .negative)

def parentheses (r : FormulaReader) : Attempt :=
  if r.take.peek.kind = .rightParen then piece.refuse .emptyParentheses r.take.peek r.take.peek
  else
    (inner none r.take).andThen fun behind =>
      if behind.peek.kind = .rightParen then .read behind.take
      else piece.refuse .unclosedParenthesis r.peek behind.peek

def argument (f : Function) (name : String) (r : FormulaReader) : Attempt :=
  if r.peek.kind = .rightParen then piece.refuse (.wrongArgumentCount f name) r.peek r.peek
  else inner none r

def moreArguments (f : Function) (name : String) : (count : Nat) → FormulaReader → Attempt
  | 0, r => .read r
  | count + 1, r =>
    if r.peek.kind = .comma then
      (argument piece inner f name r.take).andThen (moreArguments f name count)
    else piece.refuse (.wrongArgumentCount f name) r.peek r.peek

def closeCall (f : Function) (name : String) (r : FormulaReader) : Attempt :=
  match r.peek.kind with
  | .rightParen => .read (r.take.emit (.function f))
  | .comma => piece.refuse (.wrongArgumentCount f name) r.peek r.peek
  | _ => piece.refuse .unclosedArguments r.peek r.peek

/-- The arguments of a call, from their open parenthesis on. -/
def call (name : Lexeme) (word : String) (r : FormulaReader) : Attempt :=
  match Function.ofName? word with
  | none => piece.refuse .unknownFunction name name
  | some f =>
    (argument piece inner f word r.take).andThen fun first =>
      (moreArguments piece inner f word (f.arity - 1) first).andThen (closeCall piece f word)

def identifier (r : FormulaReader) : Attempt :=
  match piece.shown? r.peek with
  | none => .outside
  | some word =>
    if r.take.peek.kind = .leftParen then call piece inner r.peek word r.take
    else .read (r.take.emit (.ofName word))

def operand (r : FormulaReader) : Attempt :=
  match r.peek.kind with
  | .minus => negative inner r
  | .leftParen => parentheses piece inner r
  | .number => number piece r
  | .identifier => identifier piece inner r
  | .endOfInput => piece.refuse .missingOperand r.peek r.peek
  | .rightParen => piece.refuse .strayClosing r.peek r.peek
  | _ => piece.refuse .strayToken r.peek r.peek

/-- One round of the loop behind an operand. There is none where the loop is left. -/
def round? (enclosing : Option Priority) (r : FormulaReader) : Option Attempt :=
  match r.continuation? with
  | none => none
  | some (op, next) =>
    if op.priority.yieldsTo enclosing then none
    else
      some ((inner (some op.priority) next).andThen fun behind => .read (behind.emit (.operator op)))

/-- Goes round the loop until it is left, up to a number of times. -/
def climb (enclosing : Option Priority) : (rounds : Nat) → FormulaReader → Attempt
  | 0, _ => .exceeded
  | rounds + 1, r =>
    match round? inner enclosing r with
    | none => .read r
    | some attempt => attempt.andThen (climb enclosing rounds)

end

/-- An expression, inside of which others are read up to a depth. -/
def expression (piece : Piece) (rounds : Nat) :
    (depth : Nat) → Option Priority → FormulaReader → Attempt
  | 0, _, _ => .exceeded
  | depth + 1, enclosing, r =>
    (operand piece (expression piece rounds depth) r).andThen
      (climb (expression piece rounds depth) enclosing rounds)

def expectEnd (piece : Piece) (r : FormulaReader) : Attempt :=
  match r.peek.kind with
  | .endOfInput => .read r.take
  | .rightParen => piece.refuse .strayClosing r.peek r.peek
  | _ => piece.refuse .strayToken r.peek r.peek

/-- The whole of a formula. -/
def formula (piece : Piece) (rounds depth : Nat) : Attempt :=
  if (start piece).peek.kind = .endOfInput then
    piece.refuse .missingExpression (start piece).peek (start piece).peek
  else (expression piece rounds depth none (start piece)).andThen (expectEnd piece)

end FormulaReader

end SpriteFormula
