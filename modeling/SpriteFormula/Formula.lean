import SpriteFormula.ParseError
import SpriteFormula.Token.Scan

/-!
Reading formulas. The reader goes through the tokens once and emits instructions as it goes, the
operands of a sign before the sign. How far an operand reaches is decided by the priority of the
construct around it. An operand directly after another is multiplied with it, and a minus sign
takes one operand.
-/

namespace SpriteFormula

/-- Why reading stopped: the issue, the tokens from the place it is reported at, and the tokens
from the one that was found. -/
structure Refusal where
  issue : Issue
  place : List Token
  found : List Token
  deriving DecidableEq, Repr

def Refusal.here (issue : Issue) (tokens : List Token) : Refusal := ⟨issue, tokens, tokens⟩

/-- The refusal as an error of a whole text. The tokens are those of a piece of the text that
starts at a byte offset and has a length in bytes. -/
def Refusal.locate (refusal : Refusal) (text : String) (offset length : Nat) : ParseError :=
  let first (tokens : List Token) : Token := tokens.head?.getD (.endOfInput length)
  ⟨.of text (offset + (first refusal.place).start), (first refusal.found).shown, refusal.issue⟩

/-- What the front of `n` tokens emitted, and the tokens left, which are fewer. -/
structure Parsed (n : Nat) where
  emitted : Program
  rest : List Token
  shorter : rest.length < n

/-- The operator that a token between two operands is the sign of. -/
def TokenKind.sign? : TokenKind → Option Operator
  | .plus => some .add
  | .minus => some .subtract
  | .star => some .multiply
  | .slash => some .divide
  | .caret => some .pow
  | _ => none

/-- Whether an operator is left to the construct around it, which binds no less tightly. -/
def Priority.yieldsTo (priority : Priority) (enclosing : Option Priority) : Bool :=
  enclosing.any fun around => priority.rank ≤ around.rank

/-- The instruction for a name that is not called. -/
def Instruction.ofName (name : String) : Instruction :=
  if name = "pi" ∨ name = "π" then .constant .pi
  else if name = "e" then .constant .e
  else .var name

namespace Formula

def startsWith (kind : TokenKind) (tokens : List Token) : Bool :=
  tokens.head?.any fun token => token.kind = kind

def closeCall {n : Nat} (f : Function) (name : String) (read : Parsed n) :
    Except Refusal (Parsed n) :=
  match h : read.rest with
  | [] => .error (.here .unclosedArguments [])
  | token :: rest =>
    if token.kind = .rightParen then
      .ok ⟨read.emitted ++ [.function f], rest, by have := read.shorter; simp_all; omega⟩
    else if token.kind = .comma then
      .error (.here (.wrongArgumentCount f name) (token :: rest))
    else .error (.here .unclosedArguments (token :: rest))

/-- The operator that goes on with an expression, and the tokens of its right operand. Where
another operand starts there is no sign, and the two are multiplied. -/
def continuation? : List Token → Option (Operator × List Token)
  | [] => none
  | token :: rest =>
    match token.kind.sign? with
    | some op => some (op, rest)
    | none => if token.kind.startsOperand then some (.multiply, token :: rest) else none

theorem length_of_continuation {tokens next : List Token} {op : Operator}
    (h : continuation? tokens = some (op, next)) : next.length ≤ tokens.length := by
  cases tokens with
  | nil => cases h
  | cons token rest =>
    rw [continuation?] at h
    split at h
    · cases h; simp
    · split at h
      · cases h; simp
      · cases h

def number (token : Token) (rest : List Token) : Except Refusal (Parsed (rest.length + 1)) :=
  match Binary64.ofText? token.text with
  | none => .error (.here .badNumber (token :: rest))
  | some value => .ok ⟨[.constant value], rest, by simp⟩

mutual

/-- An operand, and the operators after it that bind more tightly than the construct around
them. -/
def expression (enclosing : Option Priority) (tokens : List Token) :
    Except Refusal (Parsed tokens.length) :=
  match operand tokens with
  | .error refusal => .error refusal
  | .ok first => climb enclosing first
termination_by 3 * tokens.length + 2
decreasing_by
  · omega
  · have := first.shorter; omega

/-- Goes on with an expression after what is read of it so far. -/
def climb {n : Nat} (enclosing : Option Priority) (left : Parsed n) : Except Refusal (Parsed n) :=
  match h : continuation? left.rest with
  | none => .ok left
  | some (op, next) =>
    if op.priority.yieldsTo enclosing then .ok left
    else
      match expression (some op.priority) next with
      | .error refusal => .error refusal
      | .ok right =>
        climb enclosing ⟨left.emitted ++ right.emitted ++ [.operator op], right.rest, by
          have := left.shorter; have := right.shorter; have := length_of_continuation h
          omega⟩
termination_by 3 * left.rest.length + 3
decreasing_by
  · have := length_of_continuation h; omega
  · have := right.shorter; have := length_of_continuation h; omega

/-- A number, a name, a call, an operand behind a minus sign or an expression between
parentheses. -/
def operand (tokens : List Token) : Except Refusal (Parsed tokens.length) :=
  match tokens with
  | [] => .error (.here .missingOperand [])
  | token :: rest =>
    match token.kind with
    | .minus => negative rest
    | .leftParen => parentheses token rest
    | .number => number token rest
    | .identifier => identifier token rest
    | .rightParen => .error (.here .strayClosing (token :: rest))
    | _ => .error (.here .strayToken (token :: rest))
termination_by 3 * tokens.length + 1
decreasing_by all_goals rw [List.length_cons]; omega

/-- The operand of a minus sign, which no operator is tight enough to be part of. -/
def negative (tokens : List Token) : Except Refusal (Parsed (tokens.length + 1)) :=
  match expression (some .unary) tokens with
  | .error refusal => .error refusal
  | .ok inner => .ok ⟨inner.emitted ++ [.negative], inner.rest, by have := inner.shorter; omega⟩
termination_by 3 * tokens.length + 3
decreasing_by omega

/-- The expression behind an open parenthesis, up to the end of the pair. -/
def parentheses (opening : Token) (tokens : List Token) :
    Except Refusal (Parsed (tokens.length + 1)) :=
  if startsWith .rightParen tokens then .error (.here .emptyParentheses tokens)
  else
    match expression none tokens with
    | .error refusal => .error refusal
    | .ok inner =>
      match h : inner.rest with
      | [] => .error ⟨.unclosedParenthesis, opening :: tokens, []⟩
      | closing :: rest =>
        if closing.kind = .rightParen then
          .ok ⟨inner.emitted, rest, by have := inner.shorter; simp_all; omega⟩
        else .error ⟨.unclosedParenthesis, opening :: tokens, closing :: rest⟩
termination_by 3 * tokens.length + 3
decreasing_by omega

/-- A name, which is called if a parenthesis follows. -/
def identifier (name : Token) (tokens : List Token) :
    Except Refusal (Parsed (tokens.length + 1)) :=
  match tokens with
  | [] => .ok ⟨[.ofName name.text], [], by simp⟩
  | opening :: rest =>
    if opening.kind = .leftParen then
      match Function.ofName? name.text with
      | none => .error (.here .unknownFunction (name :: opening :: rest))
      | some f =>
        match argument f name.text rest with
        | .error refusal => .error refusal
        | .ok first =>
          match moreArguments f name.text (f.arity - 1) first with
          | .error refusal => .error refusal
          | .ok call => .ok ⟨call.emitted, call.rest, by have := call.shorter; simp; omega⟩
    else .ok ⟨[.ofName name.text], opening :: rest, by simp⟩
termination_by 3 * tokens.length + 3
decreasing_by
  · rw [List.length_cons]; omega
  · have := first.shorter; rw [List.length_cons]; omega

/-- An argument of a call. Where a parenthesis closes instead, there is one too few. -/
def argument (f : Function) (name : String) (tokens : List Token) :
    Except Refusal (Parsed tokens.length) :=
  if startsWith .rightParen tokens then .error (.here (.wrongArgumentCount f name) tokens)
  else expression none tokens
termination_by 3 * tokens.length + 3
decreasing_by omega

/-- The arguments of a call that are still to come, each behind a comma, and its end. -/
def moreArguments {n : Nat} (f : Function) (name : String) (count : Nat) (read : Parsed n) :
    Except Refusal (Parsed n) :=
  match count with
  | 0 => closeCall f name read
  | count + 1 =>
    match h : read.rest with
    | [] => .error (.here (.wrongArgumentCount f name) [])
    | comma :: after =>
      if comma.kind = .comma then
        match argument f name after with
        | .error refusal => .error refusal
        | .ok next =>
          moreArguments f name count ⟨read.emitted ++ next.emitted, next.rest, by
            have := read.shorter; have := next.shorter; simp_all; omega⟩
      else .error (.here (.wrongArgumentCount f name) (comma :: after))
termination_by 3 * read.rest.length + 1
decreasing_by
  · rw [h, List.length_cons]; omega
  · have := next.shorter; rw [h, List.length_cons]; omega

end

def expectEnd : List Token → Except Refusal Unit
  | [] => .ok ()
  | token :: rest =>
    .error (.here (if token.kind = .rightParen then .strayClosing else .strayToken)
      (token :: rest))

/-- The program of an expression that takes up all the tokens. -/
def whole (tokens : List Token) : Except Refusal Program :=
  match expression none tokens with
  | .error refusal => .error refusal
  | .ok read =>
    match expectEnd read.rest with
    | .error refusal => .error refusal
    | .ok () => .ok read.emitted

def ofTokens (tokens : List Token) : Except Refusal Program :=
  if tokens.isEmpty then .error (.here .missingExpression []) else whole tokens

end Formula

def Program.parse (text : String) : Except ParseError Program :=
  match Formula.ofTokens (Token.scan text) with
  | .error refusal => .error (refusal.locate text 0 text.utf8ByteSize)
  | .ok program => .ok program

end SpriteFormula
