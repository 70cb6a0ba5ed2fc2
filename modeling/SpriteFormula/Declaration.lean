import SpriteFormula.Formula

/-!
Declarations: lines that assign an expression to a part of the sprite. Each line is read alone;
blank lines, remarks and lines that assign to nothing known are passed over.
-/

namespace SpriteFormula

/-- One assignment: the value that instructions leave goes to a part of the sprite. -/
structure Assignment where
  directive : Directive
  value : Program
  deriving DecidableEq, Repr

/-- The instructions that compute the value and then write it. -/
def Assignment.program (assignment : Assignment) : Program :=
  assignment.value ++ [.directive assignment.directive]

namespace Token

/-- The tokens after one of a kind. -/
def skip? (kind : TokenKind) (tokens : List Token) : Option (List Token) :=
  match tokens with
  | token :: rest => if token.kind = kind then some rest else none
  | [] => none

/-- The text of a token of a kind, and the tokens after it. -/
def take? (kind : TokenKind) (tokens : List Token) : Option (String × List Token) :=
  match tokens with
  | token :: rest => if token.kind = kind then some (token.text, rest) else none
  | [] => none

/-- A text without its first and last character. -/
def unquoted (text : String) : String := String.ofList (text.toList.drop 1).dropLast

end Token

namespace Directive

/-- The part of the sprite that the tokens name, and the tokens after its name. -/
def read? (tokens : List Token) : Option (Directive × List Token) := do
  let (sprite, rest) ← Token.take? .identifier tokens
  if sprite ≠ "sprite" then none
  let rest ← Token.skip? .period rest
  let (part, rest) ← Token.take? .identifier rest
  if part = "Direction" then some (.direction, rest)
  else if part = "Animation" then some (.animation, rest)
  else if part = "Hitbox" then do
    let rest ← Token.skip? .period rest
    let (edge, rest) ← Token.take? .identifier rest
    if edge = "Top" then some (.hitboxTop, rest) else none
  else if part = "Variables" then do
    let rest ← Token.skip? .leftBracket rest
    let (name, rest) ← Token.take? .string rest
    let rest ← Token.skip? .rightBracket rest
    some (.var (Token.unquoted name), rest)
  else none

/-- The part of the sprite left of an assignment sign, and the tokens after the sign. -/
def readTarget? (tokens : List Token) : Option (Directive × List Token) := do
  let (directive, rest) ← read? tokens
  let rest ← Token.skip? .assign rest
  some (directive, rest)

end Directive

namespace Assignment

/-- The value of a direction keyword that is all there is. -/
def keyword? (tokens : List Token) : Option Binary64 :=
  match tokens with
  | [token] => if token.kind = .identifier then Directive.keywordValue? token.text else none
  | _ => none

/-- The program of the value that is written to a part of the sprite. For a direction a keyword
will do, and it is an operand that is missing where nothing stands. -/
def readValue (directive : Directive) (tokens : List Token) : Except Refusal Program :=
  if directive = .direction then
    match keyword? tokens with
    | some value => .ok [.constant value]
    | none => Formula.whole tokens
  else Formula.ofTokens tokens

/-- The assignment that tokens make up, or nothing if they assign to no part of the sprite. -/
def ofTokens? (tokens : List Token) : Except Refusal (Option Assignment) :=
  match Directive.readTarget? tokens with
  | none => .ok none
  | some (directive, rest) =>
    match readValue directive rest with
    | .error refusal => .error refusal
    | .ok value => .ok (some ⟨directive, value⟩)

end Assignment

inductive Line where
  | blank
  | skipped (content : String)
  | assignment (a : Assignment)
  deriving DecidableEq, Repr

/-- A line that was passed over: its number from one, and its text without outer blanks. -/
structure SkippedLine where
  number : Nat
  content : String
  deriving DecidableEq, Repr

namespace Line

/-- Reads a line, which holds its line break. A remark starts with a number sign. -/
def read (line : List Char) : Except Refusal Line :=
  let content := Text.trim line
  if content.isEmpty || content.head? = some '#' then .ok .blank
  else
    match Assignment.ofTokens? (Token.scanFrom 0 (Text.withoutBreak line)) with
    | .error refusal => .error refusal
    | .ok none => .ok (.skipped (String.ofList content))
    | .ok (some a) => .ok (.assignment a)

/-- Reads lines one after the other, the first of which starts at a byte offset of a text. Errors
are placed in the whole text. -/
def readFrom (text : String) (offset : Nat) : List (List Char) → Except ParseError (List Line)
  | [] => .ok []
  | line :: rest =>
    match read line with
    | .error refusal =>
      .error (refusal.locate text offset (Text.byteLength (Text.withoutBreak line)))
    | .ok first =>
      match readFrom text (offset + Text.byteLength line) rest with
      | .error error => .error error
      | .ok others => .ok (first :: others)

def assignment? : Line → Option Assignment
  | .assignment a => some a
  | _ => none

/-- The lines that are passed over, up to the first that cannot be read. -/
def skippedFrom (number : Nat) : List (List Char) → List SkippedLine
  | [] => []
  | line :: rest =>
    match read line with
    | .error _ => []
    | .ok (.skipped content) => ⟨number, content⟩ :: skippedFrom (number + 1) rest
    | .ok _ => skippedFrom (number + 1) rest

end Line

def Assignment.parse (text : String) : Except ParseError (List Assignment) :=
  (Line.readFrom text 0 (Text.lines text.toList)).map fun read => read.filterMap Line.assignment?

def Program.parseDeclarations (text : String) : Except ParseError Program :=
  (Assignment.parse text).map fun assignments => assignments.flatMap Assignment.program

def Program.skippedLines (text : String) : List SkippedLine :=
  Line.skippedFrom 1 (Text.lines text.toList)

end SpriteFormula
