import SpriteFormula.Text.Lines

/-!
Places in a text, by byte offset and by line and column.
-/

namespace SpriteFormula

/-- A place in a text. Lines and columns count from one, a column being one character; the index
is a byte offset. -/
structure Location where
  line : Nat
  column : Nat
  index : Nat
  deriving DecidableEq, Repr

namespace Location

/-- The line and column reached over the characters that start before a byte offset. -/
def walk : List Char → (offset line column : Nat) → Nat × Nat
  | [], _, line, column => (line, column)
  | c :: rest, offset, line, column =>
    if offset = 0 then (line, column)
    else if c = '\n' then walk rest (offset - c.utf8Size) (line + 1) 1
    else walk rest (offset - c.utf8Size) line (column + 1)

/-- The place of a byte offset; an offset past the end is the end. -/
def of (text : String) (offset : Nat) : Location :=
  let (line, column) := walk text.toList offset 1 1
  ⟨line, column, Nat.min offset (Text.byteLength text.toList)⟩

def text (location : Location) : String :=
  toString location.line ++ ":" ++ toString location.column

end Location

end SpriteFormula
