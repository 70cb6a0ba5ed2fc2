import SpriteFormula.Text.CharClass

/-!
Cutting text into lines and blanks off its ends, and lengths in bytes of UTF-8, in which positions
in a text are counted.
-/

namespace SpriteFormula.Text

/-- The lines of a text, each with its line break. Put together they are the text. -/
def lines : List Char → List (List Char)
  | [] => []
  | c :: rest =>
    if c = '\n' then [c] :: lines rest
    else
      match lines rest with
      | [] => [[c]]
      | line :: others => (c :: line) :: others

/-- What is left after the longest end of characters of one kind is cut off. -/
def dropEndWhile (p : Char → Bool) (text : List Char) : List Char :=
  (text.reverse.dropWhile p).reverse

def trim (text : List Char) : List Char := dropEndWhile isBlank (text.dropWhile isBlank)

def withoutBreak (line : List Char) : List Char :=
  dropEndWhile (fun c => c = '\r' || c = '\n') line

/-- The length of a text in bytes. -/
def byteLength : List Char → Nat
  | [] => 0
  | c :: rest => c.utf8Size + byteLength rest

end SpriteFormula.Text
