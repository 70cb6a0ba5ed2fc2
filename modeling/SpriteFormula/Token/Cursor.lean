import SpriteFormula.Token.Scan

/-!
Finding tokens with a cursor that goes over a text character by character and counts the bytes. A
token is then a kind and a range of bytes, and its text is the slice of the text in that range. A
range that does not start and stop at characters has no slice.
-/

namespace SpriteFormula

namespace Text

/-- The text in front of a byte offset and the text behind it. Inside of a character and past the
end a text cannot be divided. -/
def divide? (text : List Char) (offset : Nat) : Option (List Char × List Char) :=
  if offset = 0 then some ([], text)
  else
    match text with
    | [] => none
    | c :: rest =>
      if c.utf8Size ≤ offset then
        (divide? rest (offset - c.utf8Size)).map fun (before, after) => (c :: before, after)
      else none

/-- The text from one byte offset to another. -/
def slice? (text : List Char) (start stop : Nat) : Option (List Char) :=
  (divide? text stop).bind fun (upTo, _) => (divide? upTo start).map Prod.snd

end Text

/-- A token as a cursor finds it: its kind and the bytes from where it starts to where it stops. -/
structure Lexeme where
  kind : TokenKind
  start : Nat
  stop : Nat
  deriving DecidableEq, Repr

def Token.lexeme (token : Token) : Lexeme := ⟨token.kind, token.start, token.stop⟩

/-- The characters still to come, and the byte offset of the first of them. -/
structure Cursor where
  ahead : List Char
  position : Nat
  deriving DecidableEq, Repr

namespace Cursor

def start (text : List Char) : Cursor := ⟨text, 0⟩

def peek? (cursor : Cursor) : Option Char := cursor.ahead.head?

/-- Takes one character and moves on by its bytes. -/
def consume? : Cursor → Option (Char × Cursor)
  | ⟨[], _⟩ => none
  | ⟨c :: rest, position⟩ => some (c, ⟨rest, position + c.utf8Size⟩)

theorem shorter_of_consume {cursor next : Cursor} {c : Char}
    (h : cursor.consume? = some (c, next)) : next.ahead.length < cursor.ahead.length := by
  obtain ⟨_ | ⟨d, rest⟩, position⟩ := cursor
  · cases h
  · cases h
    exact Nat.lt_succ_self _

/-- Moves on over the characters of a class. -/
def skipWhile (p : Char → Bool) (cursor : Cursor) : Cursor :=
  match _h : cursor.consume? with
  | none => cursor
  | some (c, next) => if p c then next.skipWhile p else cursor
termination_by cursor.ahead.length
decreasing_by exact shorter_of_consume _h

/-- Moves on behind the next quotation mark. -/
def readString (cursor : Cursor) : TokenKind × Cursor :=
  match _h : cursor.consume? with
  | none => (.invalid, cursor)
  | some (c, next) => if c = '"' then (.string, next) else next.readString
termination_by cursor.ahead.length
decreasing_by exact shorter_of_consume _h

/-- The kind of the token that starts with a character, and the cursor behind the token. -/
def readKind (first : Char) (cursor : Cursor) : TokenKind × Cursor :=
  match first with
  | '+' => (.plus, cursor)
  | '-' => (.minus, cursor)
  | '*' => (.star, cursor)
  | '/' => (.slash, cursor)
  | '^' => (.caret, cursor)
  | '=' => (.assign, cursor)
  | '(' => (.leftParen, cursor)
  | ')' => (.rightParen, cursor)
  | '[' => (.leftBracket, cursor)
  | ']' => (.rightBracket, cursor)
  | ',' => (.comma, cursor)
  | '.' =>
    if cursor.peek?.any Char.isDigit then (.number, cursor.skipWhile Token.isNumberPart)
    else (.period, cursor)
  | '"' => cursor.readString
  | c =>
    if c.isDigit then (.number, cursor.skipWhile Token.isNumberPart)
    else if Token.isNameStart c then (.identifier, cursor.skipWhile Token.isNamePart)
    else (.invalid, cursor)

/-- The next token behind blanks, and the cursor behind it. At the end it is the mark of the end,
again and again. -/
def next (cursor : Cursor) : Lexeme × Cursor :=
  let from' := cursor.skipWhile Text.isBlank
  match from'.consume? with
  | none => (⟨.endOfInput, from'.position, from'.position⟩, from')
  | some (first, inside) =>
    let (kind, past) := inside.readKind first
    (⟨kind, from'.position, past.position⟩, past)

/-! ### Progress -/

theorem length_skipWhile_le (p : Char → Bool) (cursor : Cursor) :
    (cursor.skipWhile p).ahead.length ≤ cursor.ahead.length := by
  fun_induction skipWhile p cursor with
  | case1 cursor h => exact Nat.le_refl _
  | case2 cursor c next h hp ih => exact Nat.le_trans ih (Nat.le_of_lt (shorter_of_consume h))
  | case3 cursor c next h hp => exact Nat.le_refl _

theorem length_readString_le (cursor : Cursor) :
    cursor.readString.2.ahead.length ≤ cursor.ahead.length := by
  fun_induction readString cursor with
  | case1 cursor h => exact Nat.le_refl _
  | case2 cursor next h => exact Nat.le_of_lt (shorter_of_consume h)
  | case3 cursor c next h hq ih => exact Nat.le_trans ih (Nat.le_of_lt (shorter_of_consume h))

theorem length_readKind_le (first : Char) (cursor : Cursor) :
    (cursor.readKind first).2.ahead.length ≤ cursor.ahead.length := by
  unfold readKind
  split
  case h_12 => split <;> simp [length_skipWhile_le]
  case h_13 => exact length_readString_le cursor
  case h_14 =>
    split
    · exact length_skipWhile_le _ _
    · split
      · exact length_skipWhile_le _ _
      · exact Nat.le_refl _
  all_goals exact Nat.le_refl _

theorem shorter_of_next {cursor : Cursor} (h : cursor.next.1.kind ≠ .endOfInput) :
    cursor.next.2.ahead.length < cursor.ahead.length := by
  unfold next at h ⊢
  dsimp only at h ⊢
  have skipped := length_skipWhile_le Text.isBlank cursor
  generalize cursor.skipWhile Text.isBlank = from' at h skipped ⊢
  split at h
  · exact absurd rfl h
  · next first inside hc =>
    have read := length_readKind_le first inside
    have taken := shorter_of_consume hc
    dsimp only
    omega

/-- All the tokens up to the mark of the end. -/
def lexemes (cursor : Cursor) : List Lexeme :=
  if _h : cursor.next.1.kind = .endOfInput then [cursor.next.1]
  else cursor.next.1 :: cursor.next.2.lexemes
termination_by cursor.ahead.length
decreasing_by exact shorter_of_next _h

end Cursor

end SpriteFormula
