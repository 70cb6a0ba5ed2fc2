/-!
Names as bytes of UTF-8, and where bytes stop being UTF-8.
-/

namespace SpriteFormula.Text

def utf8Bytes (text : String) : List UInt8 := text.toUTF8.data.toList

/-- The text that bytes stand for, if they are UTF-8. -/
def ofUtf8? (bytes : List UInt8) : Option String := String.fromUTF8? ⟨bytes.toArray⟩

/-- Why bytes are not UTF-8: at `index` stands a sequence whose first `length` bytes no character
starts with, or the bytes end inside a character. -/
inductive Utf8Fault where
  | invalid (length index : Nat)
  | incomplete (index : Nat)
  deriving DecidableEq, Repr

/-- How many bytes follow a character's first byte, and the bounds of the second one. Overlong
forms, surrogates and code points that are too large are excluded by these bounds. -/
def followers? (first : UInt8) : Option (Nat × UInt8 × UInt8) :=
  if first < 0x80 then some (0, 0x80, 0xbf)
  else if first < 0xc2 then none
  else if first < 0xe0 then some (1, 0x80, 0xbf)
  else if first = 0xe0 then some (2, 0xa0, 0xbf)
  else if first = 0xed then some (2, 0x80, 0x9f)
  else if first < 0xf0 then some (2, 0x80, 0xbf)
  else if first = 0xf0 then some (3, 0x90, 0xbf)
  else if first < 0xf4 then some (3, 0x80, 0xbf)
  else if first = 0xf4 then some (3, 0x80, 0x8f)
  else none

/-- How many of the next bytes, `count` at most, continue a character. -/
def fitting : (count : Nat) → (least greatest : UInt8) → List UInt8 → Nat
  | 0, _, _, _ => 0
  | _ + 1, _, _, [] => 0
  | count + 1, least, greatest, b :: rest =>
    if least ≤ b ∧ b ≤ greatest then fitting count 0x80 0xbf rest + 1 else 0

/-- The first fault of bytes that start at `index`. -/
def utf8Fault? (index : Nat) (bytes : List UInt8) : Option Utf8Fault :=
  match bytes with
  | [] => none
  | first :: rest =>
    match followers? first with
    | none => some (.invalid 1 index)
    | some (count, least, greatest) =>
      let fit := fitting count least greatest rest
      if fit = count then utf8Fault? (index + 1 + count) (rest.drop count)
      else if fit = rest.length then some (.incomplete index)
      else some (.invalid (fit + 1) index)
termination_by bytes.length
decreasing_by simp only [List.length_drop, List.length_cons]; omega

def Utf8Fault.message : Utf8Fault → String
  | .invalid length index =>
    "invalid utf-8 sequence of " ++ toString length ++ " bytes from index " ++ toString index
  | .incomplete index => "incomplete utf-8 byte sequence from index " ++ toString index

end SpriteFormula.Text
