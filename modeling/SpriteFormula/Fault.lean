import SpriteFormula.ParseError
import SpriteFormula.Program
import SpriteFormula.Text.Utf8

/-!
Why bytes are not a program, why a program cannot be put into bytes or into source text, and any
error of reading, writing or running a program.
-/

namespace SpriteFormula

/-- Why bytes do not go on with an instruction. -/
inductive DecodeIssue where
  | badMagic
  | unknownTag (tag : UInt8)
  | truncated (needed remaining : Nat)
  | badName (fault : Text.Utf8Fault)
  deriving DecidableEq, Repr

structure DecodeError where
  offset : Nat
  issue : DecodeIssue
  deriving DecidableEq, Repr

namespace DecodeIssue

def hexadecimal (byte : UInt8) : String :=
  "0x" ++ String.ofList ((Nat.toDigits 16 byte.toNat).leftpad 2 '0')

def content : DecodeIssue → String
  | .badMagic => "invalid file magic number"
  | .unknownTag tag =>
    if 0x21 ≤ tag ∧ tag ≤ 0x7e then
      "unknown tag '" ++ String.singleton (Char.ofNat tag.toNat) ++ "' (" ++
        hexadecimal tag ++ ")"
    else "unknown tag " ++ hexadecimal tag
  | .truncated needed remaining =>
    "truncated payload, " ++ toString needed ++ " bytes needed but " ++ toString remaining ++
      " remaining"
  | .badName fault => "invalid name: " ++ fault.message

end DecodeIssue

def DecodeError.message (error : DecodeError) : String :=
  "byte " ++ toString error.offset ++ ": " ++ error.issue.content

/-- A name too long for its length to fit a byte, or a constant that a target language has no
literal for. -/
inductive EncodeError where
  | longName (length : Nat)
  | noLiteral (value : Binary64) (language : String)
  deriving DecidableEq, Repr

namespace EncodeError

def content : EncodeError → String
  | .longName length => "name of " ++ toString length ++ " bytes, at most 255 fit"
  | .noLiteral value language => "constant " ++ value.text ++ " as " ++ language ++ " source"

def message (error : EncodeError) : String := "unable to encode " ++ error.content

end EncodeError

inductive Fault where
  | parse (error : ParseError)
  | decode (error : DecodeError)
  | encode (error : EncodeError)
  | stack (fault : StackFault)
  deriving DecidableEq, Repr

def Fault.message : Fault → String
  | .parse error => error.message
  | .decode error => error.message
  | .encode error => error.message
  | .stack fault => fault.message

end SpriteFormula
