import SpriteFormula.Instruction
import SpriteFormula.Text.Utf8

/-!
Which bytes are instructions, as rules that do not say how bytes are read. Every instruction starts
with an ASCII character as its tag.
-/

namespace SpriteFormula

namespace Layout

/-- The instructions that are a tag alone. -/
def bare : List (Char × Instruction) :=
  [('+', .operator .add), ('-', .operator .subtract), ('*', .operator .multiply),
    ('/', .operator .divide), ('^', .operator .pow), ('~', .negative),
    ('p', .constant .pi), ('e', .constant .e), ('x', .var positional),
    ('m', .function (.extremum .min)), ('M', .function (.extremum .max)),
    ('c', .function (.unary .cos)), ('s', .function (.unary .sin)),
    ('r', .function (.unary .sqrt)), ('z', .function (.unary .zoom)),
    ('D', .directive .direction), ('A', .directive .animation), ('H', .directive .hitboxTop)]

/-- The bytes are one instruction. A constant has eight bytes behind its tag, and a name the number
of its bytes and then its bytes in UTF-8. -/
inductive Spells : List UInt8 → Instruction → Prop where
  | bare {tag : Char} {i : Instruction} : (tag, i) ∈ bare → Spells [tag.toUInt8] i
  | constant {bytes : List UInt8} :
      bytes.length = 8 → Spells ('#'.toUInt8 :: bytes) (.constant (.ofBytes bytes))
  | var {length : UInt8} {name : String} : (Text.utf8Bytes name).length = length.toNat →
      Spells ('v'.toUInt8 :: length :: Text.utf8Bytes name) (.var name)
  | spriteVar {length : UInt8} {name : String} : (Text.utf8Bytes name).length = length.toNat →
      Spells ('V'.toUInt8 :: length :: Text.utf8Bytes name) (.directive (.var name))

/-- The bytes are the instructions of a program one after the other, with nothing left over. -/
inductive Splits : List UInt8 → Program → Prop where
  | nil : Splits [] []
  | cons {piece rest : List UInt8} {i : Instruction} {program : Program} :
      Spells piece i → Splits rest program → Splits (piece ++ rest) (i :: program)

/-- The bytes go on with an instruction at the offset. -/
def WellFormedAt (bytes : List UInt8) (offset : Nat) : Prop :=
  ∃ piece i, Spells piece i ∧ piece <+: bytes.drop offset

/-- The bytes are instructions up to the offset, and at it something else stands. -/
structure FirstIllFormed (bytes : List UInt8) (offset : Nat) : Prop where
  inside : offset < bytes.length
  before : ∃ program, Splits (bytes.take offset) program
  illFormed : ¬ WellFormedAt bytes offset

end Layout

end SpriteFormula
