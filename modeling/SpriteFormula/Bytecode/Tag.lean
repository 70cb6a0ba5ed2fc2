import SpriteFormula.Instruction

/-!
The byte that stands for each kind of instruction.
-/

namespace SpriteFormula

namespace Kind

/-- The byte that an encoded instruction of this kind starts with. -/
def tag : Kind → UInt8
  | .add => 0x2b
  | .subtract => 0x2d
  | .multiply => 0x2a
  | .divide => 0x2f
  | .pow => 0x5e
  | .negative => 0x7e
  | .constant => 0x23
  | .pi => 0x70
  | .e => 0x65
  | .var => 0x78
  | .namedVar => 0x76
  | .min => 0x6d
  | .max => 0x4d
  | .cos => 0x63
  | .sin => 0x73
  | .sqrt => 0x72
  | .zoom => 0x7a
  | .spriteVar => 0x56
  | .spriteDirection => 0x44
  | .spriteAnimation => 0x41
  | .spriteHitboxTop => 0x48

def ofTag? (tag : UInt8) : Option Kind := all.find? fun kind => kind.tag = tag

/-- The tag as a character; all tags are printable. -/
def tagChar (kind : Kind) : Char := Char.ofNat kind.tag.toNat

end Kind

end SpriteFormula
