import SpriteFormula.Bytecode.Tag
import SpriteFormula.Fault

/-!
Programs as bytes. Each instruction is its tag, and behind it the eight bytes of a constant or the
length and bytes of a name. The constants that have a kind of their own and the positional
parameter are tags alone.
-/

namespace SpriteFormula

/-- A name behind its length, which has to fit one byte. -/
def encodeName (name : String) : Except EncodeError (List UInt8) :=
  let bytes := Text.utf8Bytes name
  if bytes.length ≤ 255 then .ok (.ofNat bytes.length :: bytes)
  else .error (.longName bytes.length)

namespace Instruction

/-- The bytes behind the tag. -/
def payload : Instruction → Except EncodeError (List UInt8)
  | .constant value => .ok (if constantKind value = .constant then value.toBytes else [])
  | .var name => if name = positional then .ok [] else encodeName name
  | .directive (.var name) => encodeName name
  | _ => .ok []

def encode (i : Instruction) : Except EncodeError (List UInt8) :=
  match i.payload with
  | .error error => .error error
  | .ok bytes => .ok (i.kind.tag :: bytes)

/-- How many bytes the instruction takes once encoded. -/
def encodedLength : Instruction → Nat
  | .constant value => if constantKind value = .constant then 9 else 1
  | .var name => if name = positional then 1 else 2 + name.utf8ByteSize
  | .directive (.var name) => 2 + name.utf8ByteSize
  | _ => 1

end Instruction

/-- The bytes of a program, instruction after instruction. -/
def Program.encode : Program → Except EncodeError (List UInt8)
  | [] => .ok []
  | i :: rest =>
    match i.encode with
    | .error error => .error error
    | .ok bytes =>
      match Program.encode rest with
      | .error error => .error error
      | .ok others => .ok (bytes ++ others)

end SpriteFormula
