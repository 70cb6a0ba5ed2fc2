import SpriteFormula.Bytecode.Decode
import SpriteFormula.Bytecode.Encode

/-!
Files of bytecode: two fixed bytes, then the program. The listing of a program shows for each
instruction its offset, its tag and what it is.
-/

namespace SpriteFormula

namespace Program

/-- The bytes that every file of bytecode starts with. -/
def magic : List UInt8 := [0x4f, 0x50]

def toFile (program : Program) : Except EncodeError (List UInt8) :=
  match program.encode with
  | .error error => .error error
  | .ok bytes => .ok (magic ++ bytes)

/-- The program of a file. Offsets in errors count from the start of the file. -/
def ofFile (content : List UInt8) : Except DecodeError Program :=
  if magic.isPrefixOf content then decodeFrom magic.length (content.drop magic.length)
  else .error ⟨0, .badMagic⟩

end Program

/-- One line of a listing, without its line break. -/
def Instruction.listed (offset : Nat) (i : Instruction) : String :=
  "\t" ++ String.ofList ((Nat.toDigits 10 offset).leftpad 4 '0') ++ "  " ++
    String.singleton i.kind.tagChar ++ "  " ++ i.text

namespace Program

/-- The instructions with their offsets, the first of which is given. -/
def offsetsFrom (offset : Nat) : Program → List (Nat × Instruction)
  | [] => []
  | i :: rest => (offset, i) :: offsetsFrom (offset + i.encodedLength) rest

def listing (name : String) (program : Program) : String :=
  "Disassembly of '" ++ name ++ "'\n" ++
    String.join ((program.offsetsFrom 0).map fun (offset, i) => i.listed offset ++ "\n")

end Program

end SpriteFormula
