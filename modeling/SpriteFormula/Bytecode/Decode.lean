import SpriteFormula.Bytecode.Tag
import SpriteFormula.Fault

/-!
Reading programs from bytes of any origin. The bytes are split into instructions from the front;
whether the stack would hold what the instructions take is not asked here.
-/

namespace SpriteFormula

/-- A name behind its length, and how many bytes both take. -/
def decodeName : List UInt8 → Except DecodeIssue (String × Nat)
  | [] => .error (.truncated 1 0)
  | length :: rest =>
    if length.toNat ≤ rest.length then
      let bytes := rest.take length.toNat
      match Text.ofUtf8? bytes with
      | some name => .ok (name, length.toNat + 1)
      | none => .error (.badName ((Text.utf8Fault? 0 bytes).getD (.invalid 1 0)))
    else .error (.truncated length.toNat rest.length)

/-- The instruction of a kind whose payload the bytes start with, and how many bytes of payload it
has. -/
def Instruction.ofPayload (bytes : List UInt8) : Kind → Except DecodeIssue (Instruction × Nat)
  | .constant =>
    if 8 ≤ bytes.length then .ok (.constant (.ofBytes (bytes.take 8)), 8)
    else .error (.truncated 8 bytes.length)
  | .pi => .ok (.constant .pi, 0)
  | .e => .ok (.constant .e, 0)
  | .var => .ok (.var positional, 0)
  | .namedVar =>
    match decodeName bytes with
    | .error issue => .error issue
    | .ok (name, count) => .ok (.var name, count)
  | .add => .ok (.operator .add, 0)
  | .subtract => .ok (.operator .subtract, 0)
  | .multiply => .ok (.operator .multiply, 0)
  | .divide => .ok (.operator .divide, 0)
  | .pow => .ok (.operator .pow, 0)
  | .negative => .ok (.negative, 0)
  | .cos => .ok (.function (.unary .cos), 0)
  | .sin => .ok (.function (.unary .sin), 0)
  | .sqrt => .ok (.function (.unary .sqrt), 0)
  | .min => .ok (.function (.extremum .min), 0)
  | .max => .ok (.function (.extremum .max), 0)
  | .zoom => .ok (.function (.unary .zoom), 0)
  | .spriteVar =>
    match decodeName bytes with
    | .error issue => .error issue
    | .ok (name, count) => .ok (.directive (.var name), count)
  | .spriteDirection => .ok (.directive .direction, 0)
  | .spriteAnimation => .ok (.directive .animation, 0)
  | .spriteHitboxTop => .ok (.directive .hitboxTop, 0)

namespace Program

/-- The instructions of bytes that start at an offset. -/
def decodeFrom (offset : Nat) (bytes : List UInt8) : Except DecodeError Program :=
  match bytes with
  | [] => .ok []
  | tag :: rest =>
    match Kind.ofTag? tag with
    | none => .error ⟨offset, .unknownTag tag⟩
    | some kind =>
      match Instruction.ofPayload rest kind with
      | .error issue => .error ⟨offset, issue⟩
      | .ok (i, count) =>
        match decodeFrom (offset + 1 + count) (rest.drop count) with
        | .error error => .error error
        | .ok others => .ok (i :: others)
termination_by bytes.length
decreasing_by simp only [List.length_drop, List.length_cons]; omega

def decode (bytes : List UInt8) : Except DecodeError Program := decodeFrom 0 bytes

end Program

end SpriteFormula
