import SpriteFormula.Bytecode.Decode

/-!
Decoding with a cursor that stays on the input. A read is refused where too few bytes remain;
taking bytes that are not part of the input would be an outcome of its own.
-/

namespace SpriteFormula

/-- The input, and the position of the next byte. -/
structure Reader where
  input : List UInt8
  position : Nat
  deriving DecidableEq, Repr

/-- How fetching ends: with a value and the reader behind it, with an error, or outside of the
input. -/
inductive Fetch (α : Type) where
  | done (value : α) (next : Reader)
  | refused (error : DecodeError)
  | outside
  deriving DecidableEq, Repr

def Fetch.andThen {α β : Type} (fetch : Fetch α) (more : α → Reader → Fetch β) : Fetch β :=
  match fetch with
  | .done value next => more value next
  | .refused error => .refused error
  | .outside => .outside

namespace Reader

def start (input : List UInt8) : Reader := ⟨input, 0⟩

/-- How many bytes remain. A position past the end has no answer. -/
def remaining? (r : Reader) : Option Nat :=
  if r.position ≤ r.input.length then some (r.input.length - r.position) else none

/-- The bytes from one position up to another, if both are positions of the input. -/
def slice? (r : Reader) (first last : Nat) : Option (List UInt8) :=
  if first ≤ last ∧ last ≤ r.input.length then some ((r.input.drop first).take (last - first))
  else none

/-- The next bytes. Errors are placed at the tag of the instruction that is being read, which stands
at `tagAt`. -/
def getBytes (tagAt count : Nat) (r : Reader) : Fetch (List UInt8) :=
  match r.remaining? with
  | none => .outside
  | some remaining =>
    if remaining < count then .refused ⟨tagAt, .truncated count remaining⟩
    else
      match r.slice? r.position (r.position + count) with
      | none => .outside
      | some bytes => .done bytes { r with position := r.position + count }

def getByte (tagAt : Nat) (r : Reader) : Fetch UInt8 :=
  (r.getBytes tagAt 1).andThen fun bytes next =>
    match bytes[0]? with
    | some byte => .done byte next
    | none => .outside

/-- The next bytes in an array of their number, which no other number of bytes can fill. -/
def getArray (tagAt count : Nat) (r : Reader) : Fetch (List UInt8) :=
  (r.getBytes tagAt count).andThen fun bytes next =>
    if bytes.length = count then .done bytes next else .outside

def getName (tagAt : Nat) (r : Reader) : Fetch String :=
  (r.getByte tagAt).andThen fun length afterLength =>
    (afterLength.getBytes tagAt length.toNat).andThen fun bytes next =>
      match Text.ofUtf8? bytes with
      | some name => .done name next
      | none => .refused ⟨tagAt, .badName ((Text.utf8Fault? 0 bytes).getD (.invalid 1 0))⟩

/-- The instruction of a kind, whose tag is already read. Where there is no payload no byte is
read. -/
def getPayload (tagAt : Nat) (r : Reader) : Kind → Fetch Instruction
  | .constant =>
    (r.getArray tagAt 8).andThen fun bytes next => .done (.constant (.ofBytes bytes)) next
  | .namedVar => (r.getName tagAt).andThen fun name next => .done (.var name) next
  | .spriteVar => (r.getName tagAt).andThen fun name next => .done (.directive (.var name)) next
  | kind =>
    match Instruction.ofPayload [] kind with
    | .ok (i, _) => .done i r
    | .error issue => .refused ⟨tagAt, issue⟩

def getInstruction (r : Reader) : Fetch Instruction :=
  (r.getByte r.position).andThen fun tag afterTag =>
    match Kind.ofTag? tag with
    | none => .refused ⟨r.position, .unknownTag tag⟩
    | some kind => afterTag.getPayload r.position kind

/-! ### Progress -/

/-- A read that goes on does so on the same input, at least so many bytes later. -/
def Advances {α : Type} (r : Reader) (least : Nat) (fetch : Fetch α) : Prop :=
  ∀ value next, fetch = .done value next →
    next.input = r.input ∧ r.position + least ≤ next.position

theorem Advances.mono {α : Type} {r : Reader} {least fewer : Nat} {fetch : Fetch α}
    (h : r.Advances least fetch) (hf : fewer ≤ least) : r.Advances fewer fetch := by
  intro value next hd
  obtain ⟨hi, hp⟩ := h value next hd
  exact ⟨hi, by omega⟩

theorem Advances.andThen {α β : Type} {r : Reader} {least : Nat} {fetch : Fetch α}
    {more : α → Reader → Fetch β} (h : r.Advances least fetch)
    (hm : ∀ (value : α) (next : Reader), next.Advances 0 (more value next)) :
    r.Advances least (fetch.andThen more) := by
  intro value last hd
  cases fetch with
  | done first next =>
    obtain ⟨hi, hp⟩ := h first next rfl
    obtain ⟨hi', hp'⟩ := hm first next value last hd
    exact ⟨hi'.trans hi, by omega⟩
  | refused error => cases hd
  | outside => cases hd

theorem advances_done {α : Type} (r : Reader) (value : α) : r.Advances 0 (.done value r) := by
  rintro _ _ ⟨⟩
  exact ⟨rfl, Nat.le_refl _⟩

theorem advances_refused {α : Type} (r : Reader) (error : DecodeError) :
    r.Advances 0 (.refused error : Fetch α) := by
  rintro _ _ ⟨⟩

theorem advances_outside {α : Type} (r : Reader) : r.Advances 0 (.outside : Fetch α) := by
  rintro _ _ ⟨⟩

theorem advances_getBytes (tagAt count : Nat) (r : Reader) :
    r.Advances count (r.getBytes tagAt count) := by
  intro value next h
  unfold getBytes at h
  split at h
  · cases h
  · split at h
    · cases h
    · split at h
      · cases h
      · cases h
        exact ⟨rfl, Nat.le_refl _⟩

theorem advances_getByte (tagAt : Nat) (r : Reader) : r.Advances 1 (r.getByte tagAt) := by
  apply (advances_getBytes tagAt 1 r).andThen
  intro bytes next
  cases bytes[0]? with
  | some byte => exact advances_done next byte
  | none => exact advances_outside next

theorem advances_getArray (tagAt count : Nat) (r : Reader) :
    r.Advances 0 (r.getArray tagAt count) := by
  apply ((advances_getBytes tagAt count r).mono (Nat.zero_le _)).andThen
  intro bytes next
  by_cases h : bytes.length = count
  · rw [if_pos h]
    exact advances_done next bytes
  · rw [if_neg h]
    exact advances_outside next

theorem advances_getName (tagAt : Nat) (r : Reader) : r.Advances 0 (r.getName tagAt) := by
  apply ((advances_getByte tagAt r).mono (Nat.zero_le _)).andThen
  intro length afterLength
  apply ((advances_getBytes tagAt length.toNat afterLength).mono (Nat.zero_le _)).andThen
  intro bytes next
  cases Text.ofUtf8? bytes with
  | some name => exact advances_done next name
  | none => exact advances_refused next _

theorem advances_getPayload (tagAt : Nat) (r : Reader) (kind : Kind) :
    r.Advances 0 (r.getPayload tagAt kind) := by
  unfold getPayload
  split
  · exact (advances_getArray tagAt 8 r).andThen fun _ next => advances_done next _
  · exact (advances_getName tagAt r).andThen fun _ next => advances_done next _
  · exact (advances_getName tagAt r).andThen fun _ next => advances_done next _
  · split
    · exact advances_done r _
    · exact advances_refused r _

theorem advances_getInstruction (r : Reader) : r.Advances 1 r.getInstruction := by
  apply (advances_getByte r.position r).andThen
  intro tag afterTag
  cases Kind.ofTag? tag with
  | some kind => exact advances_getPayload r.position afterTag kind
  | none => exact advances_refused afterTag _

/-- All the instructions up to the end of the input. -/
def getProgram (r : Reader) : Fetch Program :=
  if r.position < r.input.length then
    match h : r.getInstruction with
    | .done i next =>
      have := advances_getInstruction r i next h
      next.getProgram.andThen fun others last => .done (i :: others) last
    | .refused error => .refused error
    | .outside => .outside
  else .done [] r
termination_by r.input.length - r.position
decreasing_by
  obtain ⟨hi, hp⟩ := this
  rw [hi]
  omega

end Reader

end SpriteFormula
