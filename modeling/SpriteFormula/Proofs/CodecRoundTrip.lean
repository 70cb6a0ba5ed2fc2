import Mathlib.Algebra.Ring.Nat
import SpriteFormula.Bytecode.Decode
import SpriteFormula.Bytecode.Encode

/-!
Decoding undoes encoding. Only a name that its length byte cannot count stands in the way, and the
bytes of a program are as many as its instructions say they take.
-/

namespace SpriteFormula

/-! ### Payloads -/

namespace Text

theorem ofUtf8_utf8Bytes (text : String) : ofUtf8? (utf8Bytes text) = some text := by
  simp [ofUtf8?, utf8Bytes, String.fromUTF8?, String.fromUTF8, text.isValidUTF8]

theorem length_utf8Bytes (text : String) : (utf8Bytes text).length = text.utf8ByteSize := rfl

end Text

namespace Binary64

theorem length_toBytes (v : Binary64) : v.toBytes.length = 8 := by
  simp [toBytes]

/-- The eight bytes are the digits of the bits to the base 256. -/
theorem ofBytes_toBytes (v : Binary64) : ofBytes v.toBytes = v := by
  have h : ofBytes v.toBytes = ⟨.ofNat v.bits.toNat⟩ := by
    have hlt := v.bits.toNat_lt
    simp only [ofBytes, toBytes, List.range, List.range.loop, List.map, List.foldl]
    congr 2
    simp
    omega
  rw [h, UInt64.ofNat_toNat]

end Binary64

theorem Kind.ofTag_tag (kind : Kind) : ofTag? kind.tag = some kind := by
  cases kind <;> rfl

/-- A name that a length byte can count is encoded, and decoding takes it off the front. -/
theorem encodeName_ok {name : String} (h : name.utf8ByteSize ≤ 255) :
    ∃ bytes, encodeName name = .ok bytes ∧ bytes.length = name.utf8ByteSize + 1 ∧
      ∀ rest, decodeName (bytes ++ rest) = .ok (name, bytes.length) := by
  have hl := Text.length_utf8Bytes name
  refine ⟨.ofNat name.utf8ByteSize :: Text.utf8Bytes name, ?_, by simp [hl], fun rest => ?_⟩
  · simp [encodeName, hl, h]
  · have hn : (UInt8.ofNat name.utf8ByteSize).toNat = name.utf8ByteSize := by
      simp; omega
    have ht : (Text.utf8Bytes name ++ rest).take name.utf8ByteSize = Text.utf8Bytes name := by
      rw [← hl, List.take_left]
    rw [List.cons_append, decodeName, hn, if_pos (by rw [List.length_append, hl]; omega)]
    simp only [ht, Text.ofUtf8_utf8Bytes, List.length_cons, hl]

theorem encodeName_error {name : String} (h : 255 < name.utf8ByteSize) :
    encodeName name = .error (.longName name.utf8ByteSize) := by
  simp [encodeName, Text.length_utf8Bytes, Nat.not_le.mpr h]

/-! ### Instructions -/

namespace Instruction

/-- The name that the bytes of an instruction hold. -/
def encodedName? : Instruction → Option String
  | .var name => if name = positional then none else some name
  | .directive (.var name) => some name
  | _ => none

/-- No name of the instruction is too long for a length byte. -/
def Encodable (i : Instruction) : Prop := ∀ name ∈ i.encodedName?, name.utf8ByteSize ≤ 255

instance (i : Instruction) : Decidable i.Encodable := by
  unfold Encodable
  infer_instance

/-- What encoding an instruction gives, and what decoding makes of it in front of other bytes. -/
theorem payload_ok {i : Instruction} (h : i.Encodable) :
    ∃ bytes, i.payload = .ok bytes ∧ bytes.length + 1 = i.encodedLength ∧
      ∀ rest, ofPayload (bytes ++ rest) i.kind = .ok (i, bytes.length) := by
  cases i with
  | constant value =>
    by_cases hp : value = .pi
    · subst hp
      exact ⟨[], rfl, rfl, fun rest => rfl⟩
    by_cases he : value = .e
    · subst he
      exact ⟨[], rfl, rfl, fun rest => rfl⟩
    have hk : constantKind value = .constant := by rw [constantKind, if_neg hp, if_neg he]
    have hl := value.length_toBytes
    refine ⟨value.toBytes, by rw [payload, if_pos hk], ?_, fun rest => ?_⟩
    · rw [encodedLength, if_pos hk, hl]
    · have ht : (value.toBytes ++ rest).take 8 = value.toBytes := by rw [← hl, List.take_left]
      rw [kind, hk, ofPayload, if_pos (by rw [List.length_append, hl]; omega), ht,
        Binary64.ofBytes_toBytes, hl]
  | var name =>
    by_cases hx : name = positional
    · subst hx
      exact ⟨[], rfl, rfl, fun rest => rfl⟩
    obtain ⟨bytes, hb, hl, hd⟩ := encodeName_ok (h name (by simp [encodedName?, hx]))
    refine ⟨bytes, by rw [payload, if_neg hx, hb], ?_, fun rest => ?_⟩
    · rw [encodedLength, if_neg hx, hl]
      omega
    · rw [kind, if_neg hx, ofPayload, hd]
  | operator op => exact ⟨[], rfl, rfl, fun rest => by cases op <;> rfl⟩
  | negative => exact ⟨[], rfl, rfl, fun rest => rfl⟩
  | function f =>
    exact ⟨[], rfl, rfl, fun rest => by rcases f with f | f <;> cases f <;> rfl⟩
  | directive d =>
    cases d with
    | var name =>
      obtain ⟨bytes, hb, hl, hd⟩ := encodeName_ok (h name rfl)
      refine ⟨bytes, hb, ?_, fun rest => ?_⟩
      · rw [encodedLength, hl]
        omega
      · rw [kind, Directive.kind, ofPayload, hd]
    | direction => exact ⟨[], rfl, rfl, fun rest => rfl⟩
    | hitboxTop => exact ⟨[], rfl, rfl, fun rest => rfl⟩
    | animation => exact ⟨[], rfl, rfl, fun rest => rfl⟩

theorem mem_encodedName {i : Instruction} {name : String} :
    name ∈ i.encodedName? ↔
      i = .var name ∧ name ≠ positional ∨ i = .directive (.var name) := by
  cases i with
  | var other =>
    by_cases hx : other = positional
    · rw [encodedName?, if_pos hx]
      refine ⟨nofun, ?_⟩
      rintro (⟨h, hn⟩ | h)
      · cases h
        exact absurd hx hn
      · cases h
    · rw [encodedName?, if_neg hx]
      refine ⟨fun h => ?_, ?_⟩
      · cases h
        exact .inl ⟨rfl, hx⟩
      · rintro (⟨h, _⟩ | h) <;> cases h
        rfl
  | directive d => cases d <;> simp [encodedName?]
  | _ => simp [encodedName?]

theorem payload_error {i : Instruction} {name : String} (hn : name ∈ i.encodedName?)
    (h : 255 < name.utf8ByteSize) : i.payload = .error (.longName name.utf8ByteSize) := by
  rcases mem_encodedName.mp hn with ⟨rfl, hx⟩ | rfl
  · rw [payload, if_neg hx, encodeName_error h]
  · exact encodeName_error h

theorem encode_ok {i : Instruction} (h : i.Encodable) :
    ∃ payload, i.encode = .ok (i.kind.tag :: payload) ∧ payload.length + 1 = i.encodedLength ∧
      ∀ rest, ofPayload (payload ++ rest) i.kind = .ok (i, payload.length) := by
  obtain ⟨payload, hp, hl, hd⟩ := payload_ok h
  exact ⟨payload, by rw [encode, hp], hl, hd⟩

theorem encode_error {i : Instruction} (h : ¬ i.Encodable) :
    ∃ length, i.encode = .error (.longName length) := by
  simp only [Encodable, not_forall, exists_prop] at h
  obtain ⟨name, hn, hl⟩ := h
  exact ⟨name.utf8ByteSize, by rw [encode, payload_error hn (Nat.not_le.mp hl)]⟩

end Instruction

/-! ### Programs -/

namespace Program

/-- Bytes of an instruction in front of others are decoded as the instruction and then the others,
whatever offset they stand at. -/
theorem decodeFrom_cons {i : Instruction} {payload : List UInt8}
    (hd : ∀ rest, Instruction.ofPayload (payload ++ rest) i.kind = .ok (i, payload.length))
    {rest : List UInt8} {others : Program} (hr : ∀ offset, decodeFrom offset rest = .ok others)
    (offset : Nat) : decodeFrom offset (i.kind.tag :: payload ++ rest) = .ok (i :: others) := by
  rw [List.cons_append, decodeFrom, Kind.ofTag_tag]
  simp only [hd, List.drop_left, hr]

theorem encode_of_encodable {program : Program} (h : ∀ i ∈ program, i.Encodable) :
    ∃ bytes, program.encode = .ok bytes ∧ (∀ offset, decodeFrom offset bytes = .ok program) ∧
      bytes.length = (program.map Instruction.encodedLength).sum := by
  induction program with
  | nil => exact ⟨[], rfl, fun offset => by rw [decodeFrom], rfl⟩
  | cons i rest ih =>
    rw [List.forall_mem_cons] at h
    obtain ⟨payload, hp, hl, hd⟩ := Instruction.encode_ok h.1
    obtain ⟨bytes, hb, hr, hlb⟩ := ih h.2
    refine ⟨i.kind.tag :: payload ++ bytes, ?_, decodeFrom_cons hd hr, ?_⟩
    · simp only [encode, hp, hb]
    · simp only [List.length_append, List.length_cons, List.map_cons, List.sum_cons, hl, hlb]

theorem encode_of_not_encodable {program : Program} (h : ∃ i ∈ program, ¬ i.Encodable) :
    ∃ length, program.encode = .error (.longName length) := by
  induction program with
  | nil =>
    obtain ⟨_, hm, _⟩ := h
    cases hm
  | cons i rest ih =>
    by_cases hi : i.Encodable
    · obtain ⟨payload, hp, _⟩ := Instruction.encode_ok hi
      obtain ⟨j, hm, hj⟩ := h
      rcases List.mem_cons.mp hm with rfl | hm
      · exact absurd hi hj
      obtain ⟨length, he⟩ := ih ⟨j, hm, hj⟩
      exact ⟨length, by simp only [encode, hp, he]⟩
    · obtain ⟨length, he⟩ := Instruction.encode_error hi
      exact ⟨length, by simp only [encode, he]⟩

/-- A program that is encoded has no name too long. -/
theorem encodable_of_encode {program : Program} {bytes : List UInt8}
    (h : program.encode = .ok bytes) : ∀ i ∈ program, i.Encodable := by
  by_contra hn
  simp only [not_forall, exists_prop] at hn
  obtain ⟨length, hf⟩ := encode_of_not_encodable hn
  rw [hf] at h
  cases h

/-- The bytes of a program are as many as its instructions take one by one. -/
theorem length_encode {program : Program} {bytes : List UInt8} (h : program.encode = .ok bytes) :
    bytes.length = (program.map Instruction.encodedLength).sum := by
  obtain ⟨found, hf, -, hl⟩ := encode_of_encodable (encodable_of_encode h)
  obtain rfl := Except.ok.inj (h.symm.trans hf)
  exact hl

/-- Some name that is not the positional parameter's is longer than a length byte can count. -/
def HasLongName (program : Program) : Prop :=
  ∃ name, (.var name ∈ program ∧ name ≠ positional ∨ .directive (.var name) ∈ program) ∧
    255 < name.utf8ByteSize

theorem hasLongName_iff {program : Program} :
    program.HasLongName ↔ ∃ i ∈ program, ¬ i.Encodable := by
  constructor
  · rintro ⟨name, h, hl⟩
    have long {i : Instruction} (hn : name ∈ i.encodedName?) : ¬ i.Encodable := fun he =>
      absurd (he name hn) (Nat.not_le.mpr hl)
    rcases h with ⟨hm, hx⟩ | hm
    · exact ⟨_, hm, long (Instruction.mem_encodedName.mpr (.inl ⟨rfl, hx⟩))⟩
    · exact ⟨_, hm, long (Instruction.mem_encodedName.mpr (.inr rfl))⟩
  · rintro ⟨i, hm, h⟩
    simp only [Instruction.Encodable, not_forall, exists_prop] at h
    obtain ⟨name, hn, hl⟩ := h
    refine ⟨name, ?_, Nat.not_le.mp hl⟩
    rcases Instruction.mem_encodedName.mp hn with ⟨rfl, hx⟩ | rfl
    · exact .inl ⟨hm, hx⟩
    · exact .inr hm

end Program

/-- A program is encoded unless one of its names is too long. Its bytes are then as many as its
instructions take one by one, and decoding gives the program back, its constants bit for bit. -/
theorem decode_undoes_encode (program : Program) :
    (program.HasLongName ↔ ∃ length, program.encode = .error (.longName length)) ∧
    (¬ program.HasLongName ↔
      ∃ bytes, program.encode = .ok bytes ∧ Program.decode bytes = .ok program ∧
        bytes.length = (program.map Instruction.encodedLength).sum) := by
  by_cases h : program.HasLongName
  · obtain ⟨length, he⟩ := Program.encode_of_not_encodable (Program.hasLongName_iff.mp h)
    refine ⟨⟨fun _ => ⟨length, he⟩, fun _ => h⟩, ?_⟩
    constructor
    · intro hn
      exact absurd h hn
    · rintro ⟨bytes, hb, _⟩
      rw [he] at hb
      cases hb
  · have hall : ∀ i ∈ program, i.Encodable := by
      rw [Program.hasLongName_iff] at h
      exact fun i hm => Decidable.byContradiction fun hn => h ⟨i, hm, hn⟩
    obtain ⟨bytes, hb, hd, hl⟩ := Program.encode_of_encodable hall
    refine ⟨?_, fun _ => ⟨bytes, hb, hd 0, hl⟩, fun _ => h⟩
    constructor
    · intro hn
      exact absurd hn h
    · rintro ⟨length, he⟩
      rw [hb] at he
      cases he

end SpriteFormula
