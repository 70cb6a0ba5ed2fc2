import SpriteFormula.Bytecode.File
import SpriteFormula.Proofs.ReaderBounds

/-!
Decoding takes exactly the bytes that split into instructions, and stops at the first place where
none stands. What is decoded from bytes put together is what is decoded from them one after the
other. The cursor that decoding goes by never leaves the bytes.
-/

namespace SpriteFormula

namespace Layout

/-- An instruction stands at the front of the bytes. -/
def Opens (bytes : List UInt8) : Prop := ∃ piece i, Spells piece i ∧ piece <+: bytes

/-- Decoding takes the bytes of an instruction off the front. -/
theorem decodeFrom_spells {piece : List UInt8} {i : Instruction} (h : Spells piece i)
    (offset : Nat) (rest : List UInt8) :
    Program.decodeFrom offset (piece ++ rest) =
      (Program.decodeFrom (offset + piece.length) rest).map (i :: ·) := by
  obtain ⟨kind, payload, rfl, hp⟩ := h.payload
  have hl : offset + 1 + payload.length = offset + (kind.tag :: payload).length := by
    rw [List.length_cons]
    omega
  rw [List.cons_append, Program.decodeFrom, Kind.ofTag_tag]
  simp only [hp, List.drop_left, hl]
  cases Program.decodeFrom (offset + (kind.tag :: payload).length) rest <;> rfl

theorem decodeFrom_splits {bytes : List UInt8} {program : Program} (h : Splits bytes program)
    (offset : Nat) (rest : List UInt8) :
    Program.decodeFrom offset (bytes ++ rest) =
      (Program.decodeFrom (offset + bytes.length) rest).map (program ++ ·) := by
  induction h generalizing offset with
  | nil =>
    rw [List.nil_append, List.length_nil, Nat.add_zero]
    cases Program.decodeFrom offset rest <;> rfl
  | @cons piece others i program hs _ ih =>
    rw [List.append_assoc, decodeFrom_spells hs, ih, List.length_append, Nat.add_assoc]
    cases Program.decodeFrom (offset + (piece.length + others.length)) rest <;> rfl

/-- Where no instruction stands decoding stops, for the same reason at every offset. -/
theorem decodeFrom_of_not_opens {bytes : List UInt8} (hn : bytes ≠ []) (h : ¬ Opens bytes) :
    ∃ issue, ∀ offset, Program.decodeFrom offset bytes = .error ⟨offset, issue⟩ := by
  cases bytes with
  | nil => exact absurd rfl hn
  | cons tag rest =>
    cases hk : Kind.ofTag? tag with
    | none =>
      refine ⟨.unknownTag tag, fun offset => ?_⟩
      rw [Program.decodeFrom, hk]
    | some kind =>
      cases hp : Instruction.ofPayload rest kind with
      | error issue =>
        refine ⟨issue, fun offset => ?_⟩
        rw [Program.decodeFrom, hk]
        simp only [hp]
      | ok read =>
        refine absurd ⟨kind.tag :: rest.take read.2, read.1, (spells_of_ofPayload hp).2, ?_⟩ h
        rw [Kind.tag_of_ofTag hk, List.cons_prefix_cons]
        exact ⟨rfl, List.take_prefix _ _⟩

/-- All bytes are instructions up to some place, which is their end or where none stands. -/
theorem exists_splits (bytes : List UInt8) :
    ∃ before rest program, bytes = before ++ rest ∧ Splits before program ∧
      (rest = [] ∨ rest ≠ [] ∧ ¬ Opens rest) := by
  by_cases hn : bytes = []
  · exact ⟨[], [], [], hn, .nil, .inl rfl⟩
  by_cases ho : Opens bytes
  · -- a piece has its tag at least, so fewer bytes are left behind it
    obtain ⟨piece, i, hs, others, he⟩ := ho
    have hl : others.length < bytes.length := by
      obtain ⟨kind, payload, rfl, _⟩ := hs.payload
      rw [← he, List.length_append, List.length_cons]
      omega
    obtain ⟨before, rest, program, rfl, hb, hr⟩ := exists_splits others
    exact ⟨piece ++ before, rest, i :: program, by rw [← he, List.append_assoc], .cons hs hb, hr⟩
  · exact ⟨[], bytes, [], rfl, .nil, .inr ⟨hn, ho⟩⟩
termination_by bytes.length

theorem FirstIllFormed.not_opens {bytes : List UInt8} {offset : Nat}
    (h : FirstIllFormed bytes offset) : bytes.drop offset ≠ [] ∧ ¬ Opens (bytes.drop offset) := by
  constructor
  · intro hn
    exact absurd h.inside (Nat.not_lt.mpr (List.drop_eq_nil_iff.mp hn))
  · exact h.illFormed

end Layout

/-- The same error, of bytes that others stand in front of. -/
def DecodeError.shift (count : Nat) (error : DecodeError) : DecodeError :=
  { error with offset := error.offset + count }

namespace Program

open Layout

theorem decodeFrom_of_splits {bytes : List UInt8} {program : Program} (h : Splits bytes program)
    (offset : Nat) : decodeFrom offset bytes = .ok program := by
  have he := decodeFrom_splits h offset []
  rw [List.append_nil, decodeFrom] at he
  rw [he, Except.map, List.append_nil]

/-- Bytes either split into instructions or have a first place where none stands. -/
theorem decodeFrom_cases (bytes : List UInt8) :
    (∃ program, Splits bytes program) ∨
    ∃ place issue, FirstIllFormed bytes place ∧
      ∀ offset, decodeFrom offset bytes = .error ⟨offset + place, issue⟩ := by
  obtain ⟨before, rest, program, rfl, hs, rfl | ⟨hn, ho⟩⟩ := exists_splits bytes
  · rw [List.append_nil]
    exact .inl ⟨program, hs⟩
  · obtain ⟨issue, he⟩ := decodeFrom_of_not_opens hn ho
    refine .inr ⟨before.length, issue, ?_, fun offset => ?_⟩
    · constructor
      · rw [List.length_append]
        exact Nat.lt_add_of_pos_right (List.length_pos_iff.mpr hn)
      · rw [List.take_left]
        exact ⟨program, hs⟩
      · rw [WellFormedAt, List.drop_left]
        exact ho
    · rw [decodeFrom_splits hs, he]
      rfl

theorem decode_ok_iff {bytes : List UInt8} {program : Program} :
    decode bytes = .ok program ↔ Splits bytes program := by
  constructor
  · intro h
    rcases decodeFrom_cases bytes with ⟨found, hs⟩ | ⟨place, issue, _, he⟩
    · rw [decode, decodeFrom_of_splits hs] at h
      cases h
      exact hs
    · rw [decode, he] at h
      cases h
  · intro h
    exact decodeFrom_of_splits h 0

theorem decode_error_iff {bytes : List UInt8} {place : Nat} :
    (∃ issue, decode bytes = .error ⟨place, issue⟩) ↔ FirstIllFormed bytes place := by
  constructor
  · -- bytes that split are decoded, so there is a first place, and it is the reported one
    rintro ⟨issue, h⟩
    rcases decodeFrom_cases bytes with ⟨program, hs⟩ | ⟨found, _, hf, he⟩
    · rw [decode, decodeFrom_of_splits hs] at h
      cases h
    · rw [decode, he, Nat.zero_add] at h
      cases h
      exact hf
  · intro h
    obtain ⟨program, hs⟩ := h.before
    obtain ⟨hn, ho⟩ := h.not_opens
    obtain ⟨issue, he⟩ := decodeFrom_of_not_opens hn ho
    refine ⟨issue, ?_⟩
    have hd := decodeFrom_splits hs 0 (bytes.drop place)
    rw [List.take_append_drop, he, List.length_take, Nat.zero_add,
      Nat.min_eq_left (Nat.le_of_lt h.inside)] at hd
    exact hd

/-- Errors count from the offset of the first byte. -/
theorem decodeFrom_eq (offset : Nat) (bytes : List UInt8) :
    decodeFrom offset bytes = (decode bytes).mapError (DecodeError.shift offset) := by
  rcases decodeFrom_cases bytes with ⟨program, hs⟩ | ⟨place, issue, _, he⟩
  · rw [decode, decodeFrom_of_splits hs, decodeFrom_of_splits hs]
    rfl
  · rw [decode, he, he, Nat.zero_add, Nat.add_comm offset place]
    rfl

theorem decode_append {first : List UInt8} {program : Program}
    (h : decode first = .ok program) (more : List UInt8) :
    decode (first ++ more) =
      match decode more with
      | .ok others => .ok (program ++ others)
      | .error error => .error (error.shift first.length) := by
  rw [decode, decodeFrom_splits (decode_ok_iff.mp h), Nat.zero_add, decodeFrom_eq]
  cases decode more <;> rfl

theorem ofFile_magic (body : List UInt8) :
    ofFile (magic ++ body) = (decode body).mapError (DecodeError.shift magic.length) := by
  rw [ofFile, if_pos (List.isPrefixOf_iff_prefix.mpr (List.prefix_append _ _)), List.drop_left,
    decodeFrom_eq]

theorem ofFile_of_not_magic {content : List UInt8} (h : ¬ magic <+: content) :
    ofFile content = .error ⟨0, .badMagic⟩ := by
  rw [ofFile, if_neg fun hp => h (List.isPrefixOf_iff_prefix.mp hp)]

end Program

/-- Decoding succeeds exactly for bytes that split into instructions, and fails exactly at the first
place where none stands; the bytes before it are decoded. Of bytes behind decoded ones the
instructions follow, or the error is theirs, counted from the start of all. The cursor stays on the
bytes. A file is its magic number and such bytes, and errors count from the start of the file. -/
theorem decode_splits_exactly (bytes : List UInt8) :
    (∀ program, Program.decode bytes = .ok program ↔ Layout.Splits bytes program) ∧
    (∀ place, (∃ issue, Program.decode bytes = .error ⟨place, issue⟩) ↔
      Layout.FirstIllFormed bytes place) ∧
    (∀ error, Program.decode bytes = .error error → error.offset < bytes.length ∧
      ∃ program, Program.decode (bytes.take error.offset) = .ok program) ∧
    (∀ program, Program.decode bytes = .ok program → ∀ more,
      Program.decode (bytes ++ more) =
        match Program.decode more with
        | .ok others => .ok (program ++ others)
        | .error error => .error (error.shift bytes.length)) ∧
    Reader.StaysInside bytes ∧
    Program.ofFile (Program.magic ++ bytes) =
      (Program.decode bytes).mapError (DecodeError.shift Program.magic.length) ∧
    (¬ Program.magic <+: bytes → Program.ofFile bytes = .error ⟨0, .badMagic⟩) := by
  refine ⟨fun program => Program.decode_ok_iff, fun place => Program.decode_error_iff,
    fun error h => ?_, fun program h more => Program.decode_append h more, Reader.staysInside bytes,
    Program.ofFile_magic bytes, fun h => Program.ofFile_of_not_magic h⟩
  have hf := Program.decode_error_iff.mp ⟨error.issue, h⟩
  obtain ⟨program, hs⟩ := hf.before
  exact ⟨hf.inside, program, Program.decode_ok_iff.mpr hs⟩

/-- The second name has fewer bytes than the byte in front of it says. -/
theorem short_name_is_first_ill_formed :
    let first : List UInt8 := [0x76, 2, 0x68, 0x70, 0x2b]
    let more : List UInt8 := [0x78, 0x56, 9, 0x41, 0x6e, 0x67]
    Program.decode first = .ok [.var "hp", .operator .add] ∧
      Program.decode more = .error ⟨1, .truncated 9 3⟩ ∧
      Program.decode (first ++ more) = .error ⟨6, .truncated 9 3⟩ ∧
      Layout.FirstIllFormed (first ++ more) 6 ∧
      Program.ofFile first = .error ⟨0, .badMagic⟩ := by
  intro first more
  have hf : Program.decode first = .ok [.var "hp", .operator .add] := by decide +kernel
  have hm : Program.decode more = .error ⟨1, .truncated 9 3⟩ := by decide +kernel
  obtain ⟨_, _, _, happend, _, _, hfile⟩ := decode_splits_exactly first
  have ha : Program.decode (first ++ more) = .error ⟨6, .truncated 9 3⟩ := by
    rw [happend _ hf, hm]
    rfl
  refine ⟨hf, hm, ha, ?_, hfile (by decide)⟩
  exact ((decode_splits_exactly (first ++ more)).2.1 6).mp ⟨_, ha⟩

end SpriteFormula
