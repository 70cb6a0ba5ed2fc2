import SpriteFormula.Bytecode.Layout
import SpriteFormula.Proofs.CodecRoundTrip

/-!
The bytes of an instruction, as the layout has them, are those that its payload is decoded from.
-/

namespace SpriteFormula

theorem Text.utf8Bytes_of_ofUtf8 {bytes : List UInt8} {text : String}
    (h : ofUtf8? bytes = some text) : utf8Bytes text = bytes := by
  simp only [ofUtf8?, String.fromUTF8?] at h
  split at h
  · cases h
    rfl
  · cases h

theorem Kind.tag_of_ofTag {tag : UInt8} {kind : Kind} (h : ofTag? tag = some kind) :
    kind.tag = tag := by
  simpa using List.find?_some h

theorem decodeName_append {length : UInt8} {name : String}
    (h : (Text.utf8Bytes name).length = length.toNat) (rest : List UInt8) :
    decodeName (length :: Text.utf8Bytes name ++ rest) = .ok (name, length.toNat + 1) := by
  have hl : length.toNat ≤ (Text.utf8Bytes name ++ rest).length := by
    rw [List.length_append, h]
    omega
  have ht : (Text.utf8Bytes name ++ rest).take length.toNat = Text.utf8Bytes name := by
    rw [← h, List.take_left]
  rw [List.cons_append, decodeName, if_pos hl]
  simp only [ht, Text.ofUtf8_utf8Bytes]

theorem decodeName_ok {bytes : List UInt8} {name : String} {count : Nat}
    (h : decodeName bytes = .ok (name, count)) :
    count ≤ bytes.length ∧ ∃ length, bytes.take count = length :: Text.utf8Bytes name ∧
      (Text.utf8Bytes name).length = length.toNat := by
  cases bytes with
  | nil => cases h
  | cons length rest =>
    rw [decodeName] at h
    split at h
    · next hl =>
      dsimp only at h
      split at h
      · next found hf =>
        cases h
        have hb := Text.utf8Bytes_of_ofUtf8 hf
        refine ⟨?_, length, ?_, ?_⟩
        · rw [List.length_cons]
          omega
        · rw [List.take_succ_cons, hb]
        · rw [hb, List.length_take]
          omega
      · cases h
    · cases h

namespace Layout

theorem ofPayload_of_bare {tag : Char} {i : Instruction} (h : (tag, i) ∈ bare) :
    tag.toUInt8 = i.kind.tag ∧ ∀ bytes, Instruction.ofPayload bytes i.kind = .ok (i, 0) := by
  have all : ∀ entry ∈ bare, entry.1.toUInt8 = entry.2.kind.tag ∧
      ∀ bytes, Instruction.ofPayload bytes entry.2.kind = .ok (entry.2, 0) := by
    unfold Layout.bare
    iterate 18 refine List.forall_mem_cons.mpr ⟨⟨rfl, fun _ => rfl⟩, ?_⟩
    nofun
  exact all _ h

theorem bare_of_ofPayload {bytes : List UInt8} {kind : Kind} {i : Instruction} {count : Nat}
    (hc : kind ≠ .constant) (hv : kind ≠ .namedVar) (hs : kind ≠ .spriteVar)
    (h : Instruction.ofPayload bytes kind = .ok (i, count)) :
    count = 0 ∧ (kind.tagChar, i) ∈ bare ∧ kind.tagChar.toUInt8 = kind.tag := by
  cases kind with
  | constant => exact absurd rfl hc
  | namedVar => exact absurd rfl hv
  | spriteVar => exact absurd rfl hs
  | _ =>
    cases h
    exact ⟨rfl, by decide, by decide⟩

/-- The bytes start with a tag, and whatever stands behind them, its payload is read off them. -/
theorem Spells.payload {piece : List UInt8} {i : Instruction} (h : Spells piece i) :
    ∃ kind payload, piece = kind.tag :: payload ∧
      ∀ rest, Instruction.ofPayload (payload ++ rest) kind = .ok (i, payload.length) := by
  cases h with
  | bare hm =>
    obtain ⟨ht, hp⟩ := ofPayload_of_bare hm
    exact ⟨i.kind, [], by rw [ht], hp⟩
  | @constant bytes hl =>
    refine ⟨.constant, bytes, rfl, fun rest => ?_⟩
    have ht : (bytes ++ rest).take 8 = bytes := by rw [← hl, List.take_left]
    rw [Instruction.ofPayload, if_pos (by rw [List.length_append]; omega), ht, hl]
  | @var length name hl =>
    refine ⟨.namedVar, length :: Text.utf8Bytes name, rfl, fun rest => ?_⟩
    rw [Instruction.ofPayload, decodeName_append hl, List.length_cons, hl]
  | @spriteVar length name hl =>
    refine ⟨.spriteVar, length :: Text.utf8Bytes name, rfl, fun rest => ?_⟩
    rw [Instruction.ofPayload, decodeName_append hl, List.length_cons, hl]

theorem spells_of_ofPayload {bytes : List UInt8} {kind : Kind} {i : Instruction} {count : Nat}
    (h : Instruction.ofPayload bytes kind = .ok (i, count)) :
    count ≤ bytes.length ∧ Spells (kind.tag :: bytes.take count) i := by
  by_cases hc : kind = .constant
  · subst hc
    rw [Instruction.ofPayload] at h
    split at h
    · next hl =>
      cases h
      exact ⟨hl, .constant (by rw [List.length_take]; omega)⟩
    · cases h
  by_cases hv : kind = .namedVar
  · subst hv
    rw [Instruction.ofPayload] at h
    split at h
    · cases h
    · next hn =>
      cases h
      obtain ⟨hl, length, ht, hb⟩ := decodeName_ok hn
      rw [ht]
      exact ⟨hl, .var hb⟩
  by_cases hs : kind = .spriteVar
  · subst hs
    rw [Instruction.ofPayload] at h
    split at h
    · cases h
    · next hn =>
      cases h
      obtain ⟨hl, length, ht, hb⟩ := decodeName_ok hn
      rw [ht]
      exact ⟨hl, .spriteVar hb⟩
  · obtain ⟨rfl, hm, ht⟩ := bare_of_ofPayload hc hv hs h
    rw [← ht]
    exact ⟨Nat.zero_le _, .bare hm⟩

end Layout

end SpriteFormula
