import SpriteFormula.Proofs.DecodingExact

/-!
Encoding what was decoded writes the same program in the fewest bytes. Three instructions have a
form that is a tag alone; encoding puts it in the place of the long form and keeps all else.
-/

namespace SpriteFormula

namespace Layout

/-- The long form of an instruction that is also spelled by a tag alone. -/
inductive Shortens : List UInt8 → Char → Prop where
  | pi : Shortens ('#'.toUInt8 :: Binary64.pi.toBytes) 'p'
  | e : Shortens ('#'.toUInt8 :: Binary64.e.toBytes) 'e'
  | positional : Shortens ('v'.toUInt8 :: 1 :: Text.utf8Bytes positional) 'x'

def Redundant (piece : List UInt8) : Prop := ∃ tag, Shortens piece tag

/-- The piece is one of the instructions that the bytes consist of. -/
def Holds (bytes piece : List UInt8) : Prop :=
  ∃ before program after, Splits before program ∧ bytes = before ++ piece ++ after

/-- Instruction by instruction the second bytes are the first ones, each long form replaced by its
tag. -/
inductive Canonicalizes : List UInt8 → List UInt8 → Prop where
  | nil : Canonicalizes [] []
  | kept {piece rest others : List UInt8} {i : Instruction} :
      Spells piece i → ¬ Redundant piece → Canonicalizes rest others →
      Canonicalizes (piece ++ rest) (piece ++ others)
  | shortened {piece rest others : List UInt8} {tag : Char} :
      Shortens piece tag → Canonicalizes rest others →
      Canonicalizes (piece ++ rest) (tag.toUInt8 :: others)

end Layout

/-! ### One instruction -/

/-- Eight bytes are read back from the bits they stand for. -/
theorem Binary64.toBytes_ofBytes {bytes : List UInt8} (h : bytes.length = 8) :
    (ofBytes bytes).toBytes = bytes := by
  match bytes, h with
  | [a, b, c, d, e, f, g, i], _ =>
    have ha := a.toNat_lt
    have hb := b.toNat_lt
    have hc := c.toNat_lt
    have hd := d.toNat_lt
    have he := e.toNat_lt
    have hf := f.toNat_lt
    have hg := g.toNat_lt
    have hi := i.toNat_lt
    have digit {n : Nat} {byte : UInt8} (hn : n = byte.toNat) : UInt8.ofNat n = byte := by
      rw [hn, UInt8.ofNat_toNat]
    simp only [ofBytes, toBytes, List.range, List.range.loop, List.map, List.foldl,
      UInt64.toNat_ofNat', List.cons.injEq, and_true]
    refine ⟨digit ?_, digit ?_, digit ?_, digit ?_, digit ?_, digit ?_, digit ?_, digit ?_⟩ <;>
      omega

theorem encodeName_of_length {name : String} {length : UInt8}
    (h : (Text.utf8Bytes name).length = length.toNat) :
    encodeName name = .ok (length :: Text.utf8Bytes name) := by
  have hl := length.toNat_lt
  rw [encodeName, if_pos (by omega), h, UInt8.ofNat_toNat]

namespace Layout

theorem encode_of_bare {tag : Char} {i : Instruction} (h : (tag, i) ∈ bare) :
    i.encode = .ok [tag.toUInt8] := by
  have all : ∀ entry ∈ bare, entry.2.encode = .ok [entry.1.toUInt8] := by decide
  exact all _ h

theorem Shortens.spells {piece : List UInt8} {tag : Char} (h : Shortens piece tag) :
    ∃ i, Spells piece i ∧ i.encode = .ok [tag.toUInt8] := by
  cases h with
  | pi =>
    have hs := Spells.constant (Binary64.length_toBytes .pi)
    rw [Binary64.ofBytes_toBytes] at hs
    exact ⟨_, hs, encode_of_bare (by decide)⟩
  | e =>
    have hs := Spells.constant (Binary64.length_toBytes .e)
    rw [Binary64.ofBytes_toBytes] at hs
    exact ⟨_, hs, encode_of_bare (by decide)⟩
  | positional => exact ⟨_, .var rfl, encode_of_bare (by decide)⟩

theorem Shortens.length_lt {piece : List UInt8} {tag : Char} (h : Shortens piece tag) :
    1 < piece.length := by
  cases h <;> decide

/-- Two pieces at the front of the same bytes are one piece, and one instruction. -/
theorem Spells.unique {piece other rest more : List UInt8} {i j : Instruction}
    (h : Spells piece i) (k : Spells other j) (he : piece ++ rest = other ++ more) :
    piece = other ∧ rest = more ∧ i = j := by
  obtain ⟨kind, payload, rfl, hp⟩ := h.payload
  obtain ⟨kind', payload', rfl, hp'⟩ := k.payload
  obtain ⟨ht, hr⟩ := List.cons.inj he
  have hk : kind = kind' := by
    have := congrArg Kind.ofTag? ht
    rw [Kind.ofTag_tag, Kind.ofTag_tag] at this
    exact Option.some.inj this
  subst hk
  have hi := (hp rest).symm.trans ((congrArg (Instruction.ofPayload · kind) hr).trans (hp' more))
  obtain ⟨rfl, hl⟩ := Prod.mk.inj (Except.ok.inj hi)
  obtain ⟨rfl, rfl⟩ := List.append_inj hr hl
  exact ⟨rfl, rfl, rfl⟩

/-- A form that is not redundant is the one that encoding writes. -/
theorem Spells.encode {piece : List UInt8} {i : Instruction} (h : Spells piece i)
    (hr : ¬ Redundant piece) : i.encode = .ok piece := by
  cases h with
  | bare hm => exact encode_of_bare hm
  | @constant bytes hl =>
    have hb := Binary64.toBytes_ofBytes hl
    have hp : Binary64.ofBytes bytes ≠ .pi := by
      intro he
      rw [← hb, he] at hr
      exact hr ⟨_, .pi⟩
    have he : Binary64.ofBytes bytes ≠ .e := by
      intro he
      rw [← hb, he] at hr
      exact hr ⟨_, .e⟩
    have hk : Instruction.constantKind (.ofBytes bytes) = .constant := by
      rw [Instruction.constantKind, if_neg hp, if_neg he]
    rw [Instruction.encode, Instruction.payload, if_pos hk, hb, Instruction.kind, hk]
    rfl
  | @var length name hl =>
    have hx : name ≠ positional := by
      rintro rfl
      have : length = 1 := UInt8.toNat_inj.mp hl.symm
      subst this
      exact hr ⟨_, .positional⟩
    rw [Instruction.encode, Instruction.payload, if_neg hx, encodeName_of_length hl,
      Instruction.kind, if_neg hx]
    rfl
  | @spriteVar length name hl =>
    rw [Instruction.encode, Instruction.payload, encodeName_of_length hl]
    rfl

/-! ### Programs -/

theorem holds_nil {piece : List UInt8} (hr : Redundant piece) : ¬ Holds [] piece := by
  rintro ⟨before, program, after, -, he⟩
  obtain ⟨tag, ht⟩ := hr
  have hl := congrArg List.length he
  simp only [List.length_nil, List.length_append] at hl
  have := ht.length_lt
  omega

/-- The instructions of bytes behind an instruction are that one and those of the rest. -/
theorem holds_append {piece other rest : List UInt8} {i : Instruction} (h : Spells piece i)
    (hr : Redundant other) : Holds (piece ++ rest) other ↔ other = piece ∨ Holds rest other := by
  constructor
  · rintro ⟨before, program, after, hs, he⟩
    cases hs with
    | nil =>
      obtain ⟨tag, ht⟩ := hr
      obtain ⟨j, hj, -⟩ := ht.spells
      exact .inl (hj.unique h he.symm).1
    | @cons first others j program hj hs =>
      rw [List.append_assoc, List.append_assoc] at he
      obtain ⟨-, rfl, -⟩ := h.unique hj he
      exact .inr ⟨others, program, after, hs, (List.append_assoc _ _ _).symm⟩
  · rintro (rfl | ⟨before, program, after, hs, rfl⟩)
    · exact ⟨[], [], rest, .nil, rfl⟩
    · exact ⟨piece ++ before, i :: program, after, .cons h hs, by simp only [List.append_assoc]⟩

/-- What a program that bytes split into is encoded as. -/
theorem Splits.encode {bytes : List UInt8} {program : Program} (h : Splits bytes program) :
    ∃ canonical, program.encode = .ok canonical ∧ Canonicalizes bytes canonical := by
  induction h with
  | nil => exact ⟨[], rfl, .nil⟩
  | @cons piece rest i program hs _ ih =>
    obtain ⟨others, ho, hc⟩ := ih
    by_cases hr : Redundant piece
    · obtain ⟨tag, ht⟩ := hr
      obtain ⟨j, hj, he⟩ := ht.spells
      obtain ⟨-, -, rfl⟩ := hs.unique hj (Eq.refl (piece ++ rest))
      exact ⟨tag.toUInt8 :: others, by simp only [Program.encode, he, ho, List.singleton_append],
        .shortened ht hc⟩
    · exact ⟨piece ++ others, by simp only [Program.encode, hs.encode hr, ho], .kept hs hr hc⟩

section
variable {bytes canonical : List UInt8}

theorem Canonicalizes.length_le (h : Canonicalizes bytes canonical) :
    canonical.length ≤ bytes.length := by
  induction h with
  | nil => exact Nat.le_refl _
  | kept _ _ _ ih =>
    rw [List.length_append, List.length_append]
    omega
  | shortened hs _ ih =>
    have := hs.length_lt
    rw [List.length_append, List.length_cons]
    omega

/-- Nothing changes where there is nothing to shorten. -/
theorem Canonicalizes.eq_iff (h : Canonicalizes bytes canonical) :
    canonical = bytes ↔ ∀ piece, Redundant piece → ¬ Holds bytes piece := by
  induction h with
  | nil => exact ⟨fun _ _ => holds_nil, fun _ => rfl⟩
  | kept hs hr _ ih =>
    rw [List.append_cancel_left_eq, ih]
    refine forall_congr' fun other => imp_congr_right fun ho => not_congr ?_
    rw [holds_append hs ho]
    refine (or_iff_right ?_).symm
    rintro rfl
    exact hr ho
  | @shortened piece rest others tag hs hc ih =>
    constructor
    · intro he
      have hl := congrArg List.length he
      rw [List.length_append, List.length_cons] at hl
      have := hs.length_lt
      have := hc.length_le
      omega
    · intro hn
      exact absurd ⟨[], [], rest, .nil, rfl⟩ (hn piece ⟨tag, hs⟩)

end

end Layout

theorem Program.decode_of_encode {program : Program} {bytes : List UInt8}
    (h : program.encode = .ok bytes) : decode bytes = .ok program := by
  obtain ⟨found, hf, hd, -⟩ := encode_of_encodable (encodable_of_encode h)
  obtain rfl := Except.ok.inj (h.symm.trans hf)
  exact hd 0

/-- Every decoded program can be encoded again. The bytes are then those it was decoded from, with
each long form replaced by its tag and nothing else: no more of them, the same ones exactly if there
was no long form, and encoding what they are decoded as changes nothing more. -/
theorem encoding_canonicalizes {bytes : List UInt8} {program : Program}
    (h : Program.decode bytes = .ok program) :
    ∃ canonical, program.encode = .ok canonical ∧ Program.decode canonical = .ok program ∧
      Layout.Canonicalizes bytes canonical ∧ canonical.length ≤ bytes.length ∧
      (canonical = bytes ↔ ∀ piece, Layout.Redundant piece → ¬ Layout.Holds bytes piece) ∧
      (Program.decode canonical).map Program.encode = .ok (.ok canonical) := by
  obtain ⟨canonical, he, hc⟩ := (Program.decode_ok_iff.mp h).encode
  have hd := Program.decode_of_encode he
  refine ⟨canonical, he, hd, hc, hc.length_le, hc.eq_iff, ?_⟩
  rw [hd, Except.map, he]

/-- Of three long instructions, the bits of π and the name of the positional parameter have a
tag. -/
theorem long_pi_and_parameter_are_shortened :
    let bytes : List UInt8 :=
      [0x23, 0x40, 0x09, 0x21, 0xfb, 0x54, 0x44, 0x2d, 0x18, 0x76, 1, 0x79, 0x76, 1, 0x78]
    let canonical : List UInt8 := [0x70, 0x76, 1, 0x79, 0x78]
    let program : Program := [.constant .pi, .var "y", .var "x"]
    Program.decode bytes = .ok program ∧ program.encode = .ok canonical ∧
      Program.decode canonical = .ok program ∧ Layout.Canonicalizes bytes canonical ∧
      ∃ piece, Layout.Redundant piece ∧ Layout.Holds bytes piece := by
  intro bytes canonical program
  have hd : Program.decode bytes = .ok program := by decide +kernel
  have hc : program.encode = .ok canonical := by decide +kernel
  obtain ⟨found, he, hback, hcanon, -, hiff, -⟩ := encoding_canonicalizes hd
  rw [hc] at he
  cases he
  refine ⟨hd, hc, hback, hcanon, ?_⟩
  by_contra hn
  have hs : canonical = bytes := hiff.mpr fun piece hr hh => hn ⟨piece, hr, hh⟩
  exact absurd hs (by decide)

end SpriteFormula
