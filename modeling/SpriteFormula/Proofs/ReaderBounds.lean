import SpriteFormula.Bytecode.Reader
import SpriteFormula.Proofs.InstructionLayout

/-!
The cursor stays on the input. As long as it does, each read is one from the bytes that are left, so
that reading a program with the cursor and decoding the bytes are the same.
-/

namespace SpriteFormula

namespace Reader

/-- The bytes that are left. -/
def rest (r : Reader) : List UInt8 := r.input.drop r.position

def skip (r : Reader) (count : Nat) : Reader := { r with position := r.position + count }

def Inside (r : Reader) : Prop := r.position ≤ r.input.length

/-- What was taken off the front of the bytes that are left, with the reader behind it. -/
def settle {α : Type} (tagAt : Nat) (r : Reader) : Except DecodeIssue (α × Nat) → Fetch α
  | .ok (value, count) => .done value (r.skip count)
  | .error issue => .refused ⟨tagAt, issue⟩

section
variable {r : Reader} {tagAt : Nat}

theorem length_rest (r : Reader) : r.rest.length = r.input.length - r.position := List.length_drop

theorem rest_skip (r : Reader) (count : Nat) : (r.skip count).rest = r.rest.drop count :=
  List.drop_drop.symm

theorem skip_skip (r : Reader) (count more : Nat) :
    (r.skip count).skip more = r.skip (count + more) := by
  rw [skip, skip, skip, Nat.add_assoc]

theorem Inside.skip (h : r.Inside) {count : Nat} (hc : count ≤ r.rest.length) :
    (r.skip count).Inside := by
  rw [length_rest] at hc
  unfold Inside at h ⊢
  change r.position + count ≤ r.input.length
  omega

theorem Inside.skip_one (h : r.Inside) {byte : UInt8} {others : List UInt8}
    (hr : r.rest = byte :: others) : (r.skip 1).Inside ∧ (r.skip 1).rest = others := by
  constructor
  · apply h.skip
    rw [hr, List.length_cons]
    omega
  · rw [rest_skip, hr, List.drop_succ_cons, List.drop_zero]

/-! ### Reads -/

theorem getBytes_eq (h : r.Inside) (count : Nat) :
    r.getBytes tagAt count =
      if r.rest.length < count then .refused ⟨tagAt, .truncated count r.rest.length⟩
      else .done (r.rest.take count) (r.skip count) := by
  have hp : r.position ≤ r.input.length := h
  rw [length_rest]
  unfold getBytes remaining? slice?
  rw [if_pos hp]
  dsimp only
  split
  · rfl
  · next hc =>
    rw [if_pos ⟨Nat.le_add_right _ _, by omega⟩, Nat.add_sub_cancel_left]
    rfl

theorem getByte_nil (h : r.Inside) (hr : r.rest = []) :
    r.getByte tagAt = .refused ⟨tagAt, .truncated 1 0⟩ := by
  rw [getByte, getBytes_eq h, hr]
  rfl

theorem getByte_cons (h : r.Inside) {byte : UInt8} {others : List UInt8}
    (hr : r.rest = byte :: others) : r.getByte tagAt = .done byte (r.skip 1) := by
  rw [getByte, getBytes_eq h, hr, if_neg (by rw [List.length_cons]; omega)]
  rfl

theorem getName_eq (h : r.Inside) : r.getName tagAt = r.settle tagAt (decodeName r.rest) := by
  cases hr : r.rest with
  | nil =>
    rw [getName, getByte_nil h hr]
    rfl
  | cons length others =>
    obtain ⟨hi, ho⟩ := h.skip_one hr
    rw [getName, getByte_cons h hr, Fetch.andThen, getBytes_eq hi, ho, decodeName]
    by_cases hl : length.toNat ≤ others.length
    · rw [if_neg (Nat.not_lt.mpr hl), if_pos hl, Fetch.andThen, skip_skip, Nat.add_comm 1]
      dsimp only
      cases Text.ofUtf8? (others.take length.toNat) <;> rfl
    · rw [if_pos (Nat.not_le.mp hl), if_neg hl]
      rfl

theorem getPayload_eq (h : r.Inside) (kind : Kind) :
    r.getPayload tagAt kind = r.settle tagAt (Instruction.ofPayload r.rest kind) := by
  cases kind with
  | constant =>
    rw [getPayload, getArray, getBytes_eq h, Instruction.ofPayload]
    by_cases hl : 8 ≤ r.rest.length
    · have ht : (r.rest.take 8).length = 8 := by
        rw [List.length_take]
        omega
      rw [if_neg (Nat.not_lt.mpr hl), if_pos hl, Fetch.andThen, if_pos ht]
      rfl
    · rw [if_pos (Nat.not_le.mp hl), if_neg hl]
      rfl
  | namedVar =>
    rw [getPayload, getName_eq h, Instruction.ofPayload]
    cases decodeName r.rest <;> rfl
  | spriteVar =>
    rw [getPayload, getName_eq h, Instruction.ofPayload]
    cases decodeName r.rest <;> rfl
  | _ => rfl

theorem getInstruction_eq (h : r.Inside) {tag : UInt8} {others : List UInt8}
    (hr : r.rest = tag :: others) :
    r.getInstruction =
      match Kind.ofTag? tag with
      | none => .refused ⟨r.position, .unknownTag tag⟩
      | some kind => (r.skip 1).settle r.position (Instruction.ofPayload others kind) := by
  obtain ⟨hi, ho⟩ := h.skip_one hr
  rw [getInstruction, getByte_cons h hr, Fetch.andThen]
  cases Kind.ofTag? tag with
  | none => rfl
  | some kind =>
    dsimp only
    rw [getPayload_eq hi, ho]

end

/-! ### Programs -/

/-- The reader behind the last byte. -/
def atEnd (r : Reader) : Reader := ⟨r.input, r.input.length⟩

theorem getProgram_done {r next : Reader} {i : Instruction} (hlt : r.position < r.input.length)
    (h : r.getInstruction = .done i next) :
    r.getProgram = next.getProgram.andThen fun others last => .done (i :: others) last := by
  rw [getProgram, if_pos hlt]
  split
  · next found _ hd =>
    rw [h] at hd
    cases hd
    rfl
  · next hd =>
    rw [h] at hd
    cases hd
  · next hd =>
    rw [h] at hd
    cases hd

theorem getProgram_refused {r : Reader} {error : DecodeError} (hlt : r.position < r.input.length)
    (h : r.getInstruction = .refused error) : r.getProgram = .refused error := by
  rw [getProgram, if_pos hlt]
  split
  · next hd =>
    rw [h] at hd
    cases hd
  · next hd =>
    rw [h] at hd
    cases hd
    rfl
  · next hd =>
    rw [h] at hd
    cases hd

theorem getProgram_end {r : Reader} (h : r.position = r.input.length) :
    r.getProgram = .done [] r.atEnd := by
  rw [getProgram, if_neg (by omega), atEnd, ← h]

theorem getProgram_eq (r : Reader) (h : r.Inside) :
    r.getProgram =
      match Program.decodeFrom r.position r.rest with
      | .ok program => .done program r.atEnd
      | .error error => .refused error := by
  -- both loops take one instruction off the bytes that are left
  cases hr : r.rest with
  | nil =>
    have hl := length_rest r
    rw [hr, List.length_nil] at hl
    rw [getProgram_end (Nat.le_antisymm h (Nat.sub_eq_zero_iff_le.mp hl.symm)), Program.decodeFrom]
  | cons tag others =>
    have hl := length_rest r
    rw [hr, List.length_cons] at hl
    have hlt : r.position < r.input.length := by omega
    obtain ⟨hi, ho⟩ := h.skip_one hr
    have he := getInstruction_eq h hr
    rw [Program.decodeFrom]
    cases hk : Kind.ofTag? tag with
    | none =>
      rw [hk] at he
      exact getProgram_refused hlt he
    | some kind =>
      simp only [hk] at he
      cases hp : Instruction.ofPayload others kind with
      | error issue =>
        rw [hp] at he
        simp only [hp]
        exact getProgram_refused hlt he
      | ok read =>
        obtain ⟨i, count⟩ := read
        rw [hp] at he
        simp only [hp]
        have hc := (Layout.spells_of_ofPayload hp).1
        have hnext : ((r.skip 1).skip count).Inside := hi.skip (by rw [ho]; exact hc)
        rw [getProgram_done hlt he, getProgram_eq _ hnext, rest_skip, ho]
        change Fetch.andThen (match Program.decodeFrom (r.position + 1 + count) _ with
          | .ok program => .done program r.atEnd
          | .error error => .refused error) _ = _
        cases Program.decodeFrom (r.position + 1 + count) (others.drop count) <;> rfl
termination_by r.input.length - r.position
decreasing_by
  change r.input.length - (r.position + 1 + count) < _
  omega

theorem getProgram_start (bytes : List UInt8) :
    (start bytes).getProgram =
      match Program.decode bytes with
      | .ok program => .done program ⟨bytes, bytes.length⟩
      | .error error => .refused error := by
  rw [getProgram_eq _ (Nat.zero_le _)]
  rfl

/-! ### Reachable readers -/

/-- A reader that reads of bytes lead to. -/
inductive Reached (bytes : List UInt8) : Reader → Prop where
  | start : Reached bytes (.start bytes)
  | read {r next : Reader} {tagAt count : Nat} {taken : List UInt8} :
      Reached bytes r → r.getBytes tagAt count = .done taken next → Reached bytes next

theorem Reached.inside {bytes : List UInt8} {r : Reader} (h : Reached bytes r) :
    r.input = bytes ∧ r.Inside := by
  induction h with
  | start => exact ⟨rfl, Nat.zero_le _⟩
  | @read r next tagAt count taken _ hr ih =>
    rw [getBytes_eq ih.2] at hr
    split at hr
    · cases hr
    · next hc =>
      cases hr
      exact ⟨ih.1, ih.2.skip (Nat.not_lt.mp hc)⟩

theorem reached_iff {bytes : List UInt8} {r : Reader} :
    Reached bytes r ↔ r.input = bytes ∧ r.Inside := by
  constructor
  · intro h
    exact h.inside
  · rintro ⟨rfl, h⟩
    -- one read from the start takes all the bytes before the position
    have hr : (start r.input).getBytes 0 r.position = .done (r.input.take r.position) r := by
      have hi : (start r.input).Inside := Nat.zero_le _
      have hp : (start r.input).rest = r.input := List.drop_zero
      rw [getBytes_eq hi, hp, if_neg (Nat.not_lt.mpr h), skip, start, Nat.zero_add]
    exact .read .start hr

theorem getBytes_ne_outside {r : Reader} (h : r.Inside) (tagAt count : Nat) :
    r.getBytes tagAt count ≠ .outside := by
  rw [getBytes_eq h]
  split <;> nofun

theorem Inside.getInstruction {r next : Reader} {i : Instruction} (h : r.Inside)
    (hd : r.getInstruction = .done i next) : next.input = r.input ∧ next.Inside := by
  cases hr : r.rest with
  | nil =>
    rw [Reader.getInstruction, getByte_nil h hr] at hd
    cases hd
  | cons tag others =>
    obtain ⟨hi, ho⟩ := h.skip_one hr
    rw [getInstruction_eq h hr] at hd
    split at hd
    · cases hd
    · next kind _ =>
      cases hp : Instruction.ofPayload others kind with
      | error issue =>
        rw [hp] at hd
        cases hd
      | ok read =>
        rw [hp] at hd
        cases hd
        exact ⟨rfl, hi.skip (by rw [ho]; exact (Layout.spells_of_ofPayload hp).1)⟩

/-- Reading a program is decoding the bytes, and no read on the way is one outside of them. -/
structure StaysInside (bytes : List UInt8) : Prop where
  decodes : (start bytes).getProgram =
    match Program.decode bytes with
    | .ok program => .done program ⟨bytes, bytes.length⟩
    | .error error => .refused error
  goesOn : ∀ r i next, Reached bytes r → r.getInstruction = .done i next → Reached bytes next
  bounded : ∀ r, Reached bytes r → r.position ≤ bytes.length
  inside : ∀ r, Reached bytes r → ∀ tagAt count, r.getBytes tagAt count ≠ .outside

theorem staysInside (bytes : List UInt8) : StaysInside bytes := by
  constructor
  · exact getProgram_start bytes
  · intro r i next h hd
    obtain ⟨hb, hi⟩ := reached_iff.mp h
    obtain ⟨hn, hin⟩ := hi.getInstruction hd
    exact reached_iff.mpr ⟨hn.trans hb, hin⟩
  · intro r h
    obtain ⟨rfl, hi⟩ := reached_iff.mp h
    exact hi
  · intro r h tagAt count
    exact getBytes_ne_outside (reached_iff.mp h).2 tagAt count

end Reader

end SpriteFormula
