import SpriteFormula.Location
import SpriteFormula.Proofs.TokenSeams

/-!
Places in texts put together. A place of the first text is the same place in both, and behind a text
that ends its last line a place moves down by the lines of that text and on by its bytes.
-/

namespace SpriteFormula

namespace Text

theorem byteLength_append (text others : List Char) :
    byteLength (text ++ others) = byteLength text + byteLength others := by
  induction text with
  | nil => rw [List.nil_append, byteLength, Nat.zero_add]
  | cons c rest ih => rw [List.cons_append, byteLength, byteLength, ih, Nat.add_assoc]

theorem byteLength_take_add_drop (count : Nat) (text : List Char) :
    byteLength (text.take count) + byteLength (text.drop count) = byteLength text := by
  rw [← byteLength_append, List.take_append_drop]

theorem byteLength_ofList (text : List Char) :
    (String.ofList text).utf8ByteSize = byteLength text := by
  induction text with
  | nil => rfl
  | cons c rest ih =>
    have hs : String.ofList (c :: rest) = String.singleton c ++ String.ofList rest := by
      rw [String.singleton_eq_ofList, ← String.ofList_append, List.singleton_append]
    rw [hs, String.utf8ByteSize_append, String.utf8ByteSize_singleton, ih, byteLength]

theorem byteLength_toList (text : String) : byteLength text.toList = text.utf8ByteSize := by
  rw [← byteLength_ofList, String.ofList_toList]

/-- The text ends its last line, if it has one. -/
def Complete (text : List Char) : Prop := ∀ c ∈ text.getLast?, c = '\n'

instance (text : List Char) : Decidable (Complete text) :=
  match h : text.getLast? with
  | none => isTrue (by simp [Complete, h])
  | some c => decidable_of_iff (c = '\n') (by simp [Complete, h])

theorem Complete.tail {c : Char} {rest : List Char} (h : Complete (c :: rest)) :
    Complete rest := by
  intro d hd
  apply h
  rw [List.getLast?_cons, Option.mem_def.mp hd]
  rfl

theorem Complete.append {text others : List Char} (h : Complete text) (ho : Complete others) :
    Complete (text ++ others) := by
  intro c hc
  rw [List.getLast?_append, Option.mem_def, Option.or_eq_some_iff] at hc
  rcases hc with hc | ⟨-, hc⟩
  · exact ho c hc
  · exact h c hc

/-- The lines of a text stay what they are behind complete lines. -/
theorem lines_append {text : List Char} (h : Complete text) (others : List Char) :
    lines (text ++ others) = lines text ++ lines others := by
  induction text with
  | nil => rfl
  | cons c rest ih =>
    have ih := ih h.tail
    rw [List.cons_append, lines, lines]
    by_cases hc : c = '\n'
    · rw [if_pos hc, if_pos hc, ih, List.cons_append]
    · rw [if_neg hc, if_neg hc, ih]
      cases hl : lines rest with
      | nil =>
        -- a last character that is no line break would leave the text incomplete
        cases rest with
        | nil => exact absurd (h c rfl) hc
        | cons d rest =>
          rw [lines] at hl
          split at hl
          · cases hl
          · split at hl <;> cases hl
      | cons line more => rfl

theorem flatten_lines (text : List Char) : (lines text).flatten = text := by
  induction text with
  | nil => rfl
  | cons c rest ih =>
    rw [lines]
    split
    · rw [List.flatten_cons, ih, List.singleton_append]
    · split
      · next hl =>
        rw [hl, List.flatten_nil] at ih
        rw [← ih]
        rfl
      · next line others hl =>
        rw [hl, List.flatten_cons] at ih
        rw [List.flatten_cons, List.cons_append, ih]

end Text

namespace Token

open Text

/-- A token stands inside of the text that it is a token of. -/
theorem bounds_of_mem {offset : Nat} {text : List Char} {token : Token}
    (h : token ∈ scanFrom offset text) :
    offset ≤ token.start ∧ token.stop ≤ offset + byteLength text := by
  fun_induction scanFrom offset text with
  | case1 offset => cases h
  | case2 offset c rest hb ih =>
    obtain ⟨hl, hu⟩ := ih h
    rw [byteLength]
    omega
  | case3 offset c rest hb kind count hm body ih =>
    have hs : byteLength body + byteLength (rest.drop count) = byteLength (c :: rest) := by
      rw [byteLength, byteLength, Nat.add_assoc, byteLength_take_add_drop]
    rcases List.mem_cons.mp h with rfl | h
    · refine ⟨Nat.le_refl offset, ?_⟩
      rw [stop, byteLength_ofList]
      dsimp only
      omega
    · obtain ⟨hl, hu⟩ := ih h
      omega

end Token

namespace Location

open Text

/-- The same place of a text that stands behind another one. -/
def below (text : String) (location : Location) : Location :=
  { location with
    line := location.line + text.toList.count '\n'
    index := location.index + text.utf8ByteSize }

/-- Nothing behind a place has a part in its line and column. -/
theorem walk_append_left {text : List Char} {offset : Nat} (h : offset ≤ byteLength text)
    (others : List Char) (line column : Nat) :
    walk (text ++ others) offset line column = walk text offset line column := by
  induction text generalizing offset line column with
  | nil =>
    have hz : offset = 0 := Nat.le_zero.mp h
    cases others with
    | nil => rfl
    | cons c rest => simp only [List.nil_append, walk, if_pos hz]
  | cons c rest ih =>
    have hr : offset - c.utf8Size ≤ byteLength rest := by
      rw [byteLength] at h
      omega
    rw [List.cons_append, walk, walk, ih hr, ih hr]

/-- Complete lines lead to the first column of the line below them. -/
theorem walk_append_right {text : List Char} (h : Complete text) (others : List Char)
    (offset line column : Nat) (hc : text = [] → column = 1) :
    walk (text ++ others) (byteLength text + offset) line column =
      walk others offset (line + text.count '\n') 1 := by
  induction text generalizing line column with
  | nil => rw [List.nil_append, byteLength, Nat.zero_add, hc rfl, List.count_nil, Nat.add_zero]
  | cons c rest ih =>
    have hp := c.utf8Size_pos
    have ho : byteLength (c :: rest) + offset - c.utf8Size = byteLength rest + offset := by
      rw [byteLength]
      omega
    rw [List.cons_append, walk, if_neg (by rw [byteLength]; omega), ho]
    by_cases hb : c = '\n'
    · rw [if_pos hb, ih h.tail (line + 1) 1 fun _ => rfl, hb, List.count_cons_self]
      congr 1
      omega
    · have hr : rest ≠ [] := by
        rintro rfl
        exact hb (h c rfl)
      rw [if_neg hb, ih h.tail line (column + 1) fun he => absurd he hr,
        List.count_cons_of_ne hb]

/-- Lines counted before the text are counted on. -/
theorem walk_add (text : List Char) (offset line column more : Nat) :
    walk text offset (line + more) column =
      ((walk text offset line column).1 + more, (walk text offset line column).2) := by
  induction text generalizing offset line column with
  | nil => rfl
  | cons c rest ih =>
    rw [walk, walk]
    by_cases ho : offset = 0
    · rw [if_pos ho, if_pos ho]
    · rw [if_neg ho, if_neg ho]
      by_cases hb : c = '\n'
      · rw [if_pos hb, if_pos hb, Nat.add_right_comm, ih]
      · rw [if_neg hb, if_neg hb, ih]

theorem of_append_left {text : String} {offset : Nat} (h : offset ≤ text.utf8ByteSize)
    (others : String) : Location.of (text ++ others) offset = Location.of text offset := by
  rw [← byteLength_toList] at h
  simp only [Location.of, String.toList_append, walk_append_left h, byteLength_append]
  congr 1
  have hb : offset ≤ byteLength text.toList + byteLength others.toList := by omega
  exact (Nat.min_eq_left hb).trans (Nat.min_eq_left h).symm

theorem of_append_right {text : String} (h : Complete text.toList) (others : String)
    (offset : Nat) :
    Location.of (text ++ others) (text.utf8ByteSize + offset) =
      (Location.of others offset).below text := by
  have hw := walk_append_right h others.toList offset 1 1 fun _ => rfl
  rw [walk_add, byteLength_toList] at hw
  simp only [Location.of, below, String.toList_append, hw, byteLength_append, byteLength_toList]
  congr 1
  change min (text.utf8ByteSize + offset) (text.utf8ByteSize + others.utf8ByteSize) =
    min offset others.utf8ByteSize + text.utf8ByteSize
  omega

end Location

end SpriteFormula
