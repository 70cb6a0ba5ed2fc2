import SpriteFormula.Proofs.TokenCuts

/-!
Lines and columns identify the places of a text. Each character moves the place on, to the next
column or line, so that places come in the order of their byte offsets, and walking the text up to a
line and column finds the offset again. Past the end there is only the place of the end.
-/

namespace SpriteFormula

open Text

/-- A byte offset between two characters of a text, or at one of its ends. -/
def Text.IsBoundary (text : List Char) (offset : Nat) : Prop :=
  ∃ before after, text = before ++ after ∧ offset = byteLength before

namespace Location

/-- The place that every text starts at. -/
def start : Location := ⟨1, 1, 0⟩

/-- The place that a character leads to. -/
def step (location : Location) (c : Char) : Location :=
  if c = '\n' then ⟨location.line + 1, 1, location.index + c.utf8Size⟩
  else ⟨location.line, location.column + 1, location.index + c.utf8Size⟩

/-- On a line before that of another place, or before it on the same line. -/
def Precedes (location other : Location) : Prop :=
  location.line < other.line ∨ location.line = other.line ∧ location.column < other.column

/-- The byte offset of a line and column, for which the text is walked until a place has them. -/
def seek? (line column : Nat) (here : Location) (text : List Char) : Option Nat :=
  if here.line = line ∧ here.column = column then some here.index
  else
    match text with
    | [] => none
    | c :: rest => seek? line column (here.step c) rest

/-! ### Walking -/

theorem precedes_trans {location other third : Location} (h : location.Precedes other)
    (ho : other.Precedes third) : location.Precedes third := by
  unfold Precedes at *
  omega

theorem precedes_step (here : Location) (c : Char) : here.Precedes (here.step c) := by
  unfold step
  split
  · exact .inl (Nat.lt_succ_self _)
  · exact .inr ⟨rfl, Nat.lt_succ_self _⟩

/-- A walk over characters leads to a later place. -/
theorem precedes_foldl (here : Location) (c : Char) (rest : List Char) :
    here.Precedes ((c :: rest).foldl step here) := by
  induction rest generalizing here c with
  | nil => exact precedes_step here c
  | cons d rest ih => exact precedes_trans (precedes_step here c) (ih (here.step c) d)

theorem index_step (here : Location) (c : Char) :
    (here.step c).index = here.index + c.utf8Size := by
  unfold step
  split <;> rfl

theorem index_foldl (here : Location) (text : List Char) :
    (text.foldl step here).index = here.index + byteLength text := by
  induction text generalizing here with
  | nil => rfl
  | cons c rest ih => rw [List.foldl_cons, ih, index_step, byteLength, Nat.add_assoc]

/-- An offset behind some characters, or past them if they are all, has the line and column that
they lead to. -/
theorem walk_foldl (here : Location) {before after : List Char} {offset : Nat}
    (h : offset = byteLength before ∨ byteLength before ≤ offset ∧ after = []) :
    walk (before ++ after) offset here.line here.column =
      ((before.foldl step here).line, (before.foldl step here).column) := by
  induction before generalizing here offset with
  | nil =>
    rcases h with rfl | ⟨-, rfl⟩
    · exact walk_zero after here.line here.column
    · rfl
  | cons c before ih =>
    have positive := c.utf8Size_pos
    rw [byteLength] at h
    have rest : offset - c.utf8Size = byteLength before ∨
        byteLength before ≤ offset - c.utf8Size ∧ after = [] :=
      h.imp (by omega) (And.imp_left (by omega))
    have nonzero : offset ≠ 0 := by omega
    rw [List.cons_append, walk, if_neg nonzero, List.foldl_cons, ← ih (here.step c) rest, step]
    split <;> rfl

theorem of_foldl {text : String} {before after : List Char} {offset : Nat}
    (ht : text.toList = before ++ after)
    (h : offset = byteLength before ∨ byteLength before ≤ offset ∧ after = []) :
    Location.of text offset = before.foldl step start := by
  have place : walk (before ++ after) offset 1 1 = _ := walk_foldl start h
  have index : (before.foldl step start).index = 0 + byteLength before := index_foldl start before
  have least : Nat.min offset (byteLength (before ++ after)) = 0 + byteLength before := by
    change min offset _ = _
    rcases h with rfl | ⟨h, rfl⟩
    · rw [byteLength_append]
      omega
    · rw [List.append_nil]
      omega
  rw [Location.of, ht, place, least, ← index]

/-! ### Finding a place again -/

theorem seek_foldl (here : Location) (before after : List Char) :
    seek? (before.foldl step here).line (before.foldl step here).column here (before ++ after) =
      some (before.foldl step here).index := by
  induction before generalizing here with
  | nil =>
    unfold seek?
    exact if_pos ⟨rfl, rfl⟩
  | cons c before ih =>
    have later := precedes_foldl here c before
    unfold Precedes at later
    rw [List.cons_append, seek?, if_neg (by omega)]
    exact ih (here.step c)

theorem exists_of_seek {line column index : Nat} {here : Location} {text : List Char}
    (h : seek? line column here text = some index) :
    ∃ before after, text = before ++ after ∧ before.foldl step here = ⟨line, column, index⟩ := by
  induction text generalizing here with
  | nil =>
    unfold seek? at h
    split at h
    · next hp =>
      cases h
      exact ⟨[], [], rfl, by rw [← hp.1, ← hp.2]; rfl⟩
    · cases h
  | cons c rest ih =>
    unfold seek? at h
    split at h
    · next hp =>
      cases h
      exact ⟨[], c :: rest, rfl, by rw [← hp.1, ← hp.2]; rfl⟩
    · obtain ⟨before, after, rfl, hb⟩ := ih h
      exact ⟨c :: before, after, rfl, hb⟩

/-- A boundary behind another one stands behind more characters. -/
theorem exists_between {text : List Char} {first last : Nat} (hf : IsBoundary text first)
    (hl : IsBoundary text last) (h : first < last) :
    ∃ before c between after, text = before ++ c :: between ++ after ∧
      first = byteLength before ∧ last = byteLength (before ++ c :: between) := by
  obtain ⟨before, rest, rfl, rfl⟩ := hf
  obtain ⟨upTo, after, ht, rfl⟩ := hl
  rcases List.append_eq_append_iff.mp ht with ⟨between, rfl, rfl⟩ | ⟨more, rfl, -⟩
  · cases between with
    | nil =>
      rw [List.append_nil] at h
      exact absurd h (Nat.lt_irrefl _)
    | cons c between => exact ⟨before, c, between, after, by simp, rfl, rfl⟩
  · rw [byteLength_append] at h
    omega

end Location

open Location

/-- Lines and columns identify the places of a text. Of two boundaries the one in front has the
line and column in front, and a boundary's offset is found again by walking the text up to its line
and column, which leads to nothing else. Every offset past the end has the place of the end. -/
theorem locations_identify_places (text : String) :
    (∀ first last, IsBoundary text.toList first → IsBoundary text.toList last → first < last →
      (Location.of text first).Precedes (Location.of text last)) ∧
    (∀ offset, IsBoundary text.toList offset →
      seek? (Location.of text offset).line (Location.of text offset).column start text.toList =
        some offset) ∧
    (∀ line column offset, seek? line column start text.toList = some offset →
      IsBoundary text.toList offset ∧ Location.of text offset = ⟨line, column, offset⟩) ∧
    ∀ offset, text.utf8ByteSize ≤ offset →
      Location.of text offset = Location.of text text.utf8ByteSize ∧
        (Location.of text offset).index = text.utf8ByteSize := by
  refine ⟨fun first last hf hl h => ?_, fun offset h => ?_, fun line column offset h => ?_,
    fun offset h => ?_⟩
  · obtain ⟨before, c, between, after, ht, rfl, rfl⟩ := exists_between hf hl h
    have behind : text.toList = before ++ (c :: between ++ after) := by
      rw [ht, List.append_assoc]
    rw [of_foldl behind (.inl rfl), of_foldl ht (.inl rfl), List.foldl_append]
    exact precedes_foldl _ c between
  · obtain ⟨before, after, ht, rfl⟩ := h
    have found := seek_foldl start before after
    rw [index_foldl] at found
    rw [of_foldl ht (.inl rfl), ht, found, start, Nat.zero_add]
  · obtain ⟨before, after, ht, hp⟩ := exists_of_seek h
    have index := index_foldl start before
    rw [hp, start, Nat.zero_add] at index
    subst index
    exact ⟨⟨before, after, ht, rfl⟩, by rw [of_foldl ht (.inl rfl), hp]⟩
  · have all : text.toList = text.toList ++ [] := (List.append_nil _).symm
    rw [← byteLength_toList] at h ⊢
    rw [of_foldl all (.inr ⟨h, rfl⟩), of_foldl all (.inl rfl), index_foldl, start, Nat.zero_add]
    exact ⟨rfl, rfl⟩

/-- The place on an empty line, the end behind a letter of two bytes, and an offset past it. -/
theorem empty_line_is_found_again :
    (IsBoundary "a\n\né".toList 2 ∧ IsBoundary "a\n\né".toList 5 ∧
      (Location.of "a\n\né" 2).Precedes (Location.of "a\n\né" 5)) ∧
    (Location.of "a\n\né" 2 = ⟨2, 1, 2⟩ ∧ seek? 2 1 start "a\n\né".toList = some 2) ∧
    (seek? 3 2 start "a\n\né".toList = some 5 ∧ Location.of "a\n\né" 5 = ⟨3, 2, 5⟩) ∧
    Location.of "a\n\né" 9 = Location.of "a\n\né" 5 ∧ (Location.of "a\n\né" 9).index = 5 := by
  obtain ⟨ordered, found, places, past⟩ := locations_identify_places "a\n\né"
  have empty : IsBoundary "a\n\né".toList 2 := ⟨['a', '\n'], ['\n', 'é'], by decide, by decide⟩
  have last : IsBoundary "a\n\né".toList 5 := ⟨"a\n\né".toList, [], by decide, by decide⟩
  have behind : seek? 3 2 start "a\n\né".toList = some 5 := by decide
  have place : Location.of "a\n\né" 2 = ⟨2, 1, 2⟩ := by decide
  refine ⟨⟨empty, last, ordered 2 5 empty last (by decide)⟩, ⟨place, ?_⟩,
    ⟨behind, (places 3 2 5 behind).2⟩, past 9 (by decide)⟩
  have again := found 2 empty
  rw [place] at again
  exact again

end SpriteFormula
