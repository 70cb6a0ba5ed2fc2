import Mathlib.Data.List.TakeWhile
import SpriteFormula.Proofs.DeclarationLines

/-!
The ends of texts and lines. Blanks around a text do not change what is left after trimming, and a
line break that is put behind a line, or left out, does not change what the line is read as.
-/

namespace SpriteFormula

namespace Text

/-! ### Blanks at the ends -/

theorem trim_append {ending : List Char} (h : ∀ c ∈ ending, isBlank c) (text : List Char) :
    trim (text ++ ending) = trim text := by
  rw [trim, trim, List.dropWhile_append]
  split
  · next hd =>
    rw [List.isEmpty_iff.mp hd, List.dropWhile_eq_nil_iff.mpr h]
  · rw [dropEndWhile_append h]

/-- What is cut off the ends of a text is blank. -/
theorem exists_trim (text : List Char) :
    ∃ before after, text = before ++ trim text ++ after ∧ (∀ c ∈ before, isBlank c) ∧
      ∀ c ∈ after, isBlank c := by
  obtain ⟨after, ha, hb⟩ := exists_dropEndWhile isBlank (text.dropWhile isBlank)
  refine ⟨text.takeWhile isBlank, after, ?_, ?_, hb⟩
  · rw [trim, List.append_assoc, ← ha, List.takeWhile_append_dropWhile]
  · exact List.all_eq_true.mp List.all_takeWhile

/-! ### Line breaks -/

/-- A line with a line break behind it, if it has none. -/
def ended (line : List Char) : List Char :=
  if line.getLast? = some '\n' then line else line ++ ['\n']

/-- A line of a text has its only line break at its end, unless it is the last one and has none. -/
theorem line_cases {text line : List Char} (h : line ∈ lines text) :
    ∃ body, (∀ c ∈ body, c ≠ '\n') ∧ (line = body ++ ['\n'] ∨ line = body ∧ body ≠ []) := by
  induction text generalizing line with
  | nil => cases h
  | cons c rest ih =>
    rw [lines] at h
    by_cases hc : c = '\n'
    · rw [if_pos hc] at h
      rcases List.mem_cons.mp h with rfl | h
      · exact ⟨[], List.forall_mem_nil _, .inl (by rw [hc]; rfl)⟩
      · exact ih h
    · rw [if_neg hc] at h
      cases hl : lines rest with
      | nil =>
        rw [hl] at h
        obtain rfl := List.mem_singleton.mp h
        exact ⟨[c], List.forall_mem_singleton.mpr hc, .inr ⟨rfl, List.cons_ne_nil _ _⟩⟩
      | cons first others =>
        rw [hl] at h ih
        rcases List.mem_cons.mp h with rfl | h
        · obtain ⟨body, hb, hs⟩ := ih List.mem_cons_self
          refine ⟨c :: body, List.forall_mem_cons.mpr ⟨hc, hb⟩, ?_⟩
          rcases hs with rfl | ⟨rfl, _⟩
          · exact .inl rfl
          · exact .inr ⟨rfl, List.cons_ne_nil _ _⟩
        · exact ih (List.mem_cons_of_mem _ h)

/-- The line ends in a line break and has no other. -/
def IsEnded (line : List Char) : Prop := ∃ body, (∀ c ∈ body, c ≠ '\n') ∧ line = body ++ ['\n']

theorem isEnded_ended {text line : List Char} (h : line ∈ lines text) : IsEnded (ended line) := by
  obtain ⟨body, hb, rfl | ⟨rfl, _⟩⟩ := line_cases h
  · exact ⟨body, hb, by rw [ended, if_pos List.getLast?_concat]⟩
  · refine ⟨line, hb, ?_⟩
    rw [ended, if_neg]
    intro hl
    exact hb '\n' (List.mem_of_getLast? hl) rfl

/-- Ended lines put together are cut into the same lines again. -/
theorem lines_flatten {order : List (List Char)} (h : ∀ line ∈ order, IsEnded line) :
    lines order.flatten = order := by
  induction order with
  | nil => rfl
  | cons line rest ih =>
    obtain ⟨⟨body, hb, rfl⟩, hr⟩ := List.forall_mem_cons.mp h
    rw [List.flatten_cons, List.append_assoc, List.singleton_append, lines_break hb, ih hr]

end Text

/-- A line is read the same with a line break behind it and without. -/
theorem Line.read_ended (line : List Char) : Line.read (Text.ended line) = Line.read line := by
  have blank : ∀ c ∈ ['\n'], Text.isBlank c := List.forall_mem_singleton.mpr (by decide)
  have ending : ∀ c ∈ ['\n'], (c = '\r' || c = '\n') := List.forall_mem_singleton.mpr rfl
  rw [Text.ended]
  split
  · rfl
  · rw [Line.read, Text.trim_append blank, Text.withoutBreak, Text.dropEndWhile_append ending]
    rfl

end SpriteFormula
