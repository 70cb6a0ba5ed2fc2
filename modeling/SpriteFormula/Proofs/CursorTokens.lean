import SpriteFormula.Proofs.ErrorPlaces
import SpriteFormula.Token.Cursor

/-!
The cursor finds the tokens that the text is cut into, each where it stands. Whatever it reads, it
only moves on by some characters and their bytes.
-/

namespace SpriteFormula

/-- A text starts with the blanks in front of its first other character. -/
theorem Text.exists_blanks (text : List Char) :
    ∃ blanks rest, text = blanks ++ rest ∧ (∀ c ∈ blanks, isBlank c) ∧
      ∀ c ∈ rest.head?, isBlank c = false := by
  refine ⟨text.takeWhile isBlank, text.dropWhile isBlank,
    List.takeWhile_append_dropWhile.symm, List.all_eq_true.mp List.all_takeWhile, ?_⟩
  intro c hc
  have stop := List.head?_dropWhile_not isBlank text
  rw [Option.mem_def.mp hc] at stop
  simpa using stop

namespace Token

/-- A string that has not ended at a character goes on behind it. -/
theorem measure_quote_cons {c : Char} (h : c ≠ '"') (rest : List Char) :
    measure '"' (c :: rest) = ((measure '"' rest).1, (measure '"' rest).2 + 1) := by
  rw [measure_quote, measure_quote, List.takeWhile_cons_of_pos (by simpa using h), List.length_cons,
    List.length_cons]
  simp only [Nat.add_lt_add_iff_right]
  split <;> rfl

end Token

namespace Cursor

open Text Token

/-- The cursor some characters farther on. -/
def advance (count : Nat) (cursor : Cursor) : Cursor :=
  ⟨cursor.ahead.drop count, cursor.position + byteLength (cursor.ahead.take count)⟩

theorem advance_zero (cursor : Cursor) : cursor.advance 0 = cursor := rfl

theorem advance_of_consume {cursor next : Cursor} {c : Char}
    (h : cursor.consume? = some (c, next)) (count : Nat) :
    cursor.ahead = c :: next.ahead ∧ cursor.advance (count + 1) = next.advance count := by
  obtain ⟨_ | ⟨d, rest⟩, position⟩ := cursor
  · cases h
  · cases h
    refine ⟨rfl, ?_⟩
    simp only [advance, List.take_succ_cons, List.drop_succ_cons, byteLength, Nat.add_assoc]

theorem ahead_of_consume_none {cursor : Cursor} (h : cursor.consume? = none) :
    cursor.ahead = [] := by
  obtain ⟨_ | ⟨d, rest⟩, position⟩ := cursor
  · rfl
  · cases h

theorem skipWhile_eq (p : Char → Bool) (cursor : Cursor) :
    cursor.skipWhile p = cursor.advance (cursor.ahead.takeWhile p).length := by
  fun_induction skipWhile p cursor with
  | case1 cursor h =>
    rw [ahead_of_consume_none h]
    rfl
  | case2 cursor c next h hp ih =>
    obtain ⟨ha, hs⟩ := advance_of_consume h (next.ahead.takeWhile p).length
    rw [ih, ← hs, ha, List.takeWhile_cons_of_pos hp, List.length_cons]
  | case3 cursor c next h hp =>
    obtain ⟨ha, -⟩ := advance_of_consume h 0
    rw [ha, List.takeWhile_cons_of_neg hp]
    rfl

theorem readString_eq (cursor : Cursor) :
    cursor.readString =
      ((measure '"' cursor.ahead).1, cursor.advance (measure '"' cursor.ahead).2) := by
  fun_induction readString cursor with
  | case1 cursor h =>
    rw [ahead_of_consume_none h]
    rfl
  | case2 cursor next h =>
    obtain ⟨ha, hs⟩ := advance_of_consume h 0
    have closed : measure '"' ([] ++ '"' :: next.ahead) = (.string, 0 + 1) :=
      measure_string (List.forall_mem_nil _)
    rw [List.nil_append] at closed
    rw [ha, closed, hs]
    rfl
  | case3 cursor c next h hq ih =>
    obtain ⟨ha, hs⟩ := advance_of_consume h (measure '"' next.ahead).2
    rw [ih, ha, measure_quote_cons hq, hs]

theorem readKind_eq (first : Char) (cursor : Cursor) :
    cursor.readKind first =
      ((measure first cursor.ahead).1, cursor.advance (measure first cursor.ahead).2) := by
  unfold readKind
  split
  case h_12 =>
    unfold peek?
    split
    · next hd =>
      rw [measure_number (by decide) fun _ => hd, skipWhile_eq]
    · next hd =>
      have point : measure '.' cursor.ahead = (.period, 0) := measure_period fun c hc => by
        rw [Option.mem_def.mp hc] at hd
        simpa using hd
      rw [point, advance_zero]
  case h_13 => exact readString_eq cursor
  case h_14 =>
    split
    · next hd => rw [measure_digit hd, skipWhile_eq]
    · next hd =>
      split
      · next hn => rw [measure_name hn, skipWhile_eq]
      · next hn =>
        have stray : Token.measure first cursor.ahead = (.invalid, 0) := by
          grind [Token.measure, isNumberPart]
        rw [stray, advance_zero]
  all_goals rfl

theorem skipWhile_blanks {blanks rest : List Char} (hb : ∀ c ∈ blanks, isBlank c)
    (hr : ∀ c ∈ rest.head?, isBlank c = false) (position : Nat) :
    (Cursor.mk (blanks ++ rest) position).skipWhile isBlank =
      ⟨rest, position + byteLength blanks⟩ := by
  rw [skipWhile_eq]
  simp only [takeWhile_append_of_stop hb hr, advance, List.drop_left, List.take_left]

/-- The cursor finds the first of the tokens ahead of it and moves on to where the others are. If
there is none, it finds the end and stays there. -/
theorem next_eq (cursor : Cursor) :
    match scanFrom cursor.position cursor.ahead with
    | [] =>
      cursor.next = ((endOfInput (cursor.position + byteLength cursor.ahead)).lexeme,
        ⟨[], cursor.position + byteLength cursor.ahead⟩)
    | token :: rest =>
      cursor.next.1 = token.lexeme ∧ token.kind ≠ .endOfInput ∧
        scanFrom cursor.next.2.position cursor.next.2.ahead = rest ∧
        cursor.next.2.position + byteLength cursor.next.2.ahead =
          cursor.position + byteLength cursor.ahead := by
  obtain ⟨ahead, position⟩ := cursor
  obtain ⟨blanks, rest, rfl, hb, hr⟩ := exists_blanks ahead
  rw [scanFrom_blanks hb, next, skipWhile_blanks hb hr]
  cases rest with
  | nil =>
    rw [scanFrom_nil, List.append_nil]
    rfl
  | cons c rest =>
    rcases hm : measure c rest with ⟨kind, count⟩
    have read (position : Nat) :
        readKind c ⟨rest, position⟩ = (kind, advance count ⟨rest, position⟩) := by
      rw [readKind_eq, hm]
    have body (offset : Nat) : offset + c.utf8Size + byteLength (rest.take count) =
        offset + byteLength (c :: rest.take count) := Nat.add_assoc ..
    rw [scanFrom_token (hr c rfl) hm]
    simp only [consume?, read, advance, lexeme, stop, byteLength_ofList, body]
    refine ⟨trivial, measure_ne_endOfInput hm, trivial, ?_⟩
    have parts := byteLength_take_add_drop count rest
    rw [byteLength_append, byteLength, byteLength]
    omega

/-- Up to the end the cursor finds the tokens of the text, by kind and place. -/
theorem lexemes_eq (cursor : Cursor) :
    cursor.lexemes = (scanFrom cursor.position cursor.ahead).map lexeme ++
      [(endOfInput (cursor.position + byteLength cursor.ahead)).lexeme] := by
  fun_induction lexemes cursor with
  | case1 cursor h =>
    have found := next_eq cursor
    generalize scanFrom cursor.position cursor.ahead = tokens at found ⊢
    cases tokens with
    | nil => rw [found]; rfl
    | cons token rest =>
      rw [found.1] at h
      exact absurd h found.2.1
  | case2 cursor h ih =>
    have found := next_eq cursor
    generalize scanFrom cursor.position cursor.ahead = tokens at found ⊢
    cases tokens with
    | nil =>
      rw [found] at h
      exact absurd rfl h
    | cons token rest =>
      obtain ⟨hl, -, hs, he⟩ := found
      rw [ih, hs, he, hl]
      rfl

theorem lexemes_start (text : String) :
    (start text.toList).lexemes = (tokenize text).map lexeme := by
  rw [lexemes_eq, tokenize, List.map_append, scan]
  simp only [start, Nat.zero_add, byteLength_toList, List.map_singleton]

end Cursor

end SpriteFormula
