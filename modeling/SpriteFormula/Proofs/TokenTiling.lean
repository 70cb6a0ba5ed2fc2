import SpriteFormula.Declaration
import SpriteFormula.Proofs.CursorTokens

/-!
The tokens of a text lie side by side in it, with nothing but blanks between them. Each is the slice
of the text between its bounds, which are bounds of characters, and a name or a number goes as far
as it can.
-/

namespace SpriteFormula

namespace Text

/-! ### Slices -/

theorem divide_append (before after : List Char) :
    divide? (before ++ after) (byteLength before) = some (before, after) := by
  induction before with
  | nil =>
    rw [List.nil_append, byteLength, divide?.eq_def]
    rfl
  | cons c before ih =>
    have positive := c.utf8Size_pos
    have rest : c.utf8Size + byteLength before - c.utf8Size = byteLength before := by omega
    rw [List.cons_append, byteLength, divide?.eq_def, if_neg (by omega)]
    simp only [rest, ih, Nat.le_add_right, if_true, Option.map_some]

/-- A piece of a text is the slice between its bounds. -/
theorem slice_append (before piece after : List Char) :
    slice? (before ++ piece ++ after) (byteLength before) (byteLength (before ++ piece)) =
      some piece := by
  rw [slice?, divide_append, Option.bind_some]
  dsimp only
  rw [divide_append]
  rfl

/-- The character that starts at a byte offset. -/
def charAt? (text : List Char) (offset : Nat) : Option Char :=
  (divide? text offset).bind fun (_, after) => after.head?

theorem charAt_append (before after : List Char) :
    charAt? (before ++ after) (byteLength before) = after.head? := by
  rw [charAt?, divide_append]
  rfl

end Text

namespace Token

open Text

/-- The stretches in front of the tokens, the first of which starts at a byte offset. -/
def gapsFrom? (text : List Char) (offset : Nat) : List Token → Option (List (List Char))
  | [] => some []
  | token :: rest => do
    let gap ← slice? text offset token.start
    let others ← gapsFrom? text token.stop rest
    some (gap :: others)

/-- What tokens are as ranges of the bytes of a text. -/
structure Tiles (text : List Char) (tokens : List Token) : Prop where
  /-- The last one marks the end of the text, where it stands. The others do not, and have bytes. -/
  closed : ∃ front, tokens = front ++ [endOfInput (byteLength text)] ∧
    ∀ token ∈ front, token.kind ≠ .endOfInput ∧ token.start < token.stop
  ordered : tokens.Pairwise fun token later => token.stop ≤ later.start
  sliced : ∀ token ∈ tokens, slice? text token.start token.stop = some token.text.toList
  covered : ∃ gaps, gapsFrom? text 0 tokens = some gaps ∧
    (∀ gap ∈ gaps, ∀ c ∈ gap, isBlank c) ∧
    (List.zipWith (fun gap token => gap ++ token.text.toList) gaps tokens).flatten = text
  maximal : ∀ token ∈ tokens, ∀ c ∈ charAt? text token.stop,
    (token.kind = .identifier → isNamePart c = false) ∧
    (token.kind = .number → isNumberPart c = false)
  quoted : ∀ token ∈ tokens, token.kind = .string →
    token.start + 2 ≤ token.stop ∧
    charAt? text token.start = some '"' ∧ charAt? text (token.stop - 1) = some '"' ∧
    slice? token.text.toList 1 (token.text.utf8ByteSize - 1) = some (unquoted token.text).toList

/-! ### One token -/

section
variable {c : Char} {body after : List Char}

theorem name_stops (h : measure c (body ++ after) = (.identifier, body.length)) :
    ∀ d ∈ after.head?, isNamePart d = false := by
  rcases measure_known h nofun nofun with ⟨hs, -⟩ | ⟨hk, -⟩ | ⟨hk, -⟩ | ⟨-, -, hl⟩
  · exact absurd rfl (kind_of_sign hs).2.2
  · cases hk
  · cases hk
  · exact (stop_of_takeWhile hl).2

theorem number_stops (h : measure c (body ++ after) = (.number, body.length)) :
    ∀ d ∈ after.head?, isNumberPart d = false := by
  rcases measure_known h nofun nofun with ⟨hs, -⟩ | ⟨hk, -⟩ | ⟨-, -, -, hl⟩ | ⟨hk, -⟩
  · exact absurd rfl (kind_of_sign hs).2.1
  · cases hk
  · exact (stop_of_takeWhile hl).2
  · cases hk

end

/-- What a token is where it stands in a text. -/
structure Place (text : List Char) (token : Token) (before after : List Char) : Prop where
  text_eq : text = before ++ token.text.toList ++ after
  start_eq : token.start = byteLength before
  measure_eq : ∃ c rest, token.text.toList = c :: rest ∧
    measure c (rest ++ after) = (token.kind, rest.length)

theorem exists_place {text : List Char} {token : Token} (h : token ∈ scanFrom 0 text) :
    ∃ before after, Place text token before after := by
  obtain ⟨front, others, hs⟩ := List.append_of_mem h
  have suffix : token :: others <:+ scanFrom 0 text := ⟨front, hs.symm⟩
  obtain ⟨before, after, _, rfl, hc, ht⟩ := exists_cut suffix
  cases after with
  | nil =>
    rw [scanFrom_nil] at ht
    cases ht
  | cons c after =>
    rcases hm : measure c after with ⟨kind, count⟩
    rw [scanFrom_token (hc.start c rfl) hm, Nat.zero_add] at ht
    cases ht
    have taken : (String.ofList (c :: after.take count)).toList = c :: after.take count :=
      String.toList_ofList
    refine ⟨before, after.drop count, ?_, rfl, c, after.take count, taken, measure_take_drop hm⟩
    rw [taken, List.append_assoc, List.cons_append, List.take_append_drop]

namespace Place

variable {text before after : List Char} {token : Token}

theorem stop_eq (h : Place text token before after) :
    token.stop = byteLength (before ++ token.text.toList) := by
  rw [stop, h.start_eq, byteLength_append, byteLength_toList]

theorem nonempty (h : Place text token before after) : token.start < token.stop := by
  obtain ⟨c, rest, ht, -⟩ := h.measure_eq
  have positive := c.utf8Size_pos
  rw [h.stop_eq, h.start_eq, byteLength_append, ht, byteLength]
  omega

theorem kind_ne (h : Place text token before after) : token.kind ≠ .endOfInput := by
  obtain ⟨_, _, -, hm⟩ := h.measure_eq
  exact measure_ne_endOfInput hm

theorem sliced (h : Place text token before after) :
    slice? text token.start token.stop = some token.text.toList := by
  rw [h.stop_eq, h.start_eq, h.text_eq]
  exact slice_append ..

theorem charAt_stop (h : Place text token before after) :
    charAt? text token.stop = after.head? := by
  rw [h.stop_eq, h.text_eq]
  exact charAt_append ..

theorem maximal (h : Place text token before after) : ∀ c ∈ charAt? text token.stop,
    (token.kind = .identifier → isNamePart c = false) ∧
    (token.kind = .number → isNumberPart c = false) := by
  obtain ⟨first, rest, -, hm⟩ := h.measure_eq
  rw [h.charAt_stop]
  exact fun c hc => ⟨fun hk => name_stops (hk ▸ hm) c hc, fun hk => number_stops (hk ▸ hm) c hc⟩

theorem quoted (h : Place text token before after) (hs : Shaped token)
    (hk : token.kind = .string) :
    token.start + 2 ≤ token.stop ∧
    charAt? text token.start = some '"' ∧ charAt? text (token.stop - 1) = some '"' ∧
    slice? token.text.toList 1 (token.text.utf8ByteSize - 1) =
      some (unquoted token.text).toList := by
  obtain ⟨inner, ht, -⟩ : ∃ inner, token.text.toList = '"' :: inner ++ ['"'] ∧
      ∀ c ∈ inner, c ≠ '"' := by
    rw [Shaped, hk] at hs
    exact hs
  have size : token.text.utf8ByteSize = byteLength ('"' :: inner) + 1 := by
    rw [← byteLength_toList, ht, byteLength_append]
    rfl
  have one : byteLength ('"' :: inner) = 1 + byteLength inner := rfl
  have stop_eq : token.stop - 1 = byteLength (before ++ '"' :: inner) := by
    rw [stop, h.start_eq, byteLength_append, size]
    omega
  refine ⟨?_, ?_, ?_, ?_⟩
  · rw [stop, size, one]
    omega
  · rw [h.start_eq, h.text_eq, ht, List.append_assoc]
    exact charAt_append ..
  · have last : text = (before ++ '"' :: inner) ++ '"' :: after := by
      rw [h.text_eq, ht]
      simp
    rw [stop_eq, last]
    exact charAt_append ..
  · have inside : (unquoted token.text).toList = inner := by
      rw [unquoted, String.toList_ofList, ht]
      simp
    rw [inside, ht, size, one, Nat.add_sub_cancel]
    exact slice_append ['"'] inner ['"']

end Place

/-! ### The tokens together -/

theorem stops_before (offset : Nat) (text : List Char) :
    (scanFrom offset text).Pairwise fun token later => token.stop ≤ later.start := by
  fun_induction scanFrom offset text with
  | case1 offset => exact .nil
  | case2 offset c rest hb ih => exact ih
  | case3 offset c rest hb kind count hm body ih =>
    refine .cons (fun later hl => ?_) ih
    rw [stop, byteLength_ofList]
    exact (bounds_of_mem hl).1

/-- Behind some text and some blanks, the gaps in front of the tokens are blank, and with the tokens
they are the blanks and the rest. -/
theorem gaps_scanFrom (offset : Nat) (text before gap : List Char) (hg : ∀ c ∈ gap, isBlank c)
    (ho : offset = byteLength (before ++ gap)) :
    let tokens := scanFrom offset text ++ [endOfInput (offset + byteLength text)]
    ∃ gaps, gapsFrom? (before ++ gap ++ text) (byteLength before) tokens = some gaps ∧
      (∀ gap ∈ gaps, ∀ c ∈ gap, isBlank c) ∧
      (List.zipWith (fun gap token => gap ++ token.text.toList) gaps tokens).flatten =
        gap ++ text := by
  -- blanks are passed one by one, so the gap that has begun is carried along
  fun_induction scanFrom offset text generalizing before gap with
  | case1 offset =>
    refine ⟨[gap], ?_, List.forall_mem_singleton.mpr hg, by simp [endOfInput]⟩
    have slice := slice_append before gap []
    simp only [List.nil_append, gapsFrom?, endOfInput, byteLength, Nat.add_zero, ho, slice]
    rfl
  | case2 offset c rest hb ih =>
    have moved : offset + c.utf8Size = byteLength (before ++ (gap ++ [c])) := by
      rw [← List.append_assoc, byteLength_append, ← ho]
      rfl
    have total : offset + byteLength (c :: rest) = offset + c.utf8Size + byteLength rest :=
      (Nat.add_assoc ..).symm
    obtain ⟨gaps, hs, hblank, hj⟩ := ih before (gap ++ [c])
      (List.forall_mem_append.mpr ⟨hg, List.forall_mem_singleton.mpr hb⟩) moved
    rw [total]
    simp only [List.append_assoc, List.singleton_append] at hs hj ⊢
    exact ⟨gaps, hs, hblank, hj⟩
  | case3 offset c rest hb kind count hm body ih =>
    have text_eq : c :: rest = body ++ rest.drop count := by
      rw [List.cons_append, List.take_append_drop]
    have moved : offset + byteLength body = byteLength (before ++ gap ++ body ++ []) := by
      rw [List.append_nil, byteLength_append, ← ho]
    have total : offset + byteLength (c :: rest) =
        offset + byteLength body + byteLength (rest.drop count) := by
      rw [text_eq, byteLength_append, Nat.add_assoc]
    obtain ⟨gaps, hs, hblank, hj⟩ := ih (before ++ gap ++ body) [] (List.forall_mem_nil _) moved
    refine ⟨gap :: gaps, ?_, List.forall_mem_cons.mpr ⟨hg, hblank⟩, ?_⟩
    · have slice := slice_append before gap (c :: rest)
      have stop_eq : stop ⟨kind, String.ofList body, offset⟩ =
          byteLength (before ++ gap ++ body) := by
        rw [stop, byteLength_ofList, byteLength_append, ← ho]
      have whole : before ++ gap ++ (c :: rest) =
          before ++ gap ++ body ++ [] ++ rest.drop count := by
        rw [text_eq, List.append_nil, List.append_assoc (before ++ gap)]
      rw [← ho] at slice
      rw [whole] at slice ⊢
      rw [total, List.cons_append, gapsFrom?, stop_eq, slice, hs]
      rfl
    · rw [total, List.cons_append, List.zipWith_cons_cons, List.flatten_cons, hj,
        String.toList_ofList, text_eq, List.nil_append, List.append_assoc]

/-- The tokens of a text are those that a cursor finds in it, and they tile the text. -/
theorem tokens_tile_text (text : String) :
    (Cursor.start text.toList).lexemes = (tokenize text).map lexeme ∧
    Tiles text.toList (tokenize text) := by
  refine ⟨Cursor.lexemes_start text, ?_⟩
  have tokens_eq : tokenize text = scan text ++ [endOfInput (byteLength text.toList)] := by
    rw [byteLength_toList, tokenize]
  rw [tokens_eq]
  have inside {token : Token} (h : token ∈ scan text ++ [endOfInput (byteLength text.toList)]) :
      (Shaped token ∧ ∃ before after, Place text.toList token before after) ∨
        token = endOfInput (byteLength text.toList) :=
    (List.mem_append.mp h).imp (fun h => ⟨shaped_of_mem h, exists_place h⟩) List.mem_singleton.mp
  constructor
  case closed =>
    refine ⟨scan text, rfl, fun token h => ?_⟩
    obtain ⟨_, _, place⟩ := exists_place h
    exact ⟨place.kind_ne, place.nonempty⟩
  case ordered =>
    refine List.pairwise_append.mpr ⟨stops_before .., List.pairwise_singleton _ _, ?_⟩
    intro token h last hl
    rw [List.mem_singleton.mp hl]
    exact (bounds_of_mem h).2.trans_eq (Nat.zero_add _)
  case sliced =>
    intro token h
    rcases inside h with ⟨-, _, _, place⟩ | rfl
    · exact place.sliced
    · have slice := slice_append text.toList [] []
      rwa [List.append_nil, List.append_nil] at slice
  case covered =>
    obtain ⟨gaps, h⟩ := gaps_scanFrom 0 text.toList [] [] (List.forall_mem_nil _) rfl
    rw [Nat.zero_add] at h
    exact ⟨gaps, h⟩
  case maximal =>
    intro token h
    rcases inside h with ⟨-, _, _, place⟩ | rfl
    · exact place.maximal
    · intro c _
      constructor
      · intro hk
        cases hk
      · intro hk
        cases hk
  case quoted =>
    intro token h hk
    rcases inside h with ⟨shaped, _, _, place⟩ | rfl
    · exact place.quoted shaped hk
    · cases hk

end Token

end SpriteFormula
