import SpriteFormula.Formula.Reader
import SpriteFormula.Proofs.ReadingAlike
import SpriteFormula.Proofs.TokenTiling

/-!
The cursor reads a formula as it is read from its tokens, errors and their places included. As long
as the limits are not below the number of tokens ahead, reading never comes to them, and no token is
outside of the text.
-/

namespace SpriteFormula

open Text Token

/-! ### Cursors between two characters -/

namespace Cursor

/-- The tokens ahead of a cursor, without the mark of the end. -/
def tokens (cursor : Cursor) : List Token := scanFrom cursor.position cursor.ahead

/-- The cursor is between two characters of the text, or at an end of it. -/
def Within (text : List Char) (cursor : Cursor) : Prop :=
  ∃ before, text = before ++ cursor.ahead ∧ cursor.position = byteLength before

theorem within_start (text : List Char) : (start text).Within text := ⟨[], rfl, rfl⟩

theorem advance_advance (cursor : Cursor) (count more : Nat) :
    (cursor.advance count).advance more = cursor.advance (count + more) := by
  simp only [advance, List.drop_drop, List.take_add, byteLength_append, Nat.add_assoc]

theorem next_advance (cursor : Cursor) : ∃ count, cursor.next.2 = cursor.advance count := by
  unfold next
  dsimp only
  rw [skipWhile_eq]
  split
  · exact ⟨_, rfl⟩
  · next first inside hc =>
    have taken := (advance_of_consume hc 0).2
    rw [advance_zero] at taken
    rw [readKind_eq, ← taken, advance_advance, advance_advance]
    exact ⟨_, rfl⟩

section
variable {text : List Char} {cursor : Cursor} {token : Token} {rest : List Token}

theorem Within.advance (h : cursor.Within text) (count : Nat) :
    (cursor.advance count).Within text := by
  obtain ⟨before, ht, hp⟩ := h
  refine ⟨before ++ cursor.ahead.take count, ?_, ?_⟩
  · rw [List.append_assoc, Cursor.advance, List.take_append_drop, ← ht]
  · rw [byteLength_append, ← hp, Cursor.advance]

theorem Within.next (h : cursor.Within text) : cursor.next.2.Within text := by
  obtain ⟨count, hn⟩ := cursor.next_advance
  rw [hn]
  exact h.advance count

theorem Within.length (h : cursor.Within text) :
    cursor.position + byteLength cursor.ahead = byteLength text := by
  obtain ⟨before, ht, hp⟩ := h
  rw [ht, hp, byteLength_append]

/-- The token ahead is a slice of the text. -/
theorem Within.slice (h : cursor.Within text) (ht : cursor.tokens = token :: rest) :
    slice? text token.start token.stop = some token.text.toList := by
  obtain ⟨before, rfl, hp⟩ := h
  obtain ⟨blanks, others, ha, hb, ho⟩ := exists_blanks cursor.ahead
  rw [tokens, ha, scanFrom_blanks hb] at ht
  cases others with
  | nil =>
    rw [scanFrom_nil] at ht
    cases ht
  | cons c others =>
    rcases hm : measure c others with ⟨kind, count⟩
    rw [scanFrom_token (ho c rfl) hm] at ht
    cases ht
    have start_eq : cursor.position + byteLength blanks = byteLength (before ++ blanks) := by
      rw [hp, byteLength_append]
    have stop_eq : stop ⟨kind, String.ofList (c :: others.take count),
        cursor.position + byteLength blanks⟩ =
        byteLength (before ++ blanks ++ (c :: others.take count)) := by
      rw [stop, byteLength_ofList, byteLength_append, ← start_eq]
    have whole : before ++ cursor.ahead =
        before ++ blanks ++ (c :: others.take count) ++ others.drop count := by
      rw [ha, List.append_assoc, List.append_assoc, List.cons_append, List.take_append_drop]
    rw [stop_eq, start_eq, whole, String.toList_ofList]
    exact slice_append ..

theorem next_nil (h : cursor.tokens = []) :
    cursor.next.1 = (endOfInput (cursor.position + byteLength cursor.ahead)).lexeme := by
  have found := next_eq cursor
  rw [tokens] at h
  rw [h] at found
  rw [found]

theorem next_cons (h : cursor.tokens = token :: rest) :
    cursor.next.1 = token.lexeme ∧ token.kind ≠ .endOfInput ∧ cursor.next.2.tokens = rest := by
  have found := next_eq cursor
  rw [tokens] at h
  rw [h] at found
  exact ⟨found.1, found.2.1, found.2.2.1⟩

end

end Cursor

namespace FormulaReader

/-! ### What a reader faces -/

/-- The reader stands in the formula, in front of some tokens. -/
structure Faces (piece : Piece) (r : FormulaReader) (tokens : List Token) : Prop where
  within : r.cursor.Within piece.content
  tokens_eq : r.cursor.tokens = tokens

namespace Faces

variable {piece : Piece} {r place : FormulaReader} {token : Token} {tokens rest : List Token}

theorem peek_nil (h : Faces piece r []) :
    r.peek = (endOfInput (byteLength piece.content)).lexeme := by
  rw [peek, Cursor.next_nil h.tokens_eq, h.within.length]

theorem peek_cons (h : Faces piece r (token :: rest)) : r.peek = token.lexeme :=
  (Cursor.next_cons h.tokens_eq).1

theorem kind_nil (h : Faces piece r []) : r.peek.kind = .endOfInput := by
  rw [h.peek_nil]
  rfl

theorem kind_cons (h : Faces piece r (token :: rest)) : r.peek.kind = token.kind := by
  rw [h.peek_cons]
  rfl

theorem kind_ne (h : Faces piece r (token :: rest)) : token.kind ≠ .endOfInput :=
  (Cursor.next_cons h.tokens_eq).2.1

theorem take (h : Faces piece r (token :: rest)) : Faces piece r.take rest :=
  ⟨h.within.next, (Cursor.next_cons h.tokens_eq).2.2⟩

theorem emit (h : Faces piece r tokens) (i : Instruction) : Faces piece (r.emit i) tokens :=
  ⟨h.within, h.tokens_eq⟩

theorem start_eq (h : Faces piece r tokens) :
    r.peek.start = (tokens.head?.getD (.endOfInput (byteLength piece.content))).start := by
  cases tokens with
  | nil =>
    rw [h.peek_nil]
    rfl
  | cons token rest =>
    rw [h.peek_cons]
    rfl

theorem shown_cons (h : Faces piece r (token :: rest)) :
    piece.shown? r.peek = some token.text := by
  rw [Piece.shown?, h.kind_cons, if_neg h.kind_ne, h.peek_cons]
  change (slice? piece.content token.start token.stop).map String.ofList = some token.text
  rw [h.within.slice h.tokens_eq, Option.map_some, String.ofList_toList]

theorem shown_eq (h : Faces piece r tokens) :
    piece.shown? r.peek =
      some (tokens.head?.getD (.endOfInput (byteLength piece.content))).shown := by
  cases tokens with
  | nil =>
    rw [Piece.shown?, if_pos h.kind_nil]
    rfl
  | cons token rest =>
    rw [h.shown_cons, List.head?_cons, Option.getD_some, shown, if_neg h.kind_ne]

/-- What is refused at a reader is refused at the tokens that it faces. -/
theorem refuse_eq (h : Faces piece r tokens) (hp : Faces piece place rest) (issue : Issue) :
    piece.refuse issue place.peek r.peek = .refused
      ((⟨issue, rest, tokens⟩ : Refusal).locate piece.whole piece.offset
        (byteLength piece.content)) := by
  rw [Piece.refuse, h.shown_eq, hp.start_eq]
  rfl

theorem continuation_eq (h : Faces piece r tokens) :
    (r.continuation? = none ∧ Formula.continuation? tokens = none) ∨
    ∃ op next after, r.continuation? = some (op, next) ∧
      Formula.continuation? tokens = some (op, after) ∧ Faces piece next after ∧
      next.emitted = r.emitted := by
  cases tokens with
  | nil =>
    rw [continuation?, h.kind_nil]
    exact .inl ⟨rfl, rfl⟩
  | cons token rest =>
    rw [continuation?, Formula.continuation?, h.kind_cons]
    cases token.kind.sign? with
    | some op => exact .inr ⟨op, _, _, rfl, rfl, h.take, rfl⟩
    | none =>
      dsimp only
      split
      · exact .inr ⟨_, _, _, rfl, rfl, h, rfl⟩
      · exact .inl ⟨rfl, rfl⟩

theorem startsWith_iff (h : Faces piece r tokens) (kind : TokenKind) (hk : kind ≠ .endOfInput) :
    r.peek.kind = kind ↔ Formula.startsWith kind tokens := by
  cases tokens with
  | nil =>
    rw [h.kind_nil]
    exact ⟨fun he => absurd he.symm hk, fun h => Bool.noConfusion h⟩
  | cons token rest => simp [h.kind_cons, Formula.startsWith]

end Faces

end FormulaReader

/-! ### Attempts -/

/-- An attempt ends as reading the tokens does, behind what was emitted before. -/
inductive Attempt.Follows (piece : Piece) (before : Program) {n : Nat} :
    Attempt → Except Refusal (Parsed n) → Prop where
  | read {next read} : next.emitted = before ++ read.emitted →
      FormulaReader.Faces piece next read.rest → Follows piece before (.read next) (.ok read)
  | refused {refusal} : Follows piece before
      (.refused (refusal.locate piece.whole piece.offset (byteLength piece.content)))
      (.error refusal)

namespace FormulaReader

section
variable {piece : Piece} {inner : Option Priority → FormulaReader → Attempt} {n bound : Nat}
  {before : Program} {r : FormulaReader} {token : Token} {tokens rest : List Token}
  {left : Parsed n}

/-- What is known of the expressions of fewer tokens than a bound. -/
def InnerFollows (piece : Piece) (inner : Option Priority → FormulaReader → Attempt)
    (bound : Nat) : Prop :=
  ∀ enclosing r tokens, tokens.length < bound → Faces piece r tokens →
    (inner enclosing r).Follows piece r.emitted (Formula.expression enclosing tokens)

theorem Faces.refused (h : Faces piece r tokens) (issue : Issue) :
    (piece.refuse issue r.peek r.peek).Follows piece before
      (.error (.here issue tokens) : Except Refusal (Parsed n)) := by
  rw [h.refuse_eq h]
  exact .refused

theorem number_follows (h : Faces piece r (token :: rest)) :
    (number piece r).Follows piece r.emitted (Formula.number token rest) := by
  rw [number, Formula.number, h.shown_cons]
  dsimp only
  cases Binary64.ofText? token.text with
  | none => exact h.refused _
  | some value => exact .read rfl (h.take.emit _)

theorem negative_follows (ih : InnerFollows piece inner bound) (hb : rest.length < bound)
    (h : Faces piece r (token :: rest)) :
    (negative inner r).Follows piece r.emitted (Formula.negative rest) := by
  have hread := ih (some .unary) r.take rest hb h.take
  rw [negative, Formula.negative]
  generalize inner (some .unary) r.take = attempt at hread
  generalize Formula.expression (some .unary) rest = result at hread
  cases hread with
  | refused => exact .refused
  | read he hf => exact .read (by rw [emit_emitted, he, List.append_assoc]; rfl) (hf.emit _)

theorem parentheses_follows (ih : InnerFollows piece inner bound) (hb : rest.length < bound)
    (h : Faces piece r (token :: rest)) :
    (parentheses piece inner r).Follows piece r.emitted (Formula.parentheses token rest) := by
  have hread := ih none r.take rest hb h.take
  rw [parentheses, Formula.parentheses]
  simp only [h.take.startsWith_iff .rightParen (by decide)]
  split
  · exact h.take.refused _
  · generalize inner none r.take = attempt at hread
    generalize Formula.expression none rest = result at hread
    cases hread with
    | refused => exact .refused
    | @read next read he hf =>
      obtain ⟨emitted, others, hl⟩ := read
      rw [Attempt.andThen]
      cases others with
      | nil =>
        rw [if_neg (by rw [hf.kind_nil]; decide), hf.refuse_eq h]
        exact .refused
      | cons closing others =>
        simp only [hf.kind_cons]
        split
        · exact .read he hf.take
        · rw [hf.refuse_eq h]
          exact .refused

theorem argument_follows (ih : InnerFollows piece inner bound) (hb : tokens.length < bound)
    (h : Faces piece r tokens) (f : Function) (name : String) :
    (argument piece inner f name r).Follows piece r.emitted (Formula.argument f name tokens) := by
  rw [argument, Formula.argument]
  simp only [h.startsWith_iff .rightParen (by decide)]
  split
  · exact h.refused _
  · exact ih none r tokens hb h

theorem closeCall_follows (he : r.emitted = before ++ left.emitted)
    (h : Faces piece r left.rest) (f : Function) (name : String) :
    (closeCall piece f name r).Follows piece before (Formula.closeCall f name left) := by
  obtain ⟨emitted, rest, hl⟩ := left
  dsimp only at he h
  cases rest with
  | nil =>
    rw [closeCall, h.kind_nil]
    exact h.refused _
  | cons token rest =>
    simp only [closeCall, Formula.closeCall, h.kind_cons]
    split
    · next hk =>
      rw [if_pos hk]
      exact .read (by rw [emit_emitted, take_emitted, he, List.append_assoc]) (h.take.emit _)
    · next hk =>
      rw [if_neg (by rw [hk]; decide), if_pos hk]
      exact h.refused _
    · next hr hc =>
      rw [if_neg hr, if_neg hc]
      exact h.refused _

/-- The arguments that are still to come, and the end of the call. -/
theorem moreArguments_follows (ih : InnerFollows piece inner bound) (f : Function) (name : String)
    (count : Nat) (hb : left.rest.length < bound) (he : r.emitted = before ++ left.emitted)
    (h : Faces piece r left.rest) :
    ((moreArguments piece inner f name count r).andThen (closeCall piece f name)).Follows piece
      before (Formula.moreArguments f name count left) := by
  induction count generalizing left r with
  | zero =>
    rw [moreArguments, Formula.moreArguments]
    exact closeCall_follows he h f name
  | succ count more =>
    obtain ⟨emitted, rest, hl⟩ := left
    dsimp only at hb he h
    cases rest with
    | nil =>
      rw [moreArguments, Formula.moreArguments, if_neg (by rw [h.kind_nil]; decide), h.refuse_eq h]
      exact .refused
    | cons comma rest =>
      rw [List.length_cons] at hb
      have ha := argument_follows ih (Nat.lt_of_succ_lt hb) h.take f name
      rw [moreArguments, Formula.moreArguments]
      simp only [h.kind_cons]
      split
      · generalize argument piece inner f name r.take = attempt at ha
        generalize Formula.argument f name rest = result at ha
        cases ha with
        | refused => exact .refused
        | @read next read hn hf =>
          have hshort := read.shorter
          refine more (by dsimp only; omega) ?_ hf
          rw [hn, take_emitted, he, List.append_assoc]
      · rw [h.refuse_eq h]
        exact .refused

theorem identifier_follows (ih : InnerFollows piece inner bound) (hb : rest.length < bound)
    (h : Faces piece r (token :: rest)) :
    (identifier piece inner r).Follows piece r.emitted (Formula.identifier token rest) := by
  rw [identifier, h.shown_cons]
  dsimp only
  cases rest with
  | nil =>
    rw [Formula.identifier, if_neg (by rw [h.take.kind_nil]; decide)]
    exact .read rfl (h.take.emit _)
  | cons opening rest =>
    rw [List.length_cons] at hb
    rw [Formula.identifier, h.take.kind_cons]
    split
    · rw [call]
      cases Function.ofName? token.text with
      | none => exact h.refused _
      | some f =>
        have ha := argument_follows ih (Nat.lt_of_succ_lt hb) h.take.take f token.text
        dsimp only
        generalize argument piece inner f token.text r.take.take = attempt at ha
        generalize Formula.argument f token.text rest = result at ha
        cases ha with
        | refused => exact .refused
        | @read first read he hf =>
          have hshort := read.shorter
          have hm := moreArguments_follows ih f token.text (f.arity - 1) (by omega) he hf
          rw [Attempt.andThen]
          dsimp only
          generalize (moreArguments piece inner f token.text (f.arity - 1) first).andThen
            (closeCall piece f token.text) = attempt at hm
          generalize Formula.moreArguments f token.text (f.arity - 1) read = result at hm
          cases hm with
          | refused => exact .refused
          | read he hf => exact .read he hf
    · exact .read rfl (h.take.emit _)

theorem operand_follows (ih : InnerFollows piece inner bound) (hb : tokens.length ≤ bound)
    (h : Faces piece r tokens) :
    (operand piece inner r).Follows piece r.emitted (Formula.operand tokens) := by
  cases tokens with
  | nil =>
    rw [operand, Formula.operand, h.kind_nil]
    exact h.refused _
  | cons token rest =>
    rw [List.length_cons] at hb
    have hne := h.kind_ne
    rw [operand, Formula.operand, h.kind_cons]
    cases hk : token.kind with
    | minus => exact negative_follows ih hb h
    | leftParen => exact parentheses_follows ih hb h
    | number => exact number_follows h
    | identifier => exact identifier_follows ih hb h
    | endOfInput => exact absurd hk hne
    | _ => exact h.refused _

/-- A loop is left after as many rounds as there are tokens ahead of it, and one more. -/
theorem climb_follows (ih : InnerFollows piece inner bound) (enclosing : Option Priority)
    {rounds : Nat} (hb : left.rest.length < bound) (hr : left.rest.length < rounds)
    (he : r.emitted = before ++ left.emitted) (h : Faces piece r left.rest) :
    (climb inner enclosing rounds r).Follows piece before (Formula.climb enclosing left) := by
  induction rounds generalizing left r with
  | zero => cases hr
  | succ rounds more =>
    rw [climb, round?]
    rcases h.continuation_eq with ⟨hn, hl⟩ | ⟨op, next, after, hn, hl, hf, hs⟩
    · rw [hn, Formula.climb_of_stops (Formula.stops_of_continuation_none hl)]
      exact .read he h
    · rw [hn]
      dsimp only
      cases hy : op.priority.yieldsTo enclosing with
      | true =>
        rw [Formula.climb_of_stops fun op' next' hc => by rw [hl] at hc; cases hc; exact hy]
        exact .read he h
      | false =>
        have hnext := Formula.length_of_continuation hl
        have hread := ih (some op.priority) next after (by omega) hf
        rw [if_neg Bool.false_ne_true]
        generalize inner (some op.priority) next = attempt at hread
        generalize hx : Formula.expression (some op.priority) after = result at hread
        cases hread with
        | refused =>
          rw [Formula.climb_of_error hl hy hx]
          exact .refused
        | @read behind read hre hrf =>
          obtain ⟨joined, hje, hjr, hj⟩ := Formula.climb_of_ok hl hy hx
          -- the right operand has a token, so that a limit one lower is enough for the other rounds
          have hshort := read.shorter
          rw [hj]
          refine more (by rw [hjr]; omega) (by rw [hjr]; omega) ?_ (hjr ▸ hrf.emit _)
          simp only [hje, emit_emitted, hre, hs, he, List.append_assoc]

theorem expression_follows {rounds depth : Nat} (hr : bound ≤ rounds + 1) (hd : bound ≤ depth) :
    InnerFollows piece (expression piece rounds depth) bound := by
  induction depth generalizing bound with
  | zero =>
    intro _ _ _ hb
    omega
  | succ depth more =>
    intro enclosing r tokens hb h
    have ih : InnerFollows piece (expression piece rounds depth) (bound - 1) :=
      more (by omega) (by omega)
    have ho := operand_follows ih (by omega) h
    rw [expression, Formula.expression]
    generalize operand piece (expression piece rounds depth) r = attempt at ho
    generalize Formula.operand tokens = result at ho
    cases ho with
    | refused => exact .refused
    | @read next read he hf =>
      -- fewer tokens are ahead of the loop than there were ahead of its first operand
      have hshort := read.shorter
      exact climb_follows ih enclosing (by omega) (by omega) he hf

end

/-! ### Whole formulas -/

theorem faces_start (piece : Piece) : Faces piece (start piece) (scanFrom 0 piece.content) :=
  ⟨Cursor.within_start piece.content, rfl⟩

section
variable {text : String} {tokens : List Token} {r : FormulaReader}

theorem Faces.refused_text (h : Faces (.ofText text) r tokens) (issue : Issue) :
    ((Piece.ofText text).refuse issue r.peek r.peek).result? =
      some (.error ((Refusal.here issue tokens).locate text 0 text.utf8ByteSize)) := by
  rw [h.refuse_eq h, ← byteLength_toList]
  rfl

theorem result_expectEnd (h : Faces (.ofText text) r tokens) :
    (expectEnd (.ofText text) r).result? = some (match Formula.expectEnd tokens with
      | .ok () => .ok r.emitted
      | .error refusal => .error (refusal.locate text 0 text.utf8ByteSize)) := by
  cases tokens with
  | nil =>
    rw [expectEnd, h.kind_nil]
    rfl
  | cons token rest =>
    have hne := h.kind_ne
    rw [expectEnd, Formula.expectEnd, h.kind_cons]
    cases hk : token.kind with
    | rightParen => exact h.refused_text _
    | endOfInput => exact absurd hk hne
    | _ => exact h.refused_text _

/-- Limits that are not below the number of tokens are not reached. -/
theorem result_formula {rounds depth : Nat} (hr : (scan text).length ≤ rounds)
    (hd : (scan text).length < depth) :
    (formula (.ofText text) rounds depth).result? = some (Program.parse text) := by
  have hs : Faces (.ofText text) (start (.ofText text)) (scan text) := faces_start (.ofText text)
  have hread : InnerFollows (.ofText text) (expression (.ofText text) rounds depth)
      ((scan text).length + 1) := expression_follows (by omega) hd
  have hread := hread none _ _ (Nat.lt_succ_self _) hs
  rw [formula, Program.parse, Formula.ofTokens]
  generalize scan text = tokens at hs hread
  cases tokens with
  | nil =>
    rw [if_pos hs.kind_nil]
    exact hs.refused_text _
  | cons token rest =>
    rw [if_neg (hs.kind_cons ▸ hs.kind_ne), List.isEmpty_cons, if_neg Bool.false_ne_true,
      Formula.whole]
    generalize expression (.ofText text) rounds depth none _ = attempt at hread
    generalize Formula.expression none (token :: rest) = result at hread
    cases hread with
    | @refused refusal =>
      rw [← byteLength_toList]
      rfl
    | @read next read he hf =>
      rw [Attempt.andThen, result_expectEnd hf, he]
      dsimp only
      cases Formula.expectEnd read.rest <;> rfl

end

end FormulaReader

end SpriteFormula
