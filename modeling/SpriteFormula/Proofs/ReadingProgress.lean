import SpriteFormula.Proofs.CursorFormulas

/-!
Reading always makes progress. What is read has tokens, and each round of the loop behind an operand
takes some or leaves the loop. So expressions are nested no deeper, and loops go round no more often,
than there are tokens ahead, and fewer than two instructions are emitted for each token.
-/

namespace SpriteFormula

/-! ### Taking tokens -/

namespace Cursor

/-- Some tokens are taken, none of which is the mark of the end. -/
inductive Takes : Nat → Cursor → Cursor → Prop where
  | none {cursor} : Takes 0 cursor cursor
  | next {count cursor last} : cursor.next.1.kind ≠ .endOfInput → Takes count cursor.next.2 last →
      Takes (count + 1) cursor last

variable {count more : Nat} {first middle last : Cursor}

theorem Takes.append (h : Takes count first middle) (hm : Takes more middle last) :
    Takes (count + more) first last := by
  induction h with
  | none => rwa [Nat.zero_add]
  | next hk _ ih =>
    rw [Nat.add_right_comm]
    exact .next hk (ih hm)

theorem length_tokens_next (h : first.next.1.kind ≠ .endOfInput) :
    first.next.2.tokens.length + 1 = first.tokens.length := by
  cases ht : first.tokens with
  | nil =>
    rw [next_nil ht] at h
    exact absurd rfl h
  | cons token rest => rw [(next_cons ht).2.2, List.length_cons]

/-- As many tokens fewer are ahead as are taken, and at least as many characters fewer. -/
theorem Takes.length (h : Takes count first last) :
    last.tokens.length + count = first.tokens.length ∧
      last.ahead.length + count ≤ first.ahead.length := by
  induction h with
  | none => exact ⟨rfl, Nat.le_refl _⟩
  | @next count cursor last hk _ ih =>
    have hn := length_tokens_next hk
    have hs := shorter_of_next hk
    omega

end Cursor

namespace FormulaReader

/-! ### Going on -/

/-- The reader goes on behind some tokens. It could emit two instructions for each of them, and
spares at least a number of these; with one to spare, there is a token. -/
def Advances (spare : Nat) (first last : FormulaReader) : Prop :=
  ∃ count program, Cursor.Takes count first.cursor last.cursor ∧
    last.emitted = first.emitted ++ program ∧ program.length + spare ≤ 2 * count

section
variable {first middle last r : FormulaReader} {spare more : Nat}

theorem advances_refl (r : FormulaReader) : Advances 0 r r :=
  ⟨0, [], .none, (List.append_nil _).symm, Nat.le_refl _⟩

theorem advances_take {kind : TokenKind} (h : r.peek.kind = kind) (hk : kind ≠ .endOfInput) :
    Advances 2 r r.take :=
  ⟨1, [], .next (h ▸ hk) .none, (List.append_nil _).symm, Nat.le_refl _⟩

theorem Advances.append (h : Advances spare first middle) (hm : Advances more middle last) :
    Advances (spare + more) first last := by
  obtain ⟨count, program, ht, he, hl⟩ := h
  obtain ⟨others, emitted, hto, heo, hlo⟩ := hm
  refine ⟨count + others, program ++ emitted, ht.append hto, ?_, ?_⟩
  · rw [heo, he, List.append_assoc]
  · rw [List.length_append]
    omega

theorem Advances.emit (h : Advances (spare + 1) first r) (i : Instruction) :
    Advances spare first (r.emit i) := by
  obtain ⟨count, program, ht, he, hl⟩ := h
  refine ⟨count, program ++ [i], ht, ?_, ?_⟩
  · rw [emit_emitted, he, List.append_assoc]
  · rw [List.length_append, List.length_singleton]
    omega

theorem Advances.mono (h : Advances more first last) (hs : spare ≤ more) :
    Advances spare first last := by
  obtain ⟨count, program, ht, he, hl⟩ := h
  exact ⟨count, program, ht, he, by omega⟩

theorem Advances.shorter (h : Advances 1 first last) :
    last.cursor.tokens.length < first.cursor.tokens.length ∧
      last.cursor.ahead.length < first.cursor.ahead.length := by
  obtain ⟨count, _, ht, -, hl⟩ := h
  have taken := ht.length
  omega

end

/-! ### Attempts that read -/

section
variable {piece : Piece} {inner : Option Priority → FormulaReader → Attempt}
  {r last : FormulaReader}

theorem exists_of_andThen {attempt : Attempt} {more : FormulaReader → Attempt}
    (h : attempt.andThen more = .read last) :
    ∃ next, attempt = .read next ∧ more next = .read last := by
  cases attempt with
  | read next => exact ⟨next, rfl, h⟩
  | refused error => cases h
  | outside => cases h
  | exceeded => cases h

theorem refuse_ne_read (issue : Issue) (place found : Lexeme) :
    piece.refuse issue place found ≠ .read last := by
  intro h
  unfold Piece.refuse at h
  split at h <;> cases h

/-- What is known of the expressions that are read inside. -/
def InnerAdvances (inner : Option Priority → FormulaReader → Attempt) : Prop :=
  ∀ enclosing r last, inner enclosing r = .read last → Advances 1 r last

theorem number_advances (hk : r.peek.kind = .number) (h : number piece r = .read last) :
    Advances 1 r last := by
  unfold number at h
  split at h
  · cases h
  · split at h
    · exact absurd h (refuse_ne_read _ _ _)
    · cases h
      exact (advances_take hk (by decide)).emit _

theorem negative_advances (ih : InnerAdvances inner) (hk : r.peek.kind = .minus)
    (h : negative inner r = .read last) : Advances 1 r last := by
  obtain ⟨behind, hi, hb⟩ := exists_of_andThen h
  cases hb
  have operand := (advances_take hk (by decide)).append (ih _ _ _ hi)
  exact (operand.emit _).mono (by decide)

theorem parentheses_advances (ih : InnerAdvances inner) (hk : r.peek.kind = .leftParen)
    (h : parentheses piece inner r = .read last) : Advances 1 r last := by
  unfold parentheses at h
  split at h
  · exact absurd h (refuse_ne_read _ _ _)
  · obtain ⟨behind, hi, hb⟩ := exists_of_andThen h
    split at hb
    · next hc =>
      cases hb
      have inside := (advances_take hk (by decide)).append (ih _ _ _ hi)
      exact (inside.append (advances_take hc (by decide))).mono (by decide)
    · exact absurd hb (refuse_ne_read _ _ _)

theorem argument_advances (ih : InnerAdvances inner) {f : Function} {name : String}
    (h : argument piece inner f name r = .read last) : Advances 1 r last := by
  unfold argument at h
  split at h
  · exact absurd h (refuse_ne_read _ _ _)
  · exact ih _ _ _ h

theorem moreArguments_advances (ih : InnerAdvances inner) {f : Function} {name : String}
    {count : Nat} (h : moreArguments piece inner f name count r = .read last) :
    Advances 0 r last := by
  induction count generalizing r with
  | zero =>
    cases h
    exact advances_refl _
  | succ count more =>
    rw [moreArguments] at h
    split at h
    · next hk =>
      obtain ⟨next, ha, hm⟩ := exists_of_andThen h
      have behind := (advances_take hk (by decide)).append (argument_advances ih ha)
      exact (behind.append (more hm)).mono (Nat.zero_le _)
    · exact absurd h (refuse_ne_read _ _ _)

theorem closeCall_advances {f : Function} {name : String}
    (h : closeCall piece f name r = .read last) : Advances 1 r last := by
  unfold closeCall at h
  split at h
  · next hk =>
    cases h
    exact (advances_take hk (by decide)).emit _
  · exact absurd h (refuse_ne_read _ _ _)
  · exact absurd h (refuse_ne_read _ _ _)

theorem call_advances (ih : InnerAdvances inner) (hk : r.peek.kind = .leftParen) {name : Lexeme}
    {word : String} (h : call piece inner name word r = .read last) : Advances 1 r last := by
  unfold call at h
  split at h
  · exact absurd h (refuse_ne_read _ _ _)
  · obtain ⟨next, ha, hm⟩ := exists_of_andThen h
    obtain ⟨behind, hm, hc⟩ := exists_of_andThen hm
    have first := (advances_take hk (by decide)).append (argument_advances ih ha)
    have arguments := first.append (moreArguments_advances ih hm)
    exact (arguments.append (closeCall_advances hc)).mono (by decide)

theorem identifier_advances (ih : InnerAdvances inner) (hk : r.peek.kind = .identifier)
    (h : identifier piece inner r = .read last) : Advances 1 r last := by
  have name := advances_take hk (by decide)
  unfold identifier at h
  split at h
  · cases h
  · split at h
    · next hp => exact (name.append (call_advances ih hp h)).mono (by decide)
    · cases h
      exact name.emit _

theorem operand_advances (ih : InnerAdvances inner) (h : operand piece inner r = .read last) :
    Advances 1 r last := by
  unfold operand at h
  split at h
  · next hk => exact negative_advances ih hk h
  · next hk => exact parentheses_advances ih hk h
  · next hk => exact number_advances hk h
  · next hk => exact identifier_advances ih hk h
  all_goals exact absurd h (refuse_ne_read _ _ _)

/-- A sign is taken in front of its right operand. Where there is none, nothing is. -/
theorem continuation_advances {op : Operator} {next : FormulaReader}
    (h : r.continuation? = some (op, next)) : Advances 0 r next := by
  unfold continuation? at h
  split at h
  · next hs =>
    cases h
    refine (advances_take rfl fun hk => ?_).mono (Nat.zero_le _)
    rw [hk] at hs
    cases hs
  · split at h
    · cases h
      exact advances_refl _
    · cases h

/-- A round that does not leave the loop reads an operand and emits its operator. -/
theorem round_advances (ih : InnerAdvances inner) {enclosing : Option Priority}
    (h : round? inner enclosing r = some (.read last)) :
    ∃ behind op, Advances 1 r behind ∧ last = behind.emit (.operator op) := by
  unfold round? at h
  split at h
  · cases h
  · next op next hn =>
    split at h
    · cases h
    · obtain ⟨behind, hi, hb⟩ := exists_of_andThen (Option.some.inj h)
      cases hb
      have right := (continuation_advances hn).append (ih _ _ _ hi)
      exact ⟨behind, op, right, rfl⟩

theorem climb_advances (ih : InnerAdvances inner) {enclosing : Option Priority} {rounds : Nat}
    (h : climb inner enclosing rounds r = .read last) : Advances 0 r last := by
  induction rounds generalizing r with
  | zero => cases h
  | succ rounds more =>
    rw [climb] at h
    split at h
    · cases h
      exact advances_refl _
    · next attempt ha =>
      obtain ⟨next, rfl, hm⟩ := exists_of_andThen h
      obtain ⟨behind, op, right, rfl⟩ := round_advances ih ha
      exact (right.emit _).append (more hm)

theorem expression_advances (piece : Piece) (rounds depth : Nat) :
    InnerAdvances (expression piece rounds depth) := by
  induction depth with
  | zero =>
    intro _ _ _ h
    cases h
  | succ depth ih =>
    intro enclosing r last h
    obtain ⟨next, ho, hc⟩ := exists_of_andThen h
    exact (operand_advances ih ho).append (climb_advances ih hc)

theorem formula_advances {rounds depth : Nat} (h : formula piece rounds depth = .read last) :
    ∃ next, Advances 1 (start piece) next ∧ last.emitted = next.emitted := by
  unfold formula at h
  split at h
  · exact absurd h (refuse_ne_read _ _ _)
  · obtain ⟨next, he, hend⟩ := exists_of_andThen h
    unfold expectEnd at hend
    split at hend
    · cases hend
      exact ⟨next, expression_advances _ _ _ _ _ _ he, rfl⟩
    · exact absurd hend (refuse_ne_read _ _ _)
    · exact absurd hend (refuse_ne_read _ _ _)

end

end FormulaReader

/-! ### Formulas -/

open FormulaReader Token

theorem Attempt.Follows.isSome {piece : Piece} {before : Program} {n : Nat} {attempt : Attempt}
    {result : Except Refusal (Parsed n)} (h : attempt.Follows piece before result) :
    attempt.result?.isSome := by
  cases h <;> rfl

/-- Reading a formula makes progress wherever a reader is, and comes to no limit. -/
structure Piece.MakesProgress (piece : Piece) : Prop where
  operand : ∀ rounds depth first last,
    operand piece (expression piece rounds depth) first = .read last → Advances 1 first last
  expression : ∀ rounds depth enclosing first last,
    expression piece rounds depth enclosing first = .read last → Advances 1 first last
  /-- A round leaves the loop, or an operand is read and joined by an operator. -/
  round : ∀ rounds depth enclosing first last,
    round? (FormulaReader.expression piece rounds depth) enclosing first = some (.read last) →
      ∃ behind op, Advances 1 first behind ∧ last = behind.emit (.operator op)
  /-- A loop is left after no more rounds than tokens are ahead of it, and the one that leaves. -/
  loop : ∀ first : FormulaReader, first.cursor.Within piece.content →
    ∀ rounds depth limit, first.cursor.tokens.length ≤ rounds →
      first.cursor.tokens.length < depth → first.cursor.tokens.length < limit → ∀ enclosing,
      (climb (FormulaReader.expression piece rounds depth) enclosing limit first).result?.isSome
  /-- Inside of an expression others are nested no deeper than the tokens ahead, and with limits
  that allow for it what is read does not depend on them. -/
  nesting : ∀ first : FormulaReader, first.cursor.Within piece.content →
    ∀ rounds depth, first.cursor.tokens.length ≤ rounds → first.cursor.tokens.length < depth →
      ∀ enclosing, (FormulaReader.expression piece rounds depth enclosing first).Follows piece
        first.emitted (Formula.expression enclosing first.cursor.tokens)

theorem Piece.makesProgress (piece : Piece) : piece.MakesProgress := by
  constructor
  case operand =>
    exact fun rounds depth _ _ => operand_advances (expression_advances piece rounds depth)
  case expression => exact expression_advances piece
  case round =>
    exact fun rounds depth _ _ _ => round_advances (expression_advances piece rounds depth)
  case loop =>
    intro first within rounds depth limit hr hd hl enclosing
    let left : Parsed (first.cursor.tokens.length + 1) :=
      ⟨[], first.cursor.tokens, Nat.lt_succ_self _⟩
    have inner : InnerFollows piece (FormulaReader.expression piece rounds depth)
        (first.cursor.tokens.length + 1) := expression_follows (Nat.succ_le_succ hr) hd
    have follows : Attempt.Follows piece first.emitted _ (Formula.climb enclosing left) :=
      climb_follows inner enclosing (Nat.lt_succ_self _) hl (List.append_nil _).symm ⟨within, rfl⟩
    exact follows.isSome
  case nesting =>
    intro first within rounds depth hr hd enclosing
    exact expression_follows (Nat.succ_le_succ hr) hd _ _ _ (Nat.lt_succ_self _) ⟨within, rfl⟩

theorem Program.length_of_parse {text : String} {program : Program}
    (h : Program.parse text = .ok program) : program.length + 1 ≤ 2 * (scan text).length := by
  have hf := result_formula (Nat.le_refl (scan text).length) (Nat.lt_succ_self _)
  rw [h] at hf
  cases hr : formula (.ofText text) (scan text).length ((scan text).length + 1) with
  | read last =>
    rw [hr] at hf
    cases hf
    obtain ⟨next, ⟨count, program, ht, he, hl⟩, hn⟩ := formula_advances hr
    have taken := ht.length.1
    have all : (FormulaReader.start (.ofText text)).cursor.tokens = scan text := rfl
    rw [all] at taken
    rw [hn, he, FormulaReader.start, List.nil_append]
    omega
  | _ =>
    rw [hr] at hf
    cases hf

/-- Reading always makes progress. An operand or an expression that is read has tokens, and each
round of the loop behind an operand takes a token at least, unless it leaves the loop. So loops go
round and expressions are nested no more than there are tokens left. From a text with `n` tokens no
more than `2 * n - 1` instructions are read. -/
theorem reading_makes_progress (text : String) :
    (∀ piece : Piece, piece.MakesProgress) ∧
    (∀ first last, Advances 1 first last →
      last.cursor.tokens.length < first.cursor.tokens.length ∧
        last.cursor.ahead.length < first.cursor.ahead.length) ∧
    (∀ rounds depth, (scan text).length ≤ rounds → (scan text).length < depth →
      (formula (.ofText text) rounds depth).result? = some (Program.parse text)) ∧
    ∀ program, Program.parse text = .ok program → program.length + 1 ≤ 2 * (scan text).length :=
  ⟨Piece.makesProgress, fun _ _ => Advances.shorter, fun _ _ => result_formula,
    fun _ => Program.length_of_parse⟩

/-- Two operands side by side. The round of the loop takes the second one and no sign, and as many
instructions are emitted as there can be. -/
theorem adjacent_operands_make_progress :
    let piece := Piece.ofText "x y"
    let inner := FormulaReader.expression piece 2 3
    let behind : FormulaReader := ⟨⟨[' ', 'y'], 1⟩, [.var "x"]⟩
    let last : FormulaReader := ⟨⟨[], 3⟩, [.var "x", .var "y", .operator .multiply]⟩
    (FormulaReader.operand piece inner (.start piece) = .read behind ∧
      Advances 1 (.start piece) behind ∧ behind.cursor.tokens.length < 2) ∧
    (inner none (.start piece) = .read last ∧ Advances 1 (.start piece) last) ∧
    (round? inner none behind = some (.read last) ∧
      ∃ right op, Advances 1 behind right ∧ last = right.emit (.operator op)) ∧
    (climb inner none 2 behind).result?.isSome ∧
    (inner none (.start piece)).Follows piece [] (Formula.expression none (scan "x y")) ∧
    (formula piece 2 3).result? = some (Program.parse "x y") ∧
    Program.parse "x y" = .ok last.emitted ∧ last.emitted.length + 1 ≤ 2 * (scan "x y").length := by
  intro piece inner behind last
  obtain ⟨progress, shorter, limits, bound⟩ := reading_makes_progress "x y"
  have two : (scan "x y").length = 2 := by decide +kernel
  have hop : FormulaReader.operand piece inner (.start piece) = .read behind := by decide +kernel
  have hread : inner none (.start piece) = .read last := by decide +kernel
  have hround : round? inner none behind = some (.read last) := by decide +kernel
  have hparse : Program.parse "x y" = .ok last.emitted := by decide +kernel
  have one : behind.cursor.tokens.length = 1 := by decide +kernel
  have advances := (progress piece).operand 2 3 _ _ hop
  refine ⟨⟨hop, advances, (shorter _ _ advances).1.trans_eq two⟩,
    ⟨hread, (progress piece).expression 2 3 none _ _ hread⟩,
    ⟨hround, (progress piece).round 2 3 none _ _ hround⟩, ?_, ?_, ?_, hparse, bound _ hparse⟩
  · exact (progress piece).loop behind ⟨['x'], rfl, rfl⟩ 2 3 2 (by omega) (by omega) (by omega) none
  · exact (progress piece).nesting (.start piece) ⟨[], rfl, rfl⟩ 2 3 (Nat.le_of_eq two)
      (Nat.lt_succ_of_le (Nat.le_of_eq two)) none
  · exact limits 2 3 (Nat.le_of_eq two) (Nat.lt_succ_of_le (Nat.le_of_eq two))

end SpriteFormula
