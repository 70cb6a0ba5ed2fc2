import SpriteFormula.Declaration
import SpriteFormula.Proofs.FormulaBlanks

/-!
The reader looks at the kinds and the texts of tokens only. Two lists of tokens that are related one
by one, the same in kind and text, are read as the same program, or both refused with the same
issue, at related places.
-/

namespace SpriteFormula

open Token

variable {R : Token → Token → Prop}

/-- Refusals with the same issue at related places. -/
structure Refusal.Agree (R : Token → Token → Prop) (refusal other : Refusal) : Prop where
  issue : refusal.issue = other.issue
  place : List.Forall₂ R refusal.place other.place
  found : List.Forall₂ R refusal.found other.found

theorem Refusal.agree_here {tokens others : List Token} (h : List.Forall₂ R tokens others)
    (issue : Issue) : (Refusal.here issue tokens).Agree R (.here issue others) :=
  ⟨rfl, h, h⟩

namespace Formula

/-- The same is emitted in front of related tokens, or both readings are refused alike. -/
inductive Agree (R : Token → Token → Prop) {n m : Nat} :
    Except Refusal (Parsed n) → Except Refusal (Parsed m) → Prop where
  | ok {read other} : read.emitted = other.emitted → List.Forall₂ R read.rest other.rest →
      Agree R (.ok read) (.ok other)
  | error {refusal other} : refusal.Agree R other → Agree R (.error refusal) (.error other)

/-- What is known of expressions of fewer tokens than a bound. -/
def ExpressionAgrees (R : Token → Token → Prop) (bound : Nat) : Prop :=
  ∀ enclosing tokens others, tokens.length < bound → List.Forall₂ R tokens others →
    Agree R (expression enclosing tokens) (expression enclosing others)

/-! ### One round of the loop -/

section
variable {n : Nat} {enclosing : Option Priority} {left : Parsed n} {op : Operator}
  {next : List Token}

theorem climb_of_error (hc : continuation? left.rest = some (op, next))
    (hy : op.priority.yieldsTo enclosing = false) {refusal : Refusal}
    (h : expression (some op.priority) next = .error refusal) :
    climb enclosing left = .error refusal := by
  rw [climb]
  split
  · next hn =>
    rw [hc] at hn
    cases hn
  · next op' next' hn =>
    rw [hc] at hn
    cases hn
    rw [if_neg (by simp [hy])]
    simp only [h]

theorem climb_of_ok (hc : continuation? left.rest = some (op, next))
    (hy : op.priority.yieldsTo enclosing = false) {read : Parsed next.length}
    (h : expression (some op.priority) next = .ok read) :
    ∃ joined : Parsed n, joined.emitted = left.emitted ++ read.emitted ++ [.operator op] ∧
      joined.rest = read.rest ∧ climb enclosing left = climb enclosing joined := by
  have hnext := length_of_continuation hc
  have hleft := left.shorter
  have hread := read.shorter
  refine ⟨⟨left.emitted ++ read.emitted ++ [.operator op], read.rest, by omega⟩, rfl, rfl, ?_⟩
  rw [climb]
  split
  · next hn =>
    rw [hc] at hn
    cases hn
  · next op' next' hn =>
    rw [hc] at hn
    cases hn
    rw [if_neg (by simp [hy])]
    simp only [h]

end

/-! ### Related tokens -/

section
variable (alike : ∀ token other, R token other → Alike token other)
  {n m bound : Nat} {tokens others : List Token} {left : Parsed n} {right : Parsed m}
  {token other : Token}
include alike

theorem continuation_agrees (h : List.Forall₂ R tokens others) :
    (continuation? tokens = none ∧ continuation? others = none) ∨
    ∃ op next after, continuation? tokens = some (op, next) ∧
      continuation? others = some (op, after) ∧ List.Forall₂ R next after := by
  cases h with
  | nil => exact .inl ⟨rfl, rfl⟩
  | @cons token other rest more hr ht =>
    rw [continuation?, continuation?, ← (alike _ _ hr).1]
    cases token.kind.sign? with
    | some op => exact .inr ⟨op, _, _, rfl, rfl, ht⟩
    | none =>
      dsimp only
      split
      · exact .inr ⟨_, _, _, rfl, rfl, .cons hr ht⟩
      · exact .inl ⟨rfl, rfl⟩

theorem startsWith_agrees (kind : TokenKind) (h : List.Forall₂ R tokens others) :
    startsWith kind tokens = startsWith kind others := by
  cases h with
  | nil => rfl
  | cons hr _ => simp [startsWith, (alike _ _ hr).1]

theorem climb_agrees (ih : ExpressionAgrees R bound) (enclosing : Option Priority)
    (hb : left.rest.length < bound) (he : left.emitted = right.emitted)
    (hr : List.Forall₂ R left.rest right.rest) :
    Agree R (climb enclosing left) (climb enclosing right) := by
  induction hlen : left.rest.length using Nat.strongRecOn generalizing left right with
  | ind l more =>
    rcases continuation_agrees alike hr with ⟨hl, ho⟩ | ⟨op, next, after, hl, ho, hn⟩
    · rw [climb_of_stops (stops_of_continuation_none hl),
        climb_of_stops (stops_of_continuation_none ho)]
      exact .ok he hr
    · cases hy : op.priority.yieldsTo enclosing with
      | true =>
        have stops {rest others : List Token} (hc : continuation? rest = some (op, others)) :
            Stops enclosing rest := by
          intro op' next' hs
          rw [hc] at hs
          cases hs
          exact hy
        rw [climb_of_stops (stops hl), climb_of_stops (stops ho)]
        exact .ok he hr
      | false =>
        have hnext := length_of_continuation hl
        have hread := ih (some op.priority) next after (by omega) hn
        generalize hf : expression (some op.priority) next = first at hread
        generalize hg : expression (some op.priority) after = second at hread
        cases hread with
        | error hs =>
          rw [climb_of_error hl hy hf, climb_of_error ho hy hg]
          exact .error hs
        | @ok read other hemitted hrest =>
          obtain ⟨joined, hje, hjr, hj⟩ := climb_of_ok hl hy hf
          obtain ⟨bound, hbe, hbr, hb⟩ := climb_of_ok ho hy hg
          have hshort := read.shorter
          rw [hj, hb]
          refine more _ ?_ ?_ ?_ ?_ rfl
          · rw [hjr]; omega
          · rw [hjr]; omega
          · rw [hje, hbe, he, hemitted]
          · rw [hjr, hbr]; exact hrest

theorem closeCall_agrees (f : Function) (name : String) (he : left.emitted = right.emitted)
    (hr : List.Forall₂ R left.rest right.rest) :
    Agree R (closeCall f name left) (closeCall f name right) := by
  obtain ⟨_, rest, _⟩ := left
  obtain ⟨_, more, _⟩ := right
  obtain rfl := he
  cases hr with
  | nil => exact .error (Refusal.agree_here .nil _)
  | @cons token other rest more hk ht =>
    simp only [closeCall, ← (alike _ _ hk).1]
    split
    · exact .ok rfl ht
    · split
      · exact .error (Refusal.agree_here (.cons hk ht) _)
      · exact .error (Refusal.agree_here (.cons hk ht) _)

theorem argument_agrees (ih : ExpressionAgrees R bound) (hb : tokens.length < bound)
    (h : List.Forall₂ R tokens others) (f : Function) (name : String) :
    Agree R (argument f name tokens) (argument f name others) := by
  rw [argument, argument, ← startsWith_agrees alike _ h]
  split
  · exact .error (Refusal.agree_here h _)
  · exact ih none tokens others hb h

theorem moreArguments_agrees (ih : ExpressionAgrees R bound) (f : Function) (name : String)
    (count : Nat) (hb : left.rest.length < bound) (he : left.emitted = right.emitted)
    (hr : List.Forall₂ R left.rest right.rest) :
    Agree R (moreArguments f name count left) (moreArguments f name count right) := by
  induction count generalizing left right with
  | zero =>
    rw [moreArguments, moreArguments]
    exact closeCall_agrees alike f name he hr
  | succ count more =>
    obtain ⟨emitted, rest, hl⟩ := left
    obtain ⟨_, others, hm⟩ := right
    obtain rfl := he
    cases hr with
    | nil =>
      rw [moreArguments, moreArguments]
      exact .error (Refusal.agree_here .nil _)
    | @cons token other rest others hk ht =>
      rw [List.length_cons] at hb
      have ha := argument_agrees alike ih (Nat.lt_of_succ_lt hb) ht f name
      rw [moreArguments, moreArguments]
      simp only [← (alike _ _ hk).1]
      split
      · generalize hf : argument f name rest = first at ha
        generalize hg : argument f name others = second at ha
        cases ha with
        | error hs => exact .error hs
        | @ok read other hemitted hrest =>
          have hshort := read.shorter
          exact more (by simp only; omega) (by simp only [hemitted]) hrest
      · exact .error (Refusal.agree_here (.cons hk ht) _)

theorem number_agrees (hk : R token other) (h : List.Forall₂ R tokens others) :
    Agree R (number token tokens) (number other others) := by
  unfold number
  rw [← (alike _ _ hk).2]
  split
  · exact .error (Refusal.agree_here (.cons hk h) _)
  · exact .ok rfl h

omit alike in
theorem negative_agrees (ih : ExpressionAgrees R bound) (hb : tokens.length < bound)
    (h : List.Forall₂ R tokens others) : Agree R (negative tokens) (negative others) := by
  have hread := ih (some .unary) tokens others hb h
  rw [negative, negative]
  generalize expression (some .unary) tokens = first at hread
  generalize expression (some .unary) others = second at hread
  cases hread with
  | error hs => exact .error hs
  | ok he hr => exact .ok (by rw [he]) hr

theorem parentheses_agrees (ih : ExpressionAgrees R bound) (hb : tokens.length < bound)
    (hk : R token other) (h : List.Forall₂ R tokens others) :
    Agree R (parentheses token tokens) (parentheses other others) := by
  have hread := ih none tokens others hb h
  rw [parentheses, parentheses, ← startsWith_agrees alike _ h]
  split
  · exact .error (Refusal.agree_here h _)
  · generalize expression none tokens = first at hread
    generalize expression none others = second at hread
    cases hread with
    | error hs => exact .error hs
    | @ok read found he hr =>
      obtain ⟨_, rest, _⟩ := read
      obtain ⟨_, more, _⟩ := found
      obtain rfl := he
      cases hr with
      | nil => exact .error ⟨rfl, .cons hk h, .nil⟩
      | cons hc ht =>
        simp only [← (alike _ _ hc).1]
        split
        · exact .ok rfl ht
        · exact .error ⟨rfl, .cons hk h, .cons hc ht⟩

theorem identifier_agrees (ih : ExpressionAgrees R bound) (hb : tokens.length < bound)
    (hk : R token other) (h : List.Forall₂ R tokens others) :
    Agree R (identifier token tokens) (identifier other others) := by
  cases h with
  | nil =>
    rw [identifier, identifier, ← (alike _ _ hk).2]
    exact .ok rfl .nil
  | @cons opening found rest more ho ht =>
    rw [List.length_cons] at hb
    rw [identifier, identifier, ← (alike _ _ hk).2, ← (alike _ _ ho).1]
    split
    · split
      · exact .error (Refusal.agree_here (.cons hk (.cons ho ht)) _)
      · next f _ =>
        have ha := argument_agrees alike ih (Nat.lt_of_succ_lt hb) ht f token.text
        generalize argument f token.text rest = first at ha
        generalize argument f token.text more = second at ha
        cases ha with
        | error hs => exact .error hs
        | @ok read last he hr =>
          have hshort := read.shorter
          have hm := moreArguments_agrees alike ih f token.text (f.arity - 1) (by omega) he hr
          dsimp only
          generalize moreArguments f token.text (f.arity - 1) read = first at hm
          generalize moreArguments f token.text (f.arity - 1) last = second at hm
          cases hm with
          | error hs => exact .error hs
          | ok he hr => exact .ok he hr
    · exact .ok rfl (.cons ho ht)

theorem operand_agrees (ih : ExpressionAgrees R bound) (hb : tokens.length ≤ bound)
    (h : List.Forall₂ R tokens others) : Agree R (operand tokens) (operand others) := by
  cases h with
  | nil =>
    rw [operand]
    exact .error (Refusal.agree_here .nil _)
  | @cons token other rest more hk ht =>
    rw [List.length_cons] at hb
    rw [operand, operand, ← (alike _ _ hk).1]
    split
    · exact negative_agrees ih hb ht
    · exact parentheses_agrees alike ih hb hk ht
    · exact number_agrees alike hk ht
    · exact identifier_agrees alike ih hb hk ht
    · exact .error (Refusal.agree_here (.cons hk ht) _)
    · exact .error (Refusal.agree_here (.cons hk ht) _)

theorem expression_agrees (bound : Nat) : ExpressionAgrees R bound := by
  induction bound with
  | zero => intro _ _ _ hb; cases hb
  | succ bound ih =>
    intro enclosing tokens others hb h
    have ho := operand_agrees alike ih (Nat.le_of_lt_succ hb) h
    rw [expression, expression]
    generalize operand tokens = first at ho
    generalize operand others = second at ho
    cases ho with
    | error hs => exact .error hs
    | @ok read other he hr =>
      have hshort := read.shorter
      exact climb_agrees alike ih enclosing (by omega) he hr

/-! ### Whole formulas -/

/-- Programs that are the same, or refusals that agree. -/
inductive AgreeWhole (R : Token → Token → Prop) :
    Except Refusal Program → Except Refusal Program → Prop where
  | ok {program} : AgreeWhole R (.ok program) (.ok program)
  | error {refusal other} : refusal.Agree R other → AgreeWhole R (.error refusal) (.error other)

theorem whole_agrees (h : List.Forall₂ R tokens others) :
    AgreeWhole R (whole tokens) (whole others) := by
  have hread := expression_agrees alike (tokens.length + 1) none tokens others
    (Nat.lt_succ_self _) h
  unfold whole
  generalize expression none tokens = first at hread
  generalize expression none others = second at hread
  cases hread with
  | error hs => exact .error hs
  | @ok read found he hr =>
    obtain ⟨_, rest, _⟩ := read
    obtain ⟨_, more, _⟩ := found
    obtain rfl := he
    cases hr with
    | nil => exact .ok
    | cons hk ht =>
      simp only [expectEnd, ← (alike _ _ hk).1]
      exact .error (Refusal.agree_here (.cons hk ht) _)

theorem ofTokens_agrees (h : List.Forall₂ R tokens others) :
    AgreeWhole R (ofTokens tokens) (ofTokens others) := by
  have hw := whole_agrees alike h
  cases h with
  | nil => exact .error (Refusal.agree_here .nil _)
  | cons hk ht => exact hw

end

end Formula

end SpriteFormula
