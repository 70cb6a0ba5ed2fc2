import SpriteFormula.Declaration
import SpriteFormula.Proofs.FormulaBeginnings

/-!
Where the reader stops, and what it has read by then. The tokens in front of the reported place are
the beginning of a formula. The place is that of the token found, but for a parenthesis that is not
closed, which is reported itself.
-/

namespace SpriteFormula

open Grammar

/-- What is reported about: the token at the place, or a parenthesis with an expression behind it
that goes on with none of what is found in place of its end. -/
inductive Refusal.Points : Refusal → Prop where
  | here {issue tokens} : issue ≠ .unclosedParenthesis → Points (.here issue tokens)
  | unclosed {opening inside tree found} : opening.kind = .leftParen →
      Derives .sum inside tree found → Formula.continuation? found = none →
      Formula.startsWith .rightParen found = false →
      Points ⟨.unclosedParenthesis, opening :: inside, found⟩

namespace Formula

/-- The tokens are refused at a place up to which they are the beginning of the symbol. -/
structure Refused (symbol : Symbol) (tokens : List Token) (refusal : Refusal) : Prop where
  front : ∃ used, tokens = used ++ refusal.place ∧ Completable symbol used
  points : refusal.Points

/-- What is known of the expressions of fewer tokens than a bound that are refused. -/
def ExpressionRefused (bound : Nat) : Prop :=
  ∀ enclosing tokens refusal, tokens.length < bound →
    expression enclosing tokens = .error refusal →
    Refused (symbolWithin enclosing) tokens refusal

section
variable {n bound : Nat} {symbol other : Symbol} {tokens rest : List Token}
  {refusal : Refusal} {issue : Issue} {enclosing : Option Priority} {name opening : Token}

/-- Where nothing is read yet. -/
theorem Refused.start (hi : issue ≠ .unclosedParenthesis) :
    Refused symbol tokens (.here issue tokens) :=
  ⟨⟨[], rfl, completable_nil symbol⟩, .here hi⟩

/-- Behind what is read. -/
theorem Refused.behind {tree : Expr} (hd : Derives symbol tokens tree rest)
    (hi : issue ≠ .unclosedParenthesis) : Refused symbol tokens (.here issue rest) :=
  ⟨completable_of_derives hd, .here hi⟩

/-- A part is the beginning of what it is part of. -/
theorem Refused.within (h : Refused symbol tokens refusal) (before : List Token)
    (hc : ∀ {used}, used <+: tokens → Completable symbol used →
      Completable other (before ++ used)) :
    Refused other (before ++ tokens) refusal := by
  obtain ⟨⟨used, ht, hu⟩, hp⟩ := h
  exact ⟨⟨before ++ used, by rw [ht, List.append_assoc], hc ⟨_, ht.symm⟩ hu⟩, hp⟩

theorem Refused.of_primary (h : Refused .primary tokens refusal) :
    Refused symbol tokens refusal :=
  h.within [] fun _ hu => hu.of_primary

/-- The right operand of an operator is refused. -/
theorem Climbing.refused {left : Parsed n} (state : Climbing enclosing tokens left)
    {op : Operator} {next : List Token} (hc : continuation? left.rest = some (op, next))
    (hy : op.priority.yieldsTo enclosing = false)
    (h : Refused (symbolWithin (some op.priority)) next refusal) :
    Refused (symbolWithin enclosing) tokens refusal := by
  obtain ⟨⟨used, hn, hu⟩, hp⟩ := h
  refine ⟨?_, hp⟩
  rcases continuation_cases hc with ⟨sign, hl, hm, ho⟩ | ⟨sign, hl, hm, ho⟩ |
    ⟨token, others, hl, ht, rfl, rfl⟩
  · obtain ⟨tree, hd, _⟩ := state.sum_left
    rw [ho] at hu hy
    obtain ⟨front, hf, _, hs⟩ := hd.split
    refine ⟨front ++ sign :: used, by rw [hf, hl, hn, List.append_assoc, List.cons_append], ?_⟩
    exact (Completable.additive (fun _ hr => hs _ fun _ => hr) hm hu).within_of_sum hy
  · obtain ⟨tree, hd, _⟩ := state.product_left hc ho
    rw [ho] at hu hy
    obtain ⟨front, hf, _, hs⟩ := hd.split
    refine ⟨front ++ sign :: used, by rw [hf, hl, hn, List.append_assoc, List.cons_append], ?_⟩
    exact (Completable.multiplicative (fun _ hr => hs _ fun _ => hr) hm hu).within_of_product hy
  · obtain ⟨tree, hd, _⟩ := state.product_left hc rfl
    rw [hl] at hd hn
    obtain ⟨front, hf, hfront⟩ := Completable.adjacent hd ht ⟨_, hn.symm⟩ hu
    refine ⟨front ++ used, by rw [hf, hn, List.append_assoc], ?_⟩
    exact hfront.within_of_product hy

theorem climb_refused (ih : ExpressionRefused bound) {left : Parsed n}
    (hb : left.rest.length < bound) (state : Climbing enclosing tokens left)
    (h : climb enclosing left = .error refusal) :
    Refused (symbolWithin enclosing) tokens refusal := by
  induction hl : left.rest.length using Nat.strongRecOn generalizing left with
  | ind l more =>
    rw [climb] at h
    split at h
    · cases h
    · next op next hc =>
      split at h
      · cases h
      · next hy =>
        have hy : op.priority.yieldsTo enclosing = false := by simpa using hy
        have hnext := length_of_continuation hc
        split at h
        · next found he =>
          cases h
          exact state.refused hc hy (ih _ _ _ (by omega) he)
        · next right hr =>
          obtain ⟨hs, stop⟩ := expression_sound bound _ _ right (by omega) hr
          have hshort := right.shorter
          exact more _ (by simp only; omega) (by simp only; omega)
            (state.step hc hy hs stop rfl rfl) h rfl

theorem number_refused {token : Token} (h : number token rest = .error refusal) :
    Refused symbol (token :: rest) refusal := by
  unfold number at h
  split at h
  · cases h
    exact .start (by simp)
  · cases h

theorem negative_refused (ih : ExpressionRefused bound) (hb : tokens.length < bound)
    {minus : Token} (hk : minus.kind = .minus) (h : negative tokens = .error refusal) :
    Refused .factor (minus :: tokens) refusal := by
  rw [negative] at h
  split at h
  · next found he =>
    cases h
    have hr : Refused .factor tokens refusal := ih (some .unary) _ _ hb he
    exact hr.within [minus] fun _ hu => hu.negative hk
  · cases h

theorem parentheses_refused (ih : ExpressionRefused bound) (hb : tokens.length < bound)
    (ho : opening.kind = .leftParen) (h : parentheses opening tokens = .error refusal) :
    Refused .primary (opening :: tokens) refusal := by
  have within {refusal : Refusal} (hr : Refused .sum tokens refusal) :
      Refused .primary (opening :: tokens) refusal :=
    hr.within [opening] fun _ hu => hu.parentheses ho
  rw [parentheses] at h
  split at h
  · cases h
    exact within (.start (by simp))
  · split at h
    · next found he =>
      cases h
      exact within (ih none _ _ hb he)
    · next inner hi =>
      obtain ⟨⟨tree, hd, _⟩, stop⟩ := expression_sound bound none _ inner hb hi
      have unclosed (hs : startsWith .rightParen inner.rest = false) :
          Refused .primary (opening :: tokens)
            ⟨.unclosedParenthesis, opening :: tokens, inner.rest⟩ :=
        ⟨⟨[], rfl, completable_nil _⟩, .unclosed ho hd stop.continuation_none hs⟩
      split at h
      · next hr =>
        cases h
        rw [hr] at unclosed
        exact unclosed rfl
      · next closing rest hr =>
        split at h
        · cases h
        · next hk =>
          cases h
          rw [hr] at unclosed
          exact unclosed (by simpa [startsWith] using hk)

theorem closeCall_refused {f : Function} {word : String} {left : Parsed n}
    (h : closeCall f word left = .error refusal) :
    ∃ issue, issue ≠ .unclosedParenthesis ∧ refusal = .here issue left.rest := by
  unfold closeCall at h
  split at h
  · next hr =>
    cases h
    exact ⟨.unclosedArguments, by simp, by rw [hr]⟩
  · next token rest hr =>
    split at h
    · cases h
    · split at h
      · cases h
        exact ⟨.wrongArgumentCount f word, by simp, by rw [hr]⟩
      · cases h
        exact ⟨.unclosedArguments, by simp, by rw [hr]⟩

theorem argument_refused (ih : ExpressionRefused bound) (hb : tokens.length < bound)
    {f : Function} {word : String} (h : argument f word tokens = .error refusal) :
    Refused .sum tokens refusal := by
  rw [argument] at h
  split at h
  · cases h
    exact .start (by simp)
  · exact ih none _ _ hb h

/-- A call is refused where its first argument is, or behind it. -/
theorem Refused.firstArgument {f : Function} (hk : name.kind = .identifier)
    (hf : Function.ofName? name.text = some f) (ho : opening.kind = .leftParen)
    (h : Refused .sum tokens refusal) : Refused .primary (name :: opening :: tokens) refusal :=
  h.within [name, opening] fun _ hu => hu.firstArgument hk hf ho

theorem Refused.secondArgument {f : Extremum} {tree : Expr} {comma : Token}
    (hk : name.kind = .identifier) (hf : Function.ofName? name.text = some (.extremum f))
    (ho : opening.kind = .leftParen) (hd : Derives .sum tokens tree (comma :: rest))
    (hm : comma.kind = .comma) (h : Refused .sum rest refusal) :
    Refused .primary (name :: opening :: tokens) refusal := by
  obtain ⟨front, hfront, _, hl⟩ := hd.split
  have second : Refused .primary (name :: opening :: (front ++ [comma]) ++ rest) refusal := by
    refine h.within _ fun {used} _ hu => ?_
    have hs := hu.secondArgument hk hf ho (fun _ hn => hl _ fun _ => hn) hm
    simpa using hs
  rw [hfront]
  simpa using second

/-- A call is refused behind its first argument. -/
theorem call_refused (ih : ExpressionRefused bound) (hb : tokens.length < bound)
    (hk : name.kind = .identifier) {f : Function} (hf : Function.ofName? name.text = some f)
    (ho : opening.kind = .leftParen) {first : Parsed tokens.length} (hs : Sound .sum tokens first)
    (h : moreArguments f name.text (f.arity - 1) first = .error refusal) :
    Refused .primary (name :: opening :: tokens) refusal := by
  obtain ⟨tree, hd, _⟩ := hs
  have behindFirst {issue : Issue} (hi : issue ≠ .unclosedParenthesis) :
      Refused .primary (name :: opening :: tokens) (.here issue first.rest) :=
    (Refused.behind hd hi).firstArgument hk hf ho
  cases f with
  | unary f =>
    change moreArguments _ _ 0 first = .error refusal at h
    rw [moreArguments] at h
    obtain ⟨issue, hi, rfl⟩ := closeCall_refused h
    exact behindFirst hi
  | extremum f =>
    change moreArguments _ _ 1 first = .error refusal at h
    rw [moreArguments] at h
    split at h
    · next hr =>
      cases h
      rw [hr] at behindFirst
      exact behindFirst (by simp)
    · next comma after hr =>
      have hshort := first.shorter
      rw [hr, List.length_cons] at hshort
      rw [hr] at hd
      split at h
      · next hm =>
        split at h
        · next found ha =>
          cases h
          exact (argument_refused ih (by omega) ha).secondArgument hk hf ho hd hm
        · next second ha =>
          rw [moreArguments] at h
          obtain ⟨issue, hi, rfl⟩ := closeCall_refused h
          obtain ⟨⟨right, hdr, _⟩, _⟩ := expression_sound bound none _ second (by omega)
            (argument_ok ha)
          exact (Refused.behind hdr hi).secondArgument hk hf ho hd hm
      · cases h
        rw [hr] at behindFirst
        exact behindFirst (by simp)

theorem identifier_refused (ih : ExpressionRefused bound) (hb : tokens.length < bound)
    (hk : name.kind = .identifier) (h : identifier name tokens = .error refusal) :
    Refused .primary (name :: tokens) refusal := by
  cases tokens with
  | nil =>
    rw [identifier] at h
    cases h
  | cons opening rest =>
    rw [List.length_cons] at hb
    rw [identifier] at h
    split at h
    · next ho =>
      split at h
      · cases h
        exact .start (by simp)
      · next f hf =>
        split at h
        · next found ha =>
          cases h
          exact (argument_refused ih (by omega) ha).firstArgument hk hf ho
        · next first ha =>
          have hs := (expression_sound bound none _ first (by omega) (argument_ok ha)).1
          split at h
          · next found hm =>
            cases h
            exact call_refused ih (by omega) hk hf ho hs hm
          · cases h
    · cases h

theorem operand_refused (ih : ExpressionRefused bound) (hb : tokens.length ≤ bound)
    (h : operand tokens = .error refusal) : Refused .factor tokens refusal := by
  cases tokens with
  | nil =>
    rw [operand] at h
    cases h
    exact .start (by simp)
  | cons token rest =>
    rw [List.length_cons] at hb
    rw [operand] at h
    split at h
    · next hk => exact negative_refused ih hb hk h
    · next hk => exact (parentheses_refused ih hb hk h).of_primary
    · exact number_refused h
    · next hk => exact (identifier_refused ih hb hk h).of_primary
    · cases h
      exact .start (by simp)
    · cases h
      exact .start (by simp)

theorem expression_refused (bound : Nat) : ExpressionRefused bound := by
  -- All that is read inside an expression is read from fewer tokens.
  induction bound with
  | zero => intro _ _ _ hb; cases hb
  | succ bound ih =>
    intro enclosing tokens refusal hb h
    rw [expression] at h
    split at h
    · next found ho =>
      cases h
      exact (operand_refused ih (by omega) ho).within [] fun _ hu => hu.within_of_factor
    · next first ho =>
      have hfirst := first.shorter
      have hs := operand_sound (expression_sound bound) (by omega) ho
      exact climb_refused ih (by omega) (.factor hs) h

/-! ### Whole formulas -/

theorem whole_refused (h : whole tokens = .error refusal) : Refused .sum tokens refusal := by
  unfold whole at h
  split at h
  · next found he =>
    cases h
    exact expression_refused (tokens.length + 1) none tokens _ (Nat.lt_succ_self _) he
  · next read hr =>
    obtain ⟨⟨tree, hd, _⟩, _⟩ :=
      expression_sound (tokens.length + 1) none tokens read (Nat.lt_succ_self _) hr
    cases hn : read.rest with
    | nil =>
      rw [hn] at h
      cases h
    | cons token rest =>
      rw [hn] at h hd
      cases h
      exact .behind hd (by split <;> simp)

theorem ofTokens_refused (h : ofTokens tokens = .error refusal) : Refused .sum tokens refusal := by
  unfold ofTokens at h
  split at h
  · next he =>
    cases h
    rw [List.isEmpty_iff.mp he]
    exact .start (by simp)
  · exact whole_refused h

end

end Formula

theorem Assignment.readValue_refused {directive : Directive} {tokens : List Token}
    {refusal : Refusal} (h : readValue directive tokens = .error refusal) :
    Formula.Refused .sum tokens refusal := by
  unfold readValue at h
  split at h
  · split at h
    · cases h
    · exact Formula.whole_refused h
  · exact Formula.ofTokens_refused h

end SpriteFormula
