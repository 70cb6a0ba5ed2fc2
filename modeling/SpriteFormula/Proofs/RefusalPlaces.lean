import SpriteFormula.Declaration

/-!
Where reading stops, it stops among the tokens that it was given: what a refusal points at is a tail
of them. The tail may be empty, which is the end of the text.
-/

namespace SpriteFormula

/-- Both the reported place and the token that was found are in the tokens or at their end. -/
structure Refusal.Within (refusal : Refusal) (tokens : List Token) : Prop where
  place : refusal.place <:+ tokens
  found : refusal.found <:+ tokens

section
variable {tokens others : List Token} {refusal : Refusal}

theorem Refusal.within_here (issue : Issue) (tokens : List Token) :
    (Refusal.here issue tokens).Within tokens :=
  ⟨List.suffix_refl _, List.suffix_refl _⟩

theorem Refusal.Within.trans (h : refusal.Within tokens) (hs : tokens <:+ others) :
    refusal.Within others :=
  ⟨h.place.trans hs, h.found.trans hs⟩

theorem Refusal.Within.here_of_suffix {issue : Issue} (h : tokens <:+ others) :
    (Refusal.here issue tokens).Within others :=
  (within_here issue tokens).trans h

end

namespace Formula

/-- The tokens left, or those that a refusal points at, are a tail of the tokens. -/
def Follows {n : Nat} (tokens : List Token) : Except Refusal (Parsed n) → Prop
  | .ok read => read.rest <:+ tokens
  | .error refusal => refusal.Within tokens

/-- What is known of expressions of fewer tokens than a bound. -/
def ExpressionFollows (bound : Nat) : Prop :=
  ∀ enclosing tokens, tokens.length < bound → Follows tokens (expression enclosing tokens)

section
variable {n bound : Nat} {tokens : List Token}

theorem suffix_of_continuation {next : List Token} {op : Operator}
    (h : continuation? tokens = some (op, next)) : next <:+ tokens := by
  cases tokens with
  | nil => cases h
  | cons token rest =>
    rw [continuation?] at h
    split at h
    · cases h
      exact List.suffix_cons _ _
    · split at h
      · cases h
        exact List.suffix_refl _
      · cases h

theorem climb_follows (ih : ExpressionFollows bound) (enclosing : Option Priority)
    {left : Parsed n} (hb : left.rest.length < bound) (hl : left.rest <:+ tokens) :
    Follows tokens (climb enclosing left) := by
  induction hlen : left.rest.length using Nat.strongRecOn generalizing left with
  | ind l more =>
    rw [climb]
    split
    · exact hl
    · next op next hc =>
      split
      · exact hl
      · have hnext := length_of_continuation hc
        have hs := (suffix_of_continuation hc).trans hl
        have hr := ih (some op.priority) next (by omega)
        split
        · next refusal he =>
          rw [he] at hr
          exact Refusal.Within.trans hr hs
        · next right he =>
          rw [he] at hr
          have hshort := right.shorter
          exact more _ (by simp only; omega) (by simp only; omega) (List.IsSuffix.trans hr hs) rfl

theorem closeCall_follows (f : Function) (name : String) {read : Parsed n}
    (hr : read.rest <:+ tokens) : Follows tokens (closeCall f name read) := by
  unfold closeCall
  split
  · exact .here_of_suffix List.nil_suffix
  · next token rest he =>
    rw [he] at hr
    split
    · exact (List.suffix_cons token rest).trans hr
    · split
      · exact .here_of_suffix hr
      · exact .here_of_suffix hr

theorem argument_follows (ih : ExpressionFollows bound) (hb : tokens.length < bound)
    (f : Function) (name : String) : Follows tokens (argument f name tokens) := by
  rw [argument]
  split
  · exact Refusal.within_here _ _
  · exact ih none tokens hb

theorem moreArguments_follows (ih : ExpressionFollows bound) (f : Function) (name : String)
    (count : Nat) {read : Parsed n} (hb : read.rest.length < bound) (hr : read.rest <:+ tokens) :
    Follows tokens (moreArguments f name count read) := by
  induction count generalizing read with
  | zero =>
    rw [moreArguments]
    exact closeCall_follows f name hr
  | succ count more =>
    rw [moreArguments]
    split
    · exact .here_of_suffix List.nil_suffix
    · next comma after he =>
      rw [he] at hr hb
      rw [List.length_cons] at hb
      split
      · have ha := argument_follows ih (Nat.lt_of_succ_lt hb) f name
        have hs := (List.suffix_cons comma after).trans hr
        split
        · next refusal hf =>
          rw [hf] at ha
          exact Refusal.Within.trans ha hs
        · next next hf =>
          rw [hf] at ha
          have hshort := next.shorter
          exact more (by simp only; omega) (List.IsSuffix.trans ha hs)
      · exact .here_of_suffix hr

theorem number_follows (token : Token) (rest : List Token) :
    Follows (token :: rest) (number token rest) := by
  unfold number
  split
  · exact Refusal.within_here _ _
  · exact List.suffix_cons _ _

theorem negative_follows (ih : ExpressionFollows bound) (hb : tokens.length < bound)
    (minus : Token) : Follows (minus :: tokens) (negative tokens) := by
  have he := ih (some .unary) tokens hb
  rw [negative]
  split
  · next refusal hf =>
    rw [hf] at he
    exact Refusal.Within.trans he (List.suffix_cons minus tokens)
  · next inner hf =>
    rw [hf] at he
    exact List.IsSuffix.trans he (List.suffix_cons minus tokens)

theorem parentheses_follows (ih : ExpressionFollows bound) (hb : tokens.length < bound)
    (opening : Token) : Follows (opening :: tokens) (parentheses opening tokens) := by
  have hs := List.suffix_cons opening tokens
  have he := ih none tokens hb
  rw [parentheses]
  split
  · exact .here_of_suffix hs
  · split
    · next refusal hf =>
      rw [hf] at he
      exact Refusal.Within.trans he hs
    · next inner hf =>
      rw [hf] at he
      have hi : inner.rest <:+ opening :: tokens := List.IsSuffix.trans he hs
      split
      · exact ⟨List.suffix_refl _, List.nil_suffix⟩
      · next closing rest hr =>
        rw [hr] at hi
        split
        · exact (List.suffix_cons closing rest).trans hi
        · exact ⟨List.suffix_refl _, hi⟩

theorem identifier_follows (ih : ExpressionFollows bound) (hb : tokens.length < bound)
    (name : Token) : Follows (name :: tokens) (identifier name tokens) := by
  cases tokens with
  | nil =>
    rw [identifier]
    exact List.nil_suffix
  | cons opening rest =>
    rw [List.length_cons] at hb
    rw [identifier]
    split
    · split
      · exact Refusal.within_here _ _
      · next f _ =>
        have hs : rest <:+ name :: opening :: rest :=
          (List.suffix_cons opening rest).trans (List.suffix_cons name _)
        have ha := argument_follows ih (Nat.lt_of_succ_lt hb) f name.text
        split
        · next refusal hf =>
          rw [hf] at ha
          exact Refusal.Within.trans ha hs
        · next first hf =>
          rw [hf] at ha
          have hshort := first.shorter
          have hm := moreArguments_follows ih f name.text (f.arity - 1) (by omega)
            (List.IsSuffix.trans ha hs)
          split
          · next refusal hc =>
            rw [hc] at hm
            exact hm
          · next call hc =>
            rw [hc] at hm
            exact hm
    · exact List.suffix_cons _ _

theorem operand_follows (ih : ExpressionFollows bound) (hb : tokens.length ≤ bound) :
    Follows tokens (operand tokens) := by
  cases tokens with
  | nil =>
    rw [operand]
    exact Refusal.within_here _ _
  | cons token rest =>
    rw [List.length_cons] at hb
    rw [operand]
    split
    · exact negative_follows ih hb token
    · exact parentheses_follows ih hb token
    · exact number_follows token rest
    · exact identifier_follows ih hb token
    · exact Refusal.within_here _ _
    · exact Refusal.within_here _ _

theorem expressionFollows (bound : Nat) : ExpressionFollows bound := by
  induction bound with
  | zero => intro _ _ hb; cases hb
  | succ bound ih =>
    intro enclosing tokens hb
    have ho := operand_follows ih (Nat.le_of_lt_succ hb)
    rw [expression]
    split
    · next refusal hf =>
      rw [hf] at ho
      exact ho
    · next first hf =>
      rw [hf] at ho
      have hshort := first.shorter
      exact climb_follows ih enclosing (by omega) ho

end

section
variable {tokens : List Token} {refusal : Refusal}

theorem whole_within (h : whole tokens = .error refusal) : refusal.Within tokens := by
  have he := expressionFollows (tokens.length + 1) none tokens (Nat.lt_succ_self _)
  unfold whole at h
  split at h
  · next found hf =>
    cases h
    rw [hf] at he
    exact he
  · next read hf =>
    rw [hf] at he
    have hr : read.rest <:+ tokens := he
    cases hn : read.rest with
    | nil =>
      rw [hn] at h
      cases h
    | cons token rest =>
      rw [hn] at h hr
      cases h
      exact .here_of_suffix hr

theorem ofTokens_within (h : ofTokens tokens = .error refusal) : refusal.Within tokens := by
  unfold ofTokens at h
  split at h
  · cases h
    exact .here_of_suffix List.nil_suffix
  · exact whole_within h

end

end Formula

theorem Assignment.readValue_within {directive : Directive} {tokens : List Token}
    {refusal : Refusal} (h : readValue directive tokens = .error refusal) :
    refusal.Within tokens := by
  unfold readValue at h
  split at h
  · split at h
    · cases h
    · exact Formula.whole_within h
  · exact Formula.ofTokens_within h

end SpriteFormula
