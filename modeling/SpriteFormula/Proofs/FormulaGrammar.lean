import Mathlib.Order.Basic
import Mathlib.Tactic.SplitIfs
import SpriteFormula.Formula
import SpriteFormula.Grammar
import SpriteFormula.Proofs.StackOutline

/-!
Reading a formula and deriving it in the grammar are the same, in both directions, and what is
emitted is the derived tree in postfix order.

The reader climbs: it is handed the priority of the construct around it and takes signs as long as
they bind more tightly. Soundness follows the loop with a state that says which symbol the part
read so far is of. Completeness replaces a derivation of a product or sum by the point of the loop
at which its tokens are used up.
-/

namespace SpriteFormula

namespace Formula

open Grammar

/-- The symbol that is read inside a construct of a priority. -/
def symbolWithin (enclosing : Option Priority) : Symbol :=
  if Priority.multiplyDivide.yieldsTo enclosing then .factor
  else if Priority.addSubtract.yieldsTo enclosing then .product
  else .sum

/-- What follows is left to the construct around. -/
def Stops (enclosing : Option Priority) (rest : List Token) : Prop :=
  ∀ op next, continuation? rest = some (op, next) → op.priority.yieldsTo enclosing

/-! ### The two sides' tables agree -/

theorem sign_of_additive {sign : TokenKind} {op : Operator} (h : (sign, op) ∈ additive) :
    sign.sign? = some op ∧ op.priority = .addSubtract := by
  simp only [additive, List.mem_cons, Prod.mk.injEq, List.not_mem_nil, or_false] at h
  rcases h with ⟨rfl, rfl⟩ | ⟨rfl, rfl⟩ <;> exact ⟨rfl, rfl⟩

theorem sign_of_multiplicative {sign : TokenKind} {op : Operator}
    (h : (sign, op) ∈ multiplicative) : sign.sign? = some op ∧ op.priority = .multiplyDivide := by
  simp only [multiplicative, List.mem_cons, Prod.mk.injEq, List.not_mem_nil, or_false] at h
  rcases h with ⟨rfl, rfl⟩ | ⟨rfl, rfl⟩ | ⟨rfl, rfl⟩ <;> exact ⟨rfl, rfl⟩

theorem tier_of_sign {sign : TokenKind} {op : Operator} (h : sign.sign? = some op) :
    (sign, op) ∈ additive ∧ op.priority = .addSubtract ∨
      (sign, op) ∈ multiplicative ∧ op.priority = .multiplyDivide := by
  cases sign <;> cases h <;> decide

theorem function_of_unaryNames {name : String} {f : UnaryFunction} :
    Function.ofName? name = some (.unary f) ↔ (name, f) ∈ unaryNames := by
  simp only [unaryNames, List.mem_cons, Prod.mk.injEq, List.not_mem_nil, or_false]
  constructor
  · intro h
    unfold Function.ofName? at h
    split_ifs at h <;> simp_all
  · rintro (⟨rfl, rfl⟩ | ⟨rfl, rfl⟩ | ⟨rfl, rfl⟩ | ⟨rfl, rfl⟩) <;> decide

theorem function_of_extremumNames {name : String} {f : Extremum} :
    Function.ofName? name = some (.extremum f) ↔ (name, f) ∈ extremumNames := by
  simp only [extremumNames, List.mem_cons, Prod.mk.injEq, List.not_mem_nil, or_false]
  constructor
  · intro h
    unfold Function.ofName? at h
    split_ifs at h <;> simp_all
  · rintro (⟨rfl, rfl⟩ | ⟨rfl, rfl⟩) <;> decide

theorem name_of_constantNames {name : String} {value : Binary64}
    (h : (name, value) ∈ constantNames) : Instruction.ofName name = .constant value := by
  simp only [constantNames, List.mem_cons, Prod.mk.injEq, List.not_mem_nil, or_false] at h
  rcases h with ⟨rfl, rfl⟩ | ⟨rfl, rfl⟩ | ⟨rfl, rfl⟩ <;> decide

theorem name_of_var {name : String} (h : name ∉ constantNames.map Prod.fst) :
    Instruction.ofName name = .var name := by
  simp only [constantNames, List.map_cons, List.map_nil, List.mem_cons, List.not_mem_nil,
    or_false, not_or] at h
  simp [Instruction.ofName, h]

/-! ### What is read is derived -/

/-- What is read is of the symbol, and the tree that it stands for is emitted in postfix order. -/
def Sound {n : Nat} (symbol : Symbol) (tokens : List Token) (read : Parsed n) : Prop :=
  ∃ tree, Derives symbol tokens tree read.rest ∧ read.emitted = tree.postfixOrder

/-- What is known of an expression read from fewer tokens than a bound. -/
def ExpressionSound (bound : Nat) : Prop :=
  ∀ enclosing tokens read, tokens.length < bound → expression enclosing tokens = .ok read →
    Sound (symbolWithin enclosing) tokens read ∧ Stops enclosing read.rest

/-- The state of the loop: the symbol of what is read so far. A sum is only left where no factor
follows, since its last product has taken them all. -/
inductive Climbing {n : Nat} (enclosing : Option Priority) (tokens : List Token)
    (left : Parsed n) : Prop where
  | factor : Sound .factor tokens left → Climbing enclosing tokens left
  | product : Priority.multiplyDivide.yieldsTo enclosing = false → Sound .product tokens left →
      Climbing enclosing tokens left
  | sum : Priority.addSubtract.yieldsTo enclosing = false → Sound .sum tokens left →
      Stops (some .addSubtract) left.rest → Climbing enclosing tokens left

section
variable {n : Nat} {enclosing : Option Priority} {tokens : List Token} {left read : Parsed n}

theorem Sound.product_of_factor (h : Sound .factor tokens left) : Sound .product tokens left := by
  obtain ⟨tree, hd, he⟩ := h
  exact ⟨tree, .factor hd, he⟩

theorem Sound.sum_of_product (h : Sound .product tokens left) : Sound .sum tokens left := by
  obtain ⟨tree, hd, he⟩ := h
  exact ⟨tree, .product hd, he⟩

/-- A construct that keeps products out keeps sums out. -/
theorem yields_addSubtract (h : Priority.multiplyDivide.yieldsTo enclosing) :
    Priority.addSubtract.yieldsTo enclosing := by
  cases enclosing with
  | none => cases h
  | some around => revert h; cases around <;> decide

theorem Climbing.sound (h : Climbing enclosing tokens left) :
    Sound (symbolWithin enclosing) tokens left := by
  unfold symbolWithin
  cases h with
  | factor hs =>
    split
    · exact hs
    · split
      · exact hs.product_of_factor
      · exact hs.product_of_factor.sum_of_product
  | product hy hs =>
    rw [if_neg (by simp [hy])]
    split
    · exact hs
    · exact hs.sum_of_product
  | sum hy hs _ =>
    have hm : ¬ Priority.multiplyDivide.yieldsTo enclosing := fun h => by
      simp [yields_addSubtract h] at hy
    rw [if_neg hm, if_neg (by simp [hy])]
    exact hs

/-- What goes on with an expression: a sign of one of the tiers, or an operand to multiply. -/
theorem continuation_cases {rest next : List Token} {op : Operator}
    (h : continuation? rest = some (op, next)) :
    (∃ sign, rest = sign :: next ∧ (sign.kind, op) ∈ additive ∧ op.priority = .addSubtract) ∨
    (∃ sign, rest = sign :: next ∧ (sign.kind, op) ∈ multiplicative ∧
      op.priority = .multiplyDivide) ∨
    (∃ token others, rest = token :: others ∧ token.kind.startsOperand ∧ next = rest ∧
      op = .multiply) := by
  cases rest with
  | nil => cases h
  | cons token others =>
    rw [continuation?] at h
    split at h
    · next op' hs =>
      cases h
      rcases tier_of_sign hs with ⟨hm, hp⟩ | ⟨hm, hp⟩
      · exact .inl ⟨token, rfl, hm, hp⟩
      · exact .inr (.inl ⟨token, rfl, hm, hp⟩)
    · split at h
      · next hs => cases h; exact .inr (.inr ⟨token, others, rfl, hs, rfl, rfl⟩)
      · cases h

/-- A factor that does not start with a minus sign is an operand. -/
theorem primary_of_factor {token : Token} {others rest : List Token} {tree : Expr}
    (h : Derives .factor (token :: others) tree rest) (hs : token.kind.startsOperand) :
    Derives .primary (token :: others) tree rest := by
  cases h with
  | primary h => exact h
  | negative hm _ => rw [hm] at hs; cases hs

theorem Climbing.sum_left (state : Climbing enclosing tokens left) : Sound .sum tokens left := by
  cases state with
  | factor hs => exact hs.product_of_factor.sum_of_product
  | product _ hs => exact hs.sum_of_product
  | sum _ hs _ => exact hs

/-- Where a factor follows, a product is what stands before it. -/
theorem Climbing.product_left (state : Climbing enclosing tokens left) {op : Operator}
    {next : List Token} (hc : continuation? left.rest = some (op, next))
    (hp : op.priority = .multiplyDivide) : Sound .product tokens left := by
  cases state with
  | factor hs => exact hs.product_of_factor
  | product _ hs => exact hs
  | sum _ _ stop =>
    have := stop op next hc
    rw [hp] at this
    cases this

/-- A step of the loop: the right operand is taken in. -/
theorem Climbing.step {k : Nat} {right : Parsed k} {joined : Parsed n} {op : Operator}
    {next : List Token} (state : Climbing enclosing tokens left)
    (hc : continuation? left.rest = some (op, next)) (hy : op.priority.yieldsTo enclosing = false)
    (hs : Sound (symbolWithin (some op.priority)) next right)
    (stop : Stops (some op.priority) right.rest) (hr : joined.rest = right.rest)
    (he : joined.emitted = left.emitted ++ right.emitted ++ [.operator op]) :
    Climbing enclosing tokens joined := by
  rcases continuation_cases hc with ⟨sign, hl, hm, hp⟩ | ⟨sign, hl, hm, hp⟩ |
    ⟨token, others, hl, ho, hn, rfl⟩
  · obtain ⟨l, hdl, hel⟩ := state.sum_left
    rw [hp] at hs hy stop
    obtain ⟨r, hdr, her⟩ := hs
    refine .sum hy ⟨.binary op l r, ?_, ?_⟩ (hr ▸ stop)
    · rw [hr]
      exact .additive (hl ▸ hdl) hm hdr
    · rw [he, hel, her, Expr.postfixOrder_binary]
  · obtain ⟨l, hdl, hel⟩ := state.product_left hc hp
    rw [hp] at hs hy
    obtain ⟨r, hdr, her⟩ := hs
    refine .product hy ⟨.binary op l r, ?_, ?_⟩
    · rw [hr]
      exact .multiplicative (hl ▸ hdl) hm hdr
    · rw [he, hel, her, Expr.postfixOrder_binary]
  · obtain ⟨l, hdl, hel⟩ := state.product_left hc rfl
    obtain ⟨r, hdr, her⟩ := hs
    refine .product hy ⟨.binary .multiply l r, ?_, ?_⟩
    · rw [hr]
      rw [hn, hl] at hdr
      exact .adjacent (hl ▸ hdl) (primary_of_factor hdr ho)
    · rw [he, hel, her, Expr.postfixOrder_binary]

/-- The loop keeps its state until what follows is left to the construct around. -/
theorem climb_sound {bound : Nat} (ih : ExpressionSound bound) (hb : left.rest.length < bound)
    (state : Climbing enclosing tokens left) (h : climb enclosing left = .ok read) :
    Sound (symbolWithin enclosing) tokens read ∧ Stops enclosing read.rest := by
  induction hl : left.rest.length using Nat.strongRecOn generalizing left with
  | ind l more =>
    rw [climb] at h
    split at h
    · next hc =>
      cases h
      refine ⟨state.sound, ?_⟩
      intro op next hn
      rw [hc] at hn
      cases hn
    · next op next hc =>
      split at h
      · next hy =>
        cases h
        refine ⟨state.sound, ?_⟩
        intro op' next' hn
        rw [hc] at hn
        cases hn
        exact hy
      · next hy =>
        have hnext := length_of_continuation hc
        split at h
        · cases h
        · next right hr =>
          obtain ⟨hs, stop⟩ := ih _ _ right (by omega) hr
          have hshort := right.shorter
          exact more _ (by simp only; omega) (by simp only; omega)
            (state.step hc (by simpa using hy) hs stop rfl rfl) h rfl

theorem closeCall_ok {f : Function} {name : String} (h : closeCall f name left = .ok read) :
    ∃ closing, left.rest = closing :: read.rest ∧ closing.kind = .rightParen ∧
      read.emitted = left.emitted ++ [.function f] := by
  unfold closeCall at h
  split at h
  · cases h
  · next closing rest hr =>
    split at h
    · next hk => cases h; exact ⟨closing, hr, hk, rfl⟩
    · split at h <;> cases h

theorem argument_ok {f : Function} {name : String} {read : Parsed tokens.length}
    (h : argument f name tokens = .ok read) : expression none tokens = .ok read := by
  rw [argument] at h
  split at h
  · cases h
  · exact h

theorem moreArguments_one_ok {f : Function} {name : String}
    (h : moreArguments f name 1 left = .ok read) :
    ∃ comma middle, ∃ second : Parsed middle.length, ∃ closing,
      left.rest = comma :: middle ∧ comma.kind = .comma ∧
      expression none middle = .ok second ∧ second.rest = closing :: read.rest ∧
      closing.kind = .rightParen ∧
      read.emitted = left.emitted ++ second.emitted ++ [.function f] := by
  rw [moreArguments] at h
  split at h
  · cases h
  · next comma middle hr =>
    split at h
    · next hk =>
      split at h
      · cases h
      · next second ha =>
        rw [moreArguments] at h
        obtain ⟨closing, hc, hkc, he⟩ := closeCall_ok h
        exact ⟨comma, middle, second, closing, hr, hk, argument_ok ha, hc, hkc, he⟩
    · cases h

theorem ExpressionSound.sum {bound : Nat} (ih : ExpressionSound bound)
    (hb : tokens.length < bound) {read : Parsed tokens.length}
    (h : expression none tokens = .ok read) : Sound .sum tokens read := (ih none _ _ hb h).1

theorem number_sound {token : Token} {read : Parsed (tokens.length + 1)}
    (hk : token.kind = .number) (h : number token tokens = .ok read) :
    Sound .primary (token :: tokens) read := by
  unfold number at h
  split at h
  · cases h
  · next value hv =>
    cases h
    exact ⟨.constant value, .number hk hv, rfl⟩

theorem negative_sound {bound : Nat} (ih : ExpressionSound bound) (hb : tokens.length < bound)
    {minus : Token} (hk : minus.kind = .minus) {read : Parsed (tokens.length + 1)}
    (h : negative tokens = .ok read) : Sound .factor (minus :: tokens) read := by
  rw [negative] at h
  split at h
  · cases h
  · next inner hi =>
    cases h
    obtain ⟨tree, hd, he⟩ := (ih _ _ _ hb hi).1
    exact ⟨.negative tree, .negative hk hd, by rw [he, Expr.postfixOrder_negative]⟩

theorem parentheses_sound {bound : Nat} (ih : ExpressionSound bound) (hb : tokens.length < bound)
    {opening : Token} (hk : opening.kind = .leftParen) {read : Parsed (tokens.length + 1)}
    (h : parentheses opening tokens = .ok read) : Sound .primary (opening :: tokens) read := by
  rw [parentheses] at h
  split at h
  · cases h
  · split at h
    · cases h
    · next inner hi =>
      split at h
      · cases h
      · next closing rest hr =>
        split at h
        · next hc =>
          cases h
          obtain ⟨tree, hd, he⟩ := ih.sum hb hi
          exact ⟨tree, .parentheses hk (hr ▸ hd) hc, he⟩
        · cases h

theorem ofName_sound {name : Token} (hk : name.kind = .identifier) {rest : List Token}
    (hn : NotCalled rest) (hl : rest.length < n) :
    Sound .primary (name :: rest) (⟨[.ofName name.text], rest, hl⟩ : Parsed n) := by
  by_cases h : name.text ∈ constantNames.map Prod.fst
  · obtain ⟨⟨text, value⟩, hm, ht⟩ := List.mem_map.mp h
    change text = name.text at ht
    rw [ht] at hm
    refine ⟨.constant value, .named hk hm hn, ?_⟩
    simp only [name_of_constantNames hm, Expr.postfixOrder_constant]
  · refine ⟨.var name.text, .var hk h hn, ?_⟩
    simp only [name_of_var h, Expr.postfixOrder_var]

/-- Behind the first argument of a function stand as many more as it takes. -/
theorem call_sound {bound : Nat} (ih : ExpressionSound bound) (hb : tokens.length < bound)
    {name opening : Token} (hk : name.kind = .identifier) {f : Function}
    (hf : Function.ofName? name.text = some f) (ho : opening.kind = .leftParen)
    {first : Parsed tokens.length} (hs : Sound .sum tokens first)
    {call : Parsed tokens.length} (h : moreArguments f name.text (f.arity - 1) first = .ok call) :
    Sound .primary (name :: opening :: tokens) call := by
  obtain ⟨a, hda, hea⟩ := hs
  cases f with
  | unary f =>
    change moreArguments _ _ 0 first = .ok call at h
    rw [moreArguments] at h
    obtain ⟨closing, hr, hc, he⟩ := closeCall_ok h
    refine ⟨.call f a, .call hk (function_of_unaryNames.mp hf) ho (hr ▸ hda) hc, ?_⟩
    rw [Expr.postfixOrder_call, ← hea, ← he]
  | extremum f =>
    obtain ⟨comma, middle, second, closing, hr, hm, hsecond, hr', hc, he⟩ :=
      moreArguments_one_ok h
    have hfirst := first.shorter
    rw [hr, List.length_cons] at hfirst
    obtain ⟨b, hdb, heb⟩ := ih.sum (by omega) hsecond
    refine ⟨.extremum f a b, ?_, ?_⟩
    · exact .extremum hk (function_of_extremumNames.mp hf) ho (hr ▸ hda) hm (hr' ▸ hdb) hc
    · rw [Expr.postfixOrder_extremum, ← hea, ← heb, ← he]

theorem identifier_sound {bound : Nat} (ih : ExpressionSound bound) (hb : tokens.length < bound)
    {name : Token} (hk : name.kind = .identifier) {read : Parsed (tokens.length + 1)}
    (h : identifier name tokens = .ok read) : Sound .primary (name :: tokens) read := by
  cases tokens with
  | nil =>
    rw [identifier] at h
    cases h
    exact ofName_sound hk (fun next hm => by cases hm) _
  | cons opening rest =>
    rw [List.length_cons] at hb
    rw [identifier] at h
    split at h
    · next ho =>
      split at h
      · cases h
      · next f hf =>
        split at h
        · cases h
        · next first ha =>
          have hs : Sound .sum rest first := ih.sum (by omega) (argument_ok ha)
          split at h
          · cases h
          · next call hc =>
            cases h
            exact call_sound ih (by omega) hk hf ho hs hc
    · next ho =>
      cases h
      exact ofName_sound hk (fun next hm => by cases hm; exact ho) _

theorem Sound.factor_of_primary (h : Sound .primary tokens left) : Sound .factor tokens left := by
  obtain ⟨tree, hd, he⟩ := h
  exact ⟨tree, .primary hd, he⟩

theorem operand_sound {bound : Nat} (ih : ExpressionSound bound) (hb : tokens.length ≤ bound)
    {read : Parsed tokens.length} (h : operand tokens = .ok read) : Sound .factor tokens read := by
  cases tokens with
  | nil => rw [operand] at h; cases h
  | cons token rest =>
    rw [List.length_cons] at hb
    rw [operand] at h
    split at h
    · next hk => exact negative_sound ih hb hk h
    · next hk => exact (parentheses_sound ih hb hk h).factor_of_primary
    · next hk => exact (number_sound hk h).factor_of_primary
    · next hk => exact (identifier_sound ih hb hk h).factor_of_primary
    · cases h
    · cases h

theorem expression_sound (bound : Nat) : ExpressionSound bound := by
  -- All that is read inside an expression is read from fewer tokens.
  induction bound with
  | zero => intro _ _ _ hb; cases hb
  | succ bound ih =>
    intro enclosing tokens read hb h
    rw [expression] at h
    split at h
    · cases h
    · next first hf =>
      have hfirst := first.shorter
      exact climb_sound ih (by omega) (.factor (operand_sound ih (by omega) hf)) h

end

/-! ### What is derived is read -/

/-- The result is a tree in postfix order, and the tokens left. -/
def Yields {n : Nat} (result : Except Refusal (Parsed n)) (tree : Expr) (rest : List Token) :
    Prop := ∃ h, result = .ok ⟨tree.postfixOrder, rest, h⟩

/-- Reading an expression comes to the point of its loop where a tree is read. -/
def Reaches (enclosing : Option Priority) (tokens : List Token) (tree : Expr)
    (rest : List Token) : Prop :=
  ∃ h : rest.length < tokens.length,
    expression enclosing tokens = climb enclosing ⟨tree.postfixOrder, rest, h⟩

/-- How a derivation shows in the reader. A factor is an operand and its loop is left at once; a
product is reached by every loop that lets factors in; a sum is reached by the outermost loop where
no factor follows. -/
def Read : Symbol → List Token → Expr → List Token → Prop
  | .sum, tokens, tree, rest => Stops (some .addSubtract) rest → Reaches none tokens tree rest
  | .product, tokens, tree, rest =>
    ∀ enclosing, Priority.multiplyDivide.yieldsTo enclosing = false →
      Reaches enclosing tokens tree rest
  | .factor, tokens, tree, rest => Yields (operand tokens) tree rest
  | .primary, tokens, tree, rest => Yields (operand tokens) tree rest

section
variable {n : Nat} {enclosing : Option Priority} {tokens rest : List Token} {tree : Expr}

theorem climb_of_stops {left : Parsed n} (h : Stops enclosing left.rest) :
    climb enclosing left = .ok left := by
  rw [climb]
  split
  · rfl
  · next op next hc => rw [if_pos (h op next hc)]

theorem stops_of_continuation_none (h : continuation? rest = none) : Stops enclosing rest := by
  intro op next hn
  rw [h] at hn
  cases hn

theorem stops_of_multiplyDivide : Stops (some .multiplyDivide) rest := by
  intro op next _
  cases op <;> decide

theorem stops_of_unary : Stops (some .unary) rest := by
  intro op next _
  cases op <;> decide

theorem reaches_of_operand (h : Yields (operand tokens) tree rest) :
    Reaches enclosing tokens tree rest := by
  obtain ⟨hl, h⟩ := h
  refine ⟨hl, ?_⟩
  rw [expression, h]

theorem Reaches.yields (h : Reaches enclosing tokens tree rest) (stop : Stops enclosing rest) :
    Yields (expression enclosing tokens) tree rest := by
  obtain ⟨hl, h⟩ := h
  exact ⟨hl, h.trans (climb_of_stops stop)⟩

/-- A sum that ends where nothing goes on with it is read whole. -/
theorem Read.sum_yields (h : Read .sum tokens tree rest) (stop : continuation? rest = none) :
    Yields (expression none tokens) tree rest :=
  (h (stops_of_continuation_none stop)).yields (stops_of_continuation_none stop)

theorem Reaches.step {left right : Expr} {middle next : List Token} {op : Operator}
    (h : Reaches enclosing tokens left middle) (hc : continuation? middle = some (op, next))
    (hy : op.priority.yieldsTo enclosing = false)
    (hr : Yields (expression (some op.priority) next) right rest) :
    Reaches enclosing tokens (.binary op left right) rest := by
  obtain ⟨hl, h⟩ := h
  obtain ⟨hrl, hr⟩ := hr
  have hshort := length_of_continuation hc
  refine ⟨by omega, ?_⟩
  rw [h, climb]
  split
  · next hn =>
    rw [hc] at hn
    cases hn
  · next op' next' hn =>
    rw [hc] at hn
    cases hn
    rw [if_neg (by simp [hy])]
    simp only [hr, Expr.postfixOrder_binary]

theorem closeCall_of_closing (f : Function) (name : String) (left : Parsed n) {closing : Token}
    (hr : left.rest = closing :: rest) (hk : closing.kind = .rightParen) :
    ∃ h, closeCall f name left = .ok ⟨left.emitted ++ [.function f], rest, h⟩ := by
  have hl := left.shorter
  rw [hr, List.length_cons] at hl
  refine ⟨by omega, ?_⟩
  unfold closeCall
  split
  · next hn => rw [hr] at hn; cases hn
  · next token others hn =>
    rw [hr] at hn
    cases hn
    rw [if_pos hk]

theorem not_rightParen_of_derives {symbol : Symbol} (h : Derives symbol tokens tree rest) :
    startsWith .rightParen tokens = false := by
  induction h with
  | product _ ih => exact ih
  | additive _ _ _ ih _ => exact ih
  | factor _ ih => exact ih
  | multiplicative _ _ _ ih _ => exact ih
  | adjacent _ _ ih _ => exact ih
  | primary _ ih => exact ih
  | negative hk _ _ => simp [startsWith, hk]
  | number hk _ => simp [startsWith, hk]
  | named hk _ _ => simp [startsWith, hk]
  | var hk _ _ => simp [startsWith, hk]
  | call hk _ _ _ _ _ => simp [startsWith, hk]
  | extremum hk _ _ _ _ _ _ _ _ => simp [startsWith, hk]
  | parentheses hk _ _ _ => simp [startsWith, hk]

theorem argument_of_sum (f : Function) (name : String) (hd : Derives .sum tokens tree rest)
    (h : Read .sum tokens tree rest) (stop : continuation? rest = none) :
    Yields (argument f name tokens) tree rest := by
  rw [argument, not_rightParen_of_derives hd, if_neg Bool.false_ne_true]
  exact h.sum_yields stop

theorem continuation_rightParen {closing : Token} (hk : closing.kind = .rightParen) :
    continuation? (closing :: rest) = none := by
  simp [continuation?, hk, TokenKind.sign?, TokenKind.startsOperand]

theorem continuation_comma {comma : Token} (hk : comma.kind = .comma) :
    continuation? (comma :: rest) = none := by
  simp [continuation?, hk, TokenKind.sign?, TokenKind.startsOperand]

theorem negative_yields {minus : Token} (hk : minus.kind = .minus)
    (h : Yields (operand tokens) tree rest) :
    Yields (operand (minus :: tokens)) (.negative tree) rest := by
  have hu : Reaches (some .unary) tokens tree rest := reaches_of_operand h
  obtain ⟨hl, hr⟩ := hu.yields stops_of_unary
  refine ⟨Nat.lt_succ_of_lt hl, ?_⟩
  rw [operand, hk]
  simp only [negative, hr, Expr.postfixOrder_negative]

theorem number_yields {token : Token} {value : Binary64} (hk : token.kind = .number)
    (hv : Binary64.ofText? token.text = some value) :
    Yields (operand (token :: rest)) (.constant value) rest := by
  refine ⟨by simp, ?_⟩
  rw [operand, hk]
  simp only [number, hv, Expr.postfixOrder_constant]

theorem name_yields {token : Token} (hk : token.kind = .identifier) (hn : NotCalled rest)
    (ht : [.ofName token.text] = tree.postfixOrder) :
    Yields (operand (token :: rest)) tree rest := by
  refine ⟨by simp, ?_⟩
  rw [operand, hk]
  cases rest with
  | nil => simp only [identifier, ht]
  | cons next others =>
    have := hn next rfl
    simp only [identifier, if_neg this, ht]

theorem parentheses_yields {opening closing : Token} (hk : opening.kind = .leftParen)
    (hd : Derives .sum tokens tree (closing :: rest))
    (h : Read .sum tokens tree (closing :: rest)) (hc : closing.kind = .rightParen) :
    Yields (operand (opening :: tokens)) tree rest := by
  obtain ⟨hl, hr⟩ := h.sum_yields (continuation_rightParen hc)
  rw [List.length_cons] at hl
  refine ⟨by rw [List.length_cons]; omega, ?_⟩
  rw [operand, hk]
  simp only
  rw [parentheses, not_rightParen_of_derives hd, if_neg Bool.false_ne_true, hr]
  simp only [if_pos hc]

theorem call_yields {token opening closing : Token} {f : UnaryFunction} {argument : Expr}
    (hk : token.kind = .identifier) (hf : (token.text, f) ∈ unaryNames)
    (ho : opening.kind = .leftParen) (hd : Derives .sum tokens argument (closing :: rest))
    (h : Read .sum tokens argument (closing :: rest)) (hc : closing.kind = .rightParen) :
    Yields (operand (token :: opening :: tokens)) (.call f argument) rest := by
  obtain ⟨hl, hr⟩ := argument_of_sum (.unary f) token.text hd h
    (continuation_rightParen hc)
  obtain ⟨hcl, hcr⟩ := closeCall_of_closing (.unary f) token.text
    ⟨argument.postfixOrder, closing :: rest, hl⟩ rfl hc
  refine ⟨by simp only [List.length_cons] at hl ⊢; omega, ?_⟩
  rw [operand, hk]
  simp only
  rw [identifier, if_pos ho, function_of_unaryNames.mpr hf]
  simp only [hr, Function.arity, Nat.sub_self]
  rw [moreArguments, hcr]
  simp only [Expr.postfixOrder_call]

theorem extremum_yields {token opening comma closing : Token} {f : Extremum} {left right : Expr}
    {middle : List Token} (hk : token.kind = .identifier)
    (hf : (token.text, f) ∈ extremumNames) (ho : opening.kind = .leftParen)
    (hdl : Derives .sum tokens left (comma :: middle)) (hl : Read .sum tokens left (comma :: middle))
    (hm : comma.kind = .comma) (hdr : Derives .sum middle right (closing :: rest))
    (hr : Read .sum middle right (closing :: rest)) (hc : closing.kind = .rightParen) :
    Yields (operand (token :: opening :: tokens)) (.extremum f left right) rest := by
  obtain ⟨hll, hlr⟩ := argument_of_sum (.extremum f) token.text hdl hl
    (continuation_comma hm)
  obtain ⟨hrl, hrr⟩ := argument_of_sum (.extremum f) token.text hdr hr
    (continuation_rightParen hc)
  simp only [List.length_cons] at hll hrl
  obtain ⟨hcl, hcr⟩ := closeCall_of_closing (n := tokens.length) (.extremum f) token.text
    ⟨left.postfixOrder ++ right.postfixOrder, closing :: rest, by
      rw [List.length_cons]; omega⟩ rfl hc
  refine ⟨by simp only [List.length_cons]; omega, ?_⟩
  rw [operand, hk]
  simp only
  rw [identifier, if_pos ho, function_of_extremumNames.mpr hf]
  simp only [hlr, Function.arity, Nat.add_one_sub_one]
  rw [moreArguments]
  simp only [if_pos hm, hrr]
  rw [moreArguments, hcr]
  simp only [Expr.postfixOrder_extremum]

theorem continuation_of_primary (h : Derives .primary tokens tree rest) :
    continuation? tokens = some (.multiply, tokens) := by
  cases h with
  | number hk _ => simp [continuation?, hk, TokenKind.sign?, TokenKind.startsOperand]
  | named hk _ _ => simp [continuation?, hk, TokenKind.sign?, TokenKind.startsOperand]
  | var hk _ _ => simp [continuation?, hk, TokenKind.sign?, TokenKind.startsOperand]
  | call hk _ _ _ _ => simp [continuation?, hk, TokenKind.sign?, TokenKind.startsOperand]
  | extremum hk _ _ _ _ _ _ => simp [continuation?, hk, TokenKind.sign?, TokenKind.startsOperand]
  | parentheses hk _ _ => simp [continuation?, hk, TokenKind.sign?, TokenKind.startsOperand]

theorem continuation_of_sign {sign : Token} {op : Operator} (h : sign.kind.sign? = some op) :
    continuation? (sign :: rest) = some (op, rest) := by
  simp only [continuation?, h]

theorem read_of_derives {symbol : Symbol} (h : Derives symbol tokens tree rest) :
    Read symbol tokens tree rest := by
  induction h with
  | product _ ih => exact fun _ => ih none rfl
  | @additive _ _ sign middle op _ _ _ hm _ ihl ihr =>
    intro stop
    obtain ⟨hs, hp⟩ := sign_of_additive hm
    have hc : continuation? (sign :: middle) = some (op, middle) := continuation_of_sign hs
    refine (ihl ?_).step hc (by rw [hp]; rfl) (hp ▸ (ihr _ rfl).yields stop)
    intro op next hn
    rw [hc] at hn
    cases hn
    rw [hp]
    rfl
  | factor _ ih => exact fun _ _ => reaches_of_operand ih
  | multiplicative _ hm _ ihl ihr =>
    intro enclosing hy
    obtain ⟨hs, hp⟩ := sign_of_multiplicative hm
    exact (ihl _ hy).step (continuation_of_sign hs) (hp ▸ hy)
      ((reaches_of_operand ihr).yields (hp ▸ stops_of_multiplyDivide))
  | adjacent _ hd ihl ihr =>
    intro enclosing hy
    exact (ihl _ hy).step (continuation_of_primary hd) hy
      ((reaches_of_operand ihr).yields stops_of_multiplyDivide)
  | primary _ ih => exact ih
  | negative hk _ ih => exact negative_yields hk ih
  | number hk hv => exact number_yields hk hv
  | named hk hm hn =>
    exact name_yields hk hn (by rw [name_of_constantNames hm, Expr.postfixOrder_constant])
  | var hk hm hn => exact name_yields hk hn (by rw [name_of_var hm, Expr.postfixOrder_var])
  | call hk hf ho hd hc ih => exact call_yields hk hf ho hd ih hc
  | extremum hk hf ho hdl hm hdr hc ihl ihr =>
    exact extremum_yields hk hf ho hdl ihl hm hdr ihr hc
  | parentheses hk hd hc ih => exact parentheses_yields hk hd ih hc

/-! ### Whole formulas -/

theorem yields_of_derives_all (h : Derives .sum tokens tree []) :
    Yields (expression none tokens) tree [] := (read_of_derives h).sum_yields rfl

theorem whole_ok_iff {program : Program} :
    whole tokens = .ok program ↔
      ∃ tree, Derives .sum tokens tree [] ∧ program = tree.postfixOrder := by
  constructor
  · intro h
    unfold whole at h
    split at h
    · cases h
    · next read hr =>
      split at h
      · cases h
      · next he =>
        cases h
        have hrest : read.rest = [] := by
          cases hn : read.rest with
          | nil => rfl
          | cons token rest =>
            rw [hn] at he
            cases he
        obtain ⟨tree, hd, hp⟩ :=
          (expression_sound (tokens.length + 1) none tokens read (by omega) hr).1
        exact ⟨tree, hrest ▸ hd, hp⟩
  · rintro ⟨tree, hd, rfl⟩
    obtain ⟨hl, hr⟩ := yields_of_derives_all hd
    simp only [whole, hr, expectEnd]

theorem ofTokens_ok_iff {program : Program} :
    ofTokens tokens = .ok program ↔
      ∃ tree, Derives .sum tokens tree [] ∧ program = tree.postfixOrder := by
  rw [ofTokens, ← whole_ok_iff]
  cases tokens with
  | nil =>
    constructor
    · nofun
    · intro h
      obtain ⟨tree, hd, _⟩ := whole_ok_iff.mp h
      obtain ⟨hl, _⟩ := yields_of_derives_all hd
      cases hl
  | cons token rest => rfl

/-- The grammar is unambiguous: two trees of the same tokens would be emitted alike. -/
theorem derives_unique {other : Expr} (h : Derives .sum tokens tree [])
    (k : Derives .sum tokens other []) : tree = other := by
  obtain ⟨_, h⟩ := yields_of_derives_all h
  obtain ⟨_, k⟩ := yields_of_derives_all k
  rw [h] at k
  injection k with k
  injection k with k
  exact Outline.postfixOrder_injective k

end

end Formula

open Formula Grammar

theorem Program.parse_ok_iff {text : String} {program : Program} :
    Program.parse text = .ok program ↔
      ∃ tree, Derives .sum (Token.scan text) tree [] ∧ program = tree.postfixOrder := by
  rw [← ofTokens_ok_iff, Program.parse]
  cases ofTokens (Token.scan text) with
  | error refusal => exact ⟨nofun, nofun⟩
  | ok read =>
    constructor
    · intro h
      cases h
      rfl
    · intro h
      cases h
      rfl

/-- A text is read exactly if its tokens are a sum of the grammar, which then stands for one tree,
and what is read is that tree in postfix order. Every other text is an error. -/
theorem parse_accepts_grammar (text : String) :
    (∀ program, Program.parse text = .ok program ↔
      ∃ tree, Derives .sum (Token.scan text) tree [] ∧ program = tree.postfixOrder) ∧
    (∀ tree other, Derives .sum (Token.scan text) tree [] →
      Derives .sum (Token.scan text) other [] → tree = other) ∧
    ((∃ error, Program.parse text = .error error) ↔
      ¬ ∃ tree, Derives .sum (Token.scan text) tree []) := by
  refine ⟨fun _ => Program.parse_ok_iff, fun _ _ h k => derives_unique h k, ?_⟩
  constructor
  · rintro ⟨error, h⟩ ⟨tree, hd⟩
    have := Program.parse_ok_iff.mpr ⟨tree, hd, rfl⟩
    rw [h] at this
    cases this
  · intro h
    cases hp : Program.parse text with
    | error error => exact ⟨error, rfl⟩
    | ok program =>
      obtain ⟨tree, hd, _⟩ := Program.parse_ok_iff.mp hp
      exact absurd ⟨tree, hd⟩ h

end SpriteFormula
