import SpriteFormula.Proofs.FormulaGrammar

/-!
The beginnings of formulas: tokens that an operand, arguments and closing parentheses complete. What
is read so far is one in front of any operator, comma or parenthesis, with what is read of the
operand, the argument or the inside behind it.
-/

namespace SpriteFormula

namespace Grammar

theorem notCalled_cons {token : Token} {rest : List Token} :
    NotCalled (token :: rest) ↔ token.kind ≠ .leftParen := by
  simp [NotCalled]

/-- The tokens are of the symbol, whatever follows but a call of the name that they end with. -/
def Spans (symbol : Symbol) (tokens : List Token) (tree : Expr) : Prop :=
  ∀ rest, NotCalled rest → Derives symbol (tokens ++ rest) tree rest

/-- What is of a symbol is of it in front of any other tokens, unless they make a call of the name
that it ends with. -/
theorem Derives.split {symbol : Symbol} {tokens rest : List Token} {tree : Expr}
    (h : Derives symbol tokens tree rest) :
    ∃ used, tokens = used ++ rest ∧ used ≠ [] ∧
      ∀ other, (NotCalled rest → NotCalled other) → Derives symbol (used ++ other) tree other := by
  induction h with
  | product _ ih =>
    obtain ⟨used, rfl, hn, hd⟩ := ih
    exact ⟨used, rfl, hn, fun other ho => .product (hd other ho)⟩
  | factor _ ih =>
    obtain ⟨used, rfl, hn, hd⟩ := ih
    exact ⟨used, rfl, hn, fun other ho => .factor (hd other ho)⟩
  | primary _ ih =>
    obtain ⟨used, rfl, hn, hd⟩ := ih
    exact ⟨used, rfl, hn, fun other ho => .primary (hd other ho)⟩
  | @additive _ _ sign _ _ _ _ _ hs _ ihl ihr =>
    obtain ⟨before, rfl, _, hl⟩ := ihl
    obtain ⟨after, rfl, _, hr⟩ := ihr
    refine ⟨before ++ sign :: after, by simp, by simp, fun other ho => ?_⟩
    rw [List.append_assoc, List.cons_append]
    refine .additive (hl _ ?_) hs (hr other ho)
    rw [notCalled_cons, notCalled_cons]
    exact id
  | @multiplicative _ _ sign _ _ _ _ _ hs _ ihl ihr =>
    obtain ⟨before, rfl, _, hl⟩ := ihl
    obtain ⟨after, rfl, _, hr⟩ := ihr
    refine ⟨before ++ sign :: after, by simp, by simp, fun other ho => ?_⟩
    rw [List.append_assoc, List.cons_append]
    refine .multiplicative (hl _ ?_) hs (hr other ho)
    rw [notCalled_cons, notCalled_cons]
    exact id
  | adjacent _ _ ihl ihr =>
    obtain ⟨before, rfl, hn, hl⟩ := ihl
    obtain ⟨after, rfl, ha, hr⟩ := ihr
    refine ⟨before ++ after, by simp, by simp [hn], fun other ho => ?_⟩
    rw [List.append_assoc]
    refine .adjacent (hl _ ?_) (hr other ho)
    obtain ⟨first, others, rfl⟩ := List.exists_cons_of_ne_nil ha
    rw [List.cons_append, List.cons_append, notCalled_cons, notCalled_cons]
    exact id
  | @negative minus _ _ _ hk _ ih =>
    obtain ⟨used, rfl, _, hd⟩ := ih
    exact ⟨minus :: used, rfl, by simp, fun other ho => .negative hk (hd other ho)⟩
  | @number token _ _ hk hv =>
    exact ⟨[token], rfl, by simp, fun _ _ => .number hk hv⟩
  | @named token _ _ hk hv hn =>
    exact ⟨[token], rfl, by simp, fun _ ho => .named hk hv (ho hn)⟩
  | @var token _ hk hv hn =>
    exact ⟨[token], rfl, by simp, fun _ ho => .var hk hv (ho hn)⟩
  | @call token opening _ _ _ closing _ hk hf ho _ hc ih =>
    obtain ⟨used, rfl, _, hd⟩ := ih
    refine ⟨token :: opening :: (used ++ [closing]), by simp, by simp, fun other _ => ?_⟩
    simp only [List.cons_append, List.append_assoc, List.nil_append]
    refine .call hk hf ho (hd _ ?_) hc
    rw [notCalled_cons, notCalled_cons]
    exact id
  | @extremum token opening _ _ _ comma _ _ closing _ hk hf ho _ hm _ hc ihl ihr =>
    obtain ⟨before, rfl, _, hl⟩ := ihl
    obtain ⟨after, rfl, _, hr⟩ := ihr
    refine ⟨token :: opening :: (before ++ comma :: (after ++ [closing])), by simp, by simp,
      fun other _ => ?_⟩
    simp only [List.cons_append, List.append_assoc, List.nil_append]
    refine .extremum hk hf ho (hl _ ?_) hm (hr _ ?_) hc
    · rw [notCalled_cons, notCalled_cons]
      exact id
    · rw [notCalled_cons, notCalled_cons]
      exact id
  | @parentheses opening _ _ closing _ ho _ hc ih =>
    obtain ⟨used, rfl, _, hd⟩ := ih
    refine ⟨opening :: (used ++ [closing]), by simp, by simp, fun other _ => ?_⟩
    simp only [List.cons_append, List.append_assoc, List.nil_append]
    refine .parentheses ho (hd _ ?_) hc
    rw [notCalled_cons, notCalled_cons]
    exact id

end Grammar

open Grammar

namespace Formula

/-! ### Completions -/

/-- The words that a formula is completed with. -/
def completingWords : List (TokenKind × String) :=
  [(.number, "1"), (.comma, ","), (.rightParen, ")")]

def missingOne : Token := ⟨.number, "1", 0⟩

def missingComma : Token := ⟨.comma, ",", 0⟩

def missingClosing : Token := ⟨.rightParen, ")", 0⟩

def AreCompleting (tokens : List Token) : Prop :=
  ∀ token ∈ tokens, (token.kind, token.text) ∈ completingWords

/-- The tokens are the beginning of the symbol: words behind them complete it. -/
def Completable (symbol : Symbol) (used : List Token) : Prop :=
  ∃ missing tree, AreCompleting missing ∧ Spans symbol (used ++ missing) tree

theorem AreCompleting.append {tokens others : List Token} (h : AreCompleting tokens)
    (ho : AreCompleting others) : AreCompleting (tokens ++ others) :=
  List.forall_mem_append.mpr ⟨h, ho⟩

theorem completing_closing : AreCompleting [missingClosing] := by
  unfold AreCompleting
  decide

theorem completing_argument : AreCompleting [missingComma, missingOne, missingClosing] := by
  unfold AreCompleting
  decide

theorem derives_one (rest : List Token) :
    Derives .primary (missingOne :: rest) (.constant .one) rest :=
  .number rfl (by decide +kernel)

theorem sum_one (rest : List Token) :
    Derives .sum (missingOne :: rest) (.constant .one) rest :=
  .product (.factor (.primary (derives_one rest)))

section
variable {symbol : Symbol} {used tokens next rest : List Token} {left tree : Expr}
  {name opening sign token : Token} {op : Operator} {enclosing : Option Priority}

theorem Completable.of_primary (h : Completable .primary used) : Completable symbol used := by
  obtain ⟨missing, tree, hw, hd⟩ := h
  refine ⟨missing, tree, hw, fun rest hn => ?_⟩
  cases symbol with
  | primary => exact hd rest hn
  | factor => exact .primary (hd rest hn)
  | product => exact .factor (.primary (hd rest hn))
  | sum => exact .product (.factor (.primary (hd rest hn)))

theorem Completable.product_of_factor (h : Completable .factor used) :
    Completable .product used := by
  obtain ⟨missing, tree, hw, hd⟩ := h
  exact ⟨missing, tree, hw, fun rest hn => .factor (hd rest hn)⟩

theorem Completable.sum_of_product (h : Completable .product used) : Completable .sum used := by
  obtain ⟨missing, tree, hw, hd⟩ := h
  exact ⟨missing, tree, hw, fun rest hn => .product (hd rest hn)⟩

theorem Completable.within_of_factor (h : Completable .factor used) :
    Completable (symbolWithin enclosing) used := by
  unfold symbolWithin
  split
  · exact h
  · split
    · exact h.product_of_factor
    · exact h.product_of_factor.sum_of_product

theorem Completable.within_of_product (hy : Priority.multiplyDivide.yieldsTo enclosing = false)
    (h : Completable .product used) : Completable (symbolWithin enclosing) used := by
  unfold symbolWithin
  rw [if_neg (by simp [hy])]
  split
  · exact h
  · exact h.sum_of_product

theorem Completable.within_of_sum (hy : Priority.addSubtract.yieldsTo enclosing = false)
    (h : Completable .sum used) : Completable (symbolWithin enclosing) used := by
  have hm : ¬ Priority.multiplyDivide.yieldsTo enclosing := fun h => by
    simp [yields_addSubtract h] at hy
  rw [symbolWithin, if_neg hm, if_neg (by simp [hy])]
  exact h

/-- Where nothing is read yet an operand is missing. -/
theorem completable_nil (symbol : Symbol) : Completable symbol [] :=
  .of_primary ⟨[missingOne], .constant .one, by unfold AreCompleting; decide,
    fun rest _ => derives_one rest⟩

/-- What is read is complete. -/
theorem completable_of_derives (h : Derives symbol tokens tree rest) :
    ∃ used, tokens = used ++ rest ∧ Completable symbol used := by
  obtain ⟨used, rfl, _, hd⟩ := h.split
  refine ⟨used, rfl, [], tree, List.forall_mem_nil _, fun other ho => ?_⟩
  rw [List.append_nil]
  exact hd other fun _ => ho

theorem Completable.negative (hk : sign.kind = .minus) (h : Completable .factor used) :
    Completable .factor (sign :: used) := by
  obtain ⟨missing, tree, hw, hd⟩ := h
  exact ⟨missing, .negative tree, hw, fun rest hn => .negative hk (hd rest hn)⟩

theorem Completable.parentheses (ho : opening.kind = .leftParen) (h : Completable .sum used) :
    Completable .primary (opening :: used) := by
  obtain ⟨missing, tree, hw, hd⟩ := h
  refine ⟨missing ++ [missingClosing], tree, hw.append completing_closing, fun rest _ => ?_⟩
  have hi := hd (missingClosing :: rest) (notCalled_cons.mpr nofun)
  simp only [List.cons_append, List.append_assoc, List.nil_append] at hi ⊢
  exact .parentheses ho hi rfl

/-- In the first argument of a call the other one is missing too, if there is one. -/
theorem Completable.firstArgument {f : Function} (hk : name.kind = .identifier)
    (hf : Function.ofName? name.text = some f) (ho : opening.kind = .leftParen)
    (h : Completable .sum used) : Completable .primary (name :: opening :: used) := by
  obtain ⟨missing, tree, hw, hd⟩ := h
  cases f with
  | unary f =>
    refine ⟨missing ++ [missingClosing], .call f tree, hw.append completing_closing,
      fun rest _ => ?_⟩
    have ha := hd (missingClosing :: rest) (notCalled_cons.mpr nofun)
    simp only [List.cons_append, List.append_assoc, List.nil_append] at ha ⊢
    exact .call hk (function_of_unaryNames.mp hf) ho ha rfl
  | extremum f =>
    refine ⟨missing ++ [missingComma, missingOne, missingClosing],
      .extremum f tree (.constant .one), hw.append completing_argument, fun rest _ => ?_⟩
    have ha := hd (missingComma :: missingOne :: missingClosing :: rest)
      (notCalled_cons.mpr nofun)
    simp only [List.cons_append, List.append_assoc, List.nil_append] at ha ⊢
    exact .extremum hk (function_of_extremumNames.mp hf) ho ha rfl (sum_one _) rfl

theorem Completable.secondArgument {f : Extremum} {comma : Token} (hk : name.kind = .identifier)
    (hf : Function.ofName? name.text = some (.extremum f)) (ho : opening.kind = .leftParen)
    (hl : Spans .sum tokens left) (hm : comma.kind = .comma) (h : Completable .sum used) :
    Completable .primary (name :: opening :: (tokens ++ comma :: used)) := by
  obtain ⟨missing, tree, hw, hd⟩ := h
  refine ⟨missing ++ [missingClosing], .extremum f left tree, hw.append completing_closing,
    fun rest _ => ?_⟩
  have hr := hd (missingClosing :: rest) (notCalled_cons.mpr nofun)
  simp only [List.cons_append, List.append_assoc, List.nil_append] at hr ⊢
  exact .extremum hk (function_of_extremumNames.mp hf) ho
    (hl _ (notCalled_cons.mpr (by rw [hm]; nofun))) hm hr rfl

theorem not_leftParen_of_sign (h : sign.kind.sign? = some op) : sign.kind ≠ .leftParen := by
  intro hk
  rw [hk] at h
  cases h

theorem Completable.additive (hl : Spans .sum tokens left) (hm : (sign.kind, op) ∈ additive)
    (h : Completable .product used) : Completable .sum (tokens ++ sign :: used) := by
  obtain ⟨missing, tree, hw, hd⟩ := h
  refine ⟨missing, .binary op left tree, hw, fun rest hn => ?_⟩
  have hr := hd rest hn
  have hs := not_leftParen_of_sign (sign_of_additive hm).1
  simp only [List.cons_append, List.append_assoc] at hr ⊢
  exact .additive (hl _ (notCalled_cons.mpr hs)) hm hr

theorem Completable.multiplicative (hl : Spans .product tokens left)
    (hm : (sign.kind, op) ∈ multiplicative) (h : Completable .factor used) :
    Completable .product (tokens ++ sign :: used) := by
  obtain ⟨missing, tree, hw, hd⟩ := h
  refine ⟨missing, .binary op left tree, hw, fun rest hn => ?_⟩
  have hr := hd rest hn
  have hs := not_leftParen_of_sign (sign_of_multiplicative hm).1
  simp only [List.cons_append, List.append_assoc] at hr ⊢
  exact .multiplicative (hl _ (notCalled_cons.mpr hs)) hm hr

theorem Stops.continuation_none (h : Stops none rest) : continuation? rest = none := by
  cases hc : continuation? rest with
  | none => rfl
  | some continued => cases h continued.1 continued.2 hc

/-- A factor that does not begin with a minus sign is an operand. -/
theorem Completable.primary_of_factor (ht : token.kind.startsOperand)
    (h : Completable .factor (token :: used)) : Completable .primary (token :: used) := by
  obtain ⟨missing, tree, hw, hd⟩ := h
  exact ⟨missing, tree, hw, fun rest hn => Formula.primary_of_factor (hd rest hn) ht⟩

/-- An operand directly behind another one. Where nothing of it is read yet, a number takes the
place of what would be a call of the name in front. -/
theorem Completable.adjacent (h : Derives .product tokens left (token :: next))
    (ht : token.kind.startsOperand) (hu : used <+: token :: next) (hr : Completable .factor used) :
    ∃ front, tokens = front ++ token :: next ∧ Completable .product (front ++ used) := by
  obtain ⟨front, rfl, _, hd⟩ := h.split
  refine ⟨front, rfl, ?_⟩
  cases used with
  | nil =>
    refine ⟨[missingOne], .binary .multiply left (.constant .one), by unfold AreCompleting; decide,
      fun rest _ => ?_⟩
    have hf := hd (missingOne :: rest) fun _ => notCalled_cons.mpr nofun
    simp only [List.append_nil, List.append_assoc, List.cons_append, List.nil_append]
    exact .adjacent hf (derives_one rest)
  | cons first used =>
    obtain rfl : first = token := (List.cons_prefix_cons.mp hu).1
    obtain ⟨missing, tree, hw, hs⟩ := hr.primary_of_factor ht
    refine ⟨missing, .binary .multiply left tree, hw, fun rest hn => ?_⟩
    have hp := hs rest hn
    simp only [List.cons_append, List.append_assoc] at hp ⊢
    exact .adjacent (hd _ fun hc => notCalled_cons.mpr (notCalled_cons.mp hc)) hp

end

end Formula

end SpriteFormula
