import SpriteFormula.Proofs.FormulaTokens

/-!
How deep in parentheses the tokens of a formula stand. A tree and the depths of its tokens tell how
many pairs of parentheses are around each part: as many as its own token stands deeper than that of
the part it is an operand of. Where there are none, the part must bind tightly enough.
-/

namespace SpriteFormula

open Grammar

namespace Token

/-- The depths of the tokens that are no parentheses, behind tokens that leave some open. -/
def depths : Int → List Token → List Int
  | _, [] => []
  | depth, token :: rest =>
    if token.kind.opening = 0 then depth :: depths depth rest
    else depths (depth + token.kind.opening) rest

/-- How many of the tokens are no parentheses. -/
def plainCount (tokens : List Token) : Nat := tokens.countP fun token => token.kind.opening = 0

section
variable {token : Token} {rest : List Token} {depth : Int}

theorem depths_plain (h : token.kind.opening = 0) :
    depths depth (token :: rest) = depth :: depths depth rest := by
  rw [depths, if_pos h]

theorem depths_leftParen (h : token.kind = .leftParen) :
    depths depth (token :: rest) = depths (depth + 1) rest := by
  rw [depths, h]
  rfl

theorem depths_rightParen (h : token.kind = .rightParen) :
    depths depth (token :: rest) = depths (depth - 1) rest := by
  rw [depths, h]
  rfl

theorem depths_append (depth : Int) (tokens others : List Token) :
    depths depth (tokens ++ others) =
      depths depth tokens ++ depths (depth + openCount tokens) others := by
  induction tokens generalizing depth with
  | nil => simp [depths, openCount]
  | cons token rest ih =>
    rw [List.cons_append, depths, depths, ih, ih, openCount]
    split
    · next hz => rw [hz, Int.zero_add, List.cons_append]
    · rw [Int.add_assoc]

theorem length_depths (depth : Int) (tokens : List Token) :
    (depths depth tokens).length = plainCount tokens := by
  unfold plainCount
  induction tokens generalizing depth with
  | nil => rfl
  | cons token rest ih =>
    rw [depths, List.countP_cons]
    split
    · next hz => simp [hz, ih]
    · next hz => simp [hz, ih]

theorem plainCount_append (tokens others : List Token) :
    plainCount (tokens ++ others) = plainCount tokens + plainCount others := List.countP_append

theorem plainCount_plain (h : token.kind.opening = 0) :
    plainCount (token :: rest) = plainCount rest + 1 :=
  List.countP_cons_of_pos (by simpa using h)

theorem plainCount_leftParen (h : token.kind = .leftParen) :
    plainCount (token :: rest) = plainCount rest :=
  List.countP_cons_of_neg (by rw [h]; decide)

theorem plainCount_rightParen (h : token.kind = .rightParen) :
    plainCount (token :: rest) = plainCount rest :=
  List.countP_cons_of_neg (by rw [h]; decide)

end

end Token

/-! ### Parts of a tree and their depths -/

/-- The tightest symbol comes first. -/
def Grammar.Symbol.rank : Symbol → Nat
  | .primary => 0
  | .factor => 1
  | .product => 2
  | .sum => 3

/-- The symbol of an operator's construct, and of its left operand. -/
def Operator.symbol : Operator → Symbol
  | .add | .subtract => .sum
  | .multiply | .divide | .pow => .product

def Operator.rightSymbol : Operator → Symbol
  | .add | .subtract => .product
  | .multiply | .divide | .pow => .factor

/-- Depths of two parts, and between them that of a sign. -/
def Joined (left right : Int → List Int → Prop) (depth : Int) (depths : List Int) : Prop :=
  ∃ before after, depths = before ++ depth :: after ∧ left depth before ∧ right depth after

/-- Depths of a part behind that of a sign or name. -/
def Headed (part : Int → List Int → Prop) (depth : Int) (depths : List Int) : Prop :=
  ∃ after, depths = depth :: after ∧ part depth after

namespace Expr

/-- How many tokens the tree has that are no parentheses. -/
def weight : Expr → Nat
  | .constant _ | .var _ => 1
  | .binary _ left right => left.weight + (right.weight + 1)
  | .negative operand => operand.weight + 1
  | .call _ argument => argument.weight + 1
  | .extremum _ left right => left.weight + (right.weight + 1) + 1

/-- The tightest symbol that the tree is of without parentheses around it. -/
def symbol : Expr → Symbol
  | .binary op _ _ => op.symbol
  | .negative _ => .factor
  | _ => .primary

/-- A part whose own token stands at `level`, in the place of a symbol at some depth: there are
parentheses around it if it binds too loosely. -/
structure Held (symbol : Symbol) (tree : Expr) (depth level : Int) : Prop where
  le : depth ≤ level
  bare : level = depth → tree.symbol.rank ≤ symbol.rank

/-- Depths of a part in the place of a symbol, by those that it can have at a level. -/
def Placed (symbol : Symbol) (tree : Expr) (levels : Int → List Int → Prop) (depth : Int)
    (depths : List Int) : Prop :=
  ∃ level, Held symbol tree depth level ∧ levels level depths

/-- The depths of the tokens of a tree whose own token stands at a level. -/
def Levels : Expr → Int → List Int → Prop
  | .constant _ | .var _ => fun level depths => depths = [level]
  | .binary op left right =>
    Joined (Placed op.symbol left left.Levels) (Placed op.rightSymbol right right.Levels)
  | .negative operand => Headed (Placed .factor operand operand.Levels)
  | .call _ argument => Headed fun level => Placed .sum argument argument.Levels (level + 1)
  | .extremum _ left right => Headed fun level =>
    Joined (Placed .sum left left.Levels) (Placed .sum right right.Levels) (level + 1)

/-- The depths of the tokens of a tree in the place of a symbol. -/
def Fits (symbol : Symbol) (tree : Expr) : Int → List Int → Prop := Placed symbol tree tree.Levels

section
variable {tree : Expr} {symbol looser : Symbol} {depth level other : Int} {depths : List Int}

theorem Levels.length (h : tree.Levels level depths) : depths.length = tree.weight := by
  induction tree generalizing level depths with
  | constant value =>
    obtain rfl : depths = [level] := h
    rfl
  | var name =>
    obtain rfl : depths = [level] := h
    rfl
  | binary op left right ihl ihr =>
    obtain ⟨before, after, rfl, ⟨_, _, hl⟩, ⟨_, _, hr⟩⟩ := h
    rw [List.length_append, List.length_cons, ihl hl, ihr hr, weight]
  | negative operand ih =>
    obtain ⟨after, rfl, _, _, ho⟩ := h
    rw [List.length_cons, ih ho, weight]
  | call f argument ih =>
    obtain ⟨after, rfl, _, _, ha⟩ := h
    rw [List.length_cons, ih ha, weight]
  | extremum f left right ihl ihr =>
    obtain ⟨_, rfl, before, after, rfl, ⟨_, _, hl⟩, ⟨_, _, hr⟩⟩ := h
    rw [List.length_cons, List.length_append, List.length_cons, ihl hl, ihr hr, weight]

/-- The depths tell which token is the tree's own. -/
theorem Levels.unique (h : tree.Levels level depths) (k : tree.Levels other depths) :
    level = other := by
  cases tree with
  | constant value =>
    obtain rfl : depths = [level] := h
    exact List.head_eq_of_cons_eq k
  | var name =>
    obtain rfl : depths = [level] := h
    exact List.head_eq_of_cons_eq k
  | binary op left right =>
    obtain ⟨before, after, rfl, ⟨_, _, hl⟩, _⟩ := h
    obtain ⟨_, _, he, ⟨_, _, kl⟩, _⟩ := k
    exact List.head_eq_of_cons_eq (List.append_inj he (hl.length.trans kl.length.symm)).2
  | negative operand =>
    obtain ⟨after, rfl, _⟩ := h
    obtain ⟨_, he, _⟩ := k
    exact List.head_eq_of_cons_eq he
  | call f argument =>
    obtain ⟨after, rfl, _⟩ := h
    obtain ⟨_, he, _⟩ := k
    exact List.head_eq_of_cons_eq he
  | extremum f left right =>
    obtain ⟨inner, rfl, _⟩ := h
    obtain ⟨_, he, _⟩ := k
    exact List.head_eq_of_cons_eq he

theorem Fits.length (h : Fits symbol tree depth depths) : depths.length = tree.weight := by
  obtain ⟨_, _, hl⟩ := h
  exact hl.length

/-- A tree without parentheses around it fits where its own symbol does. -/
theorem Levels.fits (h : tree.Levels depth depths) (hs : tree.symbol.rank ≤ symbol.rank) :
    Fits symbol tree depth depths :=
  ⟨depth, ⟨Int.le_refl depth, fun _ => hs⟩, h⟩

theorem Fits.mono (h : Fits symbol tree depth depths) (hs : symbol.rank ≤ looser.rank) :
    Fits looser tree depth depths := by
  obtain ⟨level, ⟨hl, hb⟩, ht⟩ := h
  exact ⟨level, ⟨hl, fun he => Nat.le_trans (hb he) hs⟩, ht⟩

/-- Depths are put together in one way: the weight of the left part tells where the sign is. -/
theorem Fits.of_joined {right : Int → List Int → Prop} {before after : List Int}
    (h : Joined (tree.Fits symbol) right level (before ++ depth :: after))
    (hb : before.length = tree.weight) : tree.Fits symbol depth before ∧ right depth after := by
  obtain ⟨first, second, he, hf, hs⟩ := h
  obtain ⟨rfl, hc⟩ := List.append_inj he (hb.trans hf.length.symm)
  obtain ⟨rfl, rfl⟩ := List.cons.inj hc
  exact ⟨hf, hs⟩

/-- Parentheses around a sum fit anywhere. -/
theorem Fits.parentheses (h : Fits symbol tree (depth + 1) depths) :
    Fits looser tree depth depths := by
  obtain ⟨level, ⟨hl, _⟩, ht⟩ := h
  exact ⟨level, ⟨by omega, fun he => by omega⟩, ht⟩

end

end Expr

/-! ### Tokens that a tree uses -/

namespace Grammar

open Token

/-- What the tokens of a symbol are: as many as the tree has, or fewer where operands stand next to
each other without a sign, and at the depths of the tree's parts if they are as many. -/
structure Takes (symbol : Symbol) (used : List Token) (tree : Expr) : Prop where
  balanced : openCount used = 0
  count : plainCount used ≤ tree.weight
  fits : plainCount used = tree.weight → ∀ depth, tree.Fits symbol depth (depths depth used)

section
variable {symbol looser : Symbol} {used others : List Token} {tree left right : Expr}
  {name opening comma closing sign : Token}

theorem Takes.mono (h : Takes symbol used tree) (hs : symbol.rank ≤ looser.rank) :
    Takes looser used tree :=
  ⟨h.balanced, h.count, fun hc depth => (h.fits hc depth).mono hs⟩

theorem Takes.leaf (ho : sign.kind.opening = 0) (hw : tree.weight = 1)
    (hl : ∀ level, tree.Levels level [level]) (hs : tree.symbol = .primary) :
    Takes .primary [sign] tree := by
  refine ⟨by rw [openCount_singleton, ho], ?_, fun _ depth => ?_⟩
  · rw [hw, plainCount_plain ho]
    exact Nat.le_refl 1
  · rw [depths_plain ho, depths]
    exact (hl depth).fits (Nat.le_of_eq (by rw [hs]))

theorem Takes.binary {op : Operator} (hl : Takes op.symbol used left)
    (hr : Takes op.rightSymbol others right) (ho : sign.kind.opening = 0) :
    Takes op.symbol (used ++ sign :: others) (.binary op left right) := by
  have count : plainCount (used ++ sign :: others) = plainCount used + (plainCount others + 1) := by
    rw [plainCount_append, plainCount_plain ho]
  have hlc := hl.count
  have hrc := hr.count
  refine ⟨?_, ?_, fun hc depth => ?_⟩
  · rw [openCount_append, openCount, ho, hl.balanced, hr.balanced]
    rfl
  · rw [count, Expr.weight]
    omega
  · rw [count, Expr.weight] at hc
    have hlf := hl.fits (by omega) depth
    have hrf := hr.fits (by omega) depth
    have levels : (Expr.binary op left right).Levels depth
        (depths depth (used ++ sign :: others)) := by
      refine ⟨depths depth used, depths depth others, ?_, hlf, hrf⟩
      rw [depths_append, hl.balanced, Int.add_zero, depths_plain ho]
    exact levels.fits (Nat.le_refl _)

/-- Where no sign stands between operands a token is missing. -/
theorem Takes.adjacent (hl : Takes .product used left) (hr : Takes .primary others right) :
    Takes .product (used ++ others) (.binary .multiply left right) := by
  have hlc := hl.count
  have hrc := hr.count
  refine ⟨?_, ?_, fun hc => ?_⟩
  · rw [openCount_append, hl.balanced, hr.balanced]
    rfl
  · rw [plainCount_append, Expr.weight]
    omega
  · rw [plainCount_append, Expr.weight] at hc
    omega

theorem Takes.negative (ho : sign.kind.opening = 0) (h : Takes .factor used tree) :
    Takes .factor (sign :: used) (.negative tree) := by
  have hc := h.count
  refine ⟨?_, ?_, fun hn depth => ?_⟩
  · rw [openCount, ho, h.balanced]
    rfl
  · rw [plainCount_plain ho, Expr.weight]
    omega
  · rw [plainCount_plain ho, Expr.weight] at hn
    have levels : (Expr.negative tree).Levels depth (depths depth (sign :: used)) :=
      ⟨depths depth used, depths_plain ho, h.fits (by omega) depth⟩
    exact levels.fits (Nat.le_refl _)

theorem openCount_enclosed (ho : opening.kind = .leftParen) (hc : closing.kind = .rightParen)
    (hb : openCount used = 0) : openCount (opening :: (used ++ [closing])) = 0 := by
  rw [openCount, openCount_append, openCount_singleton, ho, hc, hb]
  rfl

theorem plainCount_enclosed (ho : opening.kind = .leftParen) (hc : closing.kind = .rightParen) :
    plainCount (opening :: (used ++ [closing])) = plainCount used := by
  rw [plainCount_leftParen ho, plainCount_append, plainCount_rightParen hc]
  rfl

theorem depths_enclosed (ho : opening.kind = .leftParen) (hc : closing.kind = .rightParen)
    (depth : Int) : depths depth (opening :: (used ++ [closing])) = depths (depth + 1) used := by
  rw [depths_leftParen ho, depths_append, depths_rightParen hc, depths, List.append_nil]

theorem Takes.parentheses (ho : opening.kind = .leftParen) (hc : closing.kind = .rightParen)
    (h : Takes .sum used tree) : Takes .primary (opening :: (used ++ [closing])) tree := by
  refine ⟨openCount_enclosed ho hc h.balanced, ?_, fun hn depth => ?_⟩
  · rw [plainCount_enclosed ho hc]
    exact h.count
  · rw [plainCount_enclosed ho hc] at hn
    rw [depths_enclosed ho hc]
    exact (h.fits hn (depth + 1)).parentheses

theorem Takes.call {f : UnaryFunction} (hk : name.kind = .identifier)
    (ho : opening.kind = .leftParen) (hc : closing.kind = .rightParen) (h : Takes .sum used tree) :
    Takes .primary (name :: opening :: (used ++ [closing])) (.call f tree) := by
  have plain : name.kind.opening = 0 := by rw [hk]; rfl
  have hcount := h.count
  refine ⟨?_, ?_, fun hn depth => ?_⟩
  · rw [openCount, plain, openCount_enclosed ho hc h.balanced]
    rfl
  · rw [plainCount_plain plain, plainCount_enclosed ho hc, Expr.weight]
    omega
  · rw [plainCount_plain plain, plainCount_enclosed ho hc, Expr.weight] at hn
    have levels : (Expr.call f tree).Levels depth
        (depths depth (name :: opening :: (used ++ [closing]))) :=
      ⟨depths (depth + 1) used, by rw [depths_plain plain, depths_enclosed ho hc],
        h.fits (by omega) (depth + 1)⟩
    exact levels.fits (Nat.le_refl _)

theorem Takes.extremum {f : Extremum} (hk : name.kind = .identifier)
    (ho : opening.kind = .leftParen) (hm : comma.kind = .comma) (hc : closing.kind = .rightParen)
    (hl : Takes .sum used left) (hr : Takes .sum others right) :
    Takes .primary (name :: opening :: (used ++ comma :: others ++ [closing]))
      (.extremum f left right) := by
  have plain : name.kind.opening = 0 := by rw [hk]; rfl
  have between : comma.kind.opening = 0 := by rw [hm]; rfl
  have balanced : openCount (used ++ comma :: others) = 0 := by
    rw [openCount_append, openCount, between, hl.balanced, hr.balanced]
    rfl
  have count : plainCount (used ++ comma :: others) =
      plainCount used + (plainCount others + 1) := by
    rw [plainCount_append, plainCount_plain between]
  have hlc := hl.count
  have hrc := hr.count
  refine ⟨?_, ?_, fun hn depth => ?_⟩
  · rw [openCount, plain, openCount_enclosed ho hc balanced]
    rfl
  · rw [plainCount_plain plain, plainCount_enclosed ho hc, count, Expr.weight]
    omega
  · rw [plainCount_plain plain, plainCount_enclosed ho hc, count, Expr.weight] at hn
    have levels : (Expr.extremum f left right).Levels depth
        (depths depth (name :: opening :: (used ++ comma :: others ++ [closing]))) := by
      refine ⟨depths (depth + 1) (used ++ comma :: others), ?_, depths (depth + 1) used,
        depths (depth + 1) others, ?_, hl.fits (by omega) (depth + 1),
        hr.fits (by omega) (depth + 1)⟩
      · rw [depths_plain plain, depths_enclosed ho hc]
      · rw [depths_append, hl.balanced, Int.add_zero, depths_plain between]
    exact levels.fits (Nat.le_refl _)

end

theorem Derives.takes {symbol : Symbol} {tokens rest : List Token} {tree : Expr}
    (h : Derives symbol tokens tree rest) :
    ∃ used, tokens = used ++ rest ∧ Takes symbol used tree := by
  induction h with
  | product _ ih =>
    obtain ⟨used, rfl, ht⟩ := ih
    exact ⟨used, rfl, ht.mono (by decide)⟩
  | factor _ ih =>
    obtain ⟨used, rfl, ht⟩ := ih
    exact ⟨used, rfl, ht.mono (by decide)⟩
  | primary _ ih =>
    obtain ⟨used, rfl, ht⟩ := ih
    exact ⟨used, rfl, ht.mono (by decide)⟩
  | @additive _ _ sign _ op _ _ _ hs _ ihl ihr =>
    obtain ⟨before, rfl, hl⟩ := ihl
    obtain ⟨after, rfl, hr⟩ := ihr
    have all : ∀ sign ∈ Grammar.additive, sign.1.opening = 0 ∧ sign.2.symbol = .sum ∧
        sign.2.rightSymbol = .product := by decide
    obtain ⟨ho, hsymbol, hright⟩ := all _ hs
    refine ⟨before ++ sign :: after, by simp, ?_⟩
    rw [← hsymbol] at hl ⊢
    rw [← hright] at hr
    exact hl.binary hr ho
  | @multiplicative _ _ sign _ op _ _ _ hs _ ihl ihr =>
    obtain ⟨before, rfl, hl⟩ := ihl
    obtain ⟨after, rfl, hr⟩ := ihr
    have all : ∀ sign ∈ Grammar.multiplicative, sign.1.opening = 0 ∧
        sign.2.symbol = .product ∧ sign.2.rightSymbol = .factor := by decide
    obtain ⟨ho, hsymbol, hright⟩ := all _ hs
    refine ⟨before ++ sign :: after, by simp, ?_⟩
    rw [← hsymbol] at hl ⊢
    rw [← hright] at hr
    exact hl.binary hr ho
  | adjacent _ _ ihl ihr =>
    obtain ⟨before, rfl, hl⟩ := ihl
    obtain ⟨after, rfl, hr⟩ := ihr
    exact ⟨before ++ after, by simp, hl.adjacent hr⟩
  | @negative minus _ _ _ hk _ ih =>
    obtain ⟨used, rfl, ht⟩ := ih
    exact ⟨minus :: used, rfl, .negative (by rw [hk]; rfl) ht⟩
  | @number token _ _ hk _ =>
    exact ⟨[token], rfl, .leaf (by rw [hk]; rfl) rfl (fun _ => rfl) rfl⟩
  | @named token _ _ hk _ _ =>
    exact ⟨[token], rfl, .leaf (by rw [hk]; rfl) rfl (fun _ => rfl) rfl⟩
  | @var token _ hk _ _ =>
    exact ⟨[token], rfl, .leaf (by rw [hk]; rfl) rfl (fun _ => rfl) rfl⟩
  | @call token opening _ _ _ closing _ hk _ ho _ hc ih =>
    obtain ⟨used, rfl, ht⟩ := ih
    exact ⟨token :: opening :: (used ++ [closing]), by simp, .call hk ho hc ht⟩
  | @extremum token opening _ _ _ comma _ _ closing _ hk _ ho _ hm _ hc ihl ihr =>
    obtain ⟨before, rfl, hl⟩ := ihl
    obtain ⟨after, rfl, hr⟩ := ihr
    exact ⟨token :: opening :: (before ++ comma :: after ++ [closing]), by simp,
      .extremum hk ho hm hc hl hr⟩
  | @parentheses opening _ _ closing _ ho _ hc ih =>
    obtain ⟨used, rfl, ht⟩ := ih
    exact ⟨opening :: (used ++ [closing]), by simp, .parentheses ho hc ht⟩

end Grammar

end SpriteFormula
