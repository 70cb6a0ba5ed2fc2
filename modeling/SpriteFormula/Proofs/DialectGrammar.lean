import Mathlib.Logic.Relation
import SpriteFormula.Dialect

/-!
The grammar in the words of a language. With the words of formulas it is the grammar of formulas,
and whatever the words are, no text has more than one tree.

Signs of one tier group to the left, so the products that start at a token are a chain, each the one
before it with another operand behind it, and so are the sums. A chain goes on in one way only, and
two ends of it where nothing goes on with it are the same.
-/

namespace SpriteFormula

namespace Dialect

open Grammar

/-! ### The words of formulas -/

theorem lookup_eq_some {α β : Type} [DecidableEq α] {table : List (α × β)}
    (h : (table.map Prod.fst).Nodup) {key : α} {value : β} :
    table.lookup key = some value ↔ (key, value) ∈ table := by
  induction table with
  | nil => simp
  | cons entry rest ih =>
    obtain ⟨first, found⟩ := entry
    rw [List.map_cons, List.nodup_cons] at h
    rw [List.lookup_cons, List.mem_cons, ← ih h.2]
    by_cases he : key = first
    · subst he
      have hn : rest.lookup key = none := by
        rw [List.lookup_eq_none_iff]
        intro other ho
        rw [bne_iff_ne]
        rintro rfl
        exact h.1 (List.mem_map.mpr ⟨other, ho, rfl⟩)
      simp [hn, eq_comm]
    · simp [he, beq_eq_false_iff_ne.mpr he]

theorem formulas_named_of_mem {name : String} {value : Binary64}
    (h : (name, value) ∈ Grammar.constantNames) :
    formulas.named name = .constant value := by
  have hl : formulas.constantNames.lookup name = some value :=
    (lookup_eq_some (by decide)).mpr h
  rw [named, hl]

theorem named_of_not_mem (dialect : Dialect) {name : String}
    (h : name ∉ dialect.constantNames.map Prod.fst) : dialect.named name = .var name := by
  have hl : dialect.constantNames.lookup name = none := by
    rw [List.lookup_eq_none_iff]
    intro entry he
    rw [bne_iff_ne]
    rintro rfl
    exact h (List.mem_map.mpr ⟨entry, he, rfl⟩)
  rw [named, hl]

theorem formulas_pair_iff {name : String} {f : PairFunction} :
    formulas.pairNames.lookup name = some f ↔
      ∃ extremum, f = .extremum extremum ∧ (name, extremum) ∈ extremumNames := by
  rw [lookup_eq_some (by decide)]
  simp only [formulas, List.mem_map, Prod.mk.injEq, Prod.exists]
  constructor
  · rintro ⟨_, extremum, hm, rfl, rfl⟩
    exact ⟨extremum, rfl, hm⟩
  · rintro ⟨extremum, rfl, hm⟩
    exact ⟨_, _, hm, rfl, rfl⟩

theorem formulas_multiplicative : formulas.multiplicative = Grammar.multiplicative := by decide

theorem formulas_suffixTokens (value : Binary64) (stop : Nat) :
    formulas.suffixTokens value stop = [] := by
  unfold suffixTokens
  split <;> rfl

/-- No name of formulas has a period. -/
theorem formulas_joins (first period second : Token) :
    formulas.joins first period second = false := by
  have all : ∀ name ∈ formulas.names, '.' ∉ name.toList := by decide
  have hn : formulas.names.contains (dotted first second) = false := by
    rw [List.contains_eq_mem, decide_eq_false_iff_not]
    intro hm
    apply all _ hm
    simp [dotted]
  rw [joins, hn, Bool.and_false]

theorem formulas_joined (tokens : List Token) : formulas.joined tokens = tokens := by
  fun_induction joined formulas tokens with
  | case1 first period second rest h _ =>
    rw [formulas_joins] at h
    cases h
  | case2 first period second rest _ ih => rw [ih]
  | case3 tokens _ => rfl

theorem formulas_derives_iff {symbol : Symbol} {tokens rest : List Token} {tree : Expr} :
    formulas.Derives symbol tokens tree rest ↔ Grammar.Derives symbol tokens tree rest := by
  constructor
  · intro h
    induction h with
    | product _ ih => exact .product ih
    | additive _ ho _ ihl ihr => exact .additive ihl ho ihr
    | factor _ ih => exact .factor ih
    | multiplicative _ ho _ ihl ihr =>
      rw [formulas_multiplicative] at ho
      exact .multiplicative ihl ho ihr
    | adjacent _ _ ihl ihr => exact .adjacent ihl ihr
    | primary _ ih => exact .primary ih
    | negative hm _ ih => exact .negative hm ih
    | number hk hv hs =>
      rw [formulas_suffixTokens, List.nil_append] at hs
      rw [hs]
      exact .number hk hv
    | @name token rest hk hn =>
      by_cases hm : token.text ∈ Grammar.constantNames.map Prod.fst
      · obtain ⟨⟨_, value⟩, hc, rfl⟩ := List.mem_map.mp hm
        rw [formulas_named_of_mem hc]
        exact .named hk hc hn
      · rw [formulas.named_of_not_mem hm]
        exact .var hk hm hn
    | call hk hf ho _ hc ih =>
      exact .call hk ((lookup_eq_some (by decide)).mp hf) ho ih hc
    | pair hk hf ho _ hm _ hc ihl ihr =>
      obtain ⟨extremum, rfl, he⟩ := formulas_pair_iff.mp hf
      exact .extremum hk he ho ihl hm ihr hc
    | parentheses ho _ hc ih => exact .parentheses ho ih hc
  · intro h
    induction h with
    | product _ ih => exact .product ih
    | additive _ ho _ ihl ihr => exact .additive ihl ho ihr
    | factor _ ih => exact .factor ih
    | multiplicative _ ho _ ihl ihr =>
      rw [← formulas_multiplicative] at ho
      exact .multiplicative ihl ho ihr
    | adjacent _ _ ihl ihr => exact .adjacent ihl ihr
    | primary _ ih => exact .primary ih
    | negative hm _ ih => exact .negative hm ih
    | number hk hv => exact .number hk hv (by rw [formulas_suffixTokens, List.nil_append])
    | named hk hc hn =>
      rw [← formulas_named_of_mem hc]
      exact .name hk hn
    | var hk hm hn =>
      rw [← formulas.named_of_not_mem hm]
      exact .name hk hn
    | call hk hf ho _ hc ih =>
      exact .call hk ((lookup_eq_some (by decide)).mpr hf) ho ih hc
    | extremum hk hf ho _ hm _ hc ihl ihr =>
      exact .pair hk (formulas_pair_iff.mpr ⟨_, rfl, hf⟩) ho ihl hm ihr hc
    | parentheses ho _ hc ih => exact .parentheses ho ih hc

/-! ### Where what is of a symbol ends -/

/-- Whether a token of this kind goes on with what is of the symbol. -/
def continues : Symbol → TokenKind → Bool
  | .primary, _ | .factor, _ => false
  | .product, kind => kind.startsOperand || Grammar.multiplicative.any fun sign => sign.1 = kind
  | .sum, kind =>
    kind.startsOperand || (Grammar.multiplicative ++ additive).any fun sign => sign.1 = kind

/-- What is of the symbol may end in front of the tokens for good. -/
def Stops (symbol : Symbol) (rest : List Token) : Prop :=
  ∀ next ∈ rest.head?, continues symbol next.kind = false

theorem stops_nil (symbol : Symbol) : Stops symbol [] := nofun

theorem stops_cons {symbol : Symbol} {next : Token} {rest : List Token} :
    Stops symbol (next :: rest) ↔ continues symbol next.kind = false := by
  simp [Stops]

theorem stops_of_closing {symbol : Symbol} {closing : Token} (h : closing.kind = .rightParen)
    (rest : List Token) : Stops symbol (closing :: rest) := by
  rw [stops_cons, h]
  cases symbol <;> rfl

theorem stops_of_comma {symbol : Symbol} {comma : Token} (h : comma.kind = .comma)
    (rest : List Token) : Stops symbol (comma :: rest) := by
  rw [stops_cons, h]
  cases symbol <;> rfl

theorem Stops.product {rest : List Token} (h : Stops .sum rest) : Stops .product rest := by
  have all : ∀ kind, continues .sum kind = false → continues .product kind = false := by
    intro kind
    cases kind <;> decide
  intro next hn
  exact all _ (h next hn)

section
variable {dialect : Dialect} {kind : TokenKind} {op other : Operator}

theorem multiplicative_of_mem (h : (kind, op) ∈ dialect.multiplicative) :
    (kind, op) ∈ Grammar.multiplicative := (List.mem_filter.mp h).1

theorem multiplicative_unique (h : (kind, op) ∈ dialect.multiplicative)
    (k : (kind, other) ∈ dialect.multiplicative) : op = other := by
  have all : ∀ sign ∈ Grammar.multiplicative, ∀ found ∈ Grammar.multiplicative,
      sign.1 = found.1 → sign.2 = found.2 := by decide
  exact all _ (multiplicative_of_mem h) _ (multiplicative_of_mem k) rfl

theorem additive_unique (h : (kind, op) ∈ additive) (k : (kind, other) ∈ additive) :
    op = other := by
  have all : ∀ sign ∈ additive, ∀ found ∈ additive, sign.1 = found.1 → sign.2 = found.2 := by
    decide
  exact all _ h _ k rfl

theorem continues_of_multiplicative (h : (kind, op) ∈ dialect.multiplicative) :
    continues .product kind ∧ kind.startsOperand = false := by
  have all : ∀ sign ∈ Grammar.multiplicative,
      continues .product sign.1 ∧ sign.1.startsOperand = false := by decide
  exact all _ (multiplicative_of_mem h)

theorem continues_of_additive (h : (kind, op) ∈ additive) :
    continues .sum kind ∧ continues .product kind = false := by
  have all : ∀ sign ∈ additive, continues .sum sign.1 ∧ continues .product sign.1 = false := by
    decide
  exact all _ h

end

section
variable {dialect : Dialect} {symbol : Symbol} {token : Token}
variable {tokens after rest others : List Token} {tree other : Expr}

theorem Derives.length_lt (h : dialect.Derives symbol tokens tree rest) :
    rest.length < tokens.length := by
  induction h with
  | product _ ih => exact ih
  | factor _ ih => exact ih
  | primary _ ih => exact ih
  | additive _ _ _ ihl ihr =>
    rw [List.length_cons] at ihl
    omega
  | multiplicative _ _ _ ihl ihr =>
    rw [List.length_cons] at ihl
    omega
  | adjacent _ _ ihl ihr => omega
  | negative _ _ ih =>
    rw [List.length_cons]
    omega
  | number _ _ hs =>
    rw [hs, List.length_cons, List.length_append]
    omega
  | name _ _ => exact Nat.lt_succ_self _
  | call _ _ _ _ _ ih =>
    simp only [List.length_cons] at ih ⊢
    omega
  | pair _ _ _ _ _ _ _ ihl ihr =>
    simp only [List.length_cons] at ihl ihr ⊢
    omega
  | parentheses _ _ _ ih =>
    simp only [List.length_cons] at ih ⊢
    omega

theorem Derives.startsOperand (h : dialect.Derives .primary (token :: after) tree rest) :
    token.kind.startsOperand := by
  cases h with
  | number hk => rw [hk]; rfl
  | name hk => rw [hk]; rfl
  | call hk => rw [hk]; rfl
  | pair hk => rw [hk]; rfl
  | parentheses hk => rw [hk]; rfl

/-! ### Operands -/

/-- Wherever what is of the symbol may end for good, it ends at one place, as one tree. -/
structure Determined (dialect : Dialect) (symbol : Symbol) (tokens : List Token) : Prop where
  unique : ∀ {tree rest other others}, dialect.Derives symbol tokens tree rest →
    dialect.Derives symbol tokens other others → Stops symbol rest → Stops symbol others →
    tree = other ∧ rest = others

/-- The two forms of a call. -/
inductive Arguments (dialect : Dialect) (name : String) (tokens : List Token) :
    Expr → List Token → Prop where
  | one {f argument closing rest} :
      dialect.unaryNames.lookup name = some f →
      dialect.Derives .sum tokens argument (closing :: rest) → closing.kind = .rightParen →
      Arguments dialect name tokens (.call f argument) rest
  | two {f left comma middle right closing rest} :
      dialect.pairNames.lookup name = some f →
      dialect.Derives .sum tokens left (comma :: middle) → comma.kind = .comma →
      dialect.Derives .sum middle right (closing :: rest) → closing.kind = .rightParen →
      Arguments dialect name tokens (f.tree left right) rest

/-- The kind of its first token tells what an operand is. -/
theorem Derives.primary_inv (h : dialect.Derives .primary (token :: after) tree rest) :
    match token.kind with
    | .number => ∃ value, Binary64.ofText? token.text = some value ∧ tree = .constant value ∧
        after = dialect.suffixTokens value token.stop ++ rest
    | .identifier => (NotCalled after ∧ tree = dialect.named token.text ∧ rest = after) ∨
        ∃ opening tokens, after = opening :: tokens ∧ opening.kind = .leftParen ∧
          dialect.Arguments token.text tokens tree rest
    | .leftParen => ∃ closing, dialect.Derives .sum after tree (closing :: rest) ∧
        closing.kind = .rightParen
    | _ => False := by
  cases h with
  | number hk hv hs =>
    rw [hk]
    exact ⟨_, hv, rfl, hs⟩
  | name hk hn =>
    rw [hk]
    exact .inl ⟨hn, rfl, rfl⟩
  | call hk hf ho hd hc =>
    rw [hk]
    exact .inr ⟨_, _, rfl, ho, .one hf hd hc⟩
  | pair hk hf ho hl hm hr hc =>
    rw [hk]
    exact .inr ⟨_, _, rfl, ho, .two hf hl hm hr hc⟩
  | parentheses hk hd hc =>
    rw [hk]
    exact ⟨_, hd, hc⟩

/-- What ends the first argument tells the two forms apart. -/
theorem Arguments.unique {name : String}
    (ih : ∀ shorter, shorter.length ≤ tokens.length → dialect.Determined .sum shorter)
    (h : dialect.Arguments name tokens tree rest) (k : dialect.Arguments name tokens other others) :
    tree = other ∧ rest = others := by
  have first := ih tokens (Nat.le_refl _)
  cases h with
  | one hf hd hc =>
    cases k with
    | one kf kd kc =>
      rw [hf] at kf
      cases kf
      obtain ⟨rfl, hrest⟩ := first.unique hd kd (stops_of_closing hc _) (stops_of_closing kc _)
      exact ⟨rfl, (List.cons.inj hrest).2⟩
    | two _ kl km _ _ =>
      obtain ⟨-, hrest⟩ := first.unique hd kl (stops_of_closing hc _) (stops_of_comma km _)
      rw [(List.cons.inj hrest).1, km] at hc
      cases hc
  | two hf hl hm hr hc =>
    cases k with
    | one _ kd kc =>
      obtain ⟨-, hrest⟩ := first.unique hl kd (stops_of_comma hm _) (stops_of_closing kc _)
      rw [(List.cons.inj hrest).1, kc] at hm
      cases hm
    | two kf kl km kr kc =>
      rw [hf] at kf
      cases kf
      obtain ⟨rfl, hrest⟩ := first.unique hl kl (stops_of_comma hm _) (stops_of_comma km _)
      obtain ⟨rfl, rfl⟩ := List.cons.inj hrest
      have hlength := hl.length_lt
      rw [List.length_cons] at hlength
      obtain ⟨rfl, hrest⟩ := (ih _ (by omega)).unique hr kr (stops_of_closing hc _)
        (stops_of_closing kc _)
      exact ⟨rfl, (List.cons.inj hrest).2⟩

theorem determined_primary
    (ih : ∀ shorter, shorter.length < tokens.length → dialect.Determined .sum shorter) :
    dialect.Determined .primary tokens := by
  refine ⟨fun h k _ _ => ?_⟩
  rcases tokens with _ | ⟨token, after⟩
  · exact absurd h.length_lt (Nat.not_lt_zero _)
  replace h := h.primary_inv
  replace k := k.primary_inv
  cases hk : token.kind with
  | number =>
    rw [hk] at h k
    obtain ⟨value, hv, rfl, hs⟩ := h
    obtain ⟨found, kv, rfl, ks⟩ := k
    rw [hv] at kv
    cases kv
    rw [hs] at ks
    exact ⟨rfl, List.append_cancel_left ks⟩
  | leftParen =>
    rw [hk] at h k
    obtain ⟨closing, hd, hc⟩ := h
    obtain ⟨found, kd, kc⟩ := k
    obtain ⟨rfl, hrest⟩ := (ih after (Nat.lt_succ_self _)).unique hd kd
      (stops_of_closing hc _) (stops_of_closing kc _)
    exact ⟨rfl, (List.cons.inj hrest).2⟩
  | identifier =>
    rw [hk] at h k
    rcases h with ⟨hn, rfl, rfl⟩ | ⟨opening, tokens, rfl, ho, ha⟩
    · rcases k with ⟨-, rfl, rfl⟩ | ⟨opening, tokens, rfl, ho, -⟩
      · exact ⟨rfl, rfl⟩
      · exact absurd ho (hn _ rfl)
    · rcases k with ⟨kn, -, -⟩ | ⟨_, _, hcons, -, ka⟩
      · exact absurd ho (kn _ rfl)
      · obtain ⟨rfl, rfl⟩ := List.cons.inj hcons
        apply ha.unique _ ka
        intro shorter hs
        apply ih
        simp only [List.length_cons]
        omega
  | _ =>
    rw [hk] at h
    exact h.elim

theorem determined_factor
    (ih : ∀ shorter, shorter.length < tokens.length → dialect.Determined .factor shorter)
    (hp : dialect.Determined .primary tokens) : dialect.Determined .factor tokens := by
  refine ⟨fun h k hs ks => ?_⟩
  cases h with
  | primary h =>
    cases k with
    | primary k => exact hp.unique h k hs ks
    | negative hm _ =>
      have hstart := h.startsOperand
      rw [hm] at hstart
      cases hstart
  | negative hm h =>
    cases k with
    | primary k =>
      have hstart := k.startsOperand
      rw [hm] at hstart
      cases hstart
    | negative _ k =>
      obtain ⟨rfl, rfl⟩ := (ih _ (Nat.lt_succ_self _)).unique h k hs ks
      exact ⟨rfl, rfl⟩

/-! ### Chains -/

/-- Two ends of a chain that goes on in one way. -/
theorem eq_of_runs {α : Type} {step : α → α → Prop} {a b c : α} (hu : Relator.RightUnique step)
    (hb : Relation.ReflTransGen step a b) (hc : Relation.ReflTransGen step a c)
    (endb : ∀ d, ¬ step b d) (endc : ∀ d, ¬ step c d) : b = c := by
  rcases hb.total_of_right_unique hu hc with h | h
  · rcases h.cases_head with rfl | ⟨d, hd, -⟩
    · rfl
    · exact absurd hd (endb d)
  · rcases h.cases_head with rfl | ⟨d, hd, -⟩
    · rfl
    · exact absurd hd (endc d)

/-- A product goes on with an operand that starts in the last tokens, fewer than a bound. -/
inductive ProductStep (dialect : Dialect) (bound : Nat) :
    Expr × List Token → Expr × List Token → Prop where
  | multiplicative {left sign middle op right rest} :
      (sign :: middle).length < bound → (sign.kind, op) ∈ dialect.multiplicative →
      dialect.Derives .factor middle right rest →
      ProductStep dialect bound (left, sign :: middle) (.binary op left right, rest)
  | adjacent {left middle right rest} :
      middle.length < bound → dialect.Derives .primary middle right rest →
      ProductStep dialect bound (left, middle) (.binary .multiply left right, rest)

theorem productStep_unique {bound : Nat}
    (ihf : ∀ shorter, shorter.length < bound → dialect.Determined .factor shorter)
    (ihp : ∀ shorter, shorter.length < bound → dialect.Determined .primary shorter) :
    Relator.RightUnique (dialect.ProductStep bound) := by
  have free (rest : List Token) : Stops .factor rest ∧ Stops .primary rest :=
    ⟨fun _ _ => rfl, fun _ _ => rfl⟩
  intro state next found h k
  cases h with
  | multiplicative hb ho hd =>
    cases k with
    | multiplicative _ ko kd =>
      rw [List.length_cons] at hb
      obtain ⟨rfl, rfl⟩ := (ihf _ (by omega)).unique hd kd (free _).1 (free _).1
      rw [multiplicative_unique ho ko]
    | adjacent _ kd =>
      have hstart := kd.startsOperand
      rw [(continues_of_multiplicative ho).2] at hstart
      cases hstart
  | adjacent hb hd =>
    cases k with
    | multiplicative _ ko _ =>
      have hstart := hd.startsOperand
      rw [(continues_of_multiplicative ko).2] at hstart
      cases hstart
    | adjacent _ kd =>
      obtain ⟨rfl, rfl⟩ := (ihp _ hb).unique hd kd (free _).2 (free _).2
      rfl

theorem productStep_of_stops {bound : Nat} (h : Stops .product rest)
    (next : Expr × List Token) : ¬ dialect.ProductStep bound (tree, rest) next := by
  intro hstep
  cases hstep with
  | multiplicative _ ho _ =>
    have hc := (continues_of_multiplicative ho).1
    rw [stops_cons.mp h] at hc
    cases hc
  | adjacent _ hd =>
    rcases rest with _ | ⟨token, after⟩
    · exact absurd hd.length_lt (Nat.not_lt_zero _)
    · have hc := stops_cons.mp h
      rw [continues, hd.startsOperand] at hc
      cases hc

theorem product_run (h : dialect.Derives .product tokens tree rest) :
    ∃ first start, dialect.Derives .factor tokens first start ∧
      Relation.ReflTransGen (dialect.ProductStep tokens.length) (first, start) (tree, rest) := by
  generalize hs : Symbol.product = symbol at h
  induction h with
  | factor h _ => exact ⟨_, _, h, .refl⟩
  | multiplicative hl ho hr ih _ =>
    obtain ⟨first, start, hf, hrun⟩ := ih hs
    exact ⟨first, start, hf, hrun.tail (.multiplicative hl.length_lt ho hr)⟩
  | adjacent hl hr ih _ =>
    obtain ⟨first, start, hf, hrun⟩ := ih hs
    exact ⟨first, start, hf, hrun.tail (.adjacent hl.length_lt hr)⟩
  | _ => cases hs

theorem determined_product
    (ihf : ∀ shorter, shorter.length ≤ tokens.length → dialect.Determined .factor shorter)
    (ihp : ∀ shorter, shorter.length ≤ tokens.length → dialect.Determined .primary shorter) :
    dialect.Determined .product tokens := by
  refine ⟨fun h k hs ks => ?_⟩
  obtain ⟨first, start, hf, hrun⟩ := product_run h
  obtain ⟨found, place, kf, krun⟩ := product_run k
  obtain ⟨rfl, rfl⟩ := (ihf tokens (Nat.le_refl _)).unique hf kf (fun _ _ => rfl) (fun _ _ => rfl)
  have hunique := productStep_unique (fun shorter hb => ihf shorter (Nat.le_of_lt hb))
    (fun shorter hb => ihp shorter (Nat.le_of_lt hb))
  exact Prod.mk.inj (eq_of_runs hunique hrun krun (productStep_of_stops hs)
    (productStep_of_stops ks))

/-- A sum goes on with a product that starts in the last tokens, fewer than a bound. -/
inductive SumStep (dialect : Dialect) (bound : Nat) :
    Expr × List Token → Expr × List Token → Prop where
  | additive {left sign middle op right rest} :
      (sign :: middle).length < bound → (sign.kind, op) ∈ additive →
      dialect.Derives .product middle right rest → Stops .product rest →
      SumStep dialect bound (left, sign :: middle) (.binary op left right, rest)

theorem sumStep_unique {bound : Nat}
    (ih : ∀ shorter, shorter.length < bound → dialect.Determined .product shorter) :
    Relator.RightUnique (dialect.SumStep bound) := by
  intro state next found h k
  cases h with
  | additive hb ho hd hs =>
    cases k with
    | additive _ ko kd ks =>
      rw [List.length_cons] at hb
      obtain ⟨rfl, rfl⟩ := (ih _ (by omega)).unique hd kd hs ks
      rw [additive_unique ho ko]

theorem sumStep_of_stops {bound : Nat} (h : Stops .sum rest) (next : Expr × List Token) :
    ¬ dialect.SumStep bound (tree, rest) next := by
  intro hstep
  cases hstep with
  | additive _ ho _ _ =>
    have hc := (continues_of_additive ho).1
    rw [stops_cons.mp h] at hc
    cases hc

/-- The products of a sum end where nothing goes on with them, for a sign of the sum follows. -/
theorem sum_run (h : dialect.Derives .sum tokens tree rest) (hs : Stops .product rest) :
    ∃ first start, dialect.Derives .product tokens first start ∧ Stops .product start ∧
      Relation.ReflTransGen (dialect.SumStep tokens.length) (first, start) (tree, rest) := by
  generalize he : Symbol.sum = symbol at h
  induction h with
  | product h _ => exact ⟨_, _, h, hs, .refl⟩
  | additive hl ho hr ih _ =>
    obtain ⟨first, start, hp, hstart, hrun⟩ :=
      ih (stops_cons.mpr (continues_of_additive ho).2) he
    exact ⟨first, start, hp, hstart, hrun.tail (.additive hl.length_lt ho hr hs)⟩
  | _ => cases he

theorem determined_sum
    (ih : ∀ shorter, shorter.length ≤ tokens.length → dialect.Determined .product shorter) :
    dialect.Determined .sum tokens := by
  refine ⟨fun h k hs ks => ?_⟩
  obtain ⟨first, start, hp, hstop, hrun⟩ := sum_run h hs.product
  obtain ⟨found, place, kp, kstop, krun⟩ := sum_run k ks.product
  obtain ⟨rfl, rfl⟩ := (ih tokens (Nat.le_refl _)).unique hp kp hstop kstop
  have hunique := sumStep_unique fun shorter hb => ih shorter (Nat.le_of_lt hb)
  exact Prod.mk.inj (eq_of_runs hunique hrun krun (sumStep_of_stops hs) (sumStep_of_stops ks))

/-! ### Whole texts -/

theorem determined (dialect : Dialect) (symbol : Symbol) (tokens : List Token) :
    dialect.Determined symbol tokens := by
  -- each symbol needs the tighter ones of the same tokens, and all of them of shorter ones
  have all (n : Nat) : ∀ tokens : List Token, tokens.length ≤ n → ∀ symbol,
      dialect.Determined symbol tokens := by
    induction n with
    | zero =>
      intro tokens hn symbol
      exact ⟨fun h _ _ _ => absurd h.length_lt (by omega)⟩
    | succ n ih =>
      have shorter {tokens : List Token} (hn : tokens.length ≤ n + 1) (symbol : Symbol) :
          ∀ shorter : List Token, shorter.length < tokens.length →
            dialect.Determined symbol shorter :=
        fun shorter hs => ih shorter (by omega) symbol
      have primary (tokens : List Token) (hn : tokens.length ≤ n + 1) :
          dialect.Determined .primary tokens := determined_primary (shorter hn .sum)
      have factor (tokens : List Token) (hn : tokens.length ≤ n + 1) :
          dialect.Determined .factor tokens :=
        determined_factor (shorter hn .factor) (primary tokens hn)
      have product (tokens : List Token) (hn : tokens.length ≤ n + 1) :
          dialect.Determined .product tokens :=
        determined_product (fun found hf => factor found (by omega))
          (fun found hf => primary found (by omega))
      intro tokens hn symbol
      cases symbol with
      | primary => exact primary tokens hn
      | factor => exact factor tokens hn
      | product => exact product tokens hn
      | sum => exact determined_sum fun found hf => product found (by omega)
  exact all tokens.length tokens (Nat.le_refl _) symbol

theorem Derives.unique (h : dialect.Derives .sum tokens tree [])
    (k : dialect.Derives .sum tokens other []) : tree = other :=
  ((dialect.determined .sum tokens).unique h k (stops_nil _) (stops_nil _)).1

end

end Dialect

end SpriteFormula
