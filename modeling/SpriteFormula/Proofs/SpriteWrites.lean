import SpriteFormula.Proofs.PostfixEvaluation
import SpriteFormula.Proofs.StackOutline

/-!
What runs write into a sprite. The directives of a run take values off the stack, and what is taken
does not depend on the sprite. Each part of the sprite then holds the last value that it could take
of those taken for it, and a part that took none is left alone.
-/

namespace SpriteFormula

/-- A value that a directive takes off the stack. -/
structure Write where
  directive : Directive
  value : Value
  deriving DecidableEq, Repr

/-- Whether the part of the sprite can take a number: a NaN is no direction, and an animation has a
finite index that is not below zero. -/
def Directive.takes : Directive → Binary64 → Bool
  | .direction, value => !value.isNaN
  | .animation, value => value.isFinite && !value.lt .zero
  | .var _, _ => true
  | .hitboxTop, _ => true

namespace Write

/-- The number that comes to a part of the sprite by the write, if one does. -/
def number? (d : Directive) (write : Write) : Option Binary64 :=
  if write.directive = d then write.value.filter d.takes else none

/-- The last number that comes to a part of the sprite by some writes, if one does. -/
def last? (d : Directive) (writes : List Write) : Option Binary64 :=
  (writes.filterMap (number? d)).getLast?

def applyTo (sprite : Option Sprite) (write : Write) : Option Sprite :=
  write.directive.applyTo write.value sprite

theorem last_cons (d : Directive) (write : Write) (rest : List Write) :
    last? d (write :: rest) = (last? d rest).or (write.number? d) := by
  unfold last?
  cases h : write.number? d with
  | none => rw [List.filterMap_cons_none h, Option.or_none]
  | some value => rw [List.filterMap_cons_some h, List.getLast?_cons, Option.or_some]

theorem last_single (d : Directive) (write : Write) : last? d [write] = write.number? d := by
  rw [last_cons]
  exact Option.none_or

theorem number_self {d : Directive} {value : Binary64} (h : d.takes value) :
    number? d ⟨d, some value⟩ = some value := by
  rw [number?, if_pos rfl, Option.filter_some, if_pos h]

theorem number_other {d other : Directive} (h : other ≠ d) (value : Value) :
    number? d ⟨other, value⟩ = none := if_neg h

/-- Only the writes to a part have a say in what comes to it. -/
theorem last_filter (d : Directive) (writes : List Write) :
    last? d (writes.filter fun write => write.directive = d) = last? d writes := by
  unfold last?
  rw [List.filterMap_filter]
  congr 2
  funext write
  by_cases h : write.directive = d
  · rw [if_pos (decide_eq_true h)]
  · rw [if_neg (by simpa using h), number?, if_neg h]

end Write

/-- The sprite after some writes: each part is what the last number that came to it makes of it, or
else what it was. -/
structure Sprite.WrittenBy (initial : Sprite) (writes : List Write) (final : Sprite) : Prop where
  hitboxTop : final.hitboxTop = (Write.last? .hitboxTop writes).getD initial.hitboxTop
  vars : ∀ name : String,
    final.vars[name]? = (Write.last? (.var name) writes).or initial.vars[name]?
  direction : final.direction =
    ((Write.last? .direction writes).map Direction.ofValue).getD initial.direction
  animation : final.animation =
    ((Write.last? .animation writes).map fun value =>
      Nat.min Sprite.lastAnimation value.round.toNat).or initial.animation

namespace Sprite

variable {initial middle final other : Sprite} {writes others : List Write}

theorem WrittenBy.nil : initial.WrittenBy [] initial :=
  ⟨rfl, fun _ => rfl, rfl, rfl⟩

theorem WrittenBy.cons {write : Write} (first : initial.WrittenBy [write] middle)
    (rest : middle.WrittenBy writes final) : initial.WrittenBy (write :: writes) final := by
  constructor
  · rw [rest.hitboxTop, first.hitboxTop, Write.last_single, Write.last_cons, Option.getD_or]
  · intro name
    rw [rest.vars, first.vars, Write.last_single, Write.last_cons, Option.or_assoc]
  · rw [rest.direction, first.direction, Write.last_single, Write.last_cons, Option.map_or,
      Option.getD_or]
  · rw [rest.animation, first.animation, Write.last_single, Write.last_cons, Option.map_or,
      Option.or_assoc]

/-- Writes that bring the same number to each part leave the same sprite. -/
theorem WrittenBy.eq_of_last (h : initial.WrittenBy writes final)
    (ho : initial.WrittenBy others other)
    (hl : ∀ d, Write.last? d writes = Write.last? d others) : final = other := by
  obtain ⟨direction, vars, hitboxTop, animation⟩ := final
  obtain ⟨direction', vars', hitboxTop', animation'⟩ := other
  have hd := h.direction.trans ((hl .direction ▸ ho.direction).symm)
  have ht := h.hitboxTop.trans ((hl .hitboxTop ▸ ho.hitboxTop).symm)
  have ha := h.animation.trans ((hl .animation ▸ ho.animation).symm)
  have hv : vars = vars' := by
    apply Std.ExtTreeMap.ext_getElem?
    intro name
    exact (h.vars name).trans ((hl (.var name) ▸ ho.vars name).symm)
  cases hd
  cases ht
  cases ha
  cases hv
  rfl

/-- A write that brings no part a number leaves the sprite alone. -/
theorem WrittenBy.unchanged {write : Write} (h : ∀ d, write.number? d = none) :
    initial.WrittenBy [write] initial := by
  have hl (d : Directive) : Write.last? d [write] = none := (Write.last_single d write).trans (h d)
  constructor <;> simp only [hl] <;> intros <;> rfl

/-- A number that a part of the sprite can take changes this part only. -/
theorem writtenBy_of_takes {d : Directive} {value : Binary64} (h : d.takes value) :
    ∃ final, d.write? initial value = some final ∧ initial.WrittenBy [⟨d, some value⟩] final := by
  have self : Write.last? d [⟨d, some value⟩] = some value := by
    rw [Write.last_single, Write.number_self h]
  have other (part : Directive) (hp : d ≠ part) : Write.last? part [⟨d, some value⟩] = none := by
    rw [Write.last_single, Write.number_other hp]
  cases d with
  | direction =>
    have hn : value.isNaN = false := by simpa [Directive.takes] using h
    refine ⟨{ initial with direction := .ofValue value }, by simp [Directive.write?, hn], ?_⟩
    constructor
    · rw [other .hitboxTop nofun]; rfl
    · intro name; rw [other (.var name) nofun]; rfl
    · rw [self]; rfl
    · rw [other .animation nofun]; rfl
  | var name =>
    refine ⟨{ initial with vars := initial.vars.insert name value }, rfl, ?_⟩
    constructor
    · rw [other .hitboxTop nofun]; rfl
    · intro key
      change (initial.vars.insert name value)[key]? = _
      rw [Std.ExtTreeMap.getElem?_insert]
      by_cases hk : name = key
      · rw [← hk, self, if_pos Std.ReflCmp.compare_self]; rfl
      · have hc : compare name key ≠ .eq := fun he => hk (Std.LawfulEqCmp.eq_of_compare he)
        rw [other (.var key) (by simpa using hk), if_neg hc]; rfl
    · rw [other .direction nofun]; rfl
    · rw [other .animation nofun]; rfl
  | hitboxTop =>
    refine ⟨{ initial with hitboxTop := value }, rfl, ?_⟩
    constructor
    · rw [self]; rfl
    · intro name; rw [other (.var name) nofun]; rfl
    · rw [other .direction nofun]; rfl
    · rw [other .animation nofun]; rfl
  | animation =>
    refine ⟨{ initial with animation := some (Nat.min lastAnimation value.round.toNat) }, ?_, ?_⟩
    · exact if_pos h
    constructor
    · rw [other .hitboxTop nofun]; rfl
    · intro name; rw [other (.var name) nofun]; rfl
    · rw [other .direction nofun]; rfl
    · rw [self]; rfl

theorem write_of_not_takes {d : Directive} {value : Binary64} (h : d.takes value = false)
    (sprite : Sprite) : d.write? sprite value = none := by
  cases d with
  | direction =>
    have hn : value.isNaN = true := by simpa [Directive.takes] using h
    simp [Directive.write?, hn]
  | var name => cases h
  | hitboxTop => cases h
  | animation => exact if_neg (by simpa [Directive.takes] using h)

theorem writtenBy_single (initial : Sprite) (write : Write) :
    ∃ final, write.applyTo (some initial) = some final ∧ initial.WrittenBy [write] final := by
  obtain ⟨directive, value⟩ := write
  cases value with
  | none =>
    refine ⟨initial, rfl, .unchanged fun d => ?_⟩
    rw [Write.number?]
    split <;> rfl
  | some value =>
    cases ht : directive.takes value with
    | true =>
      obtain ⟨final, hw, h⟩ := initial.writtenBy_of_takes ht
      refine ⟨final, ?_, h⟩
      simp only [Write.applyTo, Directive.applyTo, hw, Option.getD_some]
    | false =>
      refine ⟨initial, ?_, .unchanged fun d => ?_⟩
      · simp only [Write.applyTo, Directive.applyTo, write_of_not_takes ht, Option.getD_none]
      · rw [Write.number?]
        split
        · next hd =>
          cases hd
          rw [Option.filter_some, ht]
          rfl
        · rfl

/-- Writes one after the other leave the sprite that they write. -/
theorem exists_writtenBy (initial : Sprite) (writes : List Write) :
    ∃ final, writes.foldl Write.applyTo (some initial) = some final ∧
      initial.WrittenBy writes final := by
  induction writes generalizing initial with
  | nil => exact ⟨initial, rfl, .nil⟩
  | cons write rest ih =>
    obtain ⟨middle, hm, first⟩ := initial.writtenBy_single write
    obtain ⟨final, hf, others⟩ := ih middle
    exact ⟨final, by rw [List.foldl_cons, hm, hf], first.cons others⟩

end Sprite

/-! ### Runs -/

namespace Machine

variable {env : Environment} {machine next : Machine} {i : Instruction}

/-- What an instruction takes off the stack for the sprite. -/
def taken (machine : Machine) : Instruction → List Write
  | .directive d => machine.stack.head?.toList.map fun value => ⟨d, value⟩
  | _ => []

/-- A step writes what it takes and nothing else. -/
theorem sprite_step (h : machine.step? env i = some next) :
    next.sprite = (machine.taken i).foldl Write.applyTo machine.sprite := by
  have enough := enough_of_step h
  obtain ⟨stack, sprite⟩ := machine
  replace enough : i.arity ≤ stack.length := enough
  cases enough using Instruction.enough_cases
  all_goals
    cases h
    rfl

/-- What a step makes of the stack does not depend on the sprite. -/
theorem step_sprite (env : Environment) (stack : List Value) (i : Instruction)
    (sprite other : Option Sprite) :
    (step? env ⟨stack, sprite⟩ i = none ∧ step? env ⟨stack, other⟩ i = none) ∨
      ∃ next left right, step? env ⟨stack, sprite⟩ i = some ⟨next, left⟩ ∧
        step? env ⟨stack, other⟩ i = some ⟨next, right⟩ := by
  by_cases h : i.arity ≤ stack.length
  · refine .inr ?_
    cases h using Instruction.enough_cases
    all_goals exact ⟨_, _, _, rfl, rfl⟩
  · exact .inl ⟨step_of_short (Nat.not_le.mp h), step_of_short (Nat.not_le.mp h)⟩

end Machine

namespace Program

/-- What the directives of a run take off the stack, in the order of the run. -/
def takenFrom (env : Environment) (machine : Machine) : Program → List Write
  | [] => []
  | i :: rest =>
    match machine.step? env i with
    | none => []
    | some next => machine.taken i ++ takenFrom env next rest

/-- What the directives of a program take off the stack. No sprite is attached, for it would make no
difference. -/
def writes (env : Environment) (program : Program) : List Write := program.takenFrom env {}

/-- Whether a sprite is attached, and which, makes no difference to what is taken. -/
theorem takenFrom_sprite (env : Environment) (program : Program) (stack : List Value)
    (sprite other : Option Sprite) :
    program.takenFrom env ⟨stack, sprite⟩ = program.takenFrom env ⟨stack, other⟩ := by
  induction program generalizing stack sprite other with
  | nil => rfl
  | cons i rest ih =>
    rw [takenFrom, takenFrom]
    rcases Machine.step_sprite env stack i sprite other with ⟨hs, ho⟩ | ⟨next, left, right, hs, ho⟩
    · rw [hs, ho]
    · simp only [hs, ho, ih next left right]
      rfl

/-- A run writes what it takes, also where it stops. -/
theorem sprite_execute (env : Environment) (program : Program) (position : Nat)
    (machine : Machine) :
    (program.execute env position machine).machine.sprite =
      (program.takenFrom env machine).foldl Write.applyTo machine.sprite := by
  induction program generalizing position machine with
  | nil => rfl
  | cons i rest ih =>
    cases hs : machine.step? env i with
    | none => simp only [execute, takenFrom, hs, List.foldl_nil]
    | some next =>
      simp only [execute, takenFrom, hs, List.foldl_append]
      rw [ih, Machine.sprite_step hs]

/-- The sprite after a run on a machine, whatever an earlier run left on its stack. -/
theorem sprite_runOn (env : Environment) (machine : Machine) (program : Program) :
    (program.runOn env machine).machine.sprite =
      (program.writes env).foldl Write.applyTo machine.sprite := by
  rw [machine_runOn, sprite_execute, writes, takenFrom_sprite env program [] machine.sprite none]

end Program

/-! ### Programs read as trees -/

/-- What a statement writes: the value of its expression. -/
def Statement.write (env : Environment) (statement : Statement) : Write :=
  ⟨statement.directive, statement.value.eval env⟩

namespace Outline

variable {env : Environment} {values next : List Expr} {i : Instruction}

/-- Where the stack holds the values of trees, a step leaves the values of the trees that reading
leaves, and it takes what reading assigns. -/
theorem step_of_push (h : push? values i = some next) (sprite : Option Sprite) :
    ∃ after,
      Machine.step? env ⟨values.map (Expr.eval env), sprite⟩ i =
        some ⟨next.map (Expr.eval env), after⟩ ∧
      Machine.taken ⟨values.map (Expr.eval env), sprite⟩ i =
        (assigned values i).map (Statement.write env) := by
  have enough := enough_of_push h
  cases enough using Instruction.enough_cases with
  | operator op right left values =>
    cases h
    refine ⟨sprite, ?_, rfl⟩
    simp only [List.map_cons, ← Expr.onValues_eval]
    rfl
  | unary f argument values =>
    cases h
    refine ⟨sprite, ?_, rfl⟩
    simp only [List.map_cons, ← Expr.apply_eval]
    rfl
  | extremum f right left values =>
    cases h
    refine ⟨sprite, ?_, rfl⟩
    simp only [List.map_cons, ← Expr.extremum_eval]
    rfl
  | _ =>
    cases h
    exact ⟨_, rfl, rfl⟩

/-- A program takes the values of the statements that it is read as, in their order. An expression
may wait on the stack while others are written, for writing changes no value. -/
theorem takenFrom_of_readFrom {refuse : Binary64 → Option EncodeError} {program : Program}
    {position : Nat} {outline : Outline}
    (h : readFrom refuse position values program = .ok outline) (sprite : Option Sprite) :
    program.takenFrom env ⟨values.map (Expr.eval env), sprite⟩ =
      outline.statements.map (Statement.write env) := by
  -- the sprite is another one after each directive, so the induction is over all of them
  induction program generalizing position values outline sprite with
  | nil =>
    cases h
    rfl
  | cons i rest ih =>
    obtain ⟨next, read, -, hp, hr, rfl⟩ := readFrom_cons_ok h
    obtain ⟨after, hs, ht⟩ := step_of_push hp sprite
    rw [Program.takenFrom, hs]
    simp only [ht, ih hr after, List.map_append]

end Outline

/-- What a program takes off the stack is what its statements write. -/
theorem Program.writes_of_readFrom {refuse : Binary64 → Option EncodeError} {program : Program}
    {outline : Outline} (h : Outline.readFrom refuse 0 [] program = .ok outline)
    (env : Environment) :
    program.writes env = outline.statements.map (Statement.write env) :=
  Outline.takenFrom_of_readFrom h none

/-- What statements write, one after the other. -/
theorem Program.writes_statements (env : Environment) (statements : List Statement) :
    writes env (statements.flatMap Statement.program) = statements.map (Statement.write env) :=
  writes_of_readFrom (Outline.readFrom_statements (Outline.accepts_all _) 0) env

end SpriteFormula
