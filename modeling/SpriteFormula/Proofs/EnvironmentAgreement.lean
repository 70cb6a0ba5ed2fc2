import SpriteFormula.Proofs.SpriteWrites

/-!
A run asks its environment for the variables of its program and for nothing else, and it never reads
the sprite. Two environments that give the same numbers to these variables therefore give the same
run, and another sprite changes only what is written to it and the warnings about that.
-/

namespace SpriteFormula

/-- The environments give the same number, or none, to each variable of the program. -/
def Environment.AgreeOn (program : Program) (env other : Environment) : Prop :=
  ∀ name, .var name ∈ program → env.lookup name = other.lookup name

/-- The number that the table gives a name, if there is a table and it binds the name to a number. -/
def Environment.tableNumber? (env : Environment) (name : String) : Option Binary64 :=
  (env.bindings.bind fun bindings => bindings.find? name).bind Bindings.number?

/-- The place of the division by zero that a warning is about, if it is about one. -/
def Warning.division? : Warning → Option Nat
  | .divisionByZero position => some position
  | .ignoredValue .. => none

/-- The places of the divisions by zero that a run warns about, in its order. -/
def Outcome.divisions (outcome : Outcome) : List Nat :=
  outcome.warnings.filterMap Warning.division?

/-! ### Environments -/

namespace Environment

variable {env other : Environment} {program : Program}

theorem lookup_of_ne {name : String} (h : name ≠ positional) :
    env.lookup name = env.tableNumber? name := by
  unfold lookup bound? tableNumber?
  rw [if_neg h, if_neg h]

theorem lookup_positional : env.lookup positional = some env.x := rfl

/-- The positional parameter counts only where the program names it. The table counts only for the
other names of the program, and only by the numbers that the bound texts stand for. -/
theorem agreeOn_iff :
    AgreeOn program env other ↔
      (.var positional ∈ program → env.x = other.x) ∧
      ∀ name, .var name ∈ program → name ≠ positional →
        env.tableNumber? name = other.tableNumber? name := by
  constructor
  · intro agree
    constructor
    · intro hx
      have h := agree positional hx
      rw [lookup_positional, lookup_positional] at h
      exact Option.some.inj h
    · intro name hn hp
      have h := agree name hn
      rwa [lookup_of_ne hp, lookup_of_ne hp] at h
  · rintro ⟨same, numbers⟩ name hn
    by_cases hp : name = positional
    · rw [hp] at hn ⊢
      rw [lookup_positional, lookup_positional, same hn]
    · rw [lookup_of_ne hp, lookup_of_ne hp]
      exact numbers name hn hp

theorem AgreeOn.tail {i : Instruction} {rest : Program} (h : AgreeOn (i :: rest) env other) :
    AgreeOn rest env other :=
  fun name hn => h name (List.mem_cons_of_mem i hn)

theorem AgreeOn.step {i : Instruction} {rest : Program} (h : AgreeOn (i :: rest) env other)
    (machine : Machine) : machine.step? env i = machine.step? other i := by
  cases i with
  | var name =>
    have hn : env.lookup name = other.lookup name := h name List.mem_cons_self
    unfold Machine.step?
    dsimp only
    rw [hn]
  | function f => cases f <;> rfl
  | _ => rfl

end Environment

/-! ### The same machine in two environments -/

/-- A step warns about the values it takes, which lie on the stack already. -/
theorem Machine.stepWarnings_environment (env other : Environment) (position : Nat)
    (machine : Machine) (i : Instruction) :
    (machine.stepRecords env position i).filterMap Record.warning? =
      (machine.stepRecords other position i).filterMap Record.warning? := by
  cases i with
  | var name => exact (env.warnings_lookupRecords name).trans (other.warnings_lookupRecords name).symm
  | _ => rfl

/-- The runs leave the same machine, stop at the same place if they stop, and give the same warnings.
What they look up may be spelled otherwise, so their other records need not agree. -/
structure Outcome.Matches (outcome other : Outcome) : Prop where
  machine : outcome.machine = other.machine
  fault : outcome.fault = other.fault
  warnings : outcome.warnings = other.warnings

namespace Program

theorem execute_matches {env other : Environment} {program : Program}
    (agree : env.AgreeOn program other) (position : Nat) (machine : Machine) :
    (program.execute env position machine).Matches (program.execute other position machine) := by
  induction program generalizing position machine with
  | nil => exact ⟨rfl, rfl, rfl⟩
  | cons i rest ih =>
    have same : machine.step? env i = machine.step? other i := agree.step machine
    cases hs : machine.step? env i with
    | none =>
      rw [execute_short hs, execute_short (same.symm.trans hs)]
      exact ⟨rfl, rfl, rfl⟩
    | some next =>
      have h := ih agree.tail (position + 1) next
      rw [execute_cons hs, execute_cons (same.symm.trans hs)]
      refine ⟨h.machine, h.fault, ?_⟩
      rw [Outcome.warnings_after, Outcome.warnings_after, h.warnings]
      apply congrArg (· ++ _)
      exact machine.stepWarnings_environment env other position i

end Program

/-! ### The same environment with another sprite -/

/-- The runs compute the same: they leave the same values, stop at the same place if they stop, and
warn about the same divisions. -/
structure Outcome.Computes (outcome other : Outcome) : Prop where
  stack : outcome.machine.stack = other.machine.stack
  fault : outcome.fault = other.fault
  divisions : outcome.divisions = other.divisions

namespace Outcome

variable {outcome other : Outcome}

theorem divisions_after (records : List Record) :
    (outcome.after records).divisions =
      (records.filterMap Record.warning?).filterMap Warning.division? ++ outcome.divisions := by
  unfold divisions
  rw [warnings_after, List.filterMap_append]

theorem Computes.result (h : outcome.Computes other) : outcome.result = other.result := by
  unfold Outcome.result
  rw [h.fault, h.stack]

theorem Matches.computes (h : outcome.Matches other) : outcome.Computes other := by
  refine ⟨congrArg Machine.stack h.machine, h.fault, ?_⟩
  unfold divisions
  rw [h.warnings]

theorem Computes.trans {last : Outcome} (h : outcome.Computes other) (k : other.Computes last) :
    outcome.Computes last :=
  ⟨h.stack.trans k.stack, h.fault.trans k.fault, h.divisions.trans k.divisions⟩

end Outcome

/-- A directive warns about a value that its part of the sprite cannot take, never about a
division. -/
theorem Directive.divisions_records (d : Directive) (value : Value) (sprite : Option Sprite) :
    ((d.records value sprite).filterMap Record.warning?).filterMap Warning.division? = [] := by
  rw [List.filterMap_filterMap]
  apply List.filterMap_eq_nil_iff.mpr
  intro record hr
  rcases mem_records hr with rfl | ⟨number, rfl⟩ | ⟨number, rfl⟩
  · rfl
  · rfl
  · rfl

theorem Machine.stepDivisions_sprite (env : Environment) (position : Nat) (stack : List Value)
    (sprite other : Option Sprite) (i : Instruction) :
    ((stepRecords env position ⟨stack, sprite⟩ i).filterMap Record.warning?).filterMap
        Warning.division? =
      ((stepRecords env position ⟨stack, other⟩ i).filterMap Record.warning?).filterMap
        Warning.division? := by
  cases i with
  | directive d =>
    cases stack with
    | nil => rfl
    | cons value stack =>
      exact (d.divisions_records value sprite).trans (d.divisions_records value other).symm
  | _ => rfl

namespace Program

theorem execute_computes (env : Environment) (program : Program) (position : Nat)
    (stack : List Value) (sprite other : Option Sprite) :
    (program.execute env position ⟨stack, sprite⟩).Computes
      (program.execute env position ⟨stack, other⟩) := by
  -- a directive leaves each run with a sprite of its own, so the induction is over all sprites
  induction program generalizing position stack sprite other with
  | nil => exact ⟨rfl, rfl, rfl⟩
  | cons i rest ih =>
    rcases Machine.step_sprite env stack i sprite other with ⟨hs, ho⟩ | ⟨next, left, right, hs, ho⟩
    · rw [execute_short hs, execute_short ho]
      exact ⟨rfl, rfl, rfl⟩
    · have h := ih (position + 1) next left right
      rw [execute_cons hs, execute_cons ho]
      refine ⟨h.stack, h.fault, ?_⟩
      rw [Outcome.divisions_after, Outcome.divisions_after, h.divisions]
      apply congrArg (· ++ _)
      exact Machine.stepDivisions_sprite env position stack sprite other i

/-! ### Whole runs -/

variable {env other : Environment} {program : Program}

theorem runOn_matches (agree : env.AgreeOn program other) (machine : Machine) :
    (program.runOn env machine).Matches (program.runOn other machine) := by
  have h := execute_matches agree 0 { machine with stack := [] }
  constructor
  · rw [machine_runOn, machine_runOn, h.machine]
  · rw [fault_runOn, fault_runOn, h.fault]
  · rw [warnings_runOn, warnings_runOn, h.warnings]

theorem runOn_computes (env : Environment) (program : Program) (machine last : Machine) :
    (program.runOn env machine).Computes (program.runOn env last) := by
  have h := execute_computes env program 0 [] machine.sprite last.sprite
  constructor
  · rw [machine_runOn, machine_runOn, h.stack]
  · rw [fault_runOn, fault_runOn, h.fault]
  · unfold Outcome.divisions
    rw [warnings_runOn, warnings_runOn]
    exact h.divisions

end Program

/-- What a program evaluates to, and which of its divisions are by zero, depends on the numbers of
the variables it names and on nothing else: not on the sprite, not on other entries of the table, not
on the spelling of a number. With equal sprites the runs also write the same and warn the same. -/
theorem evaluation_reads_named_variables (program : Program) (env other : Environment) :
    (env.AgreeOn program other ↔
      (.var positional ∈ program → env.x = other.x) ∧
      ∀ name, .var name ∈ program → name ≠ positional →
        env.tableNumber? name = other.tableNumber? name) ∧
    (env.AgreeOn program other → ∀ machine last : Machine,
      (program.runOn env machine).result = (program.runOn other last).result ∧
      (program.runOn env machine).divisions = (program.runOn other last).divisions ∧
      (machine.sprite = last.sprite →
        (program.runOn env machine).machine.sprite = (program.runOn other last).machine.sprite ∧
        (program.runOn env machine).warnings = (program.runOn other last).warnings)) := by
  constructor
  · exact Environment.agreeOn_iff
  · intro agree machine last
    have hm := Program.runOn_matches agree machine
    have h := hm.computes.trans (Program.runOn_computes other program machine last)
    refine ⟨h.result, h.divisions, fun same => ?_⟩
    have hl : program.runOn other machine = program.runOn other last := by
      unfold Program.runOn
      rw [same]
    rw [← hl]
    exact ⟨congrArg Machine.sprite hm.machine, hm.warnings⟩

/-- The environments differ in the parameter, in the entry that has its name, in an entry for another
name and in the spelling of the speed, which is divided by zero before the sum underflows. -/
theorem spelling_and_parameter_make_no_difference :
    let program : Program := [.var "speed", .constant .zero, .operator .divide,
      .directive .animation, .var "speed", .var "size", .function (.extremum .max), .operator .add]
    let env : Environment := { x := .one, bindings := some [("speed", " 2.5 "), ("x", "9")] }
    let other : Environment := { bindings := some [("age", "1"), ("speed", "2.50")] }
    env.AgreeOn program other ∧
      (program.runOn env ⟨[none], some {}⟩).result = .error ⟨7, .operator .add⟩ ∧
      (program.runOn other ⟨[], none⟩).result = .error ⟨7, .operator .add⟩ ∧
      (program.runOn env ⟨[none], some {}⟩).divisions = [2] ∧
      (program.runOn other ⟨[], none⟩).divisions = [2] := by
  intro program env other
  obtain ⟨agree_iff, same⟩ := evaluation_reads_named_variables program env other
  have agree : env.AgreeOn program other := by
    apply agree_iff.mpr
    constructor
    · intro hx
      exact absurd hx (by decide)
    · intro name hn _
      have names : name = "speed" ∨ name = "size" := by
        simpa [program] using hn
      rcases names with rfl | rfl
      · decide +kernel
      · decide +kernel
  obtain ⟨result, divisions, -⟩ := same agree ⟨[none], some {}⟩ ⟨[], none⟩
  have fails : (program.runOn env ⟨[none], some {}⟩).result = .error ⟨7, .operator .add⟩ := by
    decide +kernel
  have divides : (program.runOn env ⟨[none], some {}⟩).divisions = [2] := by
    decide +kernel
  exact ⟨agree, fails, result.symm.trans fails, divides, divisions.symm.trans divides⟩

end SpriteFormula
