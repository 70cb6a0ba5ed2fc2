import SpriteFormula.Proofs.ProgramRuns
import SpriteFormula.Proofs.StackOutline

/-!
A program that leaves nothing hands an empty stack on, so what stands behind it runs as it would run
by itself on a new machine. Only the positions that the run names are further on.
-/

namespace SpriteFormula

/-! ### Runs that start further on -/

def Underflow.later (distance : Nat) (fault : Underflow) : Underflow :=
  { fault with position := fault.position + distance }

/-- The warning of a run that starts further on. Only a division names its place. -/
def Warning.later (distance : Nat) : Warning → Warning
  | .divisionByZero position => .divisionByZero (position + distance)
  | .ignoredValue d value => .ignoredValue d value

def Record.later (distance : Nat) : Record → Record
  | .step position i => .step (position + distance) i
  | .warning w => .warning (w.later distance)
  | record => record

theorem Record.warning_later (distance : Nat) (record : Record) :
    (record.later distance).warning? = record.warning?.map (Warning.later distance) := by
  cases record with
  | warning w => rfl
  | _ => rfl

/-- The same outcome of a run that starts further on. -/
def Outcome.later (distance : Nat) (outcome : Outcome) : Outcome where
  machine := outcome.machine
  records := outcome.records.map (Record.later distance)
  fault := outcome.fault.map (Underflow.later distance)

namespace Outcome

variable {outcome : Outcome} {distance : Nat} {records : List Record}

theorem warnings_later :
    (outcome.later distance).warnings = outcome.warnings.map (Warning.later distance) := by
  unfold warnings later
  rw [List.filterMap_map, List.map_filterMap]
  congr 1
  funext record
  exact record.warning_later distance

theorem result_later :
    (outcome.later distance).result = outcome.result.mapError (Underflow.later distance) := by
  obtain ⟨machine, records, fault⟩ := outcome
  cases fault with
  | none => rfl
  | some fault => rfl

theorem result_after : (outcome.after records).result = outcome.result := rfl

theorem later_after :
    (outcome.after records).later distance =
      (outcome.later distance).after (records.map (Record.later distance)) := by
  unfold later after
  rw [List.map_append]

theorem surplusRecords_later (outcome : Outcome) (distance : Nat) :
    (outcome.later distance).surplusRecords =
      outcome.surplusRecords.map (Record.later distance) := by
  have hf : (outcome.later distance).fault.isNone = outcome.fault.isNone := Option.isNone_map
  have hm : (outcome.later distance).machine = outcome.machine := rfl
  unfold surplusRecords
  rw [hf, hm]
  split
  · rfl
  · rfl

theorem finished_later : (outcome.later distance).finished = outcome.finished.later distance := by
  unfold finished
  rw [surplusRecords_later]
  unfold later
  rw [List.map_append]

theorem finished_after : (outcome.after records).finished = outcome.finished.after records := by
  have hs : (outcome.after records).surplusRecords = outcome.surplusRecords := rfl
  unfold finished
  rw [hs]
  unfold after
  rw [List.append_assoc]

end Outcome

/-! ### Steps and runs -/

theorem Environment.lookupRecords_later (env : Environment) (name : String) (distance : Nat) :
    (env.lookupRecords name).map (Record.later distance) = env.lookupRecords name := by
  refine (List.map_congr_left fun record hr => ?_).trans (List.map_id _)
  obtain ⟨value, rfl⟩ := mem_lookupRecords hr
  rfl

theorem Directive.records_later (d : Directive) (value : Value) (sprite : Option Sprite)
    (distance : Nat) :
    (d.records value sprite).map (Record.later distance) = d.records value sprite := by
  refine (List.map_congr_left fun record hr => ?_).trans (List.map_id _)
  rcases mem_records hr with rfl | ⟨number, rfl⟩ | ⟨number, rfl⟩
  · rfl
  · rfl
  · rfl

theorem Machine.stepRecords_later (env : Environment) (position distance : Nat)
    (machine : Machine) (i : Instruction) :
    machine.stepRecords env (position + distance) i =
      (machine.stepRecords env position i).map (Record.later distance) := by
  cases i with
  | var name => exact (env.lookupRecords_later name distance).symm
  | operator op =>
    unfold Machine.stepRecords
    dsimp only
    split
    · split
      · rfl
      · rfl
    · rfl
  | directive d =>
    unfold Machine.stepRecords
    dsimp only
    split
    · exact (d.records_later _ _ distance).symm
    · rfl
  | _ => rfl

namespace Program

/-- A run that starts further on does the same and names the positions further on. -/
theorem execute_later (env : Environment) (program : Program) (position distance : Nat)
    (machine : Machine) :
    program.execute env (position + distance) machine =
      (program.execute env position machine).later distance := by
  induction program generalizing position machine with
  | nil => rfl
  | cons i rest ih =>
    cases hs : machine.step? env i with
    | none =>
      rw [execute_short hs, execute_short hs]
      rfl
    | some next =>
      have hr := ih (position + 1) next
      rw [Nat.add_right_comm] at hr
      rw [execute_cons hs, execute_cons hs, hr, Machine.stepRecords_later, Outcome.later_after]
      rfl

/-- From an empty stack, a program that leaves nothing comes to its end with an empty stack. -/
theorem execute_of_balanced {program : Program} (balanced : program.depthFrom 0 0 = .ok 0)
    (env : Environment) (sprite : Option Sprite) :
    ∃ left, (program.execute env 0 ⟨[], sprite⟩).fault = none ∧
      (program.execute env 0 ⟨[], sprite⟩).machine = ⟨[], left⟩ := by
  have start : program.depthFrom 0 (Machine.mk [] sprite).stack.length = .ok 0 := balanced
  obtain ⟨ends, length⟩ := execute_of_depth env start
  generalize (program.execute env 0 ⟨[], sprite⟩).machine = last at length
  obtain ⟨stack, left⟩ := last
  obtain rfl := List.length_eq_zero_iff.mp length
  exact ⟨left, ends, rfl⟩

/-- Where a program leaves nothing, the whole outcome is that of the two runs: all that is recorded,
the machine that is left and where the run stops. -/
theorem runOn_append {first : Program} (balanced : first.depthFrom 0 0 = .ok 0)
    (env : Environment) (machine : Machine) (second : Program) :
    (first ++ second).runOn env machine =
      ((second.runOn env (first.runOn env machine).machine).later first.length).after
        (first.runOn env machine).records := by
  obtain ⟨left, ends, leaves⟩ := execute_of_balanced balanced env machine.sprite
  have whole : first.runOn env machine = first.execute env 0 ⟨[], machine.sprite⟩ := by
    rw [runOn_eq_finished]
    apply Outcome.finished_of_no_surplus
    rw [leaves]
    exact Nat.zero_le 1
  calc (first ++ second).runOn env machine
    _ = ((first ++ second).execute env 0 ⟨[], machine.sprite⟩).finished := runOn_eq_finished ..
    _ = ((second.execute env 0
            (first.execute env 0 ⟨[], machine.sprite⟩).machine).finished.later first.length).after
          (first.execute env 0 ⟨[], machine.sprite⟩).records := by
        rw [execute_append ends, execute_later, Outcome.finished_after, Outcome.finished_later]
    _ = ((second.runOn env (first.runOn env machine).machine).later first.length).after
          (first.runOn env machine).records := by
        rw [whole, runOn_eq_finished, leaves]

end Program

/-- A whole run is two runs one after the other, of which the second one starts further on. -/
structure Outcome.Joins (distance : Nat) (first second whole : Outcome) : Prop where
  passes : first.result = .ok none
  result : whole.result = second.result.mapError (Underflow.later distance)
  machine : whole.machine = second.machine
  warnings : whole.warnings = first.warnings ++ second.warnings.map (Warning.later distance)
  records : whole.records = first.records ++ second.records.map (Record.later distance)

theorem Program.joins_runOn {first : Program} (balanced : first.validate = .ok 0)
    (env : Environment) (machine : Machine) (second : Program) :
    Outcome.Joins first.length (first.runOn env machine)
      (second.runOn env (first.runOn env machine).machine)
      ((first ++ second).runOn env machine) := by
  have depth : first.depthFrom 0 0 = .ok 0 := (validate_ok.mp balanced).1
  rw [runOn_append depth]
  constructor
  · obtain ⟨left, ends, leaves⟩ := execute_of_balanced depth env machine.sprite
    rw [result_runOn_ok (fault_runOn.trans ends), machine_runOn, leaves]
    rfl
  · rw [Outcome.result_after, Outcome.result_later]
  · rfl
  · rw [Outcome.warnings_after, Outcome.warnings_later]
    rfl
  · rfl

/-- A run is the same whatever its machine ran before. A program that leaves nothing, with another
one behind it, runs as the two do one after the other on new machines: with the same result or
underflow, the same sprite and the same warnings, their positions moved on for the second one. -/
theorem runs_compose :
    (∀ (program : Program) (env : Environment) (machine : Machine),
      program.runOn env machine = program.run env machine.sprite) ∧
    ∀ first second : Program, first.validate = .ok 0 → ∀ (env : Environment) (machine : Machine),
      Outcome.Joins first.length (first.run env machine.sprite)
        (second.run env (first.run env machine.sprite).machine.sprite)
        ((first ++ second).runOn env machine) := by
  constructor
  · intro program env machine
    rfl
  · intro first second balanced env machine
    exact Program.joins_runOn balanced env machine second

/-- Both programs divide by zero, and the second one underflows at its sum. The machine still holds
what a run before left. -/
theorem failing_program_runs_behind_another :
    let first : Program := [.var "x", .var "x", .operator .divide, .directive .hitboxTop]
    let second : Program := [.constant .one, .constant .zero, .operator .divide, .operator .add]
    let whole := Program.runOn {} ⟨[some .one, none], some {}⟩ (first ++ second)
    first.validate = .ok 0 ∧ whole.result = .error ⟨7, .operator .add⟩ ∧
      whole.machine.sprite = some { hitboxTop := .zero } ∧
      whole.warnings = [.divisionByZero 2, .divisionByZero 6] := by
  intro first second whole
  have balanced : first.validate = .ok 0 := rfl
  have h := runs_compose.2 first second balanced {} ⟨[some .one, none], some {}⟩
  refine ⟨balanced, h.result, ?_, h.warnings⟩
  rw [h.machine]
  rfl

end SpriteFormula
