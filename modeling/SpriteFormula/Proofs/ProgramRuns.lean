import SpriteFormula.Machine

/-!
Runs of programs put together. A machine can take a step exactly where the stack holds what the
instruction takes, so the depth of the stack says where a run stops, and what a stopped run leaves
is what the instructions before the stop leave.
-/

namespace SpriteFormula

/-- The outcome of a run that something was recorded before. -/
def Outcome.after (records : List Record) (outcome : Outcome) : Outcome :=
  { outcome with records := records ++ outcome.records }

/-- The record of the values that a whole run leaves under the top one, if it leaves some. -/
def Outcome.surplusRecords (outcome : Outcome) : List Record :=
  if outcome.fault.isNone && 1 < outcome.machine.stack.length then
    [.surplus outcome.machine.stack.length]
  else []

def Outcome.finished (outcome : Outcome) : Outcome :=
  { outcome with records := outcome.records ++ outcome.surplusRecords }

namespace Outcome

variable {records : List Record} {outcome : Outcome}

theorem fault_after : (outcome.after records).fault = outcome.fault := rfl

theorem warnings_after :
    (outcome.after records).warnings = records.filterMap Record.warning? ++ outcome.warnings :=
  List.filterMap_append

theorem after_after (others : List Record) :
    (outcome.after others).after records = outcome.after (records ++ others) := by
  simp only [after, List.append_assoc]

theorem finished_of_no_surplus (h : outcome.machine.stack.length ≤ 1) :
    outcome.finished = outcome := by
  have hs : outcome.surplusRecords = [] := by
    apply if_neg
    intro surplus
    rw [Bool.and_eq_true, decide_eq_true_eq] at surplus
    exact absurd surplus.2 (Nat.not_lt.mpr h)
  unfold finished
  rw [hs, List.append_nil]

/-- That values are left under the top one is recorded, but it is no warning. -/
theorem warnings_finished : outcome.finished.warnings = outcome.warnings := by
  have none : outcome.surplusRecords.filterMap Record.warning? = [] := by
    unfold surplusRecords
    split
    · rfl
    · rfl
  unfold warnings finished
  rw [List.filterMap_append, none, List.append_nil]

end Outcome

/-! ### Steps -/

namespace Machine

variable {env : Environment} {machine next : Machine} {i : Instruction}

theorem step_of_arity (env : Environment) (h : i.arity ≤ machine.stack.length) :
    ∃ next, machine.step? env i = some next ∧
      next.stack.length = machine.stack.length - i.arity + if i.pushes then 1 else 0 := by
  obtain ⟨stack, sprite⟩ := machine
  replace h : i.arity ≤ stack.length := h
  cases h using Instruction.enough_cases
  all_goals exact ⟨_, rfl, rfl⟩

theorem step_of_short (h : machine.stack.length < i.arity) : machine.step? env i = none := by
  obtain ⟨stack, sprite⟩ := machine
  replace h : stack.length < i.arity := h
  cases h using Instruction.short_cases
  all_goals rfl

theorem enough_of_step (h : machine.step? env i = some next) : i.arity ≤ machine.stack.length := by
  refine Nat.not_lt.mp fun short => ?_
  rw [step_of_short short] at h
  cases h

end Machine

/-! ### Records -/

theorem Environment.mem_lookupRecords {env : Environment} {name : String} {record : Record}
    (h : record ∈ env.lookupRecords name) : ∃ value, record = .notNumeric name value := by
  unfold lookupRecords at h
  split at h
  · cases h
  · next value _ =>
    split at h
    · cases h
    · exact ⟨value, List.mem_singleton.mp h⟩

/-- A directive records why it writes nothing. -/
theorem Directive.mem_records {d : Directive} {value : Value} {sprite : Option Sprite}
    {record : Record} (h : record ∈ d.records value sprite) :
    record = .nothingWritten d ∨ (∃ number, record = .discarded d number) ∨
      ∃ number, record = .warning (.ignoredValue d number) := by
  unfold records at h
  split at h
  · exact .inl (List.mem_singleton.mp h)
  · next number => exact .inr (.inl ⟨number, List.mem_singleton.mp h⟩)
  · next number sprite =>
    split at h
    · cases h
    · exact .inr (.inr ⟨number, List.mem_singleton.mp h⟩)

/-! ### Depth -/

namespace Program

/-- An underflow splits the program at the instruction that takes too many values. -/
theorem split_of_underflow {position depth : Nat} {program : Program} {fault : Underflow}
    (h : program.depthFrom position depth = .error fault) :
    ∃ before rest middle, program = before ++ fault.instruction :: rest ∧
      fault.position = position + before.length ∧
      before.depthFrom position depth = .ok middle ∧ middle < fault.instruction.arity := by
  induction program generalizing position depth with
  | nil => cases h
  | cons i others ih =>
    rw [depthFrom] at h
    split at h
    · next ha =>
      obtain ⟨before, rest, middle, rfl, hp, hd, hm⟩ := ih h
      refine ⟨i :: before, rest, middle, rfl, ?_, ?_, hm⟩
      · rw [hp, List.length_cons]
        omega
      · rw [depthFrom, if_pos ha, hd]
    · next ha =>
      cases h
      exact ⟨[], others, depth, rfl, rfl, rfl, Nat.not_le.mp ha⟩

/-! ### Runs -/

section
variable {env : Environment} {position : Nat} {machine next : Machine} {i : Instruction}

theorem execute_cons (h : machine.step? env i = some next) (rest : Program) :
    execute env position machine (i :: rest) =
      (execute env (position + 1) next rest).after
        (.step position i :: machine.stepRecords env position i) := by
  simp only [execute, h, Outcome.after]

theorem execute_short (h : machine.step? env i = none) (rest : Program) :
    execute env position machine (i :: rest) =
      ⟨machine, [.step position i], some ⟨position, i⟩⟩ := by
  simp only [execute, h]

/-- Behind a run that comes to its end, another program goes on with the machine it leaves. -/
theorem execute_append {program : Program}
    (h : (program.execute env position machine).fault = none) (rest : Program) :
    (program ++ rest).execute env position machine =
      (rest.execute env (position + program.length)
        (program.execute env position machine).machine).after
        (program.execute env position machine).records := by
  induction program generalizing position machine with
  | nil => rfl
  | cons i others ih =>
    cases hs : machine.step? env i with
    | none =>
      rw [execute_short hs] at h
      cases h
    | some next =>
      rw [execute_cons hs, Outcome.fault_after] at h
      rw [List.cons_append, execute_cons hs, execute_cons hs, ih h, Outcome.after_after,
        List.length_cons, Nat.add_right_comm, Nat.add_assoc]
      rfl

/-- A run comes to its end where the depth does, with that many values on the stack. -/
theorem execute_of_depth (env : Environment) {program : Program} {depth : Nat}
    (h : program.depthFrom position machine.stack.length = .ok depth) :
    (program.execute env position machine).fault = none ∧
      (program.execute env position machine).machine.stack.length = depth := by
  induction program generalizing position machine with
  | nil =>
    cases h
    exact ⟨rfl, rfl⟩
  | cons i others ih =>
    rw [depthFrom] at h
    split at h
    · next ha =>
      obtain ⟨next, hs, hl⟩ := Machine.step_of_arity env ha
      rw [← hl] at h
      rw [execute_cons hs]
      exact ih h
    · cases h

/-- A run that stops leaves what the instructions before the stop leave, and its stop is the place
where the depth does not suffice. -/
theorem execute_of_underflow (env : Environment) (machine : Machine) {program : Program}
    {fault : Underflow} (h : program.depthFrom position machine.stack.length = .error fault) :
    ∃ before rest, program = before ++ fault.instruction :: rest ∧
      fault.position = position + before.length ∧
      (before.execute env position machine).fault = none ∧
      program.execute env position machine =
        ⟨(before.execute env position machine).machine,
          (before.execute env position machine).records ++ [.step fault.position fault.instruction],
          some fault⟩ := by
  obtain ⟨before, rest, middle, rfl, hp, hd, hm⟩ := split_of_underflow h
  obtain ⟨hf, hl⟩ := execute_of_depth env hd
  have hs : (before.execute env position machine).machine.step? env fault.instruction = none := by
    apply Machine.step_of_short
    rw [hl]
    exact hm
  refine ⟨before, rest, rfl, hp, hf, ?_⟩
  rw [execute_append hf, execute_short hs, ← hp]
  rfl

end

/-! ### Runs on a machine -/

section
variable {env : Environment} {machine : Machine} {program : Program}

theorem runOn_eq_finished (env : Environment) (machine : Machine) (program : Program) :
    program.runOn env machine =
      (program.execute env 0 { machine with stack := [] }).finished := by
  unfold runOn Outcome.finished Outcome.surplusRecords
  dsimp only
  split
  · rfl
  · rw [List.append_nil]

theorem machine_runOn :
    (program.runOn env machine).machine =
      (program.execute env 0 { machine with stack := [] }).machine := by
  rw [runOn_eq_finished]
  rfl

theorem fault_runOn :
    (program.runOn env machine).fault =
      (program.execute env 0 { machine with stack := [] }).fault := by
  rw [runOn_eq_finished]
  rfl

theorem warnings_runOn :
    (program.runOn env machine).warnings =
      (program.execute env 0 { machine with stack := [] }).warnings := by
  rw [runOn_eq_finished]
  exact Outcome.warnings_finished

theorem result_runOn_ok (h : (program.runOn env machine).fault = none) :
    (program.runOn env machine).result =
      .ok (program.runOn env machine).machine.stack.head?.join := by
  rw [Outcome.result, h]

theorem result_runOn_error {fault : Underflow} :
    (program.runOn env machine).result = .error fault ↔
      (program.runOn env machine).fault = some fault := by
  rw [Outcome.result]
  cases (program.runOn env machine).fault with
  | none => simp
  | some other => simp

end

end Program

end SpriteFormula
