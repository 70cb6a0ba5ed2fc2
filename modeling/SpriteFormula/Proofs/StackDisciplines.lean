import SpriteFormula.Proofs.ProgramRuns
import SpriteFormula.Proofs.StackOutline
import SpriteFormula.Render

/-!
The depth of a program, its run and its rendering agree on where the stack does not suffice and on
how many values are left. Each of them goes over the instructions by itself; what they have in
common is that an instruction goes ahead exactly where there are as many values as it takes.
-/

namespace SpriteFormula

/-! ### Stacks of trees -/

namespace Outline

variable {refuse : Binary64 → Option EncodeError} {values : List Expr} {i : Instruction}

theorem push_of_enough (h : i.arity ≤ values.length) :
    ∃ next, push? values i = some next ∧
      next.length = values.length - i.arity + if i.pushes then 1 else 0 := by
  cases h using Instruction.enough_cases
  all_goals exact ⟨_, rfl, rfl⟩

/-- Reading a program as trees ends as its depth does, unless a constant is refused first. -/
theorem readFrom_cases (refuse : Binary64 → Option EncodeError) (program : Program)
    (position : Nat) (values : List Expr) :
    (∃ outline, readFrom refuse position values program = .ok outline ∧
      program.depthFrom position values.length = .ok outline.values.length) ∨
    (∃ fault, readFrom refuse position values program = .error (.stack (.underflow fault)) ∧
      program.depthFrom position values.length = .error fault) ∨
    ∃ value error, .constant value ∈ program ∧ refuse value = some error ∧
      readFrom refuse position values program = .error (.encode error) := by
  -- a refused constant comes before the question of depth, as it does in the reader
  induction program generalizing position values with
  | nil => exact .inl ⟨_, rfl, rfl⟩
  | cons i rest ih =>
    cases hr : refusal? refuse i with
    | some error =>
      cases i with
      | constant value =>
        exact .inr (.inr ⟨value, error, List.mem_cons_self, hr, by simp only [readFrom, hr]⟩)
      | _ => cases hr
    | none =>
      by_cases ha : i.arity ≤ values.length
      · obtain ⟨next, hn, hl⟩ := push_of_enough ha
        rcases ih (position + 1) next with ⟨outline, ho, hd⟩ | ⟨fault, hf, hd⟩ |
          ⟨value, error, hm, he, hf⟩
        · refine .inl ⟨⟨assigned values i ++ outline.statements, outline.values⟩, ?_, ?_⟩
          · simp only [readFrom, hr, hn, ho]
          · rw [Program.depthFrom, if_pos ha, ← hl, hd]
        · refine .inr (.inl ⟨fault, ?_, ?_⟩)
          · simp only [readFrom, hr, hn, hf]
          · rw [Program.depthFrom, if_pos ha, ← hl, hd]
        · refine .inr (.inr ⟨value, error, List.mem_cons_of_mem _ hm, he, ?_⟩)
          simp only [readFrom, hr, hn, hf]
      · refine .inr (.inl ⟨⟨position, i⟩, ?_, ?_⟩)
        · simp only [readFrom, hr, push_of_short (Nat.not_le.mp ha)]
        · rw [Program.depthFrom, if_neg ha]

end Outline

theorem Profile.refuse_some {profile : Profile} {value : Binary64} {error : EncodeError}
    (h : profile.refuse value = some error) :
    error = .noLiteral value profile.name ∧ value.isFinite = false := by
  unfold Profile.refuse at h
  split at h
  · next hc =>
    cases h
    rw [Bool.and_eq_true, Bool.not_eq_true'] at hc
    exact ⟨rfl, hc.2⟩
  · cases h

namespace Program

/-! ### Rendering -/

/-- Rendering ends as validation does, unless a constant is refused first. -/
theorem render_cases (profile : Profile) (program : Program) :
    (∃ source depth, program.render profile = .ok source ∧ program.validate = .ok depth) ∨
    (∃ fault, program.render profile = .error (.stack fault) ∧ program.validate = .error fault) ∨
    ∃ value error, .constant value ∈ program ∧ profile.refuse value = some error ∧
      program.render profile = .error (.encode error) := by
  rcases Outline.readFrom_cases profile.refuse program 0 [] with ⟨outline, ho, hd⟩ |
    ⟨fault, hf, hd⟩ | ⟨value, error, hm, he, hf⟩
  · change program.depthFrom 0 0 = _ at hd
    by_cases hl : 1 < outline.values.length
    · refine .inr (.inl ⟨.unbalanced outline.values.length, ?_, ?_⟩)
      · simp only [render, ho, if_pos hl]
      · simp only [validate, hd, if_pos hl]
    · obtain ⟨source, hs⟩ : ∃ source, program.render profile = .ok source := by
        simp only [render, ho, if_neg hl]
        exact ⟨_, rfl⟩
      refine .inl ⟨source, outline.values.length, hs, ?_⟩
      simp only [validate, hd, if_neg hl]
  · change program.depthFrom 0 0 = _ at hd
    refine .inr (.inl ⟨.underflow fault, ?_, ?_⟩)
    · simp only [render, hf]
    · simp only [validate, hd]
  · refine .inr (.inr ⟨value, error, hm, he, ?_⟩)
    simp only [render, hf]

/-! ### Runs -/

section
variable (env : Environment) (machine : Machine) {program : Program}

theorem runOn_of_depth {depth : Nat} (h : program.depthFrom 0 0 = .ok depth) :
    (program.runOn env machine).fault = none ∧
      (program.runOn env machine).machine.stack.length = depth := by
  rw [fault_runOn, machine_runOn]
  exact execute_of_depth env h

/-- A run that underflows leaves what the instructions before the place leave by themselves. -/
theorem runOn_of_underflow {fault : Underflow} (h : program.depthFrom 0 0 = .error fault) :
    (program.runOn env machine).fault = some fault ∧
      program[fault.position]? = some fault.instruction ∧
      (Program.runOn env machine (program.take fault.position)).fault = none ∧
      (program.runOn env machine).machine =
        (Program.runOn env machine (program.take fault.position)).machine ∧
      (program.runOn env machine).warnings =
        (Program.runOn env machine (program.take fault.position)).warnings := by
  obtain ⟨before, rest, rfl, hp, hf, he⟩ :=
    execute_of_underflow env { machine with stack := [] } h
  rw [Nat.zero_add] at hp
  rw [hp, List.take_left]
  refine ⟨?_, ?_, ?_, ?_, ?_⟩
  · rw [fault_runOn, he]
  · rw [List.getElem?_append_right (Nat.le_refl _), Nat.sub_self]
    rfl
  · rw [fault_runOn, hf]
  · rw [machine_runOn, machine_runOn, he]
  · rw [warnings_runOn, warnings_runOn, he, Outcome.warnings, List.filterMap_append]
    exact List.append_nil _

theorem fault_runOn_iff {fault : Underflow} :
    (program.runOn env machine).fault = some fault ↔ program.depthFrom 0 0 = .error fault := by
  cases h : program.depthFrom 0 0 with
  | error found =>
    rw [(runOn_of_underflow env machine h).1]
    simp
  | ok depth =>
    rw [(runOn_of_depth env machine h).1]
    simp

end

end Program

/-- Validation and a run name the same underflow, where the run has done what the instructions
before it do. Where there is none they leave the same number of values. Rendering ends as validation
does, if no constant stands in its way. -/
theorem stack_disciplines_agree (program : Program) (env : Environment) (machine : Machine) :
    (∀ fault, program.validate = .error (.underflow fault) ↔
      (program.runOn env machine).result = .error fault) ∧
    (∀ fault, program.validate = .error (.underflow fault) →
      program[fault.position]? = some fault.instruction ∧
      (Program.runOn env machine (program.take fault.position)).fault = none ∧
      (program.runOn env machine).machine.sprite =
        (Program.runOn env machine (program.take fault.position)).machine.sprite ∧
      (program.runOn env machine).warnings =
        (Program.runOn env machine (program.take fault.position)).warnings) ∧
    (∀ depth, program.validate = .ok depth ∨ program.validate = .error (.unbalanced depth) ↔
      (∃ value, (program.runOn env machine).result = .ok value) ∧
        (program.runOn env machine).machine.stack.length = depth) ∧
    ∀ profile : Profile, (∀ value, .constant value ∈ program → value.isFinite) →
      (∀ fault, program.render profile = .error fault ↔
        ∃ found, fault = .stack found ∧ program.validate = .error found) ∧
      ((∃ source, program.render profile = .ok source) ↔
        ∃ depth, program.validate = .ok depth) := by
  refine ⟨fun fault => ?_, fun fault h => ?_, fun depth => ?_, fun profile finite => ?_⟩
  · rw [Program.validate_underflow, Program.result_runOn_error, Program.fault_runOn_iff]
  · obtain ⟨_, hi, hb, hm, hw⟩ :=
      Program.runOn_of_underflow env machine (Program.validate_underflow.mp h)
    exact ⟨hi, hb, congrArg Machine.sprite hm, hw⟩
  · rw [Program.validate_depth]
    constructor
    · intro h
      obtain ⟨hf, hl⟩ := Program.runOn_of_depth env machine h
      exact ⟨⟨_, Program.result_runOn_ok hf⟩, hl⟩
    · rintro ⟨⟨value, hv⟩, hl⟩
      cases h : program.depthFrom 0 0 with
      | error fault =>
        have he := Program.result_runOn_error.mpr
          ((Program.fault_runOn_iff env machine).mpr h)
        rw [hv] at he
        cases he
      | ok found =>
        rw [← hl, (Program.runOn_of_depth env machine h).2]
  · rcases Program.render_cases profile program with ⟨source, depth, hr, hv⟩ | ⟨fault, hr, hv⟩ |
      ⟨value, error, hm, he, _⟩
    · rw [hr, hv]
      simp
    · rw [hr, hv]
      simp [eq_comm]
    · have hf := finite value hm
      rw [(Profile.refuse_some he).2] at hf
      cases hf

/-- The hitbox is written before the maximum, of one value only, ends all three alike. -/
theorem maximum_of_one_value_fails_alike :
    let program : Program := [.constant .one, .directive .hitboxTop, .constant .one,
      .function (.extremum .max), .var "x"]
    let fault : Underflow := ⟨3, .function (.extremum .max)⟩
    let machine : Machine := ⟨[some .one], some {}⟩
    program.validate = .error (.underflow fault) ∧
      (program.runOn {} machine).result = .error fault ∧
      (program.runOn {} machine).machine.sprite = some { hitboxTop := .one } ∧
      program.render .c = .error (.stack (.underflow fault)) := by
  intro program fault machine
  have hv : program.validate = .error (.underflow fault) := rfl
  obtain ⟨hr, hs, _, hc⟩ := stack_disciplines_agree program {} machine
  refine ⟨hv, (hr fault).mp hv, (hs fault hv).2.2.1, ?_⟩
  have finite : ∀ value, .constant value ∈ program → value.isFinite := by
    intro value hm
    have : value = .one := by
      simpa [program] using hm
    rw [this]
    rfl
  exact ((hc .c finite).1 _).mpr ⟨_, rfl, hv⟩

end SpriteFormula
