import Mathlib.Logic.Function.Basic
import SpriteFormula.Outline
import SpriteFormula.Program

/-!
Reading a program back as trees undoes writing trees in postfix order, and every program whose
stack discipline is right is that of trees.
-/

namespace SpriteFormula

/-! ### Outcomes of validation -/

namespace Program

variable {program : Program}

theorem validate_underflow {fault : Underflow} :
    program.validate = .error (.underflow fault) ↔ program.depthFrom 0 0 = .error fault := by
  unfold validate
  split
  · next found h => simp [h]
  · next depth h =>
    rw [h]
    split <;> simp

theorem validate_unbalanced {count : Nat} :
    program.validate = .error (.unbalanced count) ↔
      program.depthFrom 0 0 = .ok count ∧ 1 < count := by
  unfold validate
  split
  · next fault h => simp [h]
  · next depth h =>
    rw [h]
    split
    · next many =>
      simp only [Except.error.injEq, StackFault.unbalanced.injEq, Except.ok.injEq, iff_self_and]
      omega
    · next few =>
      simp only [reduceCtorEq, Except.ok.injEq, false_iff, not_and]
      omega

theorem validate_depth {depth : Nat} :
    program.validate = .ok depth ∨ program.validate = .error (.unbalanced depth) ↔
      program.depthFrom 0 0 = .ok depth := by
  unfold validate
  split
  · next found h => simp [h]
  · next found h =>
    rw [h]
    split <;> simp

theorem validate_ok {depth : Nat} :
    program.validate = .ok depth ↔ program.depthFrom 0 0 = .ok depth ∧ depth ≤ 1 := by
  unfold validate
  split
  · next found h => simp [h]
  · next found h =>
    rw [h]
    split
    · next hd =>
      simp only [reduceCtorEq, Except.ok.injEq, false_iff, not_and]
      omega
    · next hd =>
      simp only [Except.ok.injEq, iff_self_and]
      omega

end Program

/-! ### Reading trees back -/

namespace Outline

variable {refuse : Binary64 → Option EncodeError}

/-- No constant of the program is refused. -/
def Accepts (refuse : Binary64 → Option EncodeError) (program : Program) : Prop :=
  ∀ i ∈ program, refusal? refuse i = none

theorem accepts_all (program : Program) : Accepts (fun _ => none) program := by
  intro i _
  cases i <;> rfl

theorem accepts_append {program others : Program} :
    Accepts refuse (program ++ others) ↔ Accepts refuse program ∧ Accepts refuse others := by
  simp only [Accepts, List.mem_append, or_imp, forall_and]

theorem accepts_singleton {i : Instruction} : Accepts refuse [i] ↔ refusal? refuse i = none := by
  simp [Accepts]

theorem readFrom_cons {i : Instruction} (accepted : refusal? refuse i = none) (hi : i.pushes)
    {values next : List Expr} (pushed : push? values i = some next) (position : Nat)
    (rest : Program) :
    readFrom refuse position values (i :: rest) = readFrom refuse (position + 1) next rest := by
  have hs : assigned values i = [] := by
    cases i with
    | directive d => cases hi
    | _ => rfl
  simp only [readFrom, accepted, pushed, hs, List.nil_append]
  cases readFrom refuse (position + 1) next rest <;> rfl

/-- Over the instructions of a tree, reading leaves the tree on the stack. -/
theorem readFrom_postfixOrder {tree : Expr} (accepted : Accepts refuse tree.postfixOrder)
    (position : Nat) (values : List Expr) (rest : Program) :
    readFrom refuse position values (tree.postfixOrder ++ rest) =
      readFrom refuse (position + tree.postfixOrder.length) (tree :: values) rest := by
  induction tree generalizing position values rest with
  | constant value => exact readFrom_cons (accepts_singleton.mp accepted) rfl rfl position rest
  | var name => exact readFrom_cons rfl rfl rfl position rest
  | binary op left right ihl ihr =>
    rw [Accepts, Expr.forall_binary] at accepted
    rw [Expr.postfixOrder_binary, List.append_assoc, List.append_assoc, ihl accepted.1,
      ihr accepted.2.1, List.singleton_append, readFrom_cons rfl rfl rfl]
    simp only [List.length_append, List.length_singleton, Nat.add_assoc]
  | negative operand ih =>
    rw [Accepts, Expr.forall_negative] at accepted
    rw [Expr.postfixOrder_negative, List.append_assoc, ih accepted.1, List.singleton_append,
      readFrom_cons rfl rfl rfl]
    simp only [List.length_append, List.length_singleton, Nat.add_assoc]
  | call f argument ih =>
    rw [Accepts, Expr.forall_call] at accepted
    rw [Expr.postfixOrder_call, List.append_assoc, ih accepted.1, List.singleton_append,
      readFrom_cons rfl rfl rfl]
    simp only [List.length_append, List.length_singleton, Nat.add_assoc]
  | extremum f left right ihl ihr =>
    rw [Accepts, Expr.forall_extremum] at accepted
    rw [Expr.postfixOrder_extremum, List.append_assoc, List.append_assoc, ihl accepted.1,
      ihr accepted.2.1, List.singleton_append, readFrom_cons rfl rfl rfl]
    simp only [List.length_append, List.length_singleton, Nat.add_assoc]

/-- What reading an instruction and those after it comes to, where nothing is refused and the stack
suffices. -/
theorem readFrom_cons_ok {i : Instruction} {rest : Program} {position : Nat} {values : List Expr}
    {outline : Outline} (h : readFrom refuse position values (i :: rest) = .ok outline) :
    ∃ next read, refusal? refuse i = none ∧ push? values i = some next ∧
      readFrom refuse (position + 1) next rest = .ok read ∧
      outline = ⟨assigned values i ++ read.statements, read.values⟩ := by
  rw [readFrom] at h
  split at h
  · cases h
  · next hi =>
    split at h
    · cases h
    · next next hn =>
      split at h
      · cases h
      · next read hr =>
        cases h
        exact ⟨next, read, hi, hn, hr, rfl⟩

theorem accepts_of_readFrom {program : Program} {position : Nat} {values : List Expr}
    {outline : Outline} (h : readFrom refuse position values program = .ok outline) :
    Accepts refuse program := by
  induction program generalizing position values outline with
  | nil => exact nofun
  | cons i rest ih =>
    obtain ⟨next, read, hi, -, hr, -⟩ := readFrom_cons_ok h
    exact List.forall_mem_cons.mpr ⟨hi, ih hr⟩

theorem readFrom_statements {statements : List Statement}
    (accepted : Accepts refuse (statements.flatMap Statement.program)) (position : Nat) :
    readFrom refuse position [] (statements.flatMap Statement.program) = .ok ⟨statements, []⟩ := by
  induction statements generalizing position with
  | nil => rfl
  | cons statement others ih =>
    rw [List.flatMap_cons, Statement.program] at accepted
    rw [accepts_append, accepts_append] at accepted
    rw [List.flatMap_cons, Statement.program, List.append_assoc,
      readFrom_postfixOrder accepted.1.1, List.singleton_append, readFrom]
    simp only [refusal?, push?, ih accepted.2]
    rfl

/-! ### Stacks -/

/-- The instructions that leave the expressions on an empty stack. -/
def written (values : List Expr) : Program := values.reverse.flatMap Expr.postfixOrder

theorem written_cons (tree : Expr) (values : List Expr) :
    written (tree :: values) = written values ++ tree.postfixOrder := by
  simp [written]

theorem written_single (tree : Expr) : written [tree] = tree.postfixOrder := written_cons tree []

/-- Over what expressions are written as, reading leaves the expressions on the stack. -/
theorem readFrom_written {values : List Expr} (accepted : Accepts refuse (written values))
    (position : Nat) (rest : Program) :
    readFrom refuse position [] (written values ++ rest) =
      readFrom refuse (position + (written values).length) values rest := by
  -- the top of the stack is written last, so what stands behind the others is any program
  induction values generalizing rest with
  | nil => rfl
  | cons tree values ih =>
    rw [written_cons, accepts_append] at accepted
    rw [written_cons, List.append_assoc, ih accepted.1, readFrom_postfixOrder accepted.2,
      List.length_append, Nat.add_assoc]

/-- No two stacks are written the same. -/
theorem written_injective : Function.Injective written := by
  have back (values : List Expr) :
      readFrom (fun _ => none) 0 [] (written values) = .ok ⟨[], values⟩ := by
    have h := readFrom_written (accepts_all (written values)) 0 []
    rw [List.append_nil] at h
    exact h
  intro left right h
  have same := back left
  rw [h, back right] at same
  injection same with same
  injection same with _ same
  exact same.symm

/-- No two trees are computed by the same program. -/
theorem postfixOrder_injective : Function.Injective Expr.postfixOrder := by
  intro left right h
  rw [← written_single, ← written_single] at h
  exact List.singleton_inj.mp (written_injective h)

theorem push_of_short {values : List Expr} {i : Instruction} (h : values.length < i.arity) :
    push? values i = none := by
  cases h using Instruction.short_cases
  all_goals rfl

theorem enough_of_push {values next : List Expr} {i : Instruction}
    (h : push? values i = some next) : i.arity ≤ values.length := by
  refine Nat.not_lt.mp fun short => ?_
  rw [push_of_short short] at h
  cases h

/-- Where the stack holds enough values, an instruction other than a directive goes on top of what
is written. -/
theorem push_of_arity {i : Instruction} (hi : i.pushes) {values : List Expr}
    (ha : i.arity ≤ values.length) :
    ∃ next, push? values i = some next ∧ next.length = values.length - i.arity + 1 ∧
      written next = written values ++ [i] := by
  cases ha using Instruction.enough_cases with
  | constant value values => exact ⟨_, rfl, rfl, by rw [written_cons, Expr.postfixOrder_constant]⟩
  | var name values => exact ⟨_, rfl, rfl, by rw [written_cons, Expr.postfixOrder_var]⟩
  | operator op right left values =>
    refine ⟨_, rfl, rfl, ?_⟩
    simp only [written_cons, Expr.postfixOrder_binary, List.append_assoc]
  | negative operand values =>
    refine ⟨_, rfl, rfl, ?_⟩
    simp only [written_cons, Expr.postfixOrder_negative, List.append_assoc]
  | unary f argument values =>
    refine ⟨_, rfl, rfl, ?_⟩
    simp only [written_cons, Expr.postfixOrder_call, List.append_assoc]
  | extremum f right left values =>
    refine ⟨_, rfl, rfl, ?_⟩
    simp only [written_cons, Expr.postfixOrder_extremum, List.append_assoc]
  | directive d value values => cases hi

/-- A program that never takes too many values leaves as many trees as it leaves values, and it is
what these trees are written as. -/
theorem readFrom_of_depth {program : Program} (hp : ∀ i ∈ program, i.pushes)
    (accepted : Accepts refuse program) {position depth : Nat} {values : List Expr}
    (h : program.depthFrom position values.length = .ok depth) :
    ∃ left, readFrom refuse position values program = .ok ⟨[], left⟩ ∧ left.length = depth ∧
      written left = written values ++ program := by
  induction program generalizing position values with
  | nil =>
    cases h
    exact ⟨values, rfl, rfl, (List.append_nil _).symm⟩
  | cons i rest ih =>
    have hi := hp i List.mem_cons_self
    rw [Program.depthFrom, hi, if_pos rfl] at h
    split at h
    · next ha =>
      obtain ⟨next, hn, hl, hw⟩ := push_of_arity hi ha
      rw [← hl] at h
      obtain ⟨left, hr, hd, hwl⟩ := ih (fun j hj => hp j (List.mem_cons_of_mem _ hj))
        (fun j hj => accepted j (List.mem_cons_of_mem _ hj)) h
      refine ⟨left, ?_, hd, ?_⟩
      · rw [readFrom_cons (accepted i List.mem_cons_self) hi hn, hr]
      · rw [hwl, hw, List.append_assoc, List.singleton_append]
    · cases h

/-- A program that leaves one value is that of one tree. -/
theorem readFrom_of_validate {program : Program} (hp : ∀ i ∈ program, i.pushes)
    (accepted : Accepts refuse program) (h : program.validate = .ok 1) :
    ∃ tree, readFrom refuse 0 [] program = .ok ⟨[], [tree]⟩ ∧ tree.postfixOrder = program := by
  have hd : program.depthFrom 0 ([] : List Expr).length = .ok 1 := (Program.validate_ok.mp h).1
  obtain ⟨left, hr, hl, hw⟩ := readFrom_of_depth hp accepted hd
  obtain ⟨tree, rfl⟩ := List.length_eq_one_iff.mp hl
  refine ⟨tree, hr, ?_⟩
  rw [written_cons] at hw
  simpa [written] using hw

theorem depthFrom_cons {i : Instruction} (hi : i.pushes) (position depth : Nat) (rest : Program) :
    Program.depthFrom position (depth + i.arity) (i :: rest) =
      Program.depthFrom (position + 1) (depth + 1) rest := by
  rw [Program.depthFrom, hi, if_pos rfl, if_pos (Nat.le_add_left _ _), Nat.add_sub_cancel]

/-- The depth of a tree's program is one more than before it. -/
theorem depthFrom_postfixOrder (tree : Expr) (position depth : Nat) (rest : Program) :
    (tree.postfixOrder ++ rest).depthFrom position depth =
      rest.depthFrom (position + tree.postfixOrder.length) (depth + 1) := by
  induction tree generalizing position depth rest with
  | constant value => exact depthFrom_cons rfl position depth rest
  | var name => exact depthFrom_cons rfl position depth rest
  | binary op left right ihl ihr =>
    rw [Expr.postfixOrder_binary, List.append_assoc, List.append_assoc, ihl, ihr,
      List.singleton_append]
    refine (depthFrom_cons (i := .operator op) rfl _ _ _).trans ?_
    simp only [List.length_append, List.length_singleton, Nat.add_assoc]
  | negative operand ih =>
    rw [Expr.postfixOrder_negative, List.append_assoc, ih, List.singleton_append]
    refine (depthFrom_cons (i := .negative) rfl _ _ _).trans ?_
    simp only [List.length_append, List.length_singleton, Nat.add_assoc]
  | call f argument ih =>
    rw [Expr.postfixOrder_call, List.append_assoc, ih, List.singleton_append]
    refine (depthFrom_cons (i := .function (.unary f)) rfl _ _ _).trans ?_
    simp only [List.length_append, List.length_singleton, Nat.add_assoc]
  | extremum f left right ihl ihr =>
    rw [Expr.postfixOrder_extremum, List.append_assoc, List.append_assoc, ihl, ihr,
      List.singleton_append]
    refine (depthFrom_cons (i := .function (.extremum f)) rfl _ _ _).trans ?_
    simp only [List.length_append, List.length_singleton, Nat.add_assoc]

theorem validate_postfixOrder (tree : Expr) : tree.postfixOrder.validate = .ok 1 := by
  have h := depthFrom_postfixOrder tree 0 0 []
  rw [List.append_nil, Nat.zero_add] at h
  exact Program.validate_ok.mpr ⟨h, Nat.le_refl 1⟩

end Outline

end SpriteFormula
