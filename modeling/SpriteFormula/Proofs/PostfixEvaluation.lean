import SpriteFormula.Expr.Value
import SpriteFormula.Proofs.FormulaGrammar
import SpriteFormula.Proofs.ProgramRuns

/-!
Running the postfix order of an expression gives the expression's value. What the run leaves on the
stack, the warnings it gives and the places they name are those of the recursion over the tree,
whatever lies below on the stack and whatever the machine ran before.
-/

namespace SpriteFormula

/-- A program that a machine runs to its end: the machine that is left, and the warnings. -/
structure Completes (env : Environment) (position : Nat) (machine : Machine) (program : Program)
    (next : Machine) (warnings : List Warning) : Prop where
  ends : (program.execute env position machine).fault = none
  leaves : (program.execute env position machine).machine = next
  warns : (program.execute env position machine).warnings = warnings

namespace Completes

variable {env : Environment} {position : Nat} {machine middle next : Machine}
  {program others : Program} {warnings more : List Warning}

theorem append (h : Completes env position machine program middle warnings)
    (k : Completes env (position + program.length) middle others next more) :
    Completes env position machine (program ++ others) next (warnings ++ more) := by
  have happ := Program.execute_append h.ends others
  rw [h.leaves] at happ
  constructor
  · rw [happ]
    exact k.ends
  · rw [happ]
    exact k.leaves
  · rw [happ, Outcome.warnings_after, k.warns]
    exact congrArg (· ++ more) h.warns

theorem step {i : Instruction} (h : Completes env position machine program middle warnings)
    (hs : middle.step? env i = some next)
    (hw : (middle.stepRecords env (position + program.length) i).filterMap Record.warning? = more) :
    Completes env position machine (program ++ [i]) next (warnings ++ more) := by
  apply h.append
  constructor
  · rw [Program.execute_cons hs]
    rfl
  · rw [Program.execute_cons hs]
    rfl
  · rw [Program.execute_cons hs, Outcome.warnings_after, ← hw]
    exact List.append_nil _

theorem nil : Completes env position machine [] machine [] := ⟨rfl, rfl, rfl⟩

/-- A step that gives no warning. -/
theorem quietStep {i : Instruction} (h : Completes env position machine program middle warnings)
    (hs : middle.step? env i = some next)
    (hw : (middle.stepRecords env (position + program.length) i).filterMap Record.warning? = []) :
    Completes env position machine (program ++ [i]) next warnings := by
  have hn := h.step hs hw
  rwa [List.append_nil] at hn

end Completes

/-! ### Steps on values -/

theorem Environment.warnings_lookupRecords (env : Environment) (name : String) :
    (env.lookupRecords name).filterMap Record.warning? = [] := by
  apply List.filterMap_eq_nil_iff.mpr
  intro record hr
  obtain ⟨value, rfl⟩ := mem_lookupRecords hr
  rfl

namespace Expr

variable {env : Environment}

theorem dividesByZero_eval {op : Operator} {left right : Expr} :
    op.dividesByZero (left.eval env) (right.eval env) ↔ DividesByZero env op left right := by
  simp only [Operator.dividesByZero, DividesByZero, Bool.and_eq_true, decide_eq_true_eq, and_assoc]

theorem onValues_eval (op : Operator) (left right : Expr) :
    op.onValues (left.eval env) (right.eval env) = (binary op left right).eval env := by
  rw [eval]
  cases left.eval env with
  | none => simp [Operator.onValues, Operator.dividesByZero]
  | some l =>
    cases right.eval env with
    | none => simp [Operator.onValues, Operator.dividesByZero]
    | some r => simp [Operator.onValues, Operator.dividesByZero]

theorem apply_eval (f : UnaryFunction) (argument : Expr) :
    (argument.eval env).map f.apply = (call f argument).eval env := by
  cases f with
  | zoom =>
    rw [eval]
    cases argument.eval env <;> rfl
  | _ => rfl

theorem extremum_eval (f : Extremum) (left right : Expr) :
    f.onValues (left.eval env) (right.eval env) = (extremum f left right).eval env := by
  rw [eval]
  cases left.eval env <;> cases right.eval env <;> rfl

end Expr

/-! ### Trees -/

namespace Program

/-- Over the instructions of a tree, a machine puts the value of the tree on its stack. -/
theorem completes_postfixOrder (env : Environment) (tree : Expr) (position : Nat)
    (machine : Machine) :
    Completes env position machine tree.postfixOrder
      { machine with stack := tree.eval env :: machine.stack }
      ((tree.zeroDivisions env position).map .divisionByZero) := by
  -- the right operand runs above the left one's value, so the machine is any machine
  induction tree generalizing position machine with
  | constant value => exact Completes.nil.quietStep (i := .constant value) rfl rfl
  | var name =>
    exact Completes.nil.quietStep (i := .var name) rfl (env.warnings_lookupRecords name)
  | binary op left right ihl ihr =>
    have operands := (ihl position machine).append (ihr _ _)
    rw [Expr.length_postfixOrder, ← List.map_append] at operands
    rw [Expr.postfixOrder_binary, ← Expr.onValues_eval, Expr.zeroDivisions, List.map_append]
    apply operands.step rfl
    rw [List.length_append, Expr.length_postfixOrder, Expr.length_postfixOrder, ← Nat.add_assoc]
    simp only [Machine.stepRecords, Expr.dividesByZero_eval]
    split <;> rfl
  | negative operand ih =>
    rw [Expr.postfixOrder_negative]
    exact (ih position machine).quietStep rfl rfl
  | call f argument ih =>
    rw [Expr.postfixOrder_call, ← Expr.apply_eval]
    exact (ih position machine).quietStep rfl rfl
  | extremum f left right ihl ihr =>
    have operands := (ihl position machine).append (ihr _ _)
    rw [Expr.length_postfixOrder, ← List.map_append] at operands
    rw [Expr.postfixOrder_extremum, ← Expr.extremum_eval]
    exact operands.quietStep rfl rfl

end Program

/-! ### Places of divisions -/

namespace Expr

variable {env : Environment} {position place : Nat}

/-- The places named are those of divisions in the postfix order. -/
theorem divide_of_mem_zeroDivisions {tree : Expr} (h : place ∈ tree.zeroDivisions env position) :
    ∃ index, place = position + index ∧
      tree.postfixOrder[index]? = some (.operator .divide) := by
  have first {program others : Program} {index : Nat} {i : Instruction}
      (h : program[index]? = some i) : (program ++ others)[index]? = some i := by
    rw [List.getElem?_append_left (List.getElem?_eq_some_iff.mp h).1, h]
  have second {left right : Expr} {index : Nat} {i : Instruction}
      (h : right.postfixOrder[index]? = some i) :
      (left.postfixOrder ++ right.postfixOrder)[left.size + index]? = some i := by
    rw [← length_postfixOrder, List.getElem?_append_right (Nat.le_add_right _ _),
      Nat.add_sub_cancel_left, h]
  induction tree generalizing position with
  | constant value => cases h
  | var name => cases h
  | binary op left right ihl ihr =>
    rw [postfixOrder_binary]
    rw [zeroDivisions, List.mem_append, List.mem_append] at h
    rcases h with (h | h) | h
    · obtain ⟨index, rfl, hi⟩ := ihl h
      exact ⟨index, rfl, first (first hi)⟩
    · obtain ⟨index, rfl, hi⟩ := ihr h
      exact ⟨left.size + index, Nat.add_assoc _ _ _, first (second hi)⟩
    · split at h
      · next hz =>
        rw [List.mem_singleton] at h
        refine ⟨left.size + right.size, by rw [h, Nat.add_assoc], ?_⟩
        rw [List.getElem?_append_right (by simp [length_postfixOrder]), hz.1]
        simp [length_postfixOrder]
      · cases h
  | negative operand ih =>
    obtain ⟨index, rfl, hi⟩ := ih h
    exact ⟨index, rfl, by rw [postfixOrder_negative]; exact first hi⟩
  | call f argument ih =>
    obtain ⟨index, rfl, hi⟩ := ih h
    exact ⟨index, rfl, by rw [postfixOrder_call]; exact first hi⟩
  | extremum f left right ihl ihr =>
    rw [postfixOrder_extremum]
    rw [zeroDivisions, List.mem_append] at h
    rcases h with h | h
    · obtain ⟨index, rfl, hi⟩ := ihl h
      exact ⟨index, rfl, first (first hi)⟩
    · obtain ⟨index, rfl, hi⟩ := ihr h
      exact ⟨left.size + index, Nat.add_assoc _ _ _, first (second hi)⟩

theorem bounds_of_mem_zeroDivisions {tree : Expr} (h : place ∈ tree.zeroDivisions env position) :
    position ≤ place ∧ place < position + tree.size := by
  obtain ⟨index, rfl, hi⟩ := divide_of_mem_zeroDivisions h
  have hl := (List.getElem?_eq_some_iff.mp hi).1
  rw [length_postfixOrder] at hl
  omega

/-- No place is named twice, and they are named from left to right. -/
theorem pairwise_zeroDivisions (env : Environment) (tree : Expr) (position : Nat) :
    (tree.zeroDivisions env position).Pairwise (· < ·) := by
  induction tree generalizing position with
  | constant value => exact .nil
  | var name => exact .nil
  | binary op left right ihl ihr =>
    rw [zeroDivisions, List.pairwise_append, List.pairwise_append]
    refine ⟨⟨ihl position, ihr _, ?_⟩, ?_, ?_⟩
    · intro a ha b hb
      have hl := bounds_of_mem_zeroDivisions ha
      have hr := bounds_of_mem_zeroDivisions hb
      omega
    · split
      · exact List.pairwise_singleton _ _
      · exact .nil
    · intro a ha b hb
      have hb : b = position + left.size + right.size := by
        split at hb
        · exact List.mem_singleton.mp hb
        · cases hb
      rcases List.mem_append.mp ha with ha | ha
      · have := bounds_of_mem_zeroDivisions ha
        omega
      · have := bounds_of_mem_zeroDivisions ha
        omega
  | negative operand ih => exact ih position
  | call f argument ih => exact ih position
  | extremum f left right ihl ihr =>
    rw [zeroDivisions, List.pairwise_append]
    refine ⟨ihl position, ihr _, ?_⟩
    intro a ha b hb
    have hl := bounds_of_mem_zeroDivisions ha
    have hr := bounds_of_mem_zeroDivisions hb
    omega

end Expr

/-! ### Whole runs -/

/-- A run of the program on a machine is the evaluation of the tree: it leaves the tree's value and
touches nothing else, and it warns once for each division by zero, by the place of the division in
the program. -/
structure Program.RunEvaluates (env : Environment) (machine : Machine) (program : Program)
    (tree : Expr) : Prop where
  result : (program.runOn env machine).result = .ok (tree.eval env)
  leaves : (program.runOn env machine).machine = ⟨[tree.eval env], machine.sprite⟩
  warns : (program.runOn env machine).warnings =
    (tree.zeroDivisions env 0).map .divisionByZero
  divisions : ∀ place ∈ tree.zeroDivisions env 0, program[place]? = some (.operator .divide)
  increasing : (tree.zeroDivisions env 0).Pairwise (· < ·)

theorem Program.runEvaluates_postfixOrder (env : Environment) (machine : Machine) (tree : Expr) :
    tree.postfixOrder.RunEvaluates env machine tree := by
  have h := completes_postfixOrder env tree 0 { machine with stack := [] }
  have leaves := machine_runOn.trans h.leaves
  constructor
  · rw [result_runOn_ok (fault_runOn.trans h.ends), leaves]
    exact congrArg Except.ok Option.join_some
  · exact leaves
  · exact warnings_runOn.trans h.warns
  · intro place hp
    obtain ⟨index, rfl, hi⟩ := Expr.divide_of_mem_zeroDivisions hp
    rwa [Nat.zero_add]
  · exact Expr.pairwise_zeroDivisions env tree 0

open Grammar in
/-- Running the postfix order of a tree on any machine evaluates the tree, and running what a text
is read as evaluates the one tree that the text derives. -/
theorem run_evaluates_tree :
    (∀ (tree : Expr) (env : Environment) (machine : Machine),
      tree.postfixOrder.RunEvaluates env machine tree) ∧
    (∀ (text : String) (program : Program), Program.parse text = .ok program →
      ∃ tree, Derives .sum (Token.scan text) tree [] ∧
        (∀ other, Derives .sum (Token.scan text) other [] → other = tree) ∧
        ∀ (env : Environment) (machine : Machine), program.RunEvaluates env machine tree) := by
  constructor
  · intro tree env machine
    exact Program.runEvaluates_postfixOrder env machine tree
  · intro text program h
    obtain ⟨tree, hd, rfl⟩ := Program.parse_ok_iff.mp h
    refine ⟨tree, hd, fun other ho => Formula.derives_unique ho hd, fun env machine => ?_⟩
    exact Program.runEvaluates_postfixOrder env machine tree

open Grammar in
/-- Both quotients divide by zero, one of them by a difference, and `y` has no value. -/
theorem quotients_by_zero_evaluate :
    let program : Program := [.var "y", .constant .one, .var "x", .var "x", .operator .subtract,
      .operator .divide, .function (.extremum .min), .constant .one, .constant .zero,
      .operator .divide, .operator .add]
    Program.parse "min(y, 1 / (x - x)) + 1 / 0" = .ok program ∧
      ∃ tree, Derives .sum (Token.scan "min(y, 1 / (x - x)) + 1 / 0") tree [] ∧
        program.RunEvaluates { x := .one } ⟨[none], none⟩ tree := by
  intro program
  have h : Program.parse "min(y, 1 / (x - x)) + 1 / 0" = .ok program := by decide +kernel
  obtain ⟨tree, hd, _, hr⟩ := run_evaluates_tree.2 _ _ h
  exact ⟨h, tree, hd, hr _ _⟩

end SpriteFormula
