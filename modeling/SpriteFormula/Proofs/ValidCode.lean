import SpriteFormula.Proofs.ReadingBalance

/-!
What the depth of the stack tells about a program. Without directives, a program leaves some number
of values exactly where it computes as many expressions, one behind the other, and there is one way
only to see it so. With directives, the last instruction alone does not tell whether a value is left:
one may lie below the value that a last directive takes.
-/

namespace SpriteFormula

/-! ### Programs without directives -/

theorem Program.pushes_of_no_directive {program : Program}
    (plain : ∀ d, .directive d ∉ program) : ∀ i ∈ program, i.pushes := by
  intro i hi
  cases i with
  | directive d => exact absurd hi (plain d)
  | _ => rfl

namespace Outline

/-- Over what expressions are written as, the depth grows to their number. -/
theorem depthFrom_written (values : List Expr) (position : Nat) (rest : Program) :
    (written values ++ rest).depthFrom position 0 =
      rest.depthFrom (position + (written values).length) values.length := by
  induction values generalizing rest with
  | nil => rfl
  | cons tree values ih =>
    rw [written_cons, List.append_assoc, ih, depthFrom_postfixOrder, List.length_append,
      Nat.add_assoc]
    rfl

theorem depthFrom_ok_iff_written {program : Program} (plain : ∀ d, .directive d ∉ program)
    {depth : Nat} :
    program.depthFrom 0 0 = .ok depth ↔
      ∃! values : List Expr, values.length = depth ∧ written values = program := by
  constructor
  · intro h
    have started : program.depthFrom 0 ([] : List Expr).length = .ok depth := h
    obtain ⟨values, -, length, code⟩ := readFrom_of_depth (Program.pushes_of_no_directive plain)
      (accepts_all program) started
    refine ⟨values, ⟨length, code⟩, ?_⟩
    rintro other ⟨-, same⟩
    exact written_injective (same.trans code.symm)
  · rintro ⟨values, ⟨rfl, rfl⟩, -⟩
    have h := depthFrom_written values 0 []
    rw [List.append_nil] at h
    exact h

end Outline

/-- A program without directives is well formed with one value left exactly where it is the postfix
order of an expression, and then it is that of no other expression. -/
theorem validate_tells_postfix_order (program : Program) (plain : ∀ d, .directive d ∉ program) :
    (program.validate = .ok 1 ↔ ∃ tree : Expr, tree.postfixOrder = program) ∧
    ∀ tree other : Expr, tree.postfixOrder = program → other.postfixOrder = program →
      tree = other := by
  constructor
  · rw [Program.validate_ok, and_iff_left (Nat.le_refl 1), Outline.depthFrom_ok_iff_written plain]
    constructor
    · rintro ⟨values, ⟨length, code⟩, -⟩
      obtain ⟨tree, rfl⟩ := List.length_eq_one_iff.mp length
      exact ⟨tree, (Outline.written_single tree).symm.trans code⟩
    · rintro ⟨tree, code⟩
      refine ⟨[tree], ⟨rfl, (Outline.written_single tree).trans code⟩, ?_⟩
      rintro others ⟨-, same⟩
      apply Outline.written_injective
      rw [same, Outline.written_single, code]
  · intro tree other left right
    exact Outline.postfixOrder_injective (left.trans right.symm)

/-- The minus is that of the maximum, and the quotient's operands are of different depth. -/
theorem negated_maximum_is_postfix_order :
    let program : Program := [.var "x", .constant .one, .var "y", .function (.extremum .max),
      .negative, .operator .divide]
    let tree : Expr := .binary .divide (.var "x")
      (.negative (.extremum .max (.constant .one) (.var "y")))
    program.validate = .ok 1 ∧ tree.postfixOrder = program ∧
      ∀ other : Expr, other.postfixOrder = program → other = tree := by
  intro program tree
  have plain : ∀ d, .directive d ∉ program := by
    intro d hd
    simp [program] at hd
  obtain ⟨valid, unique⟩ := validate_tells_postfix_order program plain
  have code : tree.postfixOrder = program := rfl
  exact ⟨valid.mpr ⟨tree, code⟩, code, fun other h => unique other tree h code⟩

/-! ### The last instruction -/

namespace Program

theorem depthFrom_append (before rest : Program) (position depth : Nat) :
    (before ++ rest).depthFrom position depth =
      (before.depthFrom position depth).bind fun middle =>
        rest.depthFrom (position + before.length) middle := by
  induction before generalizing position depth with
  | nil => rfl
  | cons i others ih =>
    rw [List.cons_append, depthFrom, depthFrom]
    split
    · rw [ih, List.length_cons, Nat.add_right_comm, Nat.add_assoc]
    · rfl

/-- A program leaves what its last instruction makes of the values that those before it leave. -/
theorem depthFrom_concat {before : Program} {i : Instruction} {depth : Nat}
    (h : (before ++ [i]).depthFrom 0 0 = .ok depth) :
    ∃ middle, before.depthFrom 0 0 = .ok middle ∧ i.arity ≤ middle ∧
      depth = middle - i.arity + if i.pushes then 1 else 0 := by
  rw [depthFrom_append] at h
  cases hb : before.depthFrom 0 0 with
  | error fault =>
    rw [hb] at h
    cases h
  | ok middle =>
    rw [hb] at h
    change depthFrom (0 + before.length) middle [i] = .ok depth at h
    rw [depthFrom] at h
    split at h
    · next enough =>
      cases h
      exact ⟨middle, rfl, enough, rfl⟩
    · cases h

theorem isDeclaration_concat (before : Program) (i : Instruction) :
    isDeclaration (before ++ [i]) = !i.pushes := by
  unfold isDeclaration
  rw [List.getLast?_concat]
  rfl

/-- The last instruction is a directive, and another value lies below the one it takes. -/
def EndsAboveValue (program : Program) : Prop :=
  ∃ (before : Program) (d : Directive), program = before ++ [.directive d] ∧
    before.validate = .error (.unbalanced 2)

variable {program before : Program} {depth : Nat}

/-- An instruction other than a directive leaves its value. -/
theorem depth_of_pushes {i : Instruction} (hi : i.pushes)
    (valid : (before ++ [i]).validate = .ok depth) : depth = 1 := by
  obtain ⟨found, few⟩ := validate_ok.mp valid
  obtain ⟨middle, -, -, rfl⟩ := depthFrom_concat found
  rw [if_pos hi] at few ⊢
  omega

/-- A directive takes one value away. -/
theorem depth_before_directive {d : Directive}
    (valid : Program.validate (before ++ [.directive d]) = .ok depth) :
    before.depthFrom 0 0 = .ok (depth + 1) := by
  obtain ⟨found, -⟩ := validate_ok.mp valid
  obtain ⟨middle, left, enough, rfl⟩ := depthFrom_concat found
  have one : 1 ≤ middle := enough
  have taken : middle = middle - 1 + 0 + 1 := by omega
  exact left.trans (congrArg Except.ok taken)

theorem endsAboveValue_iff (valid : program.validate = .ok depth) :
    program.EndsAboveValue ↔ program.isDeclaration ∧ depth = 1 := by
  constructor
  · rintro ⟨before, d, rfl, two⟩
    have left := depth_before_directive valid
    rw [(validate_unbalanced.mp two).1, Except.ok.injEq] at left
    exact ⟨isDeclaration_concat before _, by omega⟩
  · rintro ⟨declares, rfl⟩
    rcases List.eq_nil_or_concat program with rfl | ⟨before, i, rfl⟩
    · cases declares
    · rw [List.concat_eq_append] at declares valid ⊢
      rw [isDeclaration_concat] at declares
      cases i with
      | directive d =>
        have two := validate_unbalanced.mpr ⟨depth_before_directive valid, Nat.one_lt_two⟩
        exact ⟨before, d, rfl, two⟩
      | _ => cases declares

theorem isDeclaration_of_no_value (nonempty : program ≠ []) (valid : program.validate = .ok 0) :
    program.isDeclaration := by
  rcases List.eq_nil_or_concat program with rfl | ⟨before, i, rfl⟩
  · exact absurd rfl nonempty
  · rw [List.concat_eq_append] at valid ⊢
    rw [isDeclaration_concat]
    cases hi : i.pushes with
    | false => rfl
    | true => cases depth_of_pushes hi valid

/-- A formula is read without directives, and declarations leave no value at all. -/
theorem not_endsAboveValue_of_reading {text : String}
    (read : parse text = .ok program ∨ parseDeclarations text = .ok program) :
    ¬ program.EndsAboveValue := by
  rcases read with formula | declarations
  · rintro ⟨before, d, rfl, -⟩
    obtain ⟨tree, -, code⟩ := parse_ok_iff.mp formula
    have hd : .directive d ∈ tree.postfixOrder := by
      rw [← code]
      exact List.mem_append_right _ List.mem_cons_self
    cases Expr.pushes_of_mem _ hd
  · intro above
    have valid := (isDeclarationsOf_of_parse declarations).valid
    cases ((endsAboveValue_iff valid).mp above).2

end Program

/-- A program that is not empty leaves no value in any run exactly where its depth is none, and then
it ends in a directive. That it ends in a directive says so as well, unless a value lies below the
one that this directive takes. No text is read as a program of this kind. -/
theorem declarations_leave_no_value (program : Program) (nonempty : program ≠ []) {depth : Nat}
    (valid : program.validate = .ok depth) :
    (∀ env machine, depth = 0 ↔ (program.runOn env machine).machine.stack = []) ∧
    (depth = 0 → program.isDeclaration) ∧
    ((program.isDeclaration ↔ depth = 0) ↔ ¬ program.EndsAboveValue) ∧
    ∀ text, Program.parse text = .ok program ∨ Program.parseDeclarations text = .ok program →
      ¬ program.EndsAboveValue := by
  obtain ⟨found, few⟩ := Program.validate_ok.mp valid
  have empty : depth = 0 → program.isDeclaration := by
    rintro rfl
    exact Program.isDeclaration_of_no_value nonempty valid
  refine ⟨?_, empty, ?_, fun text read => Program.not_endsAboveValue_of_reading read⟩
  · intro env machine
    rw [← (Program.runOn_of_depth env machine found).2, List.length_eq_zero_iff]
  · rw [Program.endsAboveValue_iff valid]
    constructor
    · rintro same ⟨declares, one⟩
      have none := same.mp declares
      omega
    · intro not_above
      constructor
      · intro declares
        have one : depth ≠ 1 := fun one => not_above ⟨declares, one⟩
        omega
      · exact empty

/-- The parameter is put on the stack twice and the hitbox takes one of them. -/
theorem waiting_value_outlasts_declaration :
    let program : Program := [.var "x", .var "x", .directive .hitboxTop]
    Program.decode [0x78, 0x78, 0x48] = .ok program ∧ program.validate = .ok 1 ∧
      program.isDeclaration ∧ ¬ (program.isDeclaration ↔ 1 = 0) ∧
      ∀ env machine, (program.runOn env machine).machine.stack ≠ [] := by
  intro program
  have valid : program.validate = .ok 1 := rfl
  obtain ⟨leaves, -, exact_where, -⟩ :=
    declarations_leave_no_value program (List.cons_ne_nil _ _) valid
  have above : program.EndsAboveValue := ⟨[.var "x", .var "x"], .hitboxTop, rfl, rfl⟩
  refine ⟨by decide +kernel, valid, rfl, fun same => exact_where.mp same above, ?_⟩
  intro env machine empty
  exact absurd ((leaves env machine).mpr empty) Nat.one_ne_zero

end SpriteFormula
