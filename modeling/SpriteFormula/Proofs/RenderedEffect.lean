import SpriteFormula.Proofs.DeclarationRoundTrip
import SpriteFormula.Proofs.ReadingBalance
import SpriteFormula.Proofs.SpriteWrites
import SpriteFormula.Proofs.StackDisciplines

/-!
Rendering keeps what a program does to a sprite. The program may hold values on the stack while it
writes others, and its constants may have signs, so the rendered text is read back as another
program. But the two are read as the same assignments of the same values, in the same order.
-/

namespace SpriteFormula

/-! ### Instructions of an outline -/

/-- The parts of the sprite that a program writes to, in order. -/
def Program.directives (program : Program) : List Directive :=
  program.filterMap fun
    | .directive d => some d
    | _ => none

namespace Outline

variable {refuse : Binary64 → Option EncodeError} {values next : List Expr} {i : Instruction}

/-- An instruction makes trees of the instructions that there were and of itself. -/
theorem push_forall {p : Instruction → Prop} (h : push? values i = some next)
    (hv : ∀ tree ∈ values, ∀ j ∈ tree.postfixOrder, p j) (hi : p i) :
    ∀ tree ∈ next, ∀ j ∈ tree.postfixOrder, p j := by
  have enough := enough_of_push h
  cases enough using Instruction.enough_cases with
  | constant value values =>
    cases h
    exact List.forall_mem_cons.mpr ⟨List.forall_mem_singleton.mpr hi, hv⟩
  | var name values =>
    cases h
    exact List.forall_mem_cons.mpr ⟨List.forall_mem_singleton.mpr hi, hv⟩
  | operator op right left values =>
    cases h
    obtain ⟨hr, hl, ho⟩ := List.forall_mem_cons.mp hv |>.imp_right List.forall_mem_cons.mp
    exact List.forall_mem_cons.mpr ⟨Expr.forall_binary.mpr ⟨hl, hr, hi⟩, ho⟩
  | negative operand values =>
    cases h
    obtain ⟨hf, ho⟩ := List.forall_mem_cons.mp hv
    exact List.forall_mem_cons.mpr ⟨Expr.forall_negative.mpr ⟨hf, hi⟩, ho⟩
  | unary f argument values =>
    cases h
    obtain ⟨hf, ho⟩ := List.forall_mem_cons.mp hv
    exact List.forall_mem_cons.mpr ⟨Expr.forall_call.mpr ⟨hf, hi⟩, ho⟩
  | extremum f right left values =>
    cases h
    obtain ⟨hr, hl, ho⟩ := List.forall_mem_cons.mp hv |>.imp_right List.forall_mem_cons.mp
    exact List.forall_mem_cons.mpr ⟨Expr.forall_extremum.mpr ⟨hl, hr, hi⟩, ho⟩
  | directive d value values =>
    cases h
    exact (List.forall_mem_cons.mp hv).2

theorem assigned_forall {p : Instruction → Prop}
    (hv : ∀ tree ∈ values, ∀ j ∈ tree.postfixOrder, p j) (hi : p i) :
    ∀ s ∈ assigned values i, ∀ j ∈ s.program, p j := by
  intro s hs
  cases i with
  | directive d =>
    obtain ⟨value, hm, rfl⟩ := List.mem_map.mp hs
    rw [Option.mem_toList] at hm
    exact List.forall_mem_append.mpr
      ⟨hv value (List.mem_of_mem_head? hm), List.forall_mem_singleton.mpr hi⟩
  | _ => cases hs

/-- The statements that a program is read as are made of its instructions. -/
theorem statements_forall {p : Instruction → Prop} {program : Program} {position : Nat}
    {outline : Outline} (h : readFrom refuse position values program = .ok outline)
    (hv : ∀ tree ∈ values, ∀ j ∈ tree.postfixOrder, p j) (hp : ∀ i ∈ program, p i) :
    ∀ s ∈ outline.statements, ∀ j ∈ s.program, p j := by
  induction program generalizing position values outline with
  | nil =>
    cases h
    exact List.forall_mem_nil _
  | cons i rest ih =>
    obtain ⟨hi, hr⟩ := List.forall_mem_cons.mp hp
    obtain ⟨next, read, -, hn, ho, rfl⟩ := readFrom_cons_ok h
    exact List.forall_mem_append.mpr
      ⟨assigned_forall hv hi, ih ho (push_forall hn hv hi) hr⟩

/-- The statements that a program is read as write to the parts of the sprite that it writes to. -/
theorem directives_of_readFrom {program : Program} {position : Nat} {outline : Outline}
    (h : readFrom refuse position values program = .ok outline) :
    program.directives = outline.statements.map Statement.directive := by
  induction program generalizing position values outline with
  | nil =>
    cases h
    rfl
  | cons i rest ih =>
    obtain ⟨next, read, -, hn, ho, rfl⟩ := readFrom_cons_ok h
    rw [List.map_append, ← ih ho]
    cases i with
    | directive d =>
      match values, hn with
      | value :: values, rfl => rfl
    | _ => rfl

end Outline

/-! ### Values that are read back -/

namespace Binary64

theorem toNat_ofMagnitude (negative : Bool) (value : Binary64) :
    (ofMagnitude negative value.magnitude).bits.toNat =
      (if negative then 2 ^ 63 else 0) + value.magnitude := by
  have hm : value.magnitude < 2 ^ 63 := Nat.mod_lt _ (by decide)
  cases negative with
  | false =>
    simp only [ofMagnitude, Bool.false_eq_true, if_false, UInt64.toNat_ofNat']
    omega
  | true =>
    simp only [ofMagnitude, if_true, UInt64.toNat_ofNat']
    omega

/-- Changing the sign twice changes nothing, not even a bit. -/
theorem neg_neg (value : Binary64) : value.neg.neg = value := by
  have hm : value.magnitude < 2 ^ 63 := Nat.mod_lt _ (by decide)
  have magnitude_neg : value.neg.magnitude = value.magnitude := by
    rw [magnitude, neg, toNat_ofMagnitude]
    split <;> omega
  have isNegative_neg : value.neg.isNegative = !value.isNegative := by
    rw [isNegative, neg, toNat_ofMagnitude]
    cases value.isNegative with
    | false => exact decide_eq_true (Nat.le_add_right _ _)
    | true => exact decide_eq_false (by simpa using hm)
  have bits : (if value.isNegative then 2 ^ 63 else 0) + value.magnitude = value.bits.toNat := by
    have hb := value.bits.toNat_lt
    simp only [isNegative, magnitude, decide_eq_true_eq]
    split <;> omega
  have back : value.neg.neg = ofMagnitude value.isNegative value.magnitude := by
    rw [neg, isNegative_neg, magnitude_neg, Bool.not_not]
  have same : value.neg.neg.bits = value.bits := by
    rw [back, ← UInt64.toNat_inj, toNat_ofMagnitude, bits]
  exact congrArg Binary64.mk same

end Binary64

/-- A constant with a sign has the value of the negation that it is read back as. -/
theorem Expr.eval_signSplit (env : Environment) (tree : Expr) :
    tree.signSplit.eval env = tree.eval env := by
  induction tree with
  | constant value =>
    rw [signSplit]
    split
    · exact congrArg some value.neg_neg
    · rfl
  | var name => rfl
  | binary op left right ihl ihr => rw [signSplit, eval, eval, ihl, ihr]
  | negative operand ih => rw [signSplit, eval, eval, ih]
  | call f argument ih => cases f <;> simp only [signSplit, eval, ih]
  | extremum f left right ihl ihr => rw [signSplit, eval, eval, ihl, ihr]

/-! ### Statements that are read back -/

/-- An instruction that comes back from the rendered text of declarations: a constant is finite, a
variable has a name that is neither that of a constant nor a keyword of the direction, and the name
of a variable of the sprite needs no escape between its quotes. -/
def Instruction.Declarable : Instruction → Prop
  | .constant value => value.isFinite
  | .var name => Token.NamesVariable name ∧ Directive.keywordValue? name = none
  | .directive (.var name) => Text.quoted name = "\"" ++ name ++ "\""
  | _ => True

namespace Instruction

theorem Declarable.writable {i : Instruction} (h : i.Declarable) (hi : i.pushes) : i.Writable := by
  cases i with
  | constant value => exact h
  | var name => exact h.1
  | directive d => cases hi
  | _ => trivial

theorem Declarable.directive_reread {d : Directive} (h : (directive d).Declarable) :
    d.reread = d := by
  cases d with
  | var name => exact congrArg Directive.var (Token.unquoted_quoted_iff.mpr h)
  | _ => rfl

end Instruction

theorem Text.quotedChar_ne_nil (c : Char) : quotedChar c ≠ [] := by
  unfold quotedChar
  repeat' split
  all_goals exact List.cons_ne_nil _ _

/-- A text that is the same between quotes has no character with an escape. -/
theorem Text.quotedChar_of_same {text : List Char} (h : text.flatMap quotedChar = text) :
    ∀ c ∈ text, quotedChar c = [c] := by
  have longer (others : List Char) : others.length ≤ (others.flatMap quotedChar).length := by
    induction others with
    | nil => exact Nat.le_refl _
    | cons c rest ih =>
      have := List.length_pos_iff.mpr (quotedChar_ne_nil c)
      rw [List.flatMap_cons, List.length_append, List.length_cons]
      omega
  induction text with
  | nil => exact List.forall_mem_nil _
  | cons c rest ih =>
    rw [List.flatMap_cons] at h
    have hl := congrArg List.length h
    rw [List.length_append, List.length_cons] at hl
    have hp := List.length_pos_iff.mpr (quotedChar_ne_nil c)
    have hr := longer rest
    obtain ⟨form, hf⟩ := List.length_eq_one_iff.mp (show (quotedChar c).length = 1 by omega)
    rw [hf] at h
    obtain ⟨rfl, hs⟩ := List.cons.inj h
    exact List.forall_mem_cons.mpr ⟨hf, ih hs⟩

theorem Instruction.Declarable.unquoted {d : Directive} (h : (directive d).Declarable) :
    d.Unquoted := by
  rintro name rfl c hc rfl
  have same : name.toList.flatMap Text.quotedChar = name.toList := by
    have hu := Token.unquoted_quoted_iff.mpr h
    rwa [Token.unquoted_quoted, ← String.toList_inj, String.toList_ofList] at hu
  exact absurd (Text.quotedChar_of_same same _ hc) (by decide)

theorem Expr.reread_of_not_keyword {tree : Expr}
    (h : ∀ name, tree = .var name → Directive.keywordValue? name = none) (d : Directive) :
    tree.reread d = tree := by
  by_cases hv : ∃ name, tree = .var name
  · obtain ⟨name, rfl⟩ := hv
    cases d with
    | direction => simp only [reread, h name rfl]
    | _ => rfl
  · exact reread_of_ne_var (fun name ht => hv ⟨name, ht⟩) d

/-- The direction does not tell equal numbers apart. -/
theorem Directive.write_direction_of_beq {value other : Binary64} (h : value.beq other)
    (sprite : Sprite) : direction.write? sprite value = direction.write? sprite other := by
  simp only [Binary64.beq, Bool.and_eq_true, Bool.not_eq_true', beq_iff_eq] at h
  obtain ⟨⟨hv, ho⟩, hr⟩ := h
  have hd : Direction.ofValue value = Direction.ofValue other := by
    simp only [Direction.ofValue, Binary64.lt, hv, ho, hr]
  simp only [write?, hv, ho, hd]

namespace Statement

variable {statement : Statement}

/-- A statement and the one that its line is read back as do the same to a sprite. -/
theorem applyTo_readBack (h : ∀ i ∈ statement.program, i.Declarable) (env : Environment)
    (sprite : Option Sprite) :
    (statement.readBack.write env).applyTo sprite = (statement.write env).applyTo sprite := by
  obtain ⟨d, tree⟩ := statement
  obtain ⟨ht, hd⟩ := List.forall_mem_append.mp h
  have hr : d.reread = d := (List.forall_mem_singleton.mp hd).directive_reread
  simp only [write, readBack, hr]
  cases hk : Profile.directionKeyword? ⟨d, tree⟩ with
  | none =>
    have named : ∀ name, tree.signSplit = .var name → Directive.keywordValue? name = none := by
      intro name hn
      obtain rfl := Expr.eq_var_of_signSplit hn
      exact (ht (.var name) List.mem_cons_self).2
    rw [Expr.readBack_layout hk, Expr.reread_of_not_keyword named, Expr.eval_signSplit]
  | some keyword =>
    -- a keyword stands for zero of either sign, so only the direction comes out the same
    obtain ⟨rfl, value, rfl, hv⟩ := Assignment.keyword_of_directionKeyword hk
    obtain ⟨constant, hc, -, he, -⟩ := Assignment.keywordValue_of_keyword hv
    rw [Expr.readBack_keyword hk hc]
    cases sprite with
    | none => simp only [Write.applyTo, Directive.applyTo, Expr.eval]
    | some sprite =>
      simp only [Write.applyTo, Directive.applyTo, Expr.eval, Directive.write_direction_of_beq he]

end Statement

namespace Program

theorem directives_statements (statements : List Statement) :
    directives (statements.flatMap Statement.program) = statements.map Statement.directive :=
  Outline.directives_of_readFrom (Outline.readFrom_statements (Outline.accepts_all _) 0)

/-- A program that leaves no value, and no constant of which is refused, is rendered as the lines of
statements. -/
theorem render_statements {program : Program} (balanced : program.validate = .ok 0)
    (finite : ∀ value, .constant value ∈ program → value.isFinite) :
    ∃ statements, Outline.readFrom Profile.generic.refuse 0 [] program = .ok ⟨statements, []⟩ ∧
      program.render .generic =
        .ok (String.ofList
          (['\n'].intercalate (statements.map Profile.generic.statementLine))) := by
  have depth : program.depthFrom 0 0 = .ok 0 := (validate_ok.mp balanced).1
  rcases Outline.readFrom_cases Profile.generic.refuse program 0 [] with ⟨outline, ho, hd⟩ |
    ⟨fault, -, hd⟩ | ⟨value, error, hm, he, -⟩
  · obtain ⟨statements, values⟩ := outline
    obtain rfl : values = [] := by
      rw [← List.length_eq_zero_iff]
      exact (Except.ok.inj (depth.symm.trans hd)).symm
    refine ⟨statements, ho, ?_⟩
    simp only [render, ho, List.map_nil, List.append_nil]
    rfl
  · cases depth.symm.trans hd
  · have hf := finite value hm
    rw [(Profile.refuse_some he).2] at hf
    cases hf

end Program

/-- The rendered text of a program that takes all its values for the sprite is read back as a
program that writes to the same parts of the sprite in the same order, and it leaves every sprite as
the program does. -/
theorem rendering_keeps_effect (program : Program)
    (declarable : ∀ i ∈ program, i.Declarable) (balanced : program.validate = .ok 0) :
    ∃ text other, program.render .generic = .ok text ∧
      Program.parseDeclarations text = .ok other ∧
      other.directives = program.directives ∧
      ∀ env machine, (other.runOn env machine).machine.sprite =
        (program.runOn env machine).machine.sprite := by
  obtain ⟨statements, outlined, rendered⟩ :=
    Program.render_statements balanced fun value hm => declarable _ hm
  have each : ∀ s ∈ statements, ∀ i ∈ s.program, i.Declarable :=
    Outline.statements_forall outlined (List.forall_mem_nil _) declarable
  have hd : ∀ s ∈ statements, (Instruction.directive s.directive).Declarable := by
    intro s hs
    exact each s hs _ (List.mem_append_right _ List.mem_cons_self)
  have hw : ∀ s ∈ statements, ∀ i ∈ s.value.postfixOrder, i.Writable := by
    intro s hs i hi
    exact (each s hs i (List.mem_append_left _ hi)).writable (Expr.pushes_of_mem i hi)
  refine ⟨_, _, rendered,
    Program.parseDeclarations_lines (fun s hs => (hd s hs).unquoted) hw, ?_, ?_⟩
  · rw [Program.directives_statements, Outline.directives_of_readFrom outlined, List.map_map]
    exact List.map_congr_left fun s hs => (hd s hs).directive_reread
  · intro env machine
    rw [Program.sprite_runOn, Program.sprite_runOn, Program.writes_statements,
      Program.writes_of_readFrom outlined, List.map_map, List.foldl_map, List.foldl_map]
    apply List.foldl_ext
    intro sprite s hs
    exact Statement.applyTo_readBack (each s hs) env sprite

/-- The hitbox waits on the stack while the direction is written, and both zeros face left. -/
theorem waiting_operand_keeps_effect :
    let program : Program := [.constant Binary64.one.neg, .var "x", .constant .negativeZero,
      .directive .direction, .operator .multiply, .directive .hitboxTop]
    let other : Program := [.constant .zero, .directive .direction, .constant .one, .negative,
      .var "x", .operator .multiply, .directive .hitboxTop]
    let env : Environment := { x := .half }
    let start : Machine := { sprite := some { direction := .right } }
    let left : Sprite := { direction := .left, hitboxTop := Binary64.half.neg }
    program.render .generic =
        .ok "sprite.Direction = LeftDirection\nsprite.Hitbox.Top = -1 * x" ∧
      Program.parseDeclarations "sprite.Direction = LeftDirection\nsprite.Hitbox.Top = -1 * x" =
        .ok other ∧
      (∀ env machine, (other.runOn env machine).machine.sprite =
        (program.runOn env machine).machine.sprite) ∧
      (program.runOn env start).machine.sprite = some left ∧
      (other.runOn env start).machine.sprite = some left := by
  intro program other env start left
  have hx : Token.NamesVariable "x" :=
    ⟨Token.scan_of_isName (by decide), by decide⟩
  have declarable : ∀ i ∈ program, i.Declarable := by
    refine List.forall_mem_cons.mpr ⟨?_, List.forall_mem_cons.mpr ⟨⟨hx, rfl⟩,
      List.forall_mem_cons.mpr ⟨?_, ?_⟩⟩⟩
    · change Binary64.one.neg.isFinite
      decide
    · change Binary64.negativeZero.isFinite
      decide
    · exact List.forall_mem_cons.mpr ⟨trivial, List.forall_mem_cons.mpr ⟨trivial,
        List.forall_mem_singleton.mpr trivial⟩⟩
  have ht : program.render .generic =
      .ok "sprite.Direction = LeftDirection\nsprite.Hitbox.Top = -1 * x" := by decide +kernel
  have ho : Program.parseDeclarations
      "sprite.Direction = LeftDirection\nsprite.Hitbox.Top = -1 * x" = .ok other := by
    decide +kernel
  obtain ⟨text, found, hr, hp, -, hs⟩ := rendering_keeps_effect program declarable (by decide)
  obtain rfl := Except.ok.inj (ht.symm.trans hr)
  obtain rfl := Except.ok.inj (ho.symm.trans hp)
  have written : program.writes env =
      [⟨.direction, some .negativeZero⟩, ⟨.hitboxTop, some Binary64.half.neg⟩] := by
    decide +kernel
  have faces : (program.runOn env start).machine.sprite = some left := by
    rw [Program.sprite_runOn, written]
    rfl
  exact ⟨ht, ho, hs, faces, (hs env start).trans faces⟩

end SpriteFormula
