import SpriteFormula.Evaluation
import SpriteFormula.Proofs.DeclarationLines
import SpriteFormula.Proofs.StackDisciplines

/-!
What texts are read as is well formed. A formula leaves its value and nothing else. Declarations
come in blocks, one for each line that names a part of the sprite, and leave nothing. So no run of
them fails, and all that rendering can refuse is a literal too large for a finite number.
-/

namespace SpriteFormula

/-! ### Expressions and blocks -/

namespace Program

def NeverFails (program : Program) : Prop :=
  ∀ (env : Environment) (machine : Machine), ∃ value, (program.runOn env machine).result = .ok value

theorem neverFails_of_validate {program : Program} {depth : Nat}
    (h : program.validate = .ok depth) : program.NeverFails := by
  intro env machine
  have hf := (runOn_of_depth env machine (validate_ok.mp h).1).1
  exact ⟨_, result_runOn_ok hf⟩

theorem NeverFails.fault_eq_none {program : Program} (h : program.NeverFails) (env : Environment)
    (machine : Machine) : (program.runOn env machine).fault = none := by
  obtain ⟨value, hv⟩ := h env machine
  cases hf : (program.runOn env machine).fault with
  | none => rfl
  | some fault =>
    rw [result_runOn_error.mpr hf] at hv
    cases hv

structure IsExpression (program : Program) : Prop where
  writesNothing : ∀ d, .directive d ∉ program
  valid : program.validate = .ok 1
  neverFails : program.NeverFails

end Program

theorem Expr.pushes_of_mem {tree : Expr} : ∀ i ∈ tree.postfixOrder, i.pushes := by
  induction tree with
  | constant value => exact List.forall_mem_singleton.mpr rfl
  | var name => exact List.forall_mem_singleton.mpr rfl
  | binary op left right ihl ihr => exact forall_binary.mpr ⟨ihl, ihr, rfl⟩
  | negative operand ih => exact forall_negative.mpr ⟨ih, rfl⟩
  | call f argument ih => exact forall_call.mpr ⟨ih, rfl⟩
  | extremum f left right ihl ihr => exact forall_extremum.mpr ⟨ihl, ihr, rfl⟩

theorem Program.isExpression_postfixOrder (tree : Expr) : IsExpression tree.postfixOrder := by
  have valid := Outline.validate_postfixOrder tree
  constructor
  · intro d hm
    cases Expr.pushes_of_mem _ hm
  · exact valid
  · exact neverFails_of_validate valid

/-- Each block leaves the stack as empty as it found it. -/
theorem Assignment.depthFrom_blocks {blocks : List Assignment}
    (h : ∀ block ∈ blocks, ∃ tree : Expr, block.value = tree.postfixOrder) (position : Nat) :
    Program.depthFrom position 0 (blocks.flatMap Assignment.program) = .ok 0 := by
  induction blocks generalizing position with
  | nil => rfl
  | cons block others ih =>
    rw [List.forall_mem_cons] at h
    obtain ⟨⟨tree, ht⟩, ho⟩ := h
    rw [List.flatMap_cons, Assignment.program, ht, List.append_assoc,
      Outline.depthFrom_postfixOrder, List.singleton_append, Program.depthFrom]
    exact ih ho _

/-! ### Literals -/

/-- A number whose numeral is past the finite numbers. -/
def Token.Overflows (token : Token) : Prop :=
  token.kind = .number ∧ ∃ d, Binary64.decimal? token.text.toList = some d ∧
    Binary64.ofDecimal d = Binary64.infiniteMagnitude

example : Binary64.ofDecimal ⟨1, 309⟩ = Binary64.infiniteMagnitude := by decide +kernel

namespace Binary64

theorem isFinite_ofMagnitude {magnitude : Nat} (h : magnitude < infiniteMagnitude) :
    (ofMagnitude false magnitude).isFinite := by
  have hi : infiniteMagnitude < 2 ^ 63 := by decide
  have hm : magnitude % 2 ^ 64 = magnitude := Nat.mod_eq_of_lt (by omega)
  have hs : magnitude % 2 ^ 63 = magnitude := Nat.mod_eq_of_lt (by omega)
  simp only [isFinite, Binary64.magnitude, ofMagnitude, Bool.false_eq_true, if_false,
    UInt64.toNat_ofNat', hm, hs]
  exact decide_eq_true h

end Binary64

/-- A constant that the instruction pushes is finite, or it is what one of the tokens overflows
to. -/
def Instruction.FiniteBut (tokens : List Token) : Instruction → Prop
  | .constant value => value.isFinite ∨ value = .infinity ∧ ∃ token ∈ tokens, token.Overflows
  | _ => True

namespace Formula

open Grammar Token

theorem finite_of_constantNames {name : String} {value : Binary64}
    (h : (name, value) ∈ constantNames) : value.isFinite := by
  have all : ∀ constant ∈ constantNames, constant.2.isFinite := by decide
  exact all _ h

theorem carries_finiteBut (tokens : List Token) :
    Carries (fun token => token ∈ tokens ∧ Shaped token) (Instruction.FiniteBut tokens) := by
  constructor
  · rintro token value ⟨hm, hs⟩ hk hv
    rw [Shaped, hk] at hs
    obtain ⟨d, hd, rfl⟩ := Binary64.decimal_of_number hs hv
    rcases Nat.lt_or_eq_of_le (Binary64.ofDecimal_le d) with hl | he
    · exact .inl (Binary64.isFinite_ofMagnitude hl)
    · refine .inr ⟨?_, token, hm, hk, d, hd, he⟩
      rw [he]
      rfl
  · intro name value h
    exact .inl (finite_of_constantNames h)
  · intro token _ _ _
    trivial
  · intro i ha _
    cases i with
    | constant value => exact absurd ha (Nat.lt_irrefl 0)
    | _ => trivial

end Formula

theorem Directive.finite_of_keywordValue {name : String} {value : Binary64}
    (h : Directive.keywordValue? name = some value) : value.isFinite := by
  rcases keywordValue_some h with rfl | rfl
  · decide
  · decide

/-! ### Lines -/

namespace Line

/-- The tokens of a line, whose break is none of them. -/
def tokens (line : List Char) : List Token := Token.scanFrom 0 (Text.withoutBreak line)

/-- The part of the sprite that a line assigns to. Blank lines and remarks assign to none. -/
def target? (line : List Char) : Option Directive :=
  let content := Text.trim line
  if content.isEmpty || content.head? = some '#' then none
  else (Directive.readTarget? (tokens line)).map Prod.fst

theorem target_of_read {line : List Char} {result : Line} (h : read line = .ok result) :
    target? line = result.assignment?.map Assignment.directive := by
  unfold read at h
  unfold target?
  dsimp only at h ⊢
  split at h
  · next hb =>
    cases h
    rw [if_pos hb]
    rfl
  · next hb =>
    rw [if_neg hb]
    unfold Assignment.ofTokens? at h
    cases ht : Directive.readTarget? (tokens line) with
    | none =>
      rw [tokens] at ht
      rw [ht] at h
      cases h
      rfl
    | some target =>
      rw [tokens] at ht
      rw [ht] at h
      cases hv : Assignment.readValue target.1 target.2 with
      | error refusal =>
        simp only [hv] at h
        cases h
      | ok value =>
        simp only [hv] at h
        cases h
        rfl

/-- The value of a line's assignment is an expression that was read from its tokens. -/
theorem value_of_read {line : List Char} {a : Assignment} (h : read line = .ok (.assignment a)) :
    ∃ tree : Expr, a.value = tree.postfixOrder ∧
      ∀ i ∈ tree.postfixOrder, i.FiniteBut (tokens line) := by
  have ha := read_assignment h
  unfold Assignment.ofTokens? at ha
  split at ha
  · cases ha
  · next directive rest ht =>
    split at ha
    · cases ha
    · next value hv =>
      cases ha
      have hr := (Directive.readTarget_some ht).1
      refine Assignment.readValue_ok (Formula.carries_finiteBut (tokens line)) ?_ hv ?_
      · intro name value hk
        exact .inl (Directive.finite_of_keywordValue hk)
      · intro token hm
        have hl := hr.subset hm
        exact ⟨hl, Token.shaped_of_mem hl⟩

end Line

/-! ### Texts -/

/-- One block for each line that has a target, in the order of the lines. -/
def Assignment.AreOf (lines : List (List Char)) (blocks : List Assignment) : Prop :=
  List.Forall₂
    (fun line block =>
      Line.read line = .ok (.assignment block) ∧ Line.target? line = some block.directive)
    (lines.filter fun line => (Line.target? line).isSome) blocks

theorem Assignment.areOf_of_reads {lines : List (List Char)} {reads : List Line}
    (h : List.Forall₂ (fun line result => Line.read line = .ok result) lines reads) :
    Assignment.AreOf lines (reads.filterMap Line.assignment?) := by
  induction h with
  | nil => exact .nil
  | @cons line result lines reads hl _ ih =>
    have ht := Line.target_of_read hl
    unfold AreOf
    cases result with
    | assignment a =>
      rw [List.filter_cons_of_pos (by rw [ht]; rfl)]
      exact .cons ⟨hl, ht⟩ ih
    | blank =>
      rw [List.filter_cons_of_neg (by rw [ht]; exact Bool.false_ne_true)]
      exact ih
    | skipped content =>
      rw [List.filter_cons_of_neg (by rw [ht]; exact Bool.false_ne_true)]
      exact ih

theorem Program.blocks_of_parse {text : String} {program : Program}
    (h : Program.parseDeclarations text = .ok program) :
    ∃ blocks : List Assignment, program = blocks.flatMap Assignment.program ∧
      Assignment.AreOf (Text.lines text.toList) blocks := by
  obtain ⟨reads, each, rfl⟩ := reads_of_parse h
  exact ⟨_, rfl, Assignment.areOf_of_reads each⟩

namespace Assignment.AreOf

variable {lines : List (List Char)} {blocks : List Assignment}

theorem line_of_mem (h : Assignment.AreOf lines blocks) :
    ∀ block ∈ blocks, ∃ line ∈ lines, Line.read line = .ok (.assignment block) := by
  have hsub : lines.filter (fun line => (Line.target? line).isSome) ⊆ lines :=
    List.filter_sublist.subset
  -- the induction is on the lines kept, which are no longer all lines
  unfold AreOf at h
  generalize lines.filter (fun line => (Line.target? line).isSome) = kept at h hsub
  induction h with
  | nil => nofun
  | cons hl _ ih =>
    rw [List.cons_subset] at hsub
    exact List.forall_mem_cons.mpr ⟨⟨_, hsub.1, hl.1⟩, ih hsub.2⟩

theorem tree_of_mem (h : Assignment.AreOf lines blocks) :
    ∀ block ∈ blocks, ∃ tree : Expr, block.value = tree.postfixOrder := by
  intro block hb
  obtain ⟨line, _, hl⟩ := h.line_of_mem block hb
  obtain ⟨tree, ht, _⟩ := Line.value_of_read hl
  exact ⟨tree, ht⟩

theorem isExpression_of_mem (h : Assignment.AreOf lines blocks) :
    ∀ block ∈ blocks, block.value.IsExpression := by
  intro block hb
  obtain ⟨tree, ht⟩ := h.tree_of_mem block hb
  rw [ht]
  exact Program.isExpression_postfixOrder tree

theorem validate (h : Assignment.AreOf lines blocks) :
    Program.validate (blocks.flatMap Assignment.program) = .ok 0 :=
  Program.validate_ok.mpr ⟨Assignment.depthFrom_blocks h.tree_of_mem 0, Nat.zero_le 1⟩

/-- A constant that is not finite comes from a line with a literal that overflows. -/
theorem finite_or_overflow (h : Assignment.AreOf lines blocks) {value : Binary64}
    (hm : .constant value ∈ blocks.flatMap Assignment.program) :
    value.isFinite ∨ value = .infinity ∧
      ∃ line ∈ lines, ∃ token ∈ Line.tokens line, token.Overflows := by
  obtain ⟨block, hb, hi⟩ := List.mem_flatMap.mp hm
  obtain ⟨line, hl, hr⟩ := h.line_of_mem block hb
  obtain ⟨tree, ht, hf⟩ := Line.value_of_read hr
  have hv : .constant value ∈ tree.postfixOrder := by
    rw [Assignment.program, ht] at hi
    simpa using hi
  rcases hf _ hv with hf | ⟨rfl, token, hmem, ho⟩
  · exact .inl hf
  · exact .inr ⟨rfl, line, hl, token, hmem, ho⟩

end Assignment.AreOf

namespace Program

/-- What the lines of a text declare, block by block. -/
structure IsDeclarationsOf (text : String) (program : Program) : Prop where
  valid : program.validate = .ok 0
  neverFails : program.NeverFails
  blocks : ∃ blocks : List Assignment, program = blocks.flatMap Assignment.program ∧
    Assignment.AreOf (Text.lines text.toList) blocks ∧ ∀ block ∈ blocks, block.value.IsExpression

theorem isDeclarationsOf_of_parse {text : String} {program : Program}
    (h : parseDeclarations text = .ok program) : program.IsDeclarationsOf text := by
  obtain ⟨blocks, rfl, ha⟩ := blocks_of_parse h
  constructor
  · exact ha.validate
  · exact neverFails_of_validate ha.validate
  · exact ⟨blocks, rfl, ha, ha.isExpression_of_mem⟩

/-- Rendering refused the declarations of a text, for it has a literal that overflows. -/
structure RefusedLiteral (profile : Profile) (text : String) (program : Program) (fault : Fault) :
    Prop where
  fault_eq : fault = .encode (.noLiteral .infinity profile.name)
  constant : .constant .infinity ∈ program
  literal : ∃ line ∈ Text.lines text.toList, ∃ token ∈ Line.tokens line, token.Overflows

theorem refusedLiteral_of_render {profile : Profile} {text : String} {program : Program}
    {fault : Fault} (h : parseDeclarations text = .ok program)
    (hr : program.render profile = .error fault) : RefusedLiteral profile text program fault := by
  have valid := (isDeclarationsOf_of_parse h).valid
  rcases render_cases profile program with ⟨source, _, hs, _⟩ | ⟨found, _, hv⟩ |
    ⟨value, error, hm, he, hs⟩
  · rw [hs] at hr
    cases hr
  · rw [valid] at hv
    cases hv
  · rw [hs] at hr
    cases hr
    obtain ⟨rfl, hf⟩ := Profile.refuse_some he
    obtain ⟨blocks, rfl, ha⟩ := blocks_of_parse h
    rcases ha.finite_or_overflow hm with hfin | ⟨rfl, ho⟩
    · rw [hf] at hfin
      cases hfin
    · exact ⟨rfl, hm, ho⟩

/-- No target language spells infinity, so a report refuses it wherever it was read. -/
theorem report_of_infinity {text : String} {program : Program} (language : Language)
    (h : parseDeclarations text = .ok program) (hm : .constant .infinity ∈ program) :
    report language.profile text =
      .error (.encode (.noLiteral .infinity language.profile.name)) := by
  have hf : program.declarationRun.fault = none :=
    (isDeclarationsOf_of_parse h).neverFails.fault_eq_none _ _
  have refused : (language.profile.refuse .infinity).isSome := by
    cases language <;> decide
  cases hr : program.render language.profile with
  | error fault =>
    simp only [report, h, hf, hr, (refusedLiteral_of_render h hr).fault_eq]
  | ok source =>
    unfold render at hr
    split at hr
    · cases hr
    · next hread =>
      have := Outline.accepts_of_readFrom hread _ hm
      rw [Outline.refusal?] at this
      rw [this] at refused
      cases refused

end Program

/-- A formula is read as an expression, and the lines of a text as blocks of one expression and
where it goes. Neither fails when it is run. A report on declarations fails where they cannot be
read, or else where a literal overflows and rendering refuses it. -/
theorem readings_are_well_formed (text : String) :
    (∀ program, Program.parse text = .ok program → program.IsExpression) ∧
    (∀ program, Program.parseDeclarations text = .ok program → program.IsDeclarationsOf text) ∧
    ∀ profile fault, Program.report profile text = .error fault →
      (∃ error, Program.parseDeclarations text = .error error ∧ fault = .parse error) ∨
      ∃ program, Program.parseDeclarations text = .ok program ∧
        program.render profile = .error fault ∧
        Program.RefusedLiteral profile text program fault := by
  refine ⟨fun program h => ?_, fun program h => ?_, fun profile fault h => ?_⟩
  · obtain ⟨tree, _, rfl⟩ := Program.parse_ok_iff.mp h
    exact Program.isExpression_postfixOrder tree
  · exact Program.isDeclarationsOf_of_parse h
  · cases hp : Program.parseDeclarations text with
    | error error =>
      simp only [Program.report, hp] at h
      cases h
      exact .inl ⟨error, rfl, rfl⟩
    | ok program =>
      have hf : program.declarationRun.fault = none :=
        (Program.isDeclarationsOf_of_parse hp).neverFails.fault_eq_none _ _
      cases hr : program.render profile with
      | error found =>
        simp only [Program.report, hp, hf, hr] at h
        cases h
        exact .inr ⟨program, rfl, hr, Program.refusedLiteral_of_render hp hr⟩
      | ok source =>
        simp only [Program.report, hp, hf, hr] at h
        cases h

/-- A number alone is the value that a line writes to the animation. -/
theorem parseDeclarations_animation {text : String} {line : List Char} {literal : Token}
    {value : Binary64} (ht : text.toList = line) (hl : Text.lines line = [line])
    (hb : ¬ ((Text.trim line).isEmpty || (Text.trim line).head? = some '#'))
    (hs : Token.scanFrom 0 (Text.withoutBreak line) =
      [⟨.identifier, "sprite", 0⟩, ⟨.period, ".", 6⟩, ⟨.identifier, "Animation", 7⟩,
        ⟨.assign, "=", 17⟩, literal])
    (hk : literal.kind = .number) (hv : Binary64.ofText? literal.text = some value) :
    Program.parseDeclarations text = .ok [.constant value, .directive .animation] := by
  have formula : Formula.ofTokens [literal] = .ok [.constant value] :=
    Formula.ofTokens_ok_iff.mpr ⟨_, .product (.factor (.primary (.number hk hv))), rfl⟩
  have target : Directive.readTarget? (Token.scanFrom 0 (Text.withoutBreak line)) =
      some (.animation, [literal]) := by
    rw [hs]
    rfl
  have read : Line.read line = .ok (.assignment ⟨.animation, [.constant value]⟩) := by
    simp only [Line.read, if_neg hb, Assignment.ofTokens?, target, Assignment.readValue, formula]
    rfl
  simp only [Program.parseDeclarations, Assignment.parse, ht, hl, Line.readFrom, read]
  rfl

/-- A number of more than 308 digits is read as infinity. -/
theorem overflowing_animation_reads :
    Program.parseDeclarations ("sprite.Animation = " ++ String.ofList (List.replicate 310 '9')) =
      .ok [.constant .infinity, .directive .animation] := by
  -- the kernel is slow to read back a long string, so its characters are what is evaluated
  have text : ("sprite.Animation = " ++ String.ofList (List.replicate 310 '9')).toList =
      "sprite.Animation = ".toList ++ List.replicate 310 '9' :=
    String.toList_append.trans (congrArg _ String.toList_ofList)
  have number : Binary64.ofText? (String.ofList (List.replicate 310 '9')) = some .infinity := by
    rw [Binary64.ofText?, String.toList_ofList]
    decide +kernel
  have tokens : Token.scanFrom 0
      (Text.withoutBreak ("sprite.Animation = ".toList ++ List.replicate 310 '9')) =
      [⟨.identifier, "sprite", 0⟩, ⟨.period, ".", 6⟩, ⟨.identifier, "Animation", 7⟩,
        ⟨.assign, "=", 17⟩, ⟨.number, String.ofList (List.replicate 310 '9'), 19⟩] := by
    decide +kernel
  exact parseDeclarations_animation text (by decide +kernel) (by decide +kernel) tokens rfl number

/-- A line that assigns to nothing known is passed over, but one without an operand is an error of
the whole report, and so is a literal that overflows. -/
theorem missing_operand_fails_report :
    let formula : Program := [.var "x", .constant .one, .function (.extremum .min), .var "y",
      .operator .multiply]
    let declarations : Program := [.constant .zero, .directive .direction, .var "x",
      .directive .animation]
    let lines := "# left\nsprite.Direction = LeftDirection\nenemy = 2\nsprite.Animation = x"
    let error : ParseError := ⟨⟨2, 22, 43⟩, "<end of input>", .missingOperand⟩
    let large := "sprite.Animation = " ++ String.ofList (List.replicate 310 '9')
    let infinite : Program := [.constant .infinity, .directive .animation]
    let refused : Fault := .encode (.noLiteral .infinity Profile.c.name)
    (Program.parse "min(x, 1) y" = .ok formula ∧ formula.IsExpression) ∧
    (Program.parseDeclarations lines = .ok declarations ∧ declarations.IsDeclarationsOf lines) ∧
    (Program.report .c "sprite.Hitbox.Top = 1\nsprite.Animation = 2*" = .error (.parse error) ∧
      Program.parseDeclarations "sprite.Hitbox.Top = 1\nsprite.Animation = 2*" = .error error) ∧
    Program.report .c large = .error refused ∧ Program.parseDeclarations large = .ok infinite ∧
      Program.RefusedLiteral .c large infinite refused := by
  intro formula declarations lines error large infinite refused
  have hf : Program.parse "min(x, 1) y" = .ok formula := by decide +kernel
  have hd : Program.parseDeclarations lines = .ok declarations := by decide +kernel
  have hr : Program.report .c "sprite.Hitbox.Top = 1\nsprite.Animation = 2*" =
      .error (.parse error) := by decide +kernel
  have hl : Program.parseDeclarations large = .ok infinite := overflowing_animation_reads
  have hi : Program.report .c large = .error refused :=
    Program.report_of_infinity .c hl List.mem_cons_self
  refine ⟨⟨hf, (readings_are_well_formed _).1 _ hf⟩,
    ⟨hd, (readings_are_well_formed _).2.1 _ hd⟩, ⟨hr, ?_⟩, hi, hl, ?_⟩
  · rcases (readings_are_well_formed _).2.2 .c _ hr with ⟨found, hp, he⟩ | ⟨_, _, _, hl⟩
    · cases he
      exact hp
    · cases hl.fault_eq
  · rcases (readings_are_well_formed _).2.2 .c _ hi with ⟨found, hp, -⟩ | ⟨found, hp, -, hrefused⟩
    · cases hl.symm.trans hp
    · obtain rfl := Except.ok.inj (hl.symm.trans hp)
      exact hrefused

end SpriteFormula
