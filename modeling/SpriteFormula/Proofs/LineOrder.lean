import SpriteFormula.Proofs.LineEnds
import SpriteFormula.Proofs.ReadingBalance
import SpriteFormula.Proofs.SpriteWrites

/-!
The order of declaration lines. Each part of a sprite holds the last value that was written to it
and that it could take, so lines may be put in any order that keeps those of one part of the sprite
in theirs.
-/

namespace SpriteFormula

/-! ### Lines read one by one -/

namespace Line

/-- What a line assigns, if it can be read and assigns anything. -/
def assigned? (line : List Char) : Option Assignment :=
  match read line with
  | .error _ => none
  | .ok result => result.assignment?

def Readable (line : List Char) : Prop := ∃ result, read line = .ok result

theorem Readable.target {line : List Char} (h : Readable line) :
    target? line = (assigned? line).map Assignment.directive := by
  obtain ⟨result, hr⟩ := h
  rw [target_of_read hr]
  simp only [assigned?, hr]

theorem read_of_assigned {line : List Char} {a : Assignment} (h : assigned? line = some a) :
    read line = .ok (.assignment a) := by
  unfold assigned? at h
  split at h
  · cases h
  · next result hr =>
    cases result with
    | assignment found =>
      cases h
      exact hr
    | blank => cases h
    | skipped content => cases h

/-- Where lines were read, each of them can be read, and what is assigned is what each of them
assigns. -/
theorem assigned_of_reads {lines : List (List Char)} {reads : List Line}
    (h : List.Forall₂ (fun line result => read line = .ok result) lines reads) :
    (∀ line ∈ lines, Readable line) ∧
      reads.filterMap assignment? = lines.filterMap assigned? := by
  induction h with
  | nil => exact ⟨nofun, rfl⟩
  | @cons line result lines reads hl _ ih =>
    have hs : assigned? line = result.assignment? := by
      simp only [assigned?, hl]
    refine ⟨List.forall_mem_cons.mpr ⟨⟨result, hl⟩, ih.1⟩, ?_⟩
    rw [List.filterMap_cons, List.filterMap_cons, hs, ih.2]

theorem exists_reads {lines : List (List Char)} (h : ∀ line ∈ lines, Readable line) :
    ∃ reads, List.Forall₂ (fun line result => read line = .ok result) lines reads := by
  induction lines with
  | nil => exact ⟨[], .nil⟩
  | cons line rest ih =>
    obtain ⟨⟨result, hr⟩, ho⟩ := List.forall_mem_cons.mp h
    obtain ⟨reads, hs⟩ := ih ho
    exact ⟨result :: reads, .cons hr hs⟩

/-- Of the lines of a target the assignments are those to the target. -/
theorem assigned_filter {lines : List (List Char)} (h : ∀ line ∈ lines, Readable line)
    (d : Directive) :
    (lines.filterMap assigned?).filter (fun a => a.directive = d) =
      (lines.filter fun line => target? line = some d).filterMap assigned? := by
  induction lines with
  | nil => rfl
  | cons line rest ih =>
    obtain ⟨hl, hr⟩ := List.forall_mem_cons.mp h
    have ht := hl.target
    cases ha : assigned? line with
    | none =>
      rw [ha] at ht
      rw [List.filterMap_cons_none ha, ih hr, List.filter_cons_of_neg (by simp [ht])]
    | some a =>
      rw [ha] at ht
      rw [List.filterMap_cons_some ha]
      by_cases hd : a.directive = d
      · rw [List.filter_cons_of_pos (by simpa using hd), ih hr,
          List.filter_cons_of_pos (by simp [ht, hd]), List.filterMap_cons_some ha]
      · rw [List.filter_cons_of_neg (by simpa using hd), ih hr,
          List.filter_cons_of_neg (by simp [ht, hd])]

end Line

namespace Program

/-- A text is read as the assignments of its lines, each of which can be read by itself. -/
theorem parseDeclarations_ok_iff {text : String} {program : Program} :
    parseDeclarations text = .ok program ↔
      (∀ line ∈ Text.lines text.toList, Line.Readable line) ∧
        program =
          ((Text.lines text.toList).filterMap Line.assigned?).flatMap Assignment.program := by
  constructor
  · intro h
    obtain ⟨reads, each, rfl⟩ := reads_of_parse h
    obtain ⟨readable, ha⟩ := Line.assigned_of_reads each
    exact ⟨readable, by rw [ha]⟩
  · rintro ⟨readable, rfl⟩
    obtain ⟨reads, each⟩ := Line.exists_reads readable
    rw [parseDeclarations, Assignment.parse, Line.readFrom_ok_iff.mpr each,
      ← (Line.assigned_of_reads each).2]
    rfl

end Program

/-! ### What assignments write -/

theorem Statement.assignment_injective : Function.Injective Statement.assignment := by
  rintro ⟨directive, value⟩ ⟨directive', value'⟩ h
  obtain ⟨hd, hv⟩ := Assignment.mk.inj h
  exact congrArg₂ Statement.mk hd (Outline.postfixOrder_injective hv)

namespace Assignment

theorem exists_statements {blocks : List Assignment}
    (h : ∀ block ∈ blocks, ∃ tree : Expr, block.value = tree.postfixOrder) :
    ∃ statements : List Statement, blocks = statements.map Statement.assignment := by
  induction blocks with
  | nil => exact ⟨[], rfl⟩
  | cons block others ih =>
    obtain ⟨⟨tree, ht⟩, ho⟩ := List.forall_mem_cons.mp h
    obtain ⟨statements, rfl⟩ := ih ho
    refine ⟨⟨block.directive, tree⟩ :: statements, ?_⟩
    rw [List.map_cons, Statement.assignment, ← ht]

theorem writes_blocks (env : Environment) (statements : List Statement) :
    Program.writes env ((statements.map Statement.assignment).flatMap Assignment.program) =
      statements.map (Statement.write env) := by
  rw [List.flatMap_map]
  exact Program.writes_statements env statements

/-- Blocks that agree on those of each part of the sprite write the same to each part. -/
theorem last_writes_congr {blocks others : List Assignment}
    (hb : ∀ block ∈ blocks, ∃ tree : Expr, block.value = tree.postfixOrder)
    (ho : ∀ block ∈ others, ∃ tree : Expr, block.value = tree.postfixOrder) {d : Directive}
    (h : blocks.filter (fun block => block.directive = d) =
      others.filter fun block => block.directive = d) (env : Environment) :
    Write.last? d (Program.writes env (blocks.flatMap Assignment.program)) =
      Write.last? d (Program.writes env (others.flatMap Assignment.program)) := by
  obtain ⟨statements, rfl⟩ := exists_statements hb
  obtain ⟨more, rfl⟩ := exists_statements ho
  rw [List.filter_map, List.filter_map] at h
  have hs := List.map_injective_iff.mpr Statement.assignment_injective h
  rw [writes_blocks, writes_blocks, ← Write.last_filter, ← Write.last_filter d (more.map _),
    List.filter_map, List.filter_map]
  exact congrArg (fun kept => Write.last? d (List.map (Statement.write env) kept)) hs

end Assignment

/-! ### Lines in another order -/

/-- The same lines in another order, in which those of one part of the sprite follow each other as
before. -/
structure Line.Reordered (lines order : List (List Char)) : Prop where
  perm : order.Perm lines
  kept : ∀ d : Directive,
    order.filter (fun line => target? line = some d) =
      lines.filter fun line => target? line = some d

namespace Line

theorem readable_ended {line : List Char} : Readable (Text.ended line) ↔ Readable line := by
  rw [Readable, read_ended, Readable]

theorem assigned_ended (line : List Char) : assigned? (Text.ended line) = assigned? line := by
  rw [assigned?, read_ended, assigned?]

/-- What is assigned is the value of an expression. -/
theorem tree_of_assigned {lines : List (List Char)} :
    ∀ block ∈ lines.filterMap assigned?, ∃ tree : Expr, block.value = tree.postfixOrder := by
  intro block hb
  obtain ⟨line, _, ha⟩ := List.mem_filterMap.mp hb
  obtain ⟨tree, ht, _⟩ := value_of_read (read_of_assigned ha)
  exact ⟨tree, ht⟩

end Line

namespace Program

/-- Two programs that write the same to each part of the sprite leave the same sprite. -/
theorem sprite_congr {program other : Program} {env : Environment}
    (h : ∀ d, Write.last? d (program.writes env) = Write.last? d (other.writes env))
    (machine : Machine) :
    (program.runOn env machine).machine.sprite = (other.runOn env machine).machine.sprite := by
  rw [sprite_runOn, sprite_runOn]
  cases machine.sprite with
  | none =>
    have unattached (writes : List Write) : writes.foldl Write.applyTo none = none := by
      induction writes with
      | nil => rfl
      | cons write rest ih =>
        have hw : write.applyTo none = none := by
          rw [Write.applyTo, Directive.applyTo]
          simp
        rw [List.foldl_cons, hw, ih]
    rw [unattached, unattached]
  | some initial =>
    obtain ⟨final, hf, hw⟩ := initial.exists_writtenBy (program.writes env)
    obtain ⟨last, hl, ho⟩ := initial.exists_writtenBy (other.writes env)
    rw [hf, hl, hw.eq_of_last ho h]

theorem parseDeclarations_reordered {text : String} {program : Program}
    (h : parseDeclarations text = .ok program) {order : List (List Char)}
    (ho : Line.Reordered ((Text.lines text.toList).map Text.ended) order) :
    ∃ other, parseDeclarations (String.ofList order.flatten) = .ok other ∧
      ∀ env machine, (other.runOn env machine).machine.sprite =
        (program.runOn env machine).machine.sprite := by
  obtain ⟨readable, rfl⟩ := parseDeclarations_ok_iff.mp h
  have each : ∀ line ∈ order, ∃ first ∈ Text.lines text.toList, Text.ended first = line :=
    fun line hm => List.mem_map.mp (ho.perm.subset hm)
  have hlines : Text.lines order.flatten = order := by
    apply Text.lines_flatten
    intro line hm
    obtain ⟨first, hf, rfl⟩ := each line hm
    exact Text.isEnded_ended hf
  have hr : ∀ line ∈ order, Line.Readable line := by
    intro line hm
    obtain ⟨first, hf, rfl⟩ := each line hm
    exact Line.readable_ended.mpr (readable first hf)
  have hends : ∀ line ∈ (Text.lines text.toList).map Text.ended, Line.Readable line := by
    intro line hm
    exact hr line (ho.perm.symm.subset hm)
  have hassigned : ((Text.lines text.toList).map Text.ended).filterMap Line.assigned? =
      (Text.lines text.toList).filterMap Line.assigned? := by
    rw [List.filterMap_map]
    congr 1
    funext line
    exact Line.assigned_ended line
  refine ⟨(order.filterMap Line.assigned?).flatMap Assignment.program, ?_, fun env machine => ?_⟩
  · rw [parseDeclarations_ok_iff, String.toList_ofList, hlines]
    exact ⟨hr, rfl⟩
  · apply sprite_congr
    intro d
    apply Assignment.last_writes_congr Line.tree_of_assigned Line.tree_of_assigned
    rw [Line.assigned_filter hr, ho.kept d, ← Line.assigned_filter hends, hassigned]

end Program

/-- After a run, also one that stops, each part of the sprite is what the last value makes of it
that was taken off the stack for it and that it can take, or else what it was. So declaration lines
may be put in any order that keeps the order of those of one part of the sprite: they can be read as
well, and leave the same sprite. -/
theorem last_writes_remain :
    (∀ (program : Program) (env : Environment) (stack : List Value) (initial : Sprite),
      ∃ final, (program.runOn env ⟨stack, some initial⟩).machine.sprite = some final ∧
        initial.WrittenBy (program.writes env) final) ∧
    ∀ (text : String) (program : Program), Program.parseDeclarations text = .ok program →
      ∀ order, Line.Reordered ((Text.lines text.toList).map Text.ended) order →
        ∃ other, Program.parseDeclarations (String.ofList order.flatten) = .ok other ∧
          ∀ env machine, (other.runOn env machine).machine.sprite =
            (program.runOn env machine).machine.sprite := by
  constructor
  · intro program env stack initial
    obtain ⟨final, hf, hw⟩ := initial.exists_writtenBy (program.writes env)
    exact ⟨final, (Program.sprite_runOn env _ program).trans hf, hw⟩
  · intro text program h order ho
    exact Program.parseDeclarations_reordered h ho

/-- The line of the animation moves up and the remark down. The last line writes nothing, for `y`
has no value. -/
theorem animation_line_moves_up :
    let text := "sprite.Hitbox.Top = x\n# top\nsprite.Animation = 1\nsprite.Hitbox.Top = y"
    let moved := "sprite.Animation = 1\nsprite.Hitbox.Top = x\nsprite.Hitbox.Top = y\n# top\n"
    let program : Program := [.var "x", .directive .hitboxTop, .constant .one,
      .directive .animation, .var "y", .directive .hitboxTop]
    let other : Program := [.constant .one, .directive .animation, .var "x",
      .directive .hitboxTop, .var "y", .directive .hitboxTop]
    let env : Environment := { x := .one }
    Program.parseDeclarations text = .ok program ∧
      Program.parseDeclarations moved = .ok other ∧
      ∃ final, (program.runOn env ⟨[], some {}⟩).machine.sprite = some final ∧
        (other.runOn env ⟨[], some {}⟩).machine.sprite = some final ∧
        final.hitboxTop = .one ∧ final.animation = some 1 ∧ final.direction = .right := by
  intro text moved program other env
  have hp : Program.parseDeclarations text = .ok program := by decide +kernel
  have ho : Program.parseDeclarations moved = .ok other := by decide +kernel
  obtain ⟨hitboxX, hitboxY, remark, animation, hlines, hm, hx, hy, hr, ha⟩ :
      ∃ hitboxX hitboxY remark animation : List Char,
        (Text.lines text.toList).map Text.ended = [hitboxX, remark, animation, hitboxY] ∧
        String.ofList [animation, hitboxX, hitboxY, remark].flatten = moved ∧
        Line.target? hitboxX = some .hitboxTop ∧ Line.target? hitboxY = some .hitboxTop ∧
        Line.target? remark = none ∧ Line.target? animation = some .animation :=
    ⟨"sprite.Hitbox.Top = x\n".toList, "sprite.Hitbox.Top = y\n".toList, "# top\n".toList,
      "sprite.Animation = 1\n".toList, by decide +kernel, by decide +kernel, by decide +kernel,
      by decide +kernel, by decide +kernel, by decide +kernel⟩
  have reordered : Line.Reordered ((Text.lines text.toList).map Text.ended)
      [animation, hitboxX, hitboxY, remark] := by
    rw [hlines]
    constructor
    · have inner : [hitboxX, hitboxY, remark].Perm [hitboxX, remark, hitboxY] :=
        (List.Perm.swap remark hitboxY []).cons hitboxX
      have outer : [animation, hitboxX, remark, hitboxY].Perm
          [hitboxX, remark, animation, hitboxY] :=
        (@List.perm_middle _ animation [hitboxX, remark] [hitboxY]).symm
      exact (inner.cons animation).trans outer
    · intro d
      simp only [List.filter_cons, List.filter_nil, hx, hr, ha, hy]
      cases d <;> rfl
  obtain ⟨found, hf, hs⟩ := last_writes_remain.2 text program hp _ reordered
  rw [hm, ho] at hf
  cases hf
  obtain ⟨final, hfinal, hw⟩ := last_writes_remain.1 program env [] {}
  refine ⟨hp, ho, final, hfinal, (hs env _).trans hfinal, ?_, ?_, ?_⟩
  · rw [hw.hitboxTop]
    decide +kernel
  · rw [hw.animation]
    decide +kernel
  · rw [hw.direction]
    decide +kernel

end SpriteFormula
