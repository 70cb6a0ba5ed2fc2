import SpriteFormula.Proofs.RenderedLines

/-!
What the rendered text of declarations is read back as. Between quotes the renderer writes escapes
and the reader knows none, and a bare keyword that is written to the direction is a variable to
the renderer and a constant to the reader. Everything else comes back as it was.
-/

namespace SpriteFormula

/-- The part of the sprite that the rendered text of a directive names. -/
def Directive.reread : Directive → Directive
  | .var name => .var (Token.unquoted (Text.quoted name))
  | d => d

/-- What a name is read back as where it is all that is written to the direction. -/
def Instruction.ofBareName (name : String) : Instruction :=
  match Directive.keywordValue? name with
  | some value => .constant value
  | none => .var name

/-- What an instruction is read back as, given the one after it. -/
def Instruction.reread (next : Option Instruction) : Instruction → Instruction
  | .var name => if next = some (.directive .direction) then .ofBareName name else .var name
  | .directive d => .directive d.reread
  | i => i

/-- What the rendered text of a program is read back as. -/
def Program.reread : Program → Program
  | [] => []
  | i :: rest => i.reread rest.head? :: reread rest

/-- What an expression is read back as where it is written to a part of the sprite. -/
def Expr.reread : Directive → Expr → Expr
  | .direction, .var name =>
    match Directive.keywordValue? name with
    | some value => .constant value
    | none => .var name
  | _, value => value

def Statement.reread (statement : Statement) : Statement :=
  ⟨statement.directive.reread, statement.value.reread statement.directive⟩

/-- What the rendered text of an expression is read back as where it is written to a part of the
sprite. A constant may have a keyword there, and else it may have a sign. -/
def Expr.readBack (d : Directive) (tree : Expr) : Expr :=
  match Profile.directionKeyword? ⟨d, tree⟩ with
  | some keyword => .constant ((Directive.keywordValue? keyword).getD .zero)
  | none => tree.signSplit.reread d

theorem Expr.readBack_keyword {d : Directive} {tree : Expr} {keyword : String}
    (h : Profile.directionKeyword? ⟨d, tree⟩ = some keyword) {constant : Binary64}
    (hc : Directive.keywordValue? keyword = some constant) :
    tree.readBack d = .constant constant := by
  simp only [readBack, h, hc, Option.getD_some]

theorem Expr.readBack_layout {d : Directive} {tree : Expr}
    (h : Profile.directionKeyword? ⟨d, tree⟩ = none) :
    tree.readBack d = tree.signSplit.reread d := by
  simp only [readBack, h]

/-- What the rendered line of a statement is read back as. -/
def Statement.readBack (statement : Statement) : Statement :=
  ⟨statement.directive.reread, statement.value.readBack statement.directive⟩

theorem Expr.reread_of_ne_var {tree : Expr} (h : ∀ name, tree ≠ .var name) (d : Directive) :
    tree.reread d = tree := by
  cases tree with
  | var name => exact absurd rfl (h name)
  | _ => cases d <;> rfl

theorem Expr.eq_var_of_signSplit {tree : Expr} {name : String} (h : tree.signSplit = .var name) :
    tree = .var name := by
  cases tree with
  | constant value =>
    rw [Expr.signSplit] at h
    split at h <;> cases h
  | var other => exact h
  | _ => cases h

/-! ### Rereading goes statement by statement -/

theorem Expr.head_before (tree : Expr) (rest : Program) (d : Directive) :
    (tree.before rest).head? ≠ some (.directive d) := by
  induction tree generalizing rest with
  | constant value => nofun
  | var name => nofun
  | binary op left right ihl _ => exact ihl _
  | negative operand ih => exact ih _
  | call f argument ih => exact ih _
  | extremum f left right ihl _ => exact ihl _

namespace Program

theorem reread_var {name : String} {rest : Program}
    (h : rest.head? ≠ some (.directive .direction)) :
    reread (.var name :: rest) = .var name :: reread rest := by
  rw [reread, Instruction.reread, if_neg h]

/-- An expression that is not written to the direction is reread as it is. -/
theorem reread_before (tree : Expr) {rest : Program}
    (h : rest.head? ≠ some (.directive .direction)) :
    reread (tree.before rest) = tree.before (reread rest) := by
  induction tree generalizing rest with
  | constant value => rfl
  | var name => exact reread_var h
  | binary op left right ihl ihr =>
    rw [Expr.before, Expr.before, ihl (right.head_before _ _), ihr (by simp)]
    rfl
  | negative operand ih =>
    rw [Expr.before, Expr.before, ih (by simp)]
    rfl
  | call f argument ih =>
    rw [Expr.before, Expr.before, ih (by simp)]
    rfl
  | extremum f left right ihl ihr =>
    rw [Expr.before, Expr.before, ihl (right.head_before _ _), ihr (by simp)]
    rfl

/-- An expression that ends in what is done to operands is reread as it is, whatever follows. -/
theorem reread_direction (tree : Expr) (rest : Program) :
    reread (tree.before (.directive .direction :: rest)) =
      (tree.reread .direction).before (.directive .direction :: reread rest) := by
  cases tree with
  | constant value => rfl
  | var name =>
    have hname : (Expr.reread .direction (.var name)).before (.directive .direction :: reread rest) =
        .ofBareName name :: .directive .direction :: reread rest := by
      rw [Expr.reread, Instruction.ofBareName]
      cases Directive.keywordValue? name <;> rfl
    rw [hname, Expr.before, reread, Instruction.reread, List.head?_cons, if_pos rfl]
    rfl
  | binary op left right =>
    rw [Expr.before, reread_before left (right.head_before _ _), reread_before right (by simp)]
    rfl
  | negative operand =>
    rw [Expr.before, reread_before operand (by simp)]
    rfl
  | call f argument =>
    rw [Expr.before, reread_before argument (by simp)]
    rfl
  | extremum f left right =>
    rw [Expr.before, reread_before left (right.head_before _ _), reread_before right (by simp)]
    rfl

theorem reread_statement (statement : Statement) (rest : Program) :
    reread (statement.program ++ rest) = statement.reread.program ++ reread rest := by
  obtain ⟨directive, value⟩ := statement
  simp only [Statement.program, Statement.reread]
  rw [List.append_assoc, List.append_assoc, ← Expr.before_eq, ← Expr.before_eq]
  by_cases h : directive = .direction
  · rw [h]
    exact reread_direction value rest
  · have hv : value.reread directive = value := by
      cases directive with
      | direction => exact absurd rfl h
      | _ => rfl
    rw [hv]
    exact reread_before value (by simpa using h)

theorem reread_statements (statements : List Statement) :
    reread (statements.flatMap Statement.program) =
      (statements.map Statement.reread).flatMap Statement.program := by
  induction statements with
  | nil => rfl
  | cons statement others ih =>
    rw [List.flatMap_cons, reread_statement, ih, List.map_cons, List.flatMap_cons]

end Program

/-! ### A rendered line is read back -/

theorem Token.unquoted_quoted (name : String) :
    unquoted (Text.quoted name) = String.ofList (name.toList.flatMap Text.quotedChar) := by
  rw [unquoted, Text.toList_quoted, List.cons_append, List.drop_succ_cons, List.drop_zero,
    List.dropLast_concat]

namespace Directive

open Token

theorem scanFrom_assign (offset : Nat) (value : List Char) :
    ∃ start stop, scanFrom offset ([' ', '=', ' '] ++ value) =
      ⟨.assign, "=", start⟩ :: scanFrom stop value := by
  simp only [List.cons_append, List.nil_append]
  rw [scanFrom_blank (by decide), scanFrom_sign .assign (by decide), scanFrom_blank (by decide)]
  exact ⟨_, _, rfl⟩

theorem scanFrom_part {part : List Char} (hp : isName part) {rest : List Char}
    (hr : ∀ c ∈ rest.head?, isNamePart c = false) (offset : Nat) :
    ∃ first second stop, scanFrom offset ('.' :: (part ++ rest)) =
      ⟨.period, ".", first⟩ :: ⟨.identifier, String.ofList part, second⟩ :: scanFrom stop rest := by
  have hd : ∀ c ∈ (part ++ rest).head?, c.isDigit = false := by
    obtain ⟨c, others, rfl, hc, _⟩ := isName_iff.mp hp
    rintro d ⟨⟩
    exact not_digit_of_nameStart hc
  rw [scanFrom_period hd, scanFrom_name hp hr]
  exact ⟨_, _, _, rfl⟩

theorem scanFrom_sprite (rest : List Char) :
    ∃ stop, scanFrom 0 ("sprite".toList ++ '.' :: rest) =
      ⟨.identifier, "sprite", 0⟩ :: scanFrom stop ('.' :: rest) := by
  have hs : isName "sprite".toList := by decide
  rw [scanFrom_name hs (by rintro c ⟨⟩; decide)]
  exact ⟨_, rfl⟩

theorem toList_target_var (name : String) (rest : List Char) :
    (Profile.generic.target (.var name)).toList ++ rest =
      "sprite".toList ++ '.' :: ("Variables".toList ++
        '[' :: ('"' :: name.toList.flatMap Text.quotedChar ++ '"' :: ']' :: rest)) := by
  have target : Profile.generic.target (.var name) =
      "sprite.Variables[" ++ Text.quoted name ++ "]" := rfl
  have opening : "sprite.Variables[".toList =
      "sprite".toList ++ '.' :: ("Variables".toList ++ ['[']) := by decide
  have closing : "]".toList = [']'] := rfl
  rw [target, String.toList_append, String.toList_append, opening, closing, Text.toList_quoted]
  -- Simplification would evaluate the literals.
  generalize "sprite".toList = sprite
  generalize "Variables".toList = part
  simp only [List.append_assoc, List.cons_append, List.nil_append]

/-- No character continues a name in front of the sign. -/
theorem assign_ends (value : List Char) :
    ∀ c ∈ ([' ', '=', ' '] ++ value).head?, isNamePart c = false := by
  rintro c ⟨⟩
  decide

/-- A part of the sprite that has a name and nothing behind it. -/
theorem readTarget_part {part : List Char} (hp : isName part) {directive : Directive}
    (hd : ∀ first second third rest,
      readTarget? (⟨.identifier, "sprite", 0⟩ :: ⟨.period, ".", first⟩ ::
        ⟨.identifier, String.ofList part, second⟩ :: ⟨.assign, "=", third⟩ :: rest) =
        some (directive, rest)) (value : List Char) :
    ∃ stop, readTarget?
        (scanFrom 0 ("sprite".toList ++ '.' :: (part ++ ([' ', '=', ' '] ++ value)))) =
      some (directive, scanFrom stop value) := by
  obtain ⟨o₁, h₁⟩ := scanFrom_sprite (part ++ ([' ', '=', ' '] ++ value))
  obtain ⟨_, _, o₂, h₂⟩ := scanFrom_part hp (assign_ends value) o₁
  obtain ⟨_, stop, h₃⟩ := scanFrom_assign o₂ value
  rw [h₁, h₂, h₃]
  exact ⟨stop, hd _ _ _ _⟩

/-- The rendered left side of an assignment names the part of the sprite again, but for what stands
between quotes. -/
theorem readTarget_target {directive : Directive} (hn : directive.Unquoted) (value : List Char) :
    ∃ stop, readTarget?
        (scanFrom 0 ((Profile.generic.target directive).toList ++ ([' ', '=', ' '] ++ value))) =
      some (directive.reread, scanFrom stop value) := by
  let tail := [' ', '=', ' '] ++ value
  have ends : ∀ c ∈ tail.head?, isNamePart c = false := assign_ends value
  cases directive with
  | direction =>
    have hp : isName "Direction".toList := by decide
    exact readTarget_part hp (fun _ _ _ _ => rfl) value
  | animation =>
    have hp : isName "Animation".toList := by decide
    exact readTarget_part hp (fun _ _ _ _ => rfl) value
  | hitboxTop =>
    have hp : isName "Hitbox".toList := by decide
    have hq : isName "Top".toList := by decide
    change ∃ stop, readTarget?
      (scanFrom 0 ("sprite".toList ++ '.' :: ("Hitbox".toList ++ '.' :: ("Top".toList ++ tail)))) = _
    obtain ⟨o₁, h₁⟩ := scanFrom_sprite ("Hitbox".toList ++ '.' :: ("Top".toList ++ tail))
    obtain ⟨_, _, o₂, h₂⟩ := @scanFrom_part _ hp ('.' :: ("Top".toList ++ tail))
      (by rintro c ⟨⟩; decide) o₁
    obtain ⟨_, _, o₃, h₃⟩ := scanFrom_part hq ends o₂
    obtain ⟨_, stop, h₄⟩ := scanFrom_assign o₃ value
    rw [h₁, h₂, h₃, h₄]
    exact ⟨stop, rfl⟩
  | var name =>
    have hp : isName "Variables".toList := by decide
    let body := name.toList.flatMap Text.quotedChar
    have hb : ∀ c ∈ body, c ≠ '"' := fun c hc => (Text.enclosed_escapes (hn name rfl) c hc).1
    have ht := toList_target_var name tail
    obtain ⟨o₁, h₁⟩ :=
      scanFrom_sprite ("Variables".toList ++ '[' :: ('"' :: body ++ '"' :: ']' :: tail))
    obtain ⟨_, _, o₂, h₂⟩ := @scanFrom_part _ hp ('[' :: ('"' :: body ++ '"' :: ']' :: tail))
      (by rintro c ⟨⟩; decide) o₁
    rw [ht, h₁, h₂, scanFrom_sign .leftBracket (by decide), scanFrom_string hb,
      scanFrom_sign .rightBracket (by decide)]
    obtain ⟨_, stop, h₃⟩ := scanFrom_assign _ value
    rw [h₃]
    exact ⟨stop, rfl⟩

end Directive

namespace Assignment

open Formula Grammar Token

theorem not_constantName_of_keyword {name : String} {value : Binary64}
    (h : Directive.keywordValue? name = some value) : name ∉ constantNames.map Prod.fst := by
  have all : ∀ constant ∈ constantNames.map Prod.fst, Directive.keywordValue? constant = none := by
    decide
  intro hn
  rw [all name hn] at h
  cases h

/-- Only the tokens of a bare name can be a keyword. -/
theorem keyword_none {tokens : List Token} {tree : Expr} (h : Derives .sum tokens tree [])
    (ht : ∀ name, tree ≠ .var name) : keyword? tokens = none := by
  cases hk : keyword? tokens with
  | none => rfl
  | some value =>
    obtain ⟨token, rfl, hi, hv⟩ := keyword_some hk
    have hd : Derives .sum [token] (.var token.text) [] :=
      .product (.factor (.primary (.var hi (not_constantName_of_keyword hv) nofun)))
    exact absurd (derives_unique h hd) (ht _)

theorem keyword_name {name : String} (hn : isName name.toList) (offset : Nat) :
    keyword? (scanFrom offset name.toList) = Directive.keywordValue? name := by
  have hs := @scanFrom_name name.toList hn [] nofun offset
  rw [List.append_nil, scanFrom_nil, String.ofList_toList] at hs
  rw [hs]
  rfl

theorem eq_of_beq {value other : Binary64} (hv : value.isNegative = false)
    (ho : other.isNegative = false) (h : value.beq other) : value = other := by
  simp only [Binary64.beq, Binary64.rank, hv, ho, Bool.and_eq_true, beq_iff_eq] at h
  have hm : value.magnitude = other.magnitude := Int.ofNat_inj.mp (by simpa using h.2)
  rw [← Binary64.ofMagnitude_of_nonneg hv, ← Binary64.ofMagnitude_of_nonneg ho, hm]

/-- The keyword for a constant stands for one that is equal to it and has no sign. -/
theorem keywordValue_of_keyword {value : Binary64} {name : String}
    (h : Directive.keyword? value = some name) :
    ∃ constant, Directive.keywordValue? name = some constant ∧ constant.isNegative = false ∧
      value.beq constant ∧ isName name.toList := by
  unfold Directive.keyword? at h
  split at h
  · next hz =>
    cases h
    exact ⟨.zero, rfl, by decide, hz, by decide⟩
  · split at h
    · next ho =>
      cases h
      exact ⟨.one, rfl, by decide, ho, by decide⟩
    · cases h

theorem readValue_keyword {tokens : List Token} {value : Binary64}
    (h : keyword? tokens = some value) : readValue .direction tokens = .ok [.constant value] := by
  rw [readValue, if_pos rfl, h]

theorem readValue_whole {tokens : List Token} {tree : Expr} (h : keyword? tokens = none)
    (hd : Derives .sum tokens tree []) :
    readValue .direction tokens = .ok tree.postfixOrder := by
  rw [readValue, if_pos rfl, h]
  exact whole_ok_iff.mpr ⟨tree, hd, rfl⟩

/-- An expression that no keyword stands for is written to the direction as everywhere else. A name
may be a keyword to the reader. -/
theorem readValue_layout {tree : Expr} (hw : ∀ i ∈ tree.postfixOrder, i.Writable) (offset : Nat) :
    readValue .direction (scanFrom offset (Profile.generic.layout tree).text) =
      .ok (tree.signSplit.reread .direction).postfixOrder := by
  have hd := derives_layout hw offset
  by_cases hv : ∃ name, tree = .var name
  · obtain ⟨name, rfl⟩ := hv
    have hn : isName name.toList := isName_of_scan (hw (.var name) List.mem_cons_self).1
    have hk := keyword_name hn offset
    rw [Expr.signSplit, Expr.reread]
    cases hv : Directive.keywordValue? name with
    | some value => exact readValue_keyword (hk.trans hv)
    | none => exact readValue_whole (hk.trans hv) hd
  · have ht : ∀ name, tree.signSplit ≠ .var name :=
      fun name h => hv ⟨name, Expr.eq_var_of_signSplit h⟩
    rw [Expr.reread_of_ne_var ht]
    exact readValue_whole (keyword_none hd ht) hd

theorem keyword_of_directionKeyword {d : Directive} {tree : Expr} {keyword : String}
    (h : Profile.directionKeyword? ⟨d, tree⟩ = some keyword) :
    d = .direction ∧ ∃ value, tree = .constant value ∧ Directive.keyword? value = some keyword := by
  unfold Profile.directionKeyword? at h
  split at h
  · next hd ht => exact ⟨hd, _, ht, h⟩
  · cases h

theorem readValue_assignedText {statement : Statement}
    (hw : ∀ i ∈ statement.value.postfixOrder, i.Writable) (offset : Nat) :
    readValue statement.directive.reread
        (scanFrom offset (Profile.generic.assignedText statement)) =
      .ok statement.readBack.value.postfixOrder := by
  obtain ⟨directive, tree⟩ := statement
  cases hk : Profile.directionKeyword? ⟨directive, tree⟩ with
  | some keyword =>
    obtain ⟨rfl, value, rfl, hv⟩ := keyword_of_directionKeyword hk
    obtain ⟨constant, hc, _, _, hn⟩ := keywordValue_of_keyword hv
    simp only [Statement.readBack, Expr.readBack_keyword hk hc, Profile.assignedText, hk]
    exact readValue_keyword ((keyword_name hn offset).trans hc)
  | none =>
    simp only [Statement.readBack, Expr.readBack_layout hk, Profile.assignedText, hk]
    by_cases h : directive = .direction
    · rw [h]
      exact readValue_layout hw offset
    · have hne : directive.reread ≠ .direction := by
        cases directive <;> first | exact absurd rfl h | nofun
      have hv : tree.signSplit.reread directive = tree.signSplit := by
        cases directive <;> first | exact absurd rfl h | rfl
      rw [readValue, if_neg hne, hv]
      exact ofTokens_ok_iff.mpr ⟨tree.signSplit, derives_layout hw offset, rfl⟩

/-- The tokens of a rendered line are those of the statement it is read back as. -/
theorem ofTokens_statementLine {statement : Statement} (hn : statement.directive.Unquoted)
    (hw : ∀ i ∈ statement.value.postfixOrder, i.Writable) :
    ofTokens? (scanFrom 0 (Profile.generic.statementLine statement)) =
      .ok (some statement.readBack.assignment) := by
  have hl : Profile.generic.statementLine statement =
      (Profile.generic.target statement.directive).toList ++
        ([' ', '=', ' '] ++ Profile.generic.assignedText statement) := by
    change _ ++ _ ++ _ ++ [] = _
    rw [List.append_nil, List.append_assoc]
  obtain ⟨stop, ht⟩ := Directive.readTarget_target hn (Profile.generic.assignedText statement)
  rw [hl, ofTokens?, ht]
  simp only [readValue_assignedText hw stop]
  rfl

end Assignment

namespace Line

theorem read_statementLine {statement : Statement} (hn : statement.directive.Unquoted)
    (hw : ∀ i ∈ statement.value.postfixOrder, i.Writable) {ending : List Char}
    (he : ∀ c ∈ ending, c = '\r' ∨ c = '\n') :
    read (Profile.generic.statementLine statement ++ ending) =
      .ok (.assignment statement.readBack.assignment) := by
  have hb := Text.withoutBreak_append (Profile.unbroken_statementLine hn hw) he
  have ha := Assignment.ofTokens_statementLine hn hw
  obtain ⟨rest, hs⟩ := Profile.statementLine_cons statement
  obtain ⟨others, ht⟩ := Text.trim_cons (c := 's') (by decide) (rest ++ ending)
  have hc : Text.trim (Profile.generic.statementLine statement ++ ending) = 's' :: others := by
    rw [hs, List.cons_append, ht]
  simp only [read, hc, hb, ha]
  rfl

theorem read_lines {statements : List Statement}
    (hn : ∀ s ∈ statements, s.directive.Unquoted)
    (hw : ∀ s ∈ statements, ∀ i ∈ s.value.postfixOrder, i.Writable) :
    List.Forall₂ (fun line result => read line = .ok result)
      (Text.lines (['\n'].intercalate (statements.map Profile.generic.statementLine)))
      (statements.map fun s => .assignment s.readBack.assignment) := by
  induction statements with
  | nil => exact .nil
  | cons statement others ih =>
    rw [List.forall_mem_cons] at hn hw
    have hu := Profile.unbroken_statementLine hn.1 hw.1
    cases others with
    | nil =>
      obtain ⟨rest, hs⟩ := Profile.statementLine_cons statement
      have hone : read (Profile.generic.statementLine statement ++ []) = _ :=
        read_statementLine hn.1 hw.1 nofun
      rw [List.append_nil] at hone
      rw [List.map_singleton, List.intercalate_singleton, Text.lines_unbroken hu (by simp [hs])]
      exact .cons hone .nil
    | cons next others =>
      have hj : ['\n'].intercalate
            ((statement :: next :: others).map Profile.generic.statementLine) =
          Profile.generic.statementLine statement ++
            '\n' :: ['\n'].intercalate ((next :: others).map Profile.generic.statementLine) := by
        simp [List.intercalate]
      rw [hj, Text.lines_break fun c hc => (hu c hc).2]
      exact .cons (read_statementLine hn.1 hw.1 (by simp)) (ih hn.2 hw.2)

theorem program_assignments (statements : List Statement) :
    ((statements.map fun s => assignment s.assignment).filterMap assignment?).flatMap
        Assignment.program =
      statements.flatMap Statement.program := by
  induction statements with
  | nil => rfl
  | cons statement others ih =>
    rw [List.map_cons, List.flatMap_cons, ← ih]
    rfl

end Line

/-! ### What was read once -/

theorem Expr.readBack_of_readable {tree : Expr} (hr : ∀ i ∈ tree.postfixOrder, i.Readable)
    (d : Directive) : tree.readBack d = tree.reread d := by
  cases hk : Profile.directionKeyword? ⟨d, tree⟩ with
  | none => rw [Expr.readBack_layout hk, Expr.signSplit_of_readable hr]
  | some keyword =>
    obtain ⟨rfl, value, rfl, hv⟩ := Assignment.keyword_of_directionKeyword hk
    obtain ⟨constant, hc, hs, he, _⟩ := Assignment.keywordValue_of_keyword hv
    have hn : value.isNegative = false := hr (.constant value) List.mem_cons_self
    rw [Expr.readBack_keyword hk hc, ← Assignment.eq_of_beq hn hs he]
    rfl

theorem Statement.readBack_of_readable {statement : Statement} (hr : statement.Readable) :
    statement.readBack = statement.reread := by
  rw [Statement.readBack, Statement.reread, Expr.readBack_of_readable hr.value]

namespace Program

theorem parseDeclarations_lines {statements : List Statement}
    (hn : ∀ s ∈ statements, s.directive.Unquoted)
    (hw : ∀ s ∈ statements, ∀ i ∈ s.value.postfixOrder, i.Writable) :
    parseDeclarations (String.ofList
        (['\n'].intercalate (statements.map Profile.generic.statementLine))) =
      .ok ((statements.map Statement.readBack).flatMap Statement.program) := by
  rw [parseDeclarations, Assignment.parse, String.toList_ofList,
    Line.readFrom_ok_iff.mpr (Line.read_lines hn hw), ← Line.program_assignments, List.map_map]
  rfl

theorem finite_of_refuse {value : Binary64} (h : Profile.generic.refuse value = none) :
    value.isFinite := by
  by_cases hpi : value = .pi
  · rw [hpi]
    decide
  by_cases he : value = .e
  · rw [he]
    decide
  have hk : Instruction.constantKind value = .constant := by
    rw [Instruction.constantKind, if_neg hpi, if_neg he]
  simpa [Profile.refuse, hk, Profile.spelling?, Profile.generic, Kind.symbol?] using h

theorem writable_of_accepts {program : Program} (hr : ∀ i ∈ program, i.Readable)
    (accepted : Outline.Accepts Profile.generic.refuse program) : ∀ i ∈ program, i.Writable := by
  intro i hi
  refine (hr i hi).writable fun value hv => finite_of_refuse ?_
  have := accepted i hi
  rwa [hv] at this

/-- The rendered text of declarations is read back, as the reread program. -/
theorem parseDeclarations_render {source text : String} {program : Program}
    (hs : parseDeclarations source = .ok program) (ht : program.render .generic = .ok text) :
    parseDeclarations text = .ok program.reread := by
  obtain ⟨statements, rfl, hr⟩ := statements_of_parse hs
  rw [render] at ht
  split at ht
  · cases ht
  · next assigned values ho =>
    have accepted := Outline.accepts_of_readFrom ho
    rw [Outline.readFrom_statements accepted] at ho
    cases ho
    have hw : ∀ s ∈ statements, ∀ i ∈ s.value.postfixOrder, i.Writable := by
      intro s hm
      refine writable_of_accepts (hr s hm).value fun i hi => accepted i ?_
      exact List.mem_flatMap.mpr ⟨s, hm, List.mem_append_left _ hi⟩
    rw [if_neg (by simp)] at ht
    cases ht
    have hback : statements.map Statement.readBack = statements.map Statement.reread :=
      List.map_congr_left fun s hm => Statement.readBack_of_readable (hr s hm)
    rw [List.map_nil, List.append_nil, parseDeclarations_lines (fun s hm => (hr s hm).name) hw,
      reread_statements, hback]

end Program

/-! ### What comes back as it was -/

/-- A name comes back from between its quotes exactly if it was written there unchanged. -/
theorem Token.unquoted_quoted_iff {name : String} :
    unquoted (Text.quoted name) = name ↔ Text.quoted name = "\"" ++ name ++ "\"" := by
  have quote : "\"".toList = ['"'] := rfl
  rw [unquoted_quoted, ← String.toList_inj, ← String.toList_inj, String.toList_ofList,
    Text.toList_quoted, String.toList_append, String.toList_append, quote]
  constructor
  · intro h
    rw [h]
    rfl
  · intro h
    exact List.append_cancel_right (List.cons.inj h).2

theorem Instruction.ofBareName_iff {name : String} :
    ofBareName name = .var name ↔ Directive.keywordValue? name = none := by
  rw [ofBareName]
  cases Directive.keywordValue? name with
  | none => exact ⟨fun _ => rfl, fun _ => rfl⟩
  | some value => exact ⟨nofun, nofun⟩

theorem Instruction.reread_iff {i : Instruction} {next : Option Instruction} :
    i.reread next = i ↔
      (∀ name, i = .directive (.var name) → Text.quoted name = "\"" ++ name ++ "\"") ∧
      ∀ name, i = .var name → next = some (.directive .direction) →
        Directive.keywordValue? name = none := by
  cases i with
  | var name =>
    by_cases hn : next = some (.directive .direction)
    · rw [reread, if_pos hn, ofBareName_iff]
      simp [hn]
    · rw [reread, if_neg hn]
      simp [hn]
  | directive d =>
    cases d with
    | var name =>
      have h : reread next (.directive (.var name)) = .directive (.var name) ↔
          Token.unquoted (Text.quoted name) = name := by
        simp [reread, Directive.reread]
      rw [h, Token.unquoted_quoted_iff]
      simp
    | _ => simp [reread, Directive.reread]
  | _ => simp [reread]

theorem Program.reread_iff {program : Program} :
    program.reread = program ↔
      (∀ name, .directive (.var name) ∈ program → Text.quoted name = "\"" ++ name ++ "\"") ∧
      ∀ name, [.var name, .directive .direction] <:+: program →
        Directive.keywordValue? name = none := by
  induction program with
  | nil => simp [reread]
  | cons i rest ih =>
    have pair (name : String) : [.var name, .directive .direction] <:+: i :: rest ↔
        (i = .var name ∧ rest.head? = some (.directive .direction)) ∨
          [.var name, .directive .direction] <:+: rest := by
      rw [List.infix_cons_iff, List.cons_prefix_cons]
      cases rest with
      | nil => simp
      | cons next rest => simp [List.cons_prefix_cons, eq_comm]
    rw [reread, List.cons.injEq, Instruction.reread_iff, ih]
    simp only [List.mem_cons, pair, or_imp, forall_and, and_imp]
    constructor
    · rintro ⟨⟨hq, hk⟩, hqs, hks⟩
      exact ⟨⟨fun name h => hq name h.symm, hqs⟩, hk, hks⟩
    · rintro ⟨⟨hq, hqs⟩, hk, hks⟩
      exact ⟨⟨fun name h => hq name h.symm, hk⟩, hqs, hks⟩

/-- The rendered text of declarations is read back, and as the same program exactly if every name
between quotes is written without an escape and no keyword of the direction stands alone as a
variable that is written to the direction. -/
theorem declarations_parse_back {source text : String} {program : Program}
    (read : Program.parseDeclarations source = .ok program)
    (rendered : program.render .generic = .ok text) :
    Program.parseDeclarations text = .ok program.reread ∧
    (Program.parseDeclarations text = .ok program ↔
      (∀ name, .directive (.var name) ∈ program → Text.quoted name = "\"" ++ name ++ "\"") ∧
      ∀ name, [.var name, .directive .direction] <:+: program →
        Directive.keywordValue? name = none) := by
  have h := Program.parseDeclarations_render read rendered
  refine ⟨h, ?_⟩
  rw [h, Except.ok.injEq, Program.reread_iff]

/-- A backslash comes back as two, and a variable with the name of a keyword as a constant. -/
theorem backslash_and_keyword_do_not_parse_back :
    let named : Program := [.var "x", .directive (.var "a\\b")]
    let turned : Program := [.var "LeftDirection", .directive .direction]
    (Program.parseDeclarations "sprite.Variables[\"a\\b\"] = x" = .ok named ∧
      named.render .generic = .ok "sprite.Variables[\"a\\\\b\"] = x" ∧
      Program.parseDeclarations "sprite.Variables[\"a\\\\b\"] = x" =
        .ok [.var "x", .directive (.var "a\\\\b")] ∧
      Program.parseDeclarations "sprite.Variables[\"a\\\\b\"] = x" ≠ .ok named) ∧
    Program.parseDeclarations "sprite.Direction = (LeftDirection)" = .ok turned ∧
      turned.render .generic = .ok "sprite.Direction = LeftDirection" ∧
      Program.parseDeclarations "sprite.Direction = LeftDirection" =
        .ok [.constant .zero, .directive .direction] ∧
      Program.parseDeclarations "sprite.Direction = LeftDirection" ≠ .ok turned := by
  intro named turned
  have hn : Program.parseDeclarations "sprite.Variables[\"a\\b\"] = x" = .ok named := by
    decide +kernel
  have hnamed : named.render .generic = .ok "sprite.Variables[\"a\\\\b\"] = x" := by
    decide +kernel
  have ht : Program.parseDeclarations "sprite.Direction = (LeftDirection)" = .ok turned := by
    decide +kernel
  have hturned : turned.render .generic = .ok "sprite.Direction = LeftDirection" := by
    decide +kernel
  obtain ⟨name, sameName⟩ := declarations_parse_back hn hnamed
  obtain ⟨keyword, sameKeyword⟩ := declarations_parse_back ht hturned
  refine ⟨⟨hn, hnamed, name.trans (by decide +kernel), fun h => ?_⟩,
    ht, hturned, keyword.trans (by decide +kernel), fun h => ?_⟩
  · have quoted := (sameName.mp h).1 "a\\b" (by decide)
    revert quoted
    decide +kernel
  · have bare := (sameKeyword.mp h).2 "LeftDirection" (List.infix_refl _)
    revert bare
    decide

end SpriteFormula
