import SpriteFormula.Command.Perform
import SpriteFormula.Proofs.CodecRoundTrip
import SpriteFormula.Proofs.FormulaTokens
import SpriteFormula.Proofs.ReadingBalance

/-!
Compiling a formula into a file and disassembling the file. The formula is read and encoded before
a file is touched, so one that cannot be compiled leaves every file as it was. A compiled file is
loaded as the program that the formula was read as.
-/

namespace SpriteFormula

/-! ### Formulas that cannot be compiled -/

namespace Program

/-- The formula cannot be read, or it has a name that is too long for its length to fit a byte. -/
def Uncompilable (formula : String) : Prop :=
  (∃ error, parse formula = .error error) ∨
    ∃ token ∈ Token.scan formula, token.kind = .identifier ∧ 255 < token.text.utf8ByteSize

/-- A variable that a formula is read as stands in it. -/
theorem token_of_var {text name : String} {program : Program} (h : parse text = .ok program)
    (hm : .var name ∈ program) : ∃ token ∈ Token.scan text, token.kind = .identifier ∧
      token.text = name := by
  obtain ⟨tree, hd, rfl⟩ := parse_ok_iff.mp h
  have carries : Formula.Carries (fun token => token ∈ Token.scan text) (fun i =>
      ∀ name, i = .var name →
        ∃ token ∈ Token.scan text, token.kind = .identifier ∧ token.text = name) := by
    constructor
    · intro token value _ _ _ name hi
      cases hi
    · intro name value _ other hi
      cases hi
    · intro token ht hk _ name hi
      cases hi
      exact ⟨token, ht, hk, rfl⟩
    · intro i ha _ name hi
      rw [hi] at ha
      exact absurd ha (Nat.lt_irrefl 0)
  exact (carries.of_derives hd fun token ht => ht).1 _ hm name rfl

/-- No name is too long that a formula knows by itself. -/
theorem short_of_reserved {name : String} (h : name ∈ Grammar.reserved) :
    name.utf8ByteSize ≤ 255 := by
  have all : ∀ name ∈ Grammar.reserved, name.utf8ByteSize ≤ 255 := by decide
  exact all name h

/-- The program of a formula has a name too long exactly if the formula has one. -/
theorem hasLongName_iff_token {text : String} {program : Program} (h : parse text = .ok program) :
    program.HasLongName ↔
      ∃ token ∈ Token.scan text, token.kind = .identifier ∧ 255 < token.text.utf8ByteSize := by
  constructor
  · rintro ⟨name, hm | hm, hl⟩
    · obtain ⟨token, ht, hk, rfl⟩ := token_of_var h hm.1
      exact ⟨token, ht, hk, hl⟩
    · obtain ⟨tree, _, rfl⟩ := parse_ok_iff.mp h
      cases Expr.pushes_of_mem _ hm
  · rintro ⟨token, ht, hk, hl⟩
    rcases (uses_of_parse h).named token ht hk with hr | hm
    · exact absurd (short_of_reserved hr) (Nat.not_le.mpr hl)
    · refine ⟨token.text, .inl ⟨hm, ?_⟩, hl⟩
      intro hx
      rw [hx] at hl
      exact absurd hl (by decide)

/-- The program of a file is what was decoded from behind the bytes that mark the file. -/
theorem ofFile_of_decodeFrom {bytes : List UInt8} {program : Program}
    (h : ∀ offset, decodeFrom offset bytes = .ok program) :
    ofFile (magic ++ bytes) = .ok program := by
  have hp : magic.isPrefixOf (magic ++ bytes) = true :=
    List.isPrefixOf_iff_prefix.mpr (List.prefix_append _ _)
  rw [ofFile, if_pos hp, List.drop_left, h]

theorem compile_error {formula : String} (h : Uncompilable formula) :
    ∃ fault, compile formula = .error fault := by
  cases hp : parse formula with
  | error error => exact ⟨.parse error, by simp only [compile, hp]⟩
  | ok program =>
    have long : program.HasLongName := by
      rw [hasLongName_iff_token hp]
      refine h.resolve_left ?_
      rintro ⟨error, he⟩
      rw [hp] at he
      cases he
    obtain ⟨length, he⟩ := encode_of_not_encodable (hasLongName_iff.mp long)
    exact ⟨.encode (.longName length), by simp only [compile, hp, toFile, he]; rfl⟩

theorem compile_ok {formula : String} (h : ¬ Uncompilable formula) :
    ∃ program bytes, parse formula = .ok program ∧ program.encode = .ok bytes ∧
      compile formula = .ok (magic ++ bytes) ∧ ofFile (magic ++ bytes) = .ok program := by
  cases hp : parse formula with
  | error error => exact absurd (.inl ⟨error, hp⟩) h
  | ok program =>
    have short : ¬ program.HasLongName := by
      rw [hasLongName_iff_token hp]
      exact fun hl => h (.inr hl)
    have all : ∀ i ∈ program, i.Encodable := by
      intro i hm
      by_contra hn
      exact short (hasLongName_iff.mpr ⟨i, hm, hn⟩)
    obtain ⟨bytes, hb, hd, -⟩ := encode_of_encodable all
    refine ⟨program, bytes, rfl, hb, ?_, ofFile_of_decodeFrom hd⟩
    simp only [compile, hp, toFile, hb]
    rfl

end Program

/-! ### Files of a directory -/

namespace Directory

variable {directory after : Directory} {path name : String} {content : List UInt8}

/-- The path leads to a name in this directory that a file may have. -/
structure Creatable (directory : Directory) (path name : String) : Prop where
  resolved : directory.resolve path = .ok (.name true name.toList)
  isFile : endsInSlash path = false
  short : name.utf8ByteSize ≤ longestName

/-- Where steps lead does not depend on the files that there are. -/
theorem walk_ok {here : Bool} {path : List (List Char)} {place : Place}
    (h : directory.walk here path = .ok place) (other : Directory) :
    other.walk here path = .ok place := by
  induction path generalizing here with
  | nil => exact h
  | cons step rest ih =>
    rw [walk] at h ⊢
    by_cases hd : step = ['.']
    · rw [if_pos hd] at h ⊢
      exact ih h
    by_cases hp : step = ['.', '.']
    · rw [if_neg hd, if_pos hp] at h ⊢
      exact ih h
    by_cases hr : rest = []
    · rw [if_neg hd, if_neg hp, if_pos hr] at h ⊢
      exact h
    · rw [if_neg hd, if_neg hp, if_neg hr] at h
      split at h
      · cases h
      · split at h <;> cases h

theorem Creatable.other (h : directory.Creatable path name) (other : Directory) :
    other.Creatable path name := by
  refine ⟨?_, h.isFile, h.short⟩
  have hr := h.resolved
  unfold resolve at hr ⊢
  by_cases hz : '\x00' ∈ path.toList
  · rw [if_pos hz] at hr
    cases hr
  by_cases hn : path = ""
  · rw [if_neg hz, if_pos hn] at hr
    cases hr
  by_cases hl : longestPath < path.utf8ByteSize
  · rw [if_neg hz, if_neg hn, if_pos hl] at hr
    cases hr
  · rw [if_neg hz, if_neg hn, if_neg hl] at hr ⊢
    exact walk_ok hr other

theorem Creatable.not_long (h : directory.Creatable path name) :
    ¬ longestName < Text.byteLength name.toList := by
  rw [Text.byteLength_toList]
  exact Nat.not_lt.mpr h.short

theorem Creatable.write (h : directory.Creatable path name) (content : List UInt8) :
    directory.write path content = .ok { files := directory.files.insert name content } := by
  simp only [Directory.write, h.resolved, h.isFile, Bool.false_eq_true, if_false,
    if_neg h.not_long, if_true, String.ofList_toList]

theorem Creatable.read (h : directory.Creatable path name)
    (hc : directory.files[name]? = some content) : directory.read path = .ok content := by
  simp only [Directory.read, h.resolved, h.isFile, if_neg h.not_long, if_true, String.ofList_toList,
    hc, Bool.false_eq_true, if_false]

theorem run_write (h : directory.write path content = .ok after) :
    (access.write path content).run directory = (.ok (), after) := by
  simp only [access, StateT.run_bind, StateT.run_get, pure_bind, h, StateT.run_set, StateT.run_pure]
  rfl

end Directory

/-! ### Commands -/

namespace Command

/-- A formula that cannot be compiled fails the command without access to any file. -/
theorem perform_uncompilable {m : Type → Type} [Monad m] (files : FileAccess m)
    {expression : String} (h : Program.Uncompilable expression) (path input : String) :
    ∃ fault : Fault, (Command.compile expression path).perform files input =
      pure (.failure ("<expression>: " ++ fault.message)) := by
  obtain ⟨fault, hf⟩ := Program.compile_error h
  exact ⟨fault, by simp only [perform, hf]⟩

theorem perform_compile {directory after : Directory} {expression path : String}
    {content : List UInt8} (hc : Program.compile expression = .ok content)
    (hw : directory.write path content = .ok after) (input : String) :
    ((Command.compile expression path).perform Directory.access input).run directory =
      (.success "", after) := by
  simp only [perform, hc, StateT.run_bind, Directory.run_write hw]
  rfl

theorem perform_disassemble {directory : Directory} {path : String} {content : List UInt8}
    (hr : directory.read path = .ok content) {program : Program}
    (hp : Program.ofFile content = .ok program) (input : String) :
    ((Command.disassemble path).perform Directory.access input).run directory =
      (.success (program.listing path), directory) := by
  have answer : disassembled path (directory.read path) = .success (program.listing path) := by
    simp only [hr, disassembled, hp]
  exact congrArg (fun response => (response, directory)) answer

end Command

/-- Compiling a formula into a file fails exactly where the formula cannot be read or has a name
that is too long, and then no file has changed. Else the file holds the bytes of the formula's
program behind those that mark it, no other file has changed, the file is loaded as the same
program, and disassembling it lists the program. -/
theorem compiled_file_disassembles {directory : Directory} {path name : String}
    (creatable : directory.Creatable path name) (expression input : String) :
    let outcome := ((Command.compile expression path).perform Directory.access input).run directory
    (outcome.1.status ≠ 0 ↔ Program.Uncompilable expression) ∧
    (outcome.1.status ≠ 0 → outcome.2 = directory) ∧
    (outcome.1.status = 0 → ∃ program bytes,
      Program.parse expression = .ok program ∧ program.encode = .ok bytes ∧
      outcome.2.read path = .ok (Program.magic ++ bytes) ∧
      outcome.2.files[name]? = some (Program.magic ++ bytes) ∧
      (∀ other ≠ name, outcome.2.files[other]? = directory.files[other]?) ∧
      Program.ofFile (Program.magic ++ bytes) = .ok program ∧
      ((Command.disassemble path).perform Directory.access input).run outcome.2 =
        (.success (program.listing path), outcome.2)) := by
  intro outcome
  by_cases h : Program.Uncompilable expression
  · obtain ⟨fault, hf⟩ := Command.perform_uncompilable Directory.access h path input
    have failed : outcome = (.failure ("<expression>: " ++ fault.message), directory) := by
      rw [show outcome = _ from congrArg (StateT.run · directory) hf]
      rfl
    rw [failed]
    exact ⟨iff_of_true Nat.one_ne_zero h, fun _ => rfl, fun hs => absurd hs Nat.one_ne_zero⟩
  · obtain ⟨program, bytes, hp, hb, hc, ho⟩ := Program.compile_ok h
    let after : Directory := { files := directory.files.insert name (Program.magic ++ bytes) }
    have written : outcome = (.success "", after) :=
      Command.perform_compile hc (creatable.write _) input
    have held : after.files[name]? = some (Program.magic ++ bytes) :=
      Std.ExtTreeMap.getElem?_insert_self
    have loaded := (creatable.other after).read held
    rw [written]
    refine ⟨iff_of_false (fun hs => hs rfl) h, fun hs => absurd rfl hs, fun _ => ?_⟩
    refine ⟨program, bytes, hp, hb, loaded, held, ?_, ho,
      Command.perform_disassemble loaded ho input⟩
    intro other hn
    have hc : compare name other ≠ .eq :=
      fun he => hn (Std.LawfulEqCmp.eq_of_compare he).symm
    change (directory.files.insert name _)[other]? = _
    rw [Std.ExtTreeMap.getElem?_insert, if_neg hc]

/-- A file that is there stays as it is where the formula lacks an operand, and holds the bytes of
the product else. -/
theorem product_replaces_file :
    let directory : Directory := ⟨.ofList [("a.opal", ([1] : List UInt8)), ("b", [2])]⟩
    let outcome (expression : String) :=
      ((Command.compile expression "./a.opal").perform Directory.access "").run directory
    let program : Program := [.var "x", .var "y", .operator .multiply]
    (outcome "x +").1.status ≠ 0 ∧ (outcome "x +").2 = directory ∧
      (outcome "x y").2.read "./a.opal" = .ok [79, 80, 120, 118, 1, 121, 42] ∧
      (outcome "x y").2.files["b"]? = some [2] ∧
      ((Command.disassemble "./a.opal").perform Directory.access "").run (outcome "x y").2 =
        (.success (program.listing "./a.opal"), (outcome "x y").2) := by
  intro directory outcome program
  have creatable : directory.Creatable "./a.opal" "a.opal" :=
    ⟨by decide +kernel, by decide +kernel, by decide +kernel⟩
  have hu : Program.Uncompilable "x +" :=
    .inl ⟨⟨⟨1, 4, 3⟩, "<end of input>", .missingOperand⟩, by decide +kernel⟩
  have hp : Program.parse "x y" = .ok program := by decide +kernel
  have hc : ¬ Program.Uncompilable "x y" := by
    have short : ∀ token ∈ Token.scan "x y", ¬ 255 < token.text.utf8ByteSize := by decide +kernel
    rintro (⟨error, he⟩ | ⟨token, ht, -, hl⟩)
    · rw [hp] at he
      cases he
    · exact short token ht hl
  obtain ⟨failed, kept, -⟩ := compiled_file_disassembles creatable "x +" ""
  obtain ⟨succeeded, -, compiled⟩ := compiled_file_disassembles creatable "x y" ""
  have hs : (outcome "x y").1.status = 0 := by
    by_contra hn
    exact hc (succeeded.mp hn)
  obtain ⟨found, bytes, hf, hb, hr, -, ho, -, hd⟩ := compiled hs
  obtain rfl := Except.ok.inj (hp.symm.trans hf)
  have hbytes : program.encode = .ok [120, 118, 1, 121, 42] := by decide +kernel
  obtain rfl := Except.ok.inj (hbytes.symm.trans hb)
  refine ⟨failed.mpr hu, kept (failed.mpr hu), hr, ?_, hd⟩
  rw [ho "b" (by decide)]
  decide +kernel

end SpriteFormula
