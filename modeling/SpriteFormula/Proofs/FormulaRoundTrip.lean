import SpriteFormula.Proofs.DialectLayout
import SpriteFormula.Proofs.FormulaGrammar

/-!
A rendered formula is read back as the program it was rendered from, except that a constant with a
sign becomes a negated constant.
-/

namespace SpriteFormula

/-- A text that is one identifier and not the name of a constant. -/
def Token.NamesVariable (name : String) : Prop :=
  Token.scan name = [⟨.identifier, name, 0⟩] ∧ name ∉ Grammar.constantNames.map Prod.fst

/-- An instruction of an expression that the syntax of formulas can express. -/
def Instruction.Writable : Instruction → Prop
  | .constant value => value.isFinite
  | .var name => Token.NamesVariable name
  | .directive _ => False
  | _ => True

namespace Formula

open Grammar Token

theorem literal_of_unnamed {value : Binary64} (hpi : value ≠ .pi) (he : value ≠ .e)
    (hv : value.isFinite) :
    Profile.generic.literal value =
      ⟨if value.isNegative then '-' :: value.magnitudeText else value.magnitudeText,
        if value.isNegative then some .unary else none⟩ := by
  have hk : Instruction.constantKind value = .constant := by
    rw [Instruction.constantKind, if_neg hpi, if_neg he]
  rw [← Binary64.text_of_finite hv]
  simp [Profile.literal, hk, Profile.spelling?, Profile.generic, Kind.symbol?]

theorem writableIn_formulas {i : Instruction} (h : i.Writable) : i.WritableIn .formulas := by
  cases i <;> exact h

/-- The text of a tree, wherever it starts, is a sum of the grammar to its end. -/
theorem derives_layout {tree : Expr} (h : ∀ i ∈ tree.postfixOrder, i.Writable) (offset : Nat) :
    Derives .sum (scanFrom offset (Profile.generic.layout tree).text) tree.signSplit [] := by
  have hd := Dialect.derives_layout (Language.speaks .generic)
    (fun i hi => writableIn_formulas (h i hi)) offset
  rw [Language.dialect, Dialect.scanFrom, Dialect.formulas_joined] at hd
  exact Dialect.formulas_derives_iff.mp hd

end Formula

theorem Outline.accepts_of_writable {program : Program} (h : ∀ i ∈ program, i.Writable) :
    Accepts Profile.generic.refuse program :=
  accepts_of_writableIn fun i hi => Formula.writableIn_formulas (h i hi)

theorem Program.parse_render_of_tree {tree : Expr} (h : ∀ i ∈ tree.postfixOrder, i.Writable) :
    ∃ text, Program.render .generic tree.postfixOrder = .ok text ∧
      Program.parse text = .ok (tree.postfixOrder.flatMap Instruction.signSplit) := by
  refine ⟨_, render_of_tree (Outline.accepts_of_writable h), ?_⟩
  rw [parse_ok_iff, Token.scan, String.toList_ofList]
  exact ⟨tree.signSplit, Formula.derives_layout h 0, tree.postfixOrder_signSplit.symm⟩

/-! ### What formulas are read as -/

/-- An instruction that a formula can be read as: a constant has no sign. -/
def Instruction.Readable : Instruction → Prop
  | .constant value => value.isNegative = false
  | .var name => Token.NamesVariable name
  | .directive _ => False
  | _ => True

namespace Binary64

theorem ofDecimal_le (d : Decimal) : ofDecimal d ≤ infiniteMagnitude := by
  unfold ofDecimal
  split
  · exact Nat.zero_le _
  · split
    · split
      · exact Nat.le_refl _
      · exact Nat.min_le_left _ _
    · split
      · exact Nat.zero_le _
      · exact Nat.min_le_left _ _

theorem nonneg_ofMagnitude {magnitude : Nat} (h : magnitude ≤ infiniteMagnitude) :
    (ofMagnitude false magnitude).isNegative = false := by
  have hi : infiniteMagnitude < 2 ^ 63 := by decide
  have hm : magnitude % 2 ^ 64 = magnitude := Nat.mod_eq_of_lt (by omega)
  simp only [isNegative, ofMagnitude, Bool.false_eq_true, if_false, UInt64.toNat_ofNat', hm]
  exact decide_eq_false (by omega)

theorem toLower_of_numberPart {c : Char} (h : Token.isNumberPart c) : c.toLower = c := by
  have hc : ¬ (c.val ≥ 'A'.val ∧ c.val ≤ 'Z'.val) := by
    rintro ⟨hl, -⟩
    rw [Token.isNumberPart, Bool.or_eq_true, decide_eq_true_eq] at h
    rcases h with hd | rfl
    · simp only [Char.isDigit, Bool.and_eq_true, decide_eq_true_eq] at hd
      exact absurd (UInt32.le_trans hl hd.2) (by decide)
    · exact absurd hl (by decide)
  exact dif_neg hc

/-- A number stands for a numeral without a sign: no sign is part of its token, and neither is the
name of infinity or NaN. -/
theorem decimal_of_number {text : String} (hn : ∀ c ∈ text.toList.head?, Token.isNumberPart c)
    {value : Binary64} (h : ofText? text = some value) :
    ∃ d, decimal? text.toList = some d ∧ value = ofMagnitude false (ofDecimal d) := by
  have hu : unsigned? text.toList = some value := by
    unfold ofText? at h
    split at h
    · next ht =>
      rw [ht] at hn
      exact absurd (hn _ rfl) (by decide)
    · next ht =>
      rw [ht] at hn
      exact absurd (hn _ rfl) (by decide)
    · exact h
  have unnamed (name : List Char) (hs : ∃ c ∈ name.head?, Token.isNumberPart c = false) :
      String.ofList (text.toList.map Char.toLower) ≠ String.ofList name := by
    intro he
    obtain ⟨c, hc, hp⟩ := hs
    rw [← String.ofList_injective he, List.head?_map, Option.mem_def,
      Option.map_eq_some_iff] at hc
    obtain ⟨first, hf, rfl⟩ := hc
    rw [toLower_of_numberPart (hn first hf), hn first hf] at hp
    cases hp
  unfold unsigned? at hu
  split at hu
  · next d hd =>
    cases hu
    exact ⟨d, hd, rfl⟩
  · rw [if_neg, if_neg] at hu
    · cases hu
    · exact unnamed ['n', 'a', 'n'] ⟨'n', rfl, by decide⟩
    · rintro (hi | hi)
      · exact unnamed ['i', 'n', 'f'] ⟨'i', rfl, by decide⟩ hi
      · exact unnamed ['i', 'n', 'f', 'i', 'n', 'i', 't', 'y'] ⟨'i', rfl, by decide⟩ hi

theorem nonneg_of_number {text : String} (hn : ∀ c ∈ text.toList.head?, Token.isNumberPart c)
    {value : Binary64} (h : ofText? text = some value) : value.isNegative = false := by
  obtain ⟨d, _, rfl⟩ := decimal_of_number hn h
  exact nonneg_ofMagnitude (ofDecimal_le d)

end Binary64

namespace Formula

open Grammar Token

theorem nonneg_of_constantNames {name : String} {value : Binary64}
    (h : (name, value) ∈ constantNames) : value.isNegative = false := by
  have all : ∀ constant ∈ constantNames, constant.2.isNegative = false := by decide
  exact all _ h

/-- Instructions have `p` if the tokens that they stand for have `q`. -/
structure Carries (q : Token → Prop) (p : Instruction → Prop) : Prop where
  number : ∀ {token : Token} {value : Binary64}, q token → token.kind = .number →
    Binary64.ofText? token.text = some value → p (.constant value)
  named : ∀ {name : String} {value : Binary64}, (name, value) ∈ constantNames → p (.constant value)
  var : ∀ {token : Token}, q token → token.kind = .identifier →
    token.text ∉ constantNames.map Prod.fst → p (.var token.text)
  sign : ∀ i : Instruction, 0 < i.arity → i.pushes → p i

theorem Carries.of_derives {q : Token → Prop} {p : Instruction → Prop} (carries : Carries q p)
    {symbol : Symbol} {tokens rest : List Token} {tree : Expr}
    (h : Derives symbol tokens tree rest) (hq : ∀ token ∈ tokens, q token) :
    (∀ i ∈ tree.postfixOrder, p i) ∧ ∀ token ∈ rest, q token := by
  have tail {token : Token} {others : List Token} (h : ∀ other ∈ token :: others, q other) :
      ∀ other ∈ others, q other := (List.forall_mem_cons.mp h).2
  have operator (op : Operator) : p (.operator op) := carries.sign _ Nat.two_pos rfl
  -- the tokens left keep the property, for a right operand starts with them
  induction h with
  | product _ ih => exact ih hq
  | factor _ ih => exact ih hq
  | primary _ ih => exact ih hq
  | additive _ _ _ ihl ihr =>
    obtain ⟨hl, hm⟩ := ihl hq
    obtain ⟨hr, hrest⟩ := ihr (tail hm)
    exact ⟨Expr.forall_binary.mpr ⟨hl, hr, operator _⟩, hrest⟩
  | multiplicative _ _ _ ihl ihr =>
    obtain ⟨hl, hm⟩ := ihl hq
    obtain ⟨hr, hrest⟩ := ihr (tail hm)
    exact ⟨Expr.forall_binary.mpr ⟨hl, hr, operator _⟩, hrest⟩
  | adjacent _ _ ihl ihr =>
    obtain ⟨hl, hm⟩ := ihl hq
    obtain ⟨hr, hrest⟩ := ihr hm
    exact ⟨Expr.forall_binary.mpr ⟨hl, hr, operator _⟩, hrest⟩
  | negative _ _ ih =>
    obtain ⟨ho, hrest⟩ := ih (tail hq)
    exact ⟨Expr.forall_negative.mpr ⟨ho, carries.sign _ Nat.one_pos rfl⟩, hrest⟩
  | number hk hv =>
    refine ⟨?_, tail hq⟩
    rw [Expr.postfixOrder_constant, List.forall_mem_singleton]
    exact carries.number (hq _ List.mem_cons_self) hk hv
  | named _ hv _ =>
    refine ⟨?_, tail hq⟩
    rw [Expr.postfixOrder_constant, List.forall_mem_singleton]
    exact carries.named hv
  | var hk hv _ =>
    refine ⟨?_, tail hq⟩
    rw [Expr.postfixOrder_var, List.forall_mem_singleton]
    exact carries.var (hq _ List.mem_cons_self) hk hv
  | call _ _ _ _ _ ih =>
    obtain ⟨ha, hrest⟩ := ih (tail (tail hq))
    exact ⟨Expr.forall_call.mpr ⟨ha, carries.sign _ Nat.one_pos rfl⟩, tail hrest⟩
  | extremum _ _ _ _ _ _ _ ihl ihr =>
    obtain ⟨hl, hm⟩ := ihl (tail (tail hq))
    obtain ⟨hr, hrest⟩ := ihr (tail hm)
    exact ⟨Expr.forall_extremum.mpr ⟨hl, hr, carries.sign _ Nat.two_pos rfl⟩, tail hrest⟩
  | parentheses _ _ _ ih =>
    obtain ⟨ht, hrest⟩ := ih (tail hq)
    exact ⟨ht, tail hrest⟩

theorem shaped_carries_readable : Carries Shaped Instruction.Readable := by
  constructor
  · intro token value hs hk hv
    rw [Shaped, hk] at hs
    exact Binary64.nonneg_of_number hs hv
  · intro name value h
    exact nonneg_of_constantNames h
  · intro token hs hk hv
    rw [Shaped, hk] at hs
    exact ⟨scan_of_isName hs, hv⟩
  · intro i ha hp
    cases i with
    | constant value => exact absurd ha (Nat.lt_irrefl 0)
    | var name => exact absurd ha (Nat.lt_irrefl 0)
    | directive d => cases hp
    | _ => trivial

theorem readable_of_derives {symbol : Symbol} {tokens rest : List Token} {tree : Expr}
    (h : Derives symbol tokens tree rest) (hs : ∀ token ∈ tokens, Shaped token) :
    (∀ i ∈ tree.postfixOrder, i.Readable) ∧ ∀ token ∈ rest, Shaped token :=
  shaped_carries_readable.of_derives h hs

end Formula

namespace Instruction

theorem Readable.writable {i : Instruction} (h : i.Readable)
    (hf : ∀ value, i = .constant value → value.isFinite) : i.Writable := by
  cases i with
  | constant value => exact hf value rfl
  | _ => exact h

theorem Readable.signSplit_eq {i : Instruction} (h : i.Readable) : i.signSplit = [i] := by
  cases i with
  | constant value =>
    have hs : value.isNegative = false := h
    rw [signSplit, hs, if_neg Bool.false_ne_true]
  | _ => rfl

end Instruction

theorem flatMap_signSplit_of_readable {program : Program} (h : ∀ i ∈ program, i.Readable) :
    program.flatMap Instruction.signSplit = program := by
  induction program with
  | nil => rfl
  | cons i rest ih =>
    rw [List.forall_mem_cons] at h
    rw [List.flatMap_cons, h.1.signSplit_eq, ih h.2, List.singleton_append]

theorem Expr.signSplit_of_readable {tree : Expr} (h : ∀ i ∈ tree.postfixOrder, i.Readable) :
    tree.signSplit = tree := by
  apply Outline.postfixOrder_injective
  rw [postfixOrder_signSplit, flatMap_signSplit_of_readable h]

/-- The rendered text of a program that computes one value is read back as the program, each
constant with a sign as the negation of one without. A program that a text is read as has no such
constants, so it is read back as it is, unless a constant is too large to be written. -/
theorem formula_parses_back (program : Program) :
    ((∀ i ∈ program, i.Writable) → program.validate = .ok 1 →
      ∃ text, program.render .generic = .ok text ∧
        Program.parse text = .ok (program.flatMap Instruction.signSplit)) ∧
    (∀ source, Program.parse source = .ok program →
      (∃ text, program.render .generic = .ok text ∧ Program.parse text = .ok program) ∨
        ∃ value, .constant value ∈ program ∧ value.isFinite = false) := by
  constructor
  · intro hw hv
    have hp : ∀ i ∈ program, i.pushes := by
      intro i hi
      cases i with
      | directive d => exact (hw _ hi).elim
      | _ => rfl
    obtain ⟨tree, _, rfl⟩ :=
      Outline.readFrom_of_validate hp (Outline.accepts_of_writable hw) hv
    exact Program.parse_render_of_tree hw
  · intro source hs
    obtain ⟨tree, hd, rfl⟩ := Program.parse_ok_iff.mp hs
    have hr := (Formula.readable_of_derives hd fun token ht => Token.shaped_of_mem ht).1
    by_cases hf : ∀ value, .constant value ∈ tree.postfixOrder → value.isFinite
    · have hw : ∀ i ∈ tree.postfixOrder, i.Writable := by
        intro i hi
        exact (hr i hi).writable fun value hv => hf value (hv ▸ hi)
      obtain ⟨text, ht, hback⟩ := Program.parse_render_of_tree hw
      rw [flatMap_signSplit_of_readable hr] at hback
      exact .inl ⟨text, ht, hback⟩
    · simp only [not_forall, Bool.not_eq_true] at hf
      obtain ⟨value, hm, hv⟩ := hf
      exact .inr ⟨value, hm, hv⟩

/-- Minus one times a parameter: the sign of the constant becomes an instruction. -/
theorem signed_constant_parses_back :
    ∃ text,
      Program.render .generic [.constant Binary64.one.neg, .var "x", .operator .multiply] =
        .ok text ∧
      Program.parse text = .ok [.constant .one, .negative, .var "x", .operator .multiply] := by
  have hx : Token.NamesVariable "x" :=
    ⟨Token.scan_of_isName (by decide), by decide⟩
  refine (formula_parses_back _).1 ?_ (by decide)
  rintro i (_ | ⟨_, _ | ⟨_, _ | ⟨_, ⟨⟩⟩⟩⟩)
  · change Binary64.one.neg.isFinite
    decide
  · exact hx
  · trivial

end SpriteFormula
