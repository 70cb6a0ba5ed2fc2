import Mathlib.Data.List.Infix
import SpriteFormula.Proofs.LayoutDepths

/-!
A rendered formula has no parentheses that it does not need. Without a pair that groups, its tokens
stand at other depths, and a part that the pair was around would have to be an operand without
parentheses of a construct that binds more tightly: no tree of the program has its tokens there.
-/

namespace SpriteFormula

open Grammar Token

/-- The names that formulas can call. -/
def Grammar.functionNames : List String :=
  unaryNames.map Prod.fst ++ extremumNames.map Prod.fst

/-- The parentheses around `inner`, behind `before`, are a pair that groups: no name of a function
stands in front of them, and they are not around a negation that is negated. A minus sign directly
in front of them negates, for one between operands has blanks around it. -/
structure Text.Groups (before inner : List Char) : Prop where
  paired : Paired inner
  uncalled : ∀ name ∈ functionNames, ¬ name.toList <:+ before
  unnegated : ['-'] <:+ before →
    ∀ program, Program.parse (.ofList inner) ≠ .ok (program ++ [.negative])

/-- It does not matter what else stands in front. -/
theorem Text.Groups.of_append {front before inner : List Char}
    (h : Groups (front ++ before) inner) : Groups before inner where
  paired := h.paired
  uncalled name hn hs := h.uncalled name hn (hs.trans (List.suffix_append front before))
  unnegated hs := h.unnegated (hs.trans (List.suffix_append front before))

/-- Depths that fit some level. -/
def Anywhere (fits : Int → List Int → Prop) (_ : Int) (depths : List Int) : Prop :=
  ∃ level, fits level depths

theorem Expr.Fits.anywhere {tree : Expr} {symbol : Symbol} {depth : Int} {depths : List Int}
    (h : tree.Fits symbol depth depths) : Anywhere tree.Levels depth depths := by
  obtain ⟨level, _, hl⟩ := h
  exact ⟨level, hl⟩

/-- Without a pair of parentheses that groups, the text behind another has as many tokens, but not
at depths that fit. -/
def Needed (front text : List Char) (weight : Nat) (fits : Int → List Int → Prop) : Prop :=
  ∀ before inner after, text = before ++ '(' :: (inner ++ ')' :: after) →
    Text.Groups (front ++ before) inner →
    ∃ levels, Scans (before ++ (inner ++ after)) levels ∧
      ∀ depth, (levels depth).length = weight ∧ ¬ fits depth (levels depth)

namespace Needed

variable {front text left right between : List Char} {weight : Nat}
  {fits others : Int → List Int → Prop}

theorem plain (hp : Text.Plain text) : Needed front text weight fits := by
  intro before inner after ht _
  exact absurd ht hp.ne_opening

theorem mono (h : Needed [] text weight fits)
    (hf : ∀ depth depths, others depth depths → fits depth depths) :
    Needed front text weight others := by
  intro before inner after ht hg
  obtain ⟨levels, hs, hn⟩ := h before inner after ht hg.of_append
  exact ⟨levels, hs, fun depth => ⟨(hn depth).1, fun ho => (hn depth).2 (hf _ _ ho)⟩⟩

section
variable {l r : Expr} {symbol tighter : Symbol}

/-- A pair in two operands is in the one or in the other. -/
theorem joined (hl : Lays left (l.Fits symbol)) (hb : Joins between)
    (hr : Lays right (r.Fits tighter)) (nl : Needed [] left l.weight (l.Fits symbol))
    (nr : Needed [] right r.weight (r.Fits tighter)) :
    Needed [] (left ++ (between ++ right)) (l.weight + (r.weight + 1))
      (Anywhere (Joined (l.Fits symbol) (r.Fits tighter))) := by
  intro before inner after ht hg
  rcases hl.paired.cases_between hb.plain hg.paired ht with ⟨rest, hin, rfl⟩ | ⟨rest, rfl, hin⟩
  · obtain ⟨levels, hs, hn⟩ := nl before inner rest hin hg
    obtain ⟨behind, hbs, hbf⟩ := hr.scans
    refine ⟨fun depth => levels depth ++ depth :: behind depth, ?_, fun depth => ⟨?_, ?_⟩⟩
    · simpa only [List.append_assoc] using hb.scans hs hbs
    · rw [List.length_append, List.length_cons, (hn depth).1, (hbf depth).length]
    · rintro ⟨level, hj⟩
      exact (hn depth).2 (Expr.Fits.of_joined hj (hn depth).1).1
  · have behind : Text.Groups rest inner := by
      rw [← List.append_assoc, ← List.append_assoc] at hg
      exact hg.of_append
    obtain ⟨levels, hs, hn⟩ := nr rest inner after hin behind
    obtain ⟨ahead, has, haf⟩ := hl.scans
    refine ⟨fun depth => ahead depth ++ depth :: levels depth, ?_, fun depth => ⟨?_, ?_⟩⟩
    · simpa only [List.append_assoc] using hb.scans has hs
    · rw [List.length_append, List.length_cons, (hn depth).1, (haf depth).length]
    · rintro ⟨level, hj⟩
      exact (hn depth).2 (Expr.Fits.of_joined hj (haf depth).length).2

/-- A pair in the text of an operand, where there may be parentheses around it: this pair or one
within the operand. -/
theorem parenthesized {fragment : Fragment} {needed : Bool} (laid : Lays fragment.text l.Levels)
    (h : Needed [] fragment.text l.weight (Anywhere l.Levels))
    (hn : needed = true → Text.Groups front fragment.text → symbol.rank < l.symbol.rank) :
    Needed front (fragment.parenthesized needed) l.weight (l.Fits symbol) := by
  cases needed with
  | false => exact h.mono fun _ _ hf => hf.anywhere
  | true =>
    intro before inner after ht hg
    rcases laid.paired.cases_enclosed hg.paired ht with
      ⟨rfl, rfl, rfl⟩ | ⟨start, rest, rfl, hin, rfl⟩
    · -- without its pair the operand's own token stands no deeper than its place
      obtain ⟨levels, hs, hf⟩ := laid.scans
      refine ⟨levels, by simpa using hs, fun depth => ⟨(hf depth).length, ?_⟩⟩
      rintro ⟨level, held, hl⟩
      have loose := hn rfl (by simpa using hg)
      exact absurd (held.bare (hl.unique (hf depth))) (Nat.not_le.mpr loose)
    · have inside : Text.Groups start inner := by
        rw [← List.singleton_append, ← List.append_assoc] at hg
        exact hg.of_append
      obtain ⟨levels, hs, hf⟩ := h start inner rest hin inside
      refine ⟨_, ?_, fun depth => ⟨(hf (depth + 1)).1, fun hd => (hf (depth + 1)).2 ?_⟩⟩
      · simpa only [List.append_assoc, List.cons_append] using hs.parentheses
      · exact hd.anywhere

end

theorem negative (h : Needed ['-'] text weight fits) :
    Needed [] ('-' :: text) (weight + 1) (Anywhere (Headed fits)) := by
  intro before inner after ht hg
  cases before with
  | nil => exact absurd (List.head_eq_of_cons_eq ht) (by decide)
  | cons c rest =>
    obtain ⟨rfl, hin⟩ := List.cons.inj ht
    obtain ⟨levels, hs, hn⟩ := h rest inner after hin hg
    refine ⟨_, hs.negative, fun depth => ⟨?_, ?_⟩⟩
    · rw [List.length_cons, (hn depth).1]
    · rintro ⟨level, behind, he, hf⟩
      obtain ⟨rfl, rfl⟩ := List.cons.inj he
      exact (hn depth).2 hf

/-- The parentheses of a call do not group, so a pair is within its arguments. -/
theorem call {name : String} (hm : name ∈ functionNames) (hname : isName name.toList)
    (hp : Text.Paired text) (h : Needed [] text weight fits) :
    Needed [] (name.toList ++ '(' :: (text ++ [')'])) (weight + 1)
      (Anywhere (Headed fun depth => fits (depth + 1))) := by
  have plain := plain_of_isName hname
  intro before inner after ht hg
  rcases plain.paired.cases_append hg.paired ht with
    ⟨_, hin, -⟩ | ⟨called, rfl, hin⟩
  · exact absurd hin plain.ne_opening
  rcases hp.cases_enclosed hg.paired hin with ⟨rfl, -, -⟩ | ⟨start, rest, rfl, within, rfl⟩
  · exact absurd (by simp) (hg.uncalled name hm)
  · have inside : Text.Groups start inner := by
      rw [← List.singleton_append, ← List.append_assoc, ← List.append_assoc] at hg
      exact hg.of_append
    obtain ⟨levels, hs, hn⟩ := h start inner rest within inside
    refine ⟨fun depth => depth :: levels (depth + 1), ?_, fun depth => ⟨?_, ?_⟩⟩
    · simpa only [List.append_assoc, List.cons_append] using hs.call hname
    · rw [List.length_cons, (hn (depth + 1)).1]
    · rintro ⟨level, behind, he, hf⟩
      obtain ⟨rfl, rfl⟩ := List.cons.inj he
      exact (hn (depth + 1)).2 hf

end Needed

/-! ### Rendered formulas -/

namespace Grammar

/-- What starts with a minus sign and is no sum or product is a negation. -/
theorem Derives.negation {symbol : Symbol} {token : Token} {tokens rest : List Token} {tree : Expr}
    (h : Derives symbol (token :: tokens) tree rest) (hk : token.kind = .minus)
    (hs : tree.symbol.rank ≤ Symbol.factor.rank) : ∃ operand, tree = .negative operand := by
  have operator {op : Operator} {left right : Expr}
      (hs : (Expr.binary op left right).symbol.rank ≤ Symbol.factor.rank) : False := by
    have loose : Symbol.factor.rank < op.symbol.rank := by cases op <;> decide
    exact absurd hs (Nat.not_le.mpr loose)
  generalize ht : token :: tokens = all at h
  induction h with
  | product _ ih => exact ih hs ht
  | factor _ ih => exact ih hs ht
  | primary _ ih => exact ih hs ht
  | additive => exact (operator hs).elim
  | multiplicative => exact (operator hs).elim
  | adjacent => exact (operator hs).elim
  | negative => exact ⟨_, rfl⟩
  | number hf | named hf | var hf | call hf | extremum hf | parentheses hf =>
    obtain ⟨rfl, -⟩ := List.cons.inj ht
    rw [hk] at hf
    cases hf

end Grammar

namespace Profile

variable {tree : Expr}

/-- A negation that is negated is the only operand with parentheses that it could do without. -/
theorem loose_of_negated (h : ∀ i ∈ tree.postfixOrder, i.Writable)
    (hn : ((generic.layout tree).isLooser .function ||
      (generic.layout tree).text.head? = some '-') = true)
    (hg : Text.Groups ['-'] (generic.layout tree).text) :
    Symbol.factor.rank < tree.signSplit.symbol.rank := by
  rw [Bool.or_eq_true] at hn
  rcases hn with hl | hm
  · exact (Fragment.isLooser_function_iff (priority_layout h)).mp hl
  by_contra hs
  -- an operand that binds tightly and starts with a minus sign is a negation
  obtain ⟨rest, ht⟩ := List.head?_eq_some_iff.mp (of_decide_eq_true hm)
  have hd := Formula.derives_layout h 0
  rw [ht, scanFrom_sign .minus (by decide)] at hd
  obtain ⟨operand, ho⟩ := hd.negation rfl (Nat.not_lt.mp hs)
  refine hg.unnegated (List.suffix_refl _) operand.postfixOrder ?_
  rw [Program.parse_ok_iff, scan, String.toList_ofList]
  exact ⟨_, Formula.derives_layout h 0, by rw [ho, Expr.postfixOrder_negative]⟩

theorem needed_argument
    (needed : Needed [] (generic.layout tree).text tree.signSplit.weight
      (Anywhere tree.signSplit.Levels)) :
    Needed [] (generic.layout tree).text tree.signSplit.weight (tree.signSplit.Fits .sum) :=
  needed.mono fun _ _ hf => hf.anywhere

section
variable (h : ∀ i ∈ tree.postfixOrder, i.Writable)
  (needed : Needed [] (generic.layout tree).text tree.signSplit.weight
    (Anywhere tree.signSplit.Levels))

include h needed

theorem needed_left (op : Operator) :
    Needed [] ((generic.layout tree).parenthesized ((generic.layout tree).isLooser op.priority))
      tree.signSplit.weight (tree.signSplit.Fits op.symbol) :=
  .parenthesized (lays_layout h) needed fun hn _ =>
    (Fragment.isLooser_iff (priority_layout h) op).mp hn

theorem needed_right (op : Operator) :
    Needed [] ((generic.layout tree).parenthesized ((generic.layout tree).isNoTighter op.priority))
      tree.signSplit.weight (tree.signSplit.Fits op.rightSymbol) :=
  .parenthesized (lays_layout h) needed fun hn _ =>
    (Fragment.isNoTighter_iff (priority_layout h) op).mp hn

end

/-- Each pair of parentheses that groups in the text of a tree is needed. -/
theorem needed_layout (h : ∀ i ∈ tree.postfixOrder, i.Writable) :
    Needed [] (generic.layout tree).text tree.signSplit.weight
      (Anywhere tree.signSplit.Levels) := by
  induction tree with
  | constant value => exact .plain (plain_literal (h (.constant value) List.mem_cons_self))
  | var name =>
    exact .plain (plain_of_isName (isName_of_scan (h (.var name) List.mem_cons_self).1))
  | binary op left right ihl ihr =>
    obtain ⟨hl, hr, -⟩ := Expr.forall_binary.mp h
    obtain ⟨c, kind, hs, ho, layout⟩ := layout_binary op
    rw [layout, Fragment.text_around]
    exact .joined (lays_left (lays_layout hl) (priority_layout hl) op) (joins_sign hs ho)
      (lays_right (lays_layout hr) (priority_layout hr) op) (needed_left hl (ihl hl) op)
      (needed_right hr (ihr hr) op)
  | negative operand ih =>
    have ho := (Expr.forall_negative.mp h).1
    exact .negative (.parenthesized (lays_layout ho) (ih ho) (loose_of_negated ho))
  | call f argument ih =>
    have ha := (Expr.forall_call.mp h).1
    obtain ⟨name, hm, hn, layout⟩ := layout_call f
    rw [layout, Fragment.text_call]
    exact .call (List.mem_append_left _ hm) hn (lays_layout ha).paired (needed_argument (ih ha))
  | extremum f left right ihl ihr =>
    obtain ⟨hl, hr, -⟩ := Expr.forall_extremum.mp h
    obtain ⟨name, hm, hn, layout⟩ := layout_extremum f
    rw [layout, Fragment.text_call₂]
    have laid := (lays_layout hl).sum.joined joins_comma (lays_layout hr).sum
    have needed := Needed.joined (lays_layout hl).sum joins_comma (lays_layout hr).sum
      (needed_argument (ihl hl)) (needed_argument (ihr hr))
    exact .call (List.mem_append_right _ hm) hn laid.paired (needed.mono fun _ _ hj => ⟨_, hj⟩)

/-- Without a pair that groups, the text of a tree is not read as the tree. -/
theorem parse_ne_of_groups (h : ∀ i ∈ tree.postfixOrder, i.Writable)
    {before inner after : List Char}
    (ht : (generic.layout tree).text = before ++ '(' :: (inner ++ ')' :: after))
    (hg : Text.Groups before inner) :
    Program.parse (.ofList (before ++ (inner ++ after))) ≠ .ok tree.signSplit.postfixOrder := by
  intro hp
  obtain ⟨levels, hs, hn⟩ := needed_layout h before inner after ht hg
  obtain ⟨read, hd, he⟩ := Program.parse_ok_iff.mp hp
  obtain rfl := Outline.postfixOrder_injective he
  obtain ⟨used, hu, takes⟩ := hd.takes
  rw [List.append_nil, scan, String.toList_ofList] at hu
  have depths (depth : Int) : Token.depths depth used = levels depth := by
    rw [← hu, hs.whole]
  have count : plainCount used = tree.signSplit.weight := by
    rw [← length_depths 0, depths, (hn 0).1]
  obtain ⟨level, -, hl⟩ := takes.fits count 0
  rw [depths] at hl
  exact (hn 0).2 ⟨level, hl⟩

end Profile

/-- In the rendered text of a program that computes one value each pair of parentheses is needed
that is not that of a call: without it the text is not read, or not as the program with its signs
split off. Only a negation that is negated has parentheses around it that it could do without. -/
theorem rendered_parentheses_are_needed (program : Program) (hw : ∀ i ∈ program, i.Writable)
    (hv : program.validate = .ok 1) :
    let read := program.flatMap Instruction.signSplit
    ∃ text, program.render .generic = .ok text ∧ Program.parse text = .ok read ∧
      ∀ before inner after : String, text = before ++ "(" ++ inner ++ ")" ++ after →
        Text.Groups before.toList inner.toList →
        Program.parse (before ++ inner ++ after) ≠ .ok read := by
  have hp : ∀ i ∈ program, i.pushes :=
    pushes_of_writableIn fun i hi => Formula.writableIn_formulas (hw i hi)
  obtain ⟨tree, _, rfl⟩ := Outline.readFrom_of_validate hp (Outline.accepts_of_writable hw) hv
  rw [← tree.postfixOrder_signSplit]
  refine ⟨_, Program.render_of_tree (Outline.accepts_of_writable hw), ?_, ?_⟩
  · rw [Program.parse_ok_iff, Token.scan, String.toList_ofList]
    exact ⟨_, Formula.derives_layout hw 0, rfl⟩
  · intro before inner after ht hg
    have texts := congrArg String.toList ht
    simp only [String.toList_ofList, String.toList_append, List.append_assoc] at texts
    have h : Program.parse (.ofList (before.toList ++ (inner.toList ++ after.toList))) ≠ _ :=
      Profile.parse_ne_of_groups hw texts hg
    rwa [String.ofList_append, String.ofList_append, String.ofList_toList, String.ofList_toList,
      String.ofList_toList, ← String.append_assoc] at h

/-- A difference that is subtracted. -/
theorem subtracted_difference_needs_parentheses :
    let program : Program :=
      [.var "a", .var "b", .var "x", .operator .subtract, .operator .subtract]
    program.render .generic = .ok "a - (b - x)" ∧
      Program.parse "a - (b - x)" = .ok program ∧ Program.parse "a - b - x" ≠ .ok program := by
  intro program
  have name (text : String) (hn : Token.isName text.toList)
      (hc : text ∉ constantNames.map Prod.fst) : Instruction.Writable (.var text) :=
    ⟨Token.scan_of_isName hn, hc⟩
  have writable : ∀ i ∈ program, Instruction.Writable i := by
    simp only [program, List.forall_mem_cons]
    exact ⟨name "a" (by decide) (by decide), name "b" (by decide) (by decide),
      name "x" (by decide) (by decide), trivial, trivial, List.forall_mem_nil _⟩
  have unsigned : program.flatMap Instruction.signSplit = program := rfl
  obtain ⟨text, hr, hp, needed⟩ := rendered_parentheses_are_needed program writable (by decide)
  obtain rfl : "a - (b - x)" = text := Except.ok.inj hr
  rw [unsigned] at hp needed
  have groups : Text.Groups "a - ".toList "b - x".toList := by
    refine ⟨⟨by decide, fun front hf => ?_⟩, by decide, fun hs => absurd hs (by decide)⟩
    have all : ∀ front ∈ "b - x".toList.inits, 0 ≤ EntryLines.openCount front := by decide
    exact all front ((List.mem_inits _ _).mpr hf)
  exact ⟨hr, hp, needed "a - " "b - x" "" rfl groups⟩

/-- The parentheses that a negated negation is rendered with are none of these. -/
example : Program.parse "-(-x)" = Program.parse "--x" := by decide +kernel

end SpriteFormula
