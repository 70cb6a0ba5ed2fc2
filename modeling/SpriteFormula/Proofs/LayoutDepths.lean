import SpriteFormula.Proofs.FormulaBlanks
import SpriteFormula.Proofs.TokenDepths

/-!
How deep in parentheses the tokens of a laid out tree stand. The parentheses of its text come in
pairs, and its tokens stand at the depths of the parts of the tree, wherever the text stands.
-/

namespace SpriteFormula

open Grammar

/-! ### Pairs of parentheses -/

/-- There are no parentheses in the text. -/
def Text.Plain (text : List Char) : Prop := ∀ c ∈ text, c ≠ '(' ∧ c ≠ ')'

instance (text : List Char) : Decidable (Text.Plain text) :=
  List.decidableBAll (fun c => c ≠ '(' ∧ c ≠ ')') text

/-- The parentheses of the text come in pairs. -/
structure Text.Paired (text : List Char) : Prop where
  count : EntryLines.openCount text = 0
  nonneg : ∀ front, front <+: text → 0 ≤ EntryLines.openCount front

namespace Text

open EntryLines

variable {text left right before inner after between : List Char}

theorem Plain.paired (h : Plain text) : Paired text where
  count := openCount_of_forall h
  nonneg _ hf := Int.le_of_eq (openCount_of_forall fun c hc => h c (hf.subset hc)).symm

theorem Plain.ne_opening (h : Plain text) : text ≠ before ++ '(' :: after := by
  rintro rfl
  exact (h '(' (by simp)).1 rfl

namespace Paired

theorem append (hl : Paired left) (hr : Paired right) : Paired (left ++ right) := by
  constructor
  · rw [openCount_append, hl.count, hr.count]
    rfl
  · rintro front ⟨back, h⟩
    rcases List.append_eq_append_iff.mp h with ⟨rest, rfl, -⟩ | ⟨rest, rfl, rfl⟩
    · exact hl.nonneg front (List.prefix_append _ _)
    · rw [openCount_append, hl.count, Int.zero_add]
      exact hr.nonneg rest (List.prefix_append _ _)

theorem openCount_opening (text : List Char) : openCount ('(' :: text) = openCount text + 1 := by
  rw [← List.singleton_append, openCount_append, Int.add_comm]
  rfl

theorem openCount_closing (text : List Char) : openCount (text ++ [')']) = openCount text - 1 := by
  rw [openCount_append]
  rfl

theorem enclosed (h : Paired text) : Paired ('(' :: (text ++ [')'])) := by
  constructor
  · rw [openCount_opening, openCount_closing, h.count]
    rfl
  · rintro front ⟨back, hf⟩
    cases front with
    | nil => exact Int.le_refl 0
    | cons c front =>
      obtain ⟨rfl, hs⟩ := List.cons.inj hf
      rw [openCount_opening]
      rcases List.append_eq_append_iff.mp hs with ⟨rest, rfl, -⟩ | ⟨rest, rfl, hr⟩
      · have := h.nonneg front (List.prefix_append _ _)
        omega
      · have closing : rest = [] ∨ rest = [')'] := by
          cases rest with
          | nil => exact .inl rfl
          | cons c rest =>
            obtain ⟨rfl, hn⟩ := List.cons.inj hr
            exact .inr (by rw [(List.append_eq_nil_iff.mp hn.symm).1])
        rw [openCount_append, h.count]
        rcases closing with rfl | rfl <;> decide

/-- Where paired text stands in front of a text, a pair in them is in the one or in the other. -/
theorem cases_append (hl : Paired left) (hi : Paired inner)
    (h : left ++ right = before ++ '(' :: (inner ++ ')' :: after)) :
    (∃ rest, left = before ++ '(' :: (inner ++ ')' :: rest) ∧ after = rest ++ right) ∨
      ∃ front, before = left ++ front ∧ right = front ++ '(' :: (inner ++ ')' :: after) := by
  rcases List.append_eq_append_iff.mp h with ⟨front, hb, hr⟩ | ⟨rest, rfl, hr⟩
  · exact .inr ⟨front, hb, hr⟩
  cases rest with
  | nil => exact .inr ⟨[], by simp, hr.symm⟩
  | cons c rest =>
    obtain ⟨rfl, hs⟩ := List.cons.inj hr
    have hb := hl.nonneg before (List.prefix_append _ _)
    -- the text in front is paired, so it does not end inside the pair
    have short : openCount rest < 0 := by
      have hc := hl.count
      rw [openCount_append, openCount_opening] at hc
      omega
    rcases List.append_eq_append_iff.mp hs with ⟨front, rfl, ha⟩ | ⟨front, rfl, -⟩
    · cases front with
      | nil =>
        rw [List.append_nil, hi.count] at short
        exact absurd short (Int.lt_irrefl 0)
      | cons c front =>
        obtain ⟨rfl, hrest⟩ := List.cons.inj ha
        exact .inl ⟨front, rfl, hrest⟩
    · exact absurd (hi.nonneg rest (List.prefix_append _ _)) (Int.not_le.mpr short)

/-- A pair in a text between parentheses is this pair or in the text. -/
theorem cases_enclosed (h : Paired text) (hi : Paired inner)
    (ht : '(' :: (text ++ [')']) = before ++ '(' :: (inner ++ ')' :: after)) :
    (before = [] ∧ inner = text ∧ after = []) ∨
      ∃ front rest, before = '(' :: front ∧ text = front ++ '(' :: (inner ++ ')' :: rest) ∧
        after = rest ++ [')'] := by
  cases before with
  | nil =>
    obtain ⟨-, ht⟩ := List.cons.inj ht
    rcases List.append_eq_append_iff.mp ht with ⟨rest, rfl, hr⟩ | ⟨rest, rfl, hr⟩
    · cases rest with
      | nil =>
        obtain ⟨-, rfl⟩ := List.cons.inj hr
        exact .inl ⟨rfl, by simp, rfl⟩
      | cons c rest =>
        have hn := congrArg List.length hr
        simp at hn
    · cases rest with
      | nil =>
        obtain ⟨-, rfl⟩ := List.cons.inj hr
        exact .inl ⟨rfl, by simp, rfl⟩
      | cons c rest =>
        obtain ⟨rfl, -⟩ := List.cons.inj hr
        have hc := h.nonneg (inner ++ [')']) ⟨rest, by simp⟩
        rw [openCount_closing, hi.count] at hc
        exact absurd hc (by decide)
  | cons c front =>
    obtain ⟨rfl, hs⟩ := List.cons.inj ht
    rcases h.cases_append hi hs with ⟨rest, hin, ha⟩ | ⟨rest, -, hr⟩
    · exact .inr ⟨front, rest, rfl, hin, ha⟩
    · have hn := congrArg List.length hr
      simp only [List.length_append, List.length_cons, List.length_nil] at hn
      omega

/-- A pair in two texts with no parentheses between them is in the one or in the other. -/
theorem cases_between (hl : Paired left) (hp : Plain between)
    (hi : Paired inner)
    (h : left ++ (between ++ right) = before ++ '(' :: (inner ++ ')' :: after)) :
    (∃ rest, left = before ++ '(' :: (inner ++ ')' :: rest) ∧
        after = rest ++ (between ++ right)) ∨
      ∃ front, before = left ++ (between ++ front) ∧
        right = front ++ '(' :: (inner ++ ')' :: after) := by
  rcases hl.cases_append hi h with hl | ⟨front, rfl, hr⟩
  · exact .inl hl
  · rcases hp.paired.cases_append hi hr with ⟨_, ht, -⟩ | ⟨rest, rfl, hs⟩
    · exact absurd ht hp.ne_opening
    · exact .inr ⟨rest, rfl, hs⟩

end Paired

end Text

/-! ### Depths of the tokens of a text -/

namespace Token

/-- Wherever an expression may end after it, the tokens of the text stand at the depths, by how
deep the text stands. -/
def Scans (text : List Char) (levels : Int → List Int) : Prop :=
  ∀ offset after, Dialect.Ends after → ∃ tokens stop,
    scanFrom offset (text ++ after) = tokens ++ scanFrom stop after ∧ openCount tokens = 0 ∧
      ∀ depth, depths depth tokens = levels depth

section
variable {text left right name : List Char} {levels others : Int → List Int}

theorem Scans.whole (h : Scans text levels) (offset : Nat) (depth : Int) :
    depths depth (scanFrom offset text) = levels depth := by
  obtain ⟨tokens, stop, ht, -, hd⟩ := h offset [] Dialect.ends_nil
  rw [List.append_nil, scanFrom_nil, List.append_nil] at ht
  rw [ht, hd]

theorem scans_name (hn : isName name) : Scans name fun depth => [depth] := by
  intro offset after ha
  rw [scanFrom_name hn fun c hc => (ha.part c hc).1]
  exact ⟨[_], _, rfl, rfl, fun depth => rfl⟩

theorem scans_number (hn : Binary64.IsNumeral text) : Scans text fun depth => [depth] := by
  intro offset after ha
  rw [scanFrom_number hn fun c hc => (ha.part c hc).2]
  exact ⟨[_], _, rfl, rfl, fun depth => rfl⟩

theorem Scans.parentheses (h : Scans text levels) :
    Scans ('(' :: (text ++ [')'])) fun depth => levels (depth + 1) := by
  intro offset after ha
  obtain ⟨tokens, stop, ht, ho, hd⟩ := h (offset + Text.byteLength ['(']) (')' :: after)
    (Dialect.ends_sign .rightParen (by decide) (by decide) after)
  rw [scanFrom_sign .rightParen (by decide)] at ht
  rw [List.cons_append, List.append_assoc, List.singleton_append,
    scanFrom_sign .leftParen (by decide), ht]
  refine ⟨⟨.leftParen, .ofList ['('], offset⟩ :: (tokens ++ [⟨.rightParen, .ofList [')'], stop⟩]),
    stop + Text.byteLength [')'], ?_, openCount_enclosed rfl rfl ho, fun depth => ?_⟩
  · rw [List.cons_append, List.append_assoc, List.singleton_append]
  · rw [depths_enclosed rfl rfl, hd]

theorem Scans.negative (h : Scans text levels) :
    Scans ('-' :: text) fun depth => depth :: levels depth := by
  intro offset after ha
  obtain ⟨tokens, stop, ht, ho, hd⟩ := h (offset + Text.byteLength ['-']) after ha
  rw [List.cons_append, scanFrom_sign .minus (by decide), ht]
  refine ⟨_ :: tokens, stop, rfl, ?_, fun depth => ?_⟩
  · rw [openCount, ho]
    rfl
  · rw [depths_plain rfl, hd]

/-- The arguments of a call are one level deeper than its name. -/
theorem Scans.call (hn : isName name) (h : Scans text levels) :
    Scans (name ++ '(' :: (text ++ [')'])) fun depth => depth :: levels (depth + 1) := by
  intro offset after ha
  obtain ⟨tokens, stop, ht, ho, hd⟩ := h.parentheses (offset + Text.byteLength name) after ha
  have stops : ∀ c ∈ ('(' :: (text ++ [')']) ++ after).head?, isNamePart c = false :=
    (Dialect.nameEnds_opening (text ++ [')'] ++ after)).part
  rw [List.append_assoc, scanFrom_name hn stops, ht]
  refine ⟨_ :: tokens, stop, rfl, ?_, fun depth => ?_⟩
  · rw [openCount, ho]
    rfl
  · rw [depths_plain rfl, hd]

/-- A sign that stands between two texts, with what is around it. -/
structure Joins (between : List Char) : Prop where
  plain : Text.Plain between
  scans : ∀ {left right levels others}, Scans left levels → Scans right others →
    Scans (left ++ (between ++ right)) fun depth => levels depth ++ depth :: others depth

theorem joins_sign {c : Char} {kind : TokenKind} (hs : (c, kind) ∈ signs)
    (ho : kind.opening = 0) : Joins [' ', c, ' '] := by
  have hk : kind ≠ .leftParen := by
    rintro rfl
    cases ho
  constructor
  · have all : ∀ sign ∈ signs, sign.2.opening = 0 → sign.1 ≠ '(' ∧ sign.1 ≠ ')' := by decide
    have blank : Text.Plain [' '] := by decide
    exact List.forall_mem_cons.mpr ⟨by decide, List.forall_mem_cons.mpr ⟨all _ hs ho, blank⟩⟩
  · intro left right levels others hl hr offset after ha
    obtain ⟨before, middle, hb, hbo, hbd⟩ := hl offset (' ' :: c :: ' ' :: (right ++ after))
      (Dialect.ends_blank (Dialect.ends_sign kind hs hk _))
    rw [scanFrom_blank (by decide), scanFrom_sign kind hs, scanFrom_blank (by decide)] at hb
    obtain ⟨behind, stop, hr, hro, hrd⟩ :=
      hr (middle + ' '.utf8Size + Text.byteLength [c] + ' '.utf8Size) after ha
    rw [hr] at hb
    refine ⟨before ++ _ :: behind, stop, by simpa using hb, ?_, fun depth => ?_⟩
    · rw [openCount_append, openCount, hbo, hro, ho]
      rfl
    · rw [depths_append, hbo, Int.add_zero, depths_plain ho, hbd, hrd]

theorem joins_comma : Joins [',', ' '] := by
  constructor
  · decide
  · intro left right levels others hl hr offset after ha
    obtain ⟨before, middle, hb, hbo, hbd⟩ := hl offset (',' :: ' ' :: (right ++ after))
      (Dialect.ends_sign .comma (by decide) (by decide) _)
    rw [scanFrom_sign .comma (by decide), scanFrom_blank (by decide)] at hb
    obtain ⟨behind, stop, hr, hro, hrd⟩ :=
      hr (middle + Text.byteLength [','] + ' '.utf8Size) after ha
    rw [hr] at hb
    refine ⟨before ++ _ :: behind, stop, by simpa using hb, ?_, fun depth => ?_⟩
    · rw [openCount_append, openCount, hbo, hro]
      rfl
    · rw [depths_append, hbo, Int.add_zero, depths_plain rfl, hbd, hrd]

end

end Token

/-! ### Laid out trees -/

namespace Expr

/-- The priority of the construct that the tree ends with. -/
def priority? : Expr → Option Priority
  | .binary op _ _ => some op.priority
  | .negative _ => some .unary
  | .call _ _ | .extremum _ _ _ => some .function
  | _ => none

/-- The priorities of trees, and the symbols of their constructs. -/
def forms : List (Option Priority × Symbol) :=
  [(none, .primary), (some .addSubtract, .sum), (some .multiplyDivide, .product),
    (some .unary, .factor), (some .function, .primary)]

theorem mem_forms (tree : Expr) : (tree.priority?, tree.symbol) ∈ forms := by
  cases tree with
  | binary op left right =>
    have all : (some op.priority, op.symbol) ∈ forms := by cases op <;> decide
    exact all
  | _ => simp [priority?, symbol, forms]

end Expr

namespace Fragment

variable {fragment : Fragment} {tree : Expr}

/-- On the left of an operator, what its symbol excludes is what needs parentheses. -/
theorem isLooser_iff (h : fragment.priority = tree.priority?) (op : Operator) :
    fragment.isLooser op.priority ↔ op.symbol.rank < tree.symbol.rank := by
  have all : ∀ form ∈ Expr.forms, (form.1.any fun p => p.rank < op.priority.rank) ↔
      op.symbol.rank < form.2.rank := by cases op <;> decide
  rw [isLooser, h]
  exact all _ tree.mem_forms

theorem isNoTighter_iff (h : fragment.priority = tree.priority?) (op : Operator) :
    fragment.isNoTighter op.priority ↔ op.rightSymbol.rank < tree.symbol.rank := by
  have all : ∀ form ∈ Expr.forms, (form.1.any fun p => p.rank ≤ op.priority.rank) ↔
      op.rightSymbol.rank < form.2.rank := by cases op <;> decide
  rw [isNoTighter, h]
  exact all _ tree.mem_forms

theorem isLooser_function_iff (h : fragment.priority = tree.priority?) :
    fragment.isLooser .function ↔ Symbol.factor.rank < tree.symbol.rank := by
  have all : ∀ form ∈ Expr.forms, (form.1.any fun p => p.rank < Priority.function.rank) ↔
      Symbol.factor.rank < form.2.rank := by decide
  rw [isLooser, h]
  exact all _ tree.mem_forms

theorem text_around (c : Char) (priority : Priority) (left right : Fragment) :
    (around [c] priority left right).text = left.parenthesized (left.isLooser priority) ++
      ([' ', c, ' '] ++ right.parenthesized (right.isNoTighter priority)) := by
  simp [around]

theorem text_call (name : List Char) (argument : Fragment) :
    (call name [argument]).text = name ++ '(' :: (argument.text ++ [')']) := by
  simp [call]

theorem text_call₂ (name : List Char) (left right : Fragment) :
    (call name [left, right]).text =
      name ++ '(' :: (left.text ++ ([',', ' '] ++ right.text) ++ [')']) := by
  simp [call, List.intercalate]

end Fragment

namespace Token

/-- The parentheses of the text come in pairs, and its tokens stand at depths that fit. -/
structure Lays (text : List Char) (fits : Int → List Int → Prop) : Prop where
  paired : Text.Paired text
  scans : ∃ levels, Scans text levels ∧ ∀ depth, fits depth (levels depth)

section
variable {text left right name between : List Char} {fits others : Int → List Int → Prop}

theorem Lays.plain (hp : Text.Plain text) (hs : Scans text fun depth => [depth])
    (hf : ∀ depth, fits depth [depth]) : Lays text fits :=
  ⟨hp.paired, _, hs, hf⟩

theorem Lays.joined (hl : Lays left fits) (hb : Joins between) (hr : Lays right others) :
    Lays (left ++ (between ++ right)) (Joined fits others) := by
  obtain ⟨before, hls, hlf⟩ := hl.scans
  obtain ⟨after, hrs, hrf⟩ := hr.scans
  exact ⟨hl.paired.append (hb.plain.paired.append hr.paired), _,
    hb.scans hls hrs, fun depth => ⟨_, _, rfl, hlf depth, hrf depth⟩⟩

theorem Lays.parentheses (h : Lays text fits) :
    Lays ('(' :: (text ++ [')'])) fun depth => fits (depth + 1) := by
  obtain ⟨levels, hs, hf⟩ := h.scans
  exact ⟨h.paired.enclosed, _, hs.parentheses, fun depth => hf (depth + 1)⟩

theorem Lays.negative (h : Lays text fits) :
    Lays ('-' :: text) (Headed fits) := by
  obtain ⟨levels, hs, hf⟩ := h.scans
  have minus : Text.Plain ['-'] := by decide
  exact ⟨minus.paired.append h.paired, _, hs.negative, fun depth => ⟨_, rfl, hf depth⟩⟩

theorem plain_of_isName (h : isName text) : Text.Plain text := fun _ hc =>
  ⟨ne_of_mem_of_not_mem hc (not_mem_name h (by decide) (by decide)),
    ne_of_mem_of_not_mem hc (not_mem_name h (by decide) (by decide))⟩

theorem plain_of_isNumeral (h : Binary64.IsNumeral text) : Text.Plain text := fun _ hc =>
  ⟨ne_of_mem_of_not_mem hc (not_mem_numeral h (by decide)),
    ne_of_mem_of_not_mem hc (not_mem_numeral h (by decide))⟩

theorem Lays.call (hn : isName name) (h : Lays text fits) :
    Lays (name ++ '(' :: (text ++ [')'])) (Headed fun depth => fits (depth + 1)) := by
  obtain ⟨levels, hs, hf⟩ := h.scans
  exact ⟨(plain_of_isName hn).paired.append h.paired.enclosed, _, hs.call hn,
    fun depth => ⟨_, rfl, hf (depth + 1)⟩⟩

theorem Lays.bare {tree : Expr} {symbol : Symbol} (h : Lays text tree.Levels)
    (hs : tree.symbol.rank ≤ symbol.rank) : Lays text (tree.Fits symbol) := by
  obtain ⟨levels, hl, hf⟩ := h.scans
  exact ⟨h.paired, levels, hl, fun depth => (hf depth).fits hs⟩

theorem Lays.sum {tree : Expr} (h : Lays text tree.Levels) : Lays text (tree.Fits .sum) := by
  have all : ∀ symbol : Symbol, symbol.rank ≤ Symbol.sum.rank := by
    intro symbol
    cases symbol <;> decide
  exact h.bare (all tree.symbol)

/-- In the place of a symbol there are parentheses around a tree that binds too loosely. -/
theorem Lays.parenthesized {fragment : Fragment} {tree : Expr} {symbol : Symbol} {needed : Bool}
    (h : Lays fragment.text tree.Levels)
    (hn : needed = false → tree.symbol.rank ≤ symbol.rank) :
    Lays (fragment.parenthesized needed) (tree.Fits symbol) := by
  cases needed with
  | false => exact h.bare (hn rfl)
  | true =>
    obtain ⟨levels, hs, hf⟩ := h.parentheses.scans
    refine ⟨h.paired.enclosed, levels, hs, fun depth => ?_⟩
    exact ((hf depth).fits (Nat.le_refl tree.symbol.rank)).parentheses

end

end Token

namespace Profile

open Token

/-- An operator is laid out as a sign between its operands. -/
theorem layout_binary (op : Operator) : ∃ c kind, (c, kind) ∈ signs ∧ kind.opening = 0 ∧
    ∀ left right, generic.layout (.binary op left right) =
      .around [c] op.priority (generic.layout left) (generic.layout right) := by
  cases op with
  | add => exact ⟨'+', .plus, by decide, rfl, fun _ _ => rfl⟩
  | subtract => exact ⟨'-', .minus, by decide, rfl, fun _ _ => rfl⟩
  | multiply => exact ⟨'*', .star, by decide, rfl, fun _ _ => rfl⟩
  | divide => exact ⟨'/', .slash, by decide, rfl, fun _ _ => rfl⟩
  | pow => exact ⟨'^', .caret, by decide, rfl, fun _ _ => rfl⟩

theorem layout_call (f : UnaryFunction) : ∃ name ∈ unaryNames.map Prod.fst, isName name.toList ∧
    ∀ argument, generic.layout (.call f argument) =
      .call name.toList [generic.layout argument] := by
  cases f with
  | cos => exact ⟨"cos", by decide, by decide, fun _ => rfl⟩
  | sin => exact ⟨"sin", by decide, by decide, fun _ => rfl⟩
  | sqrt => exact ⟨"sqrt", by decide, by decide, fun _ => rfl⟩
  | zoom => exact ⟨"zoom", by decide, by decide, fun _ => rfl⟩

theorem layout_extremum (f : Extremum) : ∃ name ∈ extremumNames.map Prod.fst,
    isName name.toList ∧ ∀ left right, generic.layout (.extremum f left right) =
      .call name.toList [generic.layout left, generic.layout right] := by
  cases f with
  | min => exact ⟨"min", by decide, by decide, fun _ _ => rfl⟩
  | max => exact ⟨"max", by decide, by decide, fun _ _ => rfl⟩

theorem literal_pi : generic.literal .pi = ⟨['p', 'i'], none⟩ := by
  rw [literal, Instruction.constantKind, if_pos rfl]
  rfl

theorem literal_e : generic.literal .e = ⟨['e'], none⟩ := by
  rw [literal, Instruction.constantKind, if_neg (by decide), if_pos rfl]
  rfl

theorem plain_literal {value : Binary64} (hv : value.isFinite) :
    Text.Plain (generic.literal value).text := by
  by_cases hpi : value = .pi
  · rw [hpi, literal_pi]
    decide
  by_cases he : value = .e
  · rw [he, literal_e]
    decide
  have hm := plain_of_isNumeral (Binary64.isNumeral_magnitudeText hv)
  rw [Formula.literal_of_unnamed hpi he hv]
  dsimp only
  split
  · exact List.forall_mem_cons.mpr ⟨by decide, hm⟩
  · exact hm

theorem lays_literal {value : Binary64} (hv : value.isFinite) :
    Lays (generic.literal value).text (Expr.constant value).signSplit.Levels ∧
      (generic.literal value).priority = (Expr.constant value).signSplit.priority? := by
  have named {name : List Char} (hn : isName name) : Lays name (Expr.constant value).Levels :=
    .plain (plain_of_isName hn) (scans_name hn) fun _ => rfl
  have unsigned (hs : value.isNegative = false) :
      (Expr.constant value).signSplit = .constant value := by
    rw [Expr.signSplit, hs, if_neg Bool.false_ne_true]
  by_cases hpi : value = .pi
  · rw [unsigned (by rw [hpi]; decide), hpi, literal_pi, ← hpi]
    exact ⟨named (by decide), rfl⟩
  by_cases he : value = .e
  · rw [unsigned (by rw [he]; decide), he, literal_e, ← he]
    exact ⟨named (by decide), rfl⟩
  have hm := Binary64.isNumeral_magnitudeText hv
  have number (constant : Binary64) : Lays value.magnitudeText (Expr.constant constant).Levels :=
    .plain (plain_of_isNumeral hm) (scans_number hm) fun _ => rfl
  rw [Formula.literal_of_unnamed hpi he hv]
  cases hs : value.isNegative with
  | false =>
    rw [unsigned hs, if_neg Bool.false_ne_true, if_neg Bool.false_ne_true]
    exact ⟨number value, rfl⟩
  | true =>
    have signed : (Expr.constant value).signSplit = .negative (.constant value.neg) := by
      rw [Expr.signSplit, hs, if_pos rfl]
    rw [signed, if_pos rfl, if_pos rfl]
    obtain ⟨paired, levels, hs, hf⟩ := (number value.neg).negative
    refine ⟨⟨paired, levels, hs, fun depth => ?_⟩, rfl⟩
    obtain ⟨after, ha, hl⟩ := hf depth
    exact ⟨after, ha, hl.fits (Nat.zero_le _)⟩

theorem priority_layout {tree : Expr} (h : ∀ i ∈ tree.postfixOrder, i.Writable) :
    (generic.layout tree).priority = tree.signSplit.priority? := by
  cases tree with
  | constant value => exact (lays_literal (h (.constant value) List.mem_cons_self)).2
  | var name => rfl
  | binary op left right => cases op <;> rfl
  | negative operand => rfl
  | call f argument => cases f <;> rfl
  | extremum f left right => cases f <;> rfl

section
variable {tree : Expr}

/-- A part of a tree on the left of an operator. -/
theorem lays_left (h : Lays (generic.layout tree).text tree.signSplit.Levels)
    (hp : (generic.layout tree).priority = tree.signSplit.priority?) (op : Operator) :
    Lays ((generic.layout tree).parenthesized ((generic.layout tree).isLooser op.priority))
      (tree.signSplit.Fits op.symbol) :=
  h.parenthesized fun hn =>
    Nat.not_lt.mp fun hl => absurd ((Fragment.isLooser_iff hp op).mpr hl) (by rw [hn]; decide)

theorem lays_right (h : Lays (generic.layout tree).text tree.signSplit.Levels)
    (hp : (generic.layout tree).priority = tree.signSplit.priority?) (op : Operator) :
    Lays ((generic.layout tree).parenthesized ((generic.layout tree).isNoTighter op.priority))
      (tree.signSplit.Fits op.rightSymbol) :=
  h.parenthesized fun hn =>
    Nat.not_lt.mp fun hl => absurd ((Fragment.isNoTighter_iff hp op).mpr hl) (by rw [hn]; decide)

theorem lays_operand (h : Lays (generic.layout tree).text tree.signSplit.Levels)
    (hp : (generic.layout tree).priority = tree.signSplit.priority?) :
    Lays ((generic.layout tree).parenthesized
        ((generic.layout tree).isLooser .function || (generic.layout tree).text.head? = some '-'))
      (tree.signSplit.Fits .factor) := by
  refine h.parenthesized fun hn => Nat.not_lt.mp fun hl => ?_
  rw [Bool.or_eq_false_iff] at hn
  exact absurd ((Fragment.isLooser_function_iff hp).mpr hl) (by rw [hn.1]; decide)

end

/-- The text of a tree has its tokens at the depths of the tree's parts. -/
theorem lays_layout {tree : Expr} (h : ∀ i ∈ tree.postfixOrder, i.Writable) :
    Lays (generic.layout tree).text tree.signSplit.Levels := by
  induction tree with
  | constant value => exact (lays_literal (h (.constant value) List.mem_cons_self)).1
  | var name =>
    have hn := isName_of_scan (h (.var name) List.mem_cons_self).1
    exact .plain (plain_of_isName hn) (scans_name hn) fun _ => rfl
  | binary op left right ihl ihr =>
    rw [Expr.forall_binary] at h
    obtain ⟨c, kind, hs, ho, layout⟩ := layout_binary op
    rw [layout, Fragment.text_around]
    exact (lays_left (ihl h.1) (priority_layout h.1) op).joined (joins_sign hs ho)
      (lays_right (ihr h.2.1) (priority_layout h.2.1) op)
  | negative operand ih =>
    rw [Expr.forall_negative] at h
    exact (lays_operand (ih h.1) (priority_layout h.1)).negative
  | call f argument ih =>
    rw [Expr.forall_call] at h
    obtain ⟨name, -, hn, layout⟩ := layout_call f
    rw [layout, Fragment.text_call]
    exact (ih h.1).sum.call hn
  | extremum f left right ihl ihr =>
    rw [Expr.forall_extremum] at h
    obtain ⟨name, -, hn, layout⟩ := layout_extremum f
    rw [layout, Fragment.text_call₂]
    exact ((ihl h.1).sum.joined joins_comma (ihr h.2.1).sum).call hn

end Profile

end SpriteFormula
