import SpriteFormula.Proofs.DialectGrammar
import SpriteFormula.Proofs.StackOutline
import SpriteFormula.Proofs.TextPlaces
import SpriteFormula.Render

/-!
The text that a tree is laid out as is derived by the grammar of the language as the same tree,
except that a constant with a sign becomes a negated constant.

The renderer decides on parentheses from a fragment's priority alone, so a fragment is related to
the symbol that its priority stands for: wherever that symbol may stand in a formula, the
fragment's text may stand and is derived as the fragment's tree.
-/

namespace SpriteFormula

/-- The program a constant is read back as. -/
def Instruction.signSplit : Instruction → Program
  | .constant value =>
    if value.isNegative then [.constant value.neg, .negative] else [.constant value]
  | i => [i]

/-- The tree that the text of a tree stands for. -/
def Expr.signSplit : Expr → Expr
  | .constant value =>
    if value.isNegative then .negative (.constant value.neg) else .constant value
  | .var name => .var name
  | .binary op left right => .binary op left.signSplit right.signSplit
  | .negative operand => .negative operand.signSplit
  | .call f argument => .call f argument.signSplit
  | .extremum f left right => .extremum f left.signSplit right.signSplit

theorem Expr.postfixOrder_signSplit (tree : Expr) :
    tree.signSplit.postfixOrder = tree.postfixOrder.flatMap Instruction.signSplit := by
  induction tree with
  | constant value =>
    simp only [signSplit, postfixOrder_constant, List.flatMap_singleton, Instruction.signSplit]
    split <;> simp
  | var name => rfl
  | binary op left right ihl ihr => simp [signSplit, ihl, ihr, Instruction.signSplit]
  | negative operand ih => simp [signSplit, ih, Instruction.signSplit]
  | call f argument ih => simp [signSplit, ih, Instruction.signSplit]
  | extremum f left right ihl ihr => simp [signSplit, ihl, ihr, Instruction.signSplit]

namespace Binary64

theorem ofMagnitude_of_nonneg {value : Binary64} (h : value.isNegative = false) :
    ofMagnitude false value.magnitude = value := by
  have hlt : value.bits.toNat < 2 ^ 63 := by
    simpa [isNegative] using h
  rw [ofMagnitude, magnitude, if_neg Bool.false_ne_true, Nat.mod_eq_of_lt hlt,
    UInt64.ofNat_toNat]

theorem magnitude_ofMagnitude (value : Binary64) :
    (ofMagnitude false value.magnitude).magnitude = value.magnitude := by
  have hlt : value.magnitude < 2 ^ 63 := Nat.mod_lt _ (by decide)
  rw [ofMagnitude, if_neg Bool.false_ne_true, magnitude, UInt64.toNat_ofNat']
  omega

/-- Whether a number is whole does not depend on its sign. -/
theorem hasFraction_ofMagnitude (value : Binary64) :
    (ofMagnitude false value.magnitude).hasFraction = value.hasFraction := by
  have hm := magnitude_ofMagnitude value
  have he : (ofMagnitude false value.magnitude).exponentField = value.exponentField := by
    rw [exponentField, hm, exponentField]
  have hs : (ofMagnitude false value.magnitude).significand = value.significand := by
    rw [significand, hm, he, significand]
  rw [hasFraction, hasFraction, units, units, he, hs]

theorem neg_of_negative {value : Binary64} (h : value.isNegative) :
    value.neg = ofMagnitude false value.magnitude := by
  rw [neg, h]
  rfl

theorem text_of_finite {value : Binary64} (hv : value.isFinite) :
    value.text.toList =
      if value.isNegative then '-' :: value.magnitudeText else value.magnitudeText := by
  have hn : value.isNaN = false := by
    simp only [isFinite, isNaN, decide_eq_true_eq, decide_eq_false_iff_not] at *
    omega
  rw [text, hn, if_neg Bool.false_ne_true, String.toList_ofList]

end Binary64

namespace Dialect

open Grammar

section
variable {dialect : Dialect}

/-! ### Tokens of the language -/

/-- Only a name with a period behind it is joined with what follows. -/
theorem joined_cons {token : Token} {rest : List Token}
    (h : token.kind = .identifier → ∀ next ∈ rest.head?, next.kind ≠ .period) :
    dialect.joined (token :: rest) = token :: dialect.joined rest := by
  match rest, h with
  | [], _ => rfl
  | [_], _ => rfl
  | period :: second :: rest, h =>
    have hj : dialect.joins token period second = false := by
      by_cases hk : token.kind = .identifier
      · have hp : period.kind ≠ .period := h hk period rfl
        simp [joins, hp]
      · simp [joins, hk]
    rw [joined, hj, if_neg Bool.false_ne_true]

/-- Joining names leaves the kind of the first token. -/
theorem kind_of_head_joined {tokens : List Token} {next : Token}
    (h : next ∈ (dialect.joined tokens).head?) :
    ∃ first ∈ tokens.head?, first.kind = next.kind := by
  match tokens, h with
  | [_], h => exact ⟨_, h, rfl⟩
  | [_, _], h => exact ⟨_, h, rfl⟩
  | first :: period :: second :: rest, h =>
    refine ⟨first, rfl, ?_⟩
    rw [joined] at h
    split at h
    · next hj =>
      cases h
      simp only [joins, Bool.and_eq_true, decide_eq_true_eq] at hj
      exact hj.1.1.1.1.1
    · cases h
      rfl

theorem scanFrom_nil (offset : Nat) : dialect.scanFrom offset [] = [] := by
  rw [scanFrom, Token.scanFrom_nil]
  rfl

theorem scanFrom_blank {c : Char} (h : Text.isBlank c) (offset : Nat) (rest : List Char) :
    dialect.scanFrom offset (c :: rest) = dialect.scanFrom (offset + c.utf8Size) rest := by
  rw [scanFrom, Token.scanFrom_blank h, scanFrom]

theorem scanFrom_sign (kind : TokenKind) {c : Char} (h : (c, kind) ∈ Token.signs) (offset : Nat)
    (rest : List Char) :
    dialect.scanFrom offset (c :: rest) =
      ⟨kind, String.ofList [c], offset⟩ ::
        dialect.scanFrom (offset + Text.byteLength [c]) rest := by
  have all : ∀ sign ∈ Token.signs, sign.2 ≠ .identifier := by decide
  rw [scanFrom, Token.scanFrom_sign kind h, joined_cons fun hk => absurd hk (all _ h), scanFrom]

theorem scanFrom_number {number : List Char} (hn : Binary64.IsNumeral number) {rest : List Char}
    (hr : ∀ c ∈ rest.head?, Token.isNumberPart c = false) (offset : Nat) :
    dialect.scanFrom offset (number ++ rest) =
      ⟨.number, String.ofList number, offset⟩ ::
        dialect.scanFrom (offset + Text.byteLength number) rest := by
  rw [scanFrom, Token.scanFrom_number hn hr, joined_cons (by rintro ⟨⟩), scanFrom]

/-- A name may end in front of the text: no character continues it, and no period does. -/
structure NameEnds (after : List Char) : Prop where
  part : ∀ c ∈ after.head?, Token.isNamePart c = false
  period : ∀ offset, ∀ next ∈ (Token.scanFrom offset after).head?, next.kind ≠ .period

/-- A name, or two names that are one in the language with a period between them. -/
def isWord (dialect : Dialect) (text : List Char) : Bool :=
  Token.isName text ||
    Token.isName (text.takeWhile (· ≠ '.')) && Token.isName (text.dropWhile (· ≠ '.')).tail &&
      dialect.names.contains (String.ofList text)

theorem isWord_of_isName {text : List Char} (h : Token.isName text) : dialect.isWord text := by
  rw [isWord, h, Bool.true_or]

theorem isWord_cases {text : List Char} (h : dialect.isWord text) :
    Token.isName text ∨ ∃ first second, text = first ++ '.' :: second ∧ Token.isName first ∧
      Token.isName second ∧ String.ofList text ∈ dialect.names := by
  rw [isWord, Bool.or_eq_true, Bool.and_eq_true, Bool.and_eq_true] at h
  refine h.imp_right ?_
  rintro ⟨⟨hf, hs⟩, hm⟩
  refine ⟨_, _, ?_, hf, hs, List.contains_iff_mem.mp hm⟩
  have hsplit := List.takeWhile_append_dropWhile (p := (· ≠ '.')) (l := text)
  have hstop := List.head?_dropWhile_not (· ≠ '.') text
  cases hd : text.dropWhile (· ≠ '.') with
  | nil =>
    rw [hd] at hs
    cases hs
  | cons c rest =>
    rw [hd] at hsplit hstop
    have hc : c = '.' := by simpa using hstop
    subst hc
    exact hsplit.symm

theorem not_numberPart_of_isName {name after : List Char} (h : Token.isName name) :
    ∀ c ∈ (name ++ after).head?, c.isDigit = false ∧ Token.isNumberPart c = false := by
  obtain ⟨first, rest, rfl, hf, -⟩ := Token.isName_iff.mp h
  rintro c ⟨⟩
  have hp : first ≠ '.' := Token.ne_of_nameStart hf (by decide)
  have hd := Token.not_digit_of_nameStart hf
  exact ⟨hd, by simp [Token.isNumberPart, hd, hp]⟩

theorem scanFrom_word {name after : List Char} (hw : dialect.isWord name) (ha : NameEnds after)
    (offset : Nat) :
    dialect.scanFrom offset (name ++ after) =
      ⟨.identifier, String.ofList name, offset⟩ ::
        dialect.scanFrom (offset + Text.byteLength name) after := by
  rcases isWord_cases hw with hn | ⟨first, second, rfl, hf, hs, hm⟩
  · rw [scanFrom, Token.scanFrom_name hn ha.part, joined_cons fun _ => ha.period _, scanFrom]
  · have hp : ∀ c ∈ ('.' :: (second ++ after)).head?, Token.isNamePart c = false := by
      rintro c ⟨⟩
      decide
    have hd : ∀ c ∈ (second ++ after).head?, c.isDigit = false :=
      fun c hc => (not_numberPart_of_isName hs c hc).1
    have hdot : String.ofList first ++ "." ++ String.ofList second =
        String.ofList (first ++ '.' :: second) := by
      rw [String.append_assoc, String.ofList_append, ← List.singleton_append (l := second),
        String.ofList_append]
    have hj : dialect.joins ⟨.identifier, String.ofList first, offset⟩
        ⟨.period, ".", offset + Text.byteLength first⟩
        ⟨.identifier, String.ofList second,
          offset + Text.byteLength first + Text.byteLength ['.']⟩ := by
      have hc : dialect.names.contains (String.ofList first ++ "." ++ String.ofList second) := by
        rw [hdot]
        exact List.contains_iff_mem.mpr hm
      have hone : Text.byteLength ['.'] = ".".utf8ByteSize := rfl
      simp only [joins, dotted, hc, Token.stop, Text.byteLength_ofList, hone, decide_true,
        Bool.and_self]
    have hlength : Text.byteLength (first ++ '.' :: second) =
        Text.byteLength first + Text.byteLength ['.'] + Text.byteLength second := by
      rw [← List.singleton_append (l := second), Text.byteLength_append, Text.byteLength_append,
        Nat.add_assoc]
    rw [scanFrom, List.append_assoc, List.cons_append, Token.scanFrom_name hf hp,
      Token.scanFrom_period hd, Token.scanFrom_name hs ha.part, joined, if_pos hj, dotted, hdot,
      scanFrom, hlength, Nat.add_assoc, Nat.add_assoc, Nat.add_assoc]

theorem nameEnds_opening (after : List Char) : NameEnds ('(' :: after) := by
  constructor
  · rintro c ⟨⟩
    decide
  · intro offset next hn
    rw [Token.scanFrom_sign .leftParen (by decide)] at hn
    cases hn
    nofun

/-! ### Texts in front of others -/

/-- What may follow an expression: no character that continues its last token, no parenthesis that
makes a call of its last name, and no period. -/
structure Ends (after : List Char) : Prop where
  part : ∀ c ∈ after.head?, Token.isNamePart c = false ∧ Token.isNumberPart c = false
  kind : ∀ offset, ∀ next ∈ (Token.scanFrom offset after).head?,
    next.kind ≠ .leftParen ∧ next.kind ≠ .period

theorem ends_nil : Ends [] := by
  constructor
  · nofun
  · intro offset next h
    rw [Token.scanFrom_nil] at h
    cases h

theorem ends_sign (kind : TokenKind) {c : Char} (h : (c, kind) ∈ Token.signs)
    (hk : kind ≠ .leftParen) (after : List Char) : Ends (c :: after) := by
  have apart : ∀ sign ∈ Token.signs, (Token.isNamePart sign.1 = false ∧
      Token.isNumberPart sign.1 = false) ∧ sign.2 ≠ .period := by decide
  constructor
  · rintro d ⟨⟩
    exact (apart _ h).1
  · intro offset next hn
    rw [Token.scanFrom_sign kind h] at hn
    cases hn
    exact ⟨hk, (apart _ h).2⟩

theorem ends_blank {after : List Char} (h : Ends after) : Ends (' ' :: after) := by
  constructor
  · rintro d ⟨⟩
    exact ⟨by decide, by decide⟩
  · intro offset
    rw [Token.scanFrom_blank (by decide)]
    exact h.kind _

theorem Ends.nameEnds {after : List Char} (h : Ends after) : NameEnds after :=
  ⟨fun c hc => (h.part c hc).1, fun offset next hn => (h.kind offset next hn).2⟩

theorem Ends.notCalled {after : List Char} (h : Ends after) (offset : Nat) :
    NotCalled (dialect.scanFrom offset after) := by
  intro next hn
  obtain ⟨first, hf, hk⟩ := kind_of_head_joined hn
  rw [← hk]
  exact (h.kind offset first hf).1

/-- Wherever an expression may end after it, the text is of the symbol and stands for the tree. -/
def Prints (dialect : Dialect) (text : List Char) (symbol : Symbol) (tree : Expr) : Prop :=
  ∀ offset after, Ends after →
    ∃ stop, dialect.Derives symbol (dialect.scanFrom offset (text ++ after)) tree
      (dialect.scanFrom stop after)

section
variable {text : List Char} {tree : Expr}

theorem Prints.factor (h : dialect.Prints text .primary tree) :
    dialect.Prints text .factor tree := by
  intro offset after ha
  obtain ⟨stop, hd⟩ := h offset after ha
  exact ⟨stop, .primary hd⟩

theorem Prints.product (h : dialect.Prints text .factor tree) :
    dialect.Prints text .product tree := by
  intro offset after ha
  obtain ⟨stop, hd⟩ := h offset after ha
  exact ⟨stop, .factor hd⟩

theorem Prints.sum (h : dialect.Prints text .product tree) : dialect.Prints text .sum tree := by
  intro offset after ha
  obtain ⟨stop, hd⟩ := h offset after ha
  exact ⟨stop, .product hd⟩

/-- What the language writes behind a number. -/
def suffixText (dialect : Dialect) (value : Binary64) : List Char :=
  (if value.hasFraction then dialect.suffix?.getD "" else "").toList

/-- Either nothing follows a number, or a name does. -/
theorem suffix_cases (dialect : Dialect) (value : Binary64) :
    (dialect.suffixText value = [] ∧ ∀ stop, dialect.suffixTokens value stop = []) ∨
    ∃ suffix ∈ dialect.suffix?, dialect.suffixText value = suffix.toList ∧
      ∀ stop, dialect.suffixTokens value stop = [⟨.identifier, suffix, stop⟩] := by
  unfold suffixText suffixTokens
  by_cases hf : value.hasFraction
  · rw [if_pos hf]
    cases hd : dialect.suffix? with
    | none => exact .inl ⟨rfl, fun _ => if_pos hf⟩
    | some suffix => exact .inr ⟨suffix, rfl, rfl, fun _ => if_pos hf⟩
  · rw [if_neg hf]
    exact .inl ⟨rfl, fun _ => if_neg hf⟩

theorem prints_number {value : Binary64} (hn : Binary64.IsNumeral text)
    (hv : Binary64.ofText? (String.ofList text) = some value)
    (hs : ∀ suffix ∈ dialect.suffix?, Token.isName suffix.toList) :
    dialect.Prints (text ++ dialect.suffixText value) .primary (.constant value) := by
  intro offset after ha
  rcases dialect.suffix_cases value with ⟨ht, htokens⟩ | ⟨suffix, hm, ht, htokens⟩
  · rw [ht, List.append_nil, scanFrom_number hn fun c hc => (ha.part c hc).2]
    exact ⟨_, .number rfl hv (by rw [htokens, List.nil_append])⟩
  · have hname := hs suffix hm
    have hstop : ∀ c ∈ (suffix.toList ++ after).head?, Token.isNumberPart c = false :=
      fun c hc => (not_numberPart_of_isName hname c hc).2
    rw [ht, List.append_assoc, scanFrom_number hn hstop,
      scanFrom_word (isWord_of_isName hname) ha.nameEnds, String.ofList_toList]
    refine ⟨offset + Text.byteLength text + Text.byteLength suffix.toList, .number rfl hv ?_⟩
    rw [htokens, Token.stop, Text.byteLength_ofList]
    rfl

theorem prints_name (dialect : Dialect) {name : List Char} (hw : dialect.isWord name) :
    dialect.Prints name .primary (dialect.named (String.ofList name)) := by
  intro offset after ha
  rw [scanFrom_word hw ha.nameEnds]
  exact ⟨_, .name rfl (ha.notCalled _)⟩

theorem Prints.parentheses (h : dialect.Prints text .sum tree) :
    dialect.Prints ('(' :: text ++ [')']) .primary tree := by
  intro offset after ha
  obtain ⟨stop, hd⟩ := h (offset + Text.byteLength ['(']) (')' :: after)
    (ends_sign .rightParen (by decide) nofun after)
  rw [scanFrom_sign .rightParen (by decide)] at hd
  simp only [List.append_assoc, List.cons_append, List.nil_append]
  rw [scanFrom_sign .leftParen (by decide)]
  exact ⟨_, .parentheses rfl hd rfl⟩

theorem Prints.negative (h : dialect.Prints text .factor tree) :
    dialect.Prints ('-' :: text) .factor (.negative tree) := by
  intro offset after ha
  obtain ⟨stop, hd⟩ := h (offset + Text.byteLength ['-']) after ha
  rw [List.cons_append, scanFrom_sign .minus (by decide)]
  exact ⟨stop, .negative rfl hd⟩

theorem Prints.call {name : List Char} {f : UnaryFunction} (hw : dialect.isWord name)
    (hf : dialect.unaryNames.lookup (String.ofList name) = some f)
    (h : dialect.Prints text .sum tree) :
    dialect.Prints (name ++ '(' :: text ++ [')']) .primary (.call f tree) := by
  intro offset after ha
  obtain ⟨stop, hd⟩ := h (offset + Text.byteLength name + Text.byteLength ['(']) (')' :: after)
    (ends_sign .rightParen (by decide) nofun after)
  rw [scanFrom_sign .rightParen (by decide)] at hd
  simp only [List.append_assoc, List.cons_append, List.nil_append]
  rw [scanFrom_word hw (nameEnds_opening _), scanFrom_sign .leftParen (by decide)]
  exact ⟨_, .call rfl hf rfl hd rfl⟩

section
variable {left right : List Char} {l r : Expr}

theorem Prints.pair {name : List Char} {f : PairFunction} (hw : dialect.isWord name)
    (hf : dialect.pairNames.lookup (String.ofList name) = some f)
    (hl : dialect.Prints left .sum l) (hr : dialect.Prints right .sum r) :
    dialect.Prints (name ++ '(' :: (left ++ ',' :: ' ' :: right) ++ [')']) .primary
      (f.tree l r) := by
  intro offset after ha
  obtain ⟨middle, hl⟩ := hl (offset + Text.byteLength name + Text.byteLength ['('])
    (',' :: ' ' :: (right ++ ')' :: after)) (ends_sign .comma (by decide) nofun _)
  rw [scanFrom_sign .comma (by decide), scanFrom_blank (by decide)] at hl
  obtain ⟨stop, hr⟩ := hr (middle + Text.byteLength [','] + ' '.utf8Size) (')' :: after)
    (ends_sign .rightParen (by decide) nofun after)
  rw [scanFrom_sign .rightParen (by decide)] at hr
  simp only [List.append_assoc, List.cons_append, List.nil_append]
  rw [scanFrom_word hw (nameEnds_opening _), scanFrom_sign .leftParen (by decide)]
  exact ⟨_, .pair rfl hf rfl hl rfl hr rfl⟩

theorem Prints.split {c : Char} {kind : TokenKind} {symbol tighter : Symbol}
    (hs : (c, kind) ∈ Token.signs) (hk : kind ≠ .leftParen) (hl : dialect.Prints left symbol l)
    (hr : dialect.Prints right tighter r) (offset : Nat) {after : List Char} (ha : Ends after) :
    ∃ sign middle stop, sign.kind = kind ∧
      dialect.Derives symbol (dialect.scanFrom offset (left ++ ' ' :: c :: ' ' :: right ++ after))
        l (sign :: dialect.scanFrom middle (right ++ after)) ∧
      dialect.Derives tighter (dialect.scanFrom middle (right ++ after)) r
        (dialect.scanFrom stop after) := by
  obtain ⟨between, hl⟩ := hl offset (' ' :: c :: ' ' :: (right ++ after))
    (ends_blank (ends_sign kind hs hk _))
  rw [scanFrom_blank (by decide), scanFrom_sign kind hs, scanFrom_blank (by decide)] at hl
  obtain ⟨stop, hr⟩ := hr (between + ' '.utf8Size + Text.byteLength [c] + ' '.utf8Size) after ha
  simp only [List.append_assoc, List.cons_append]
  exact ⟨_, _, stop, rfl, hl, hr⟩

theorem Prints.additive {c : Char} {kind : TokenKind} {op : Operator}
    (hs : (c, kind) ∈ Token.signs) (ho : (kind, op) ∈ Grammar.additive)
    (hl : dialect.Prints left .sum l) (hr : dialect.Prints right .product r) :
    dialect.Prints (left ++ ' ' :: c :: ' ' :: right) .sum (.binary op l r) := by
  intro offset after ha
  have hk : kind ≠ .leftParen := by rintro rfl; revert ho; cases op <;> decide
  obtain ⟨sign, middle, stop, rfl, hl, hr⟩ := hl.split hs hk hr offset ha
  exact ⟨stop, .additive hl ho hr⟩

theorem Prints.multiplicative {c : Char} {kind : TokenKind} {op : Operator}
    (hs : (c, kind) ∈ Token.signs) (ho : (kind, op) ∈ dialect.multiplicative)
    (hl : dialect.Prints left .product l) (hr : dialect.Prints right .factor r) :
    dialect.Prints (left ++ ' ' :: c :: ' ' :: right) .product (.binary op l r) := by
  intro offset after ha
  have hk : kind ≠ .leftParen := by
    rintro rfl
    have hm := multiplicative_of_mem ho
    revert hm
    cases op <;> decide
  obtain ⟨sign, middle, stop, rfl, hl, hr⟩ := hl.split hs hk hr offset ha
  exact ⟨stop, .multiplicative hl ho hr⟩

end

/-! ### Fragments -/

section
variable {symbol : Symbol}

theorem Prints.of_primary (h : dialect.Prints text .primary tree) :
    dialect.Prints text symbol tree := by
  cases symbol with
  | primary => exact h
  | factor => exact h.factor
  | product => exact h.factor.product
  | sum => exact h.factor.product.sum

theorem Prints.sum_of (h : dialect.Prints text symbol tree) : dialect.Prints text .sum tree := by
  cases symbol with
  | primary => exact h.of_primary
  | factor => exact h.product.sum
  | product => exact h.sum
  | sum => exact h

theorem Prints.product_of (h : dialect.Prints text symbol tree) (hs : symbol ≠ .sum) :
    dialect.Prints text .product tree := by
  cases symbol with
  | primary => exact h.of_primary
  | factor => exact h.product
  | product => exact h
  | sum => exact absurd rfl hs

theorem Prints.factor_of (h : dialect.Prints text symbol tree) (hs : symbol ≠ .sum)
    (hp : symbol ≠ .product) : dialect.Prints text .factor tree := by
  cases symbol with
  | primary => exact h.of_primary
  | factor => exact h
  | product => exact absurd rfl hp
  | sum => exact absurd rfl hs

end

end

/-- The symbol of the constructs of a priority. What has no priority can stand anywhere. -/
def symbolOf : Option Priority → Symbol
  | none | some .function => .primary
  | some .unary => .factor
  | some .multiplyDivide => .product
  | _ => .sum

/-- The fragment's text is of the symbol of its priority. -/
def Stands (dialect : Dialect) (fragment : Fragment) (tree : Expr) : Prop :=
  dialect.Prints fragment.text (symbolOf fragment.priority) tree

section
variable {fragment left right : Fragment} {tree l r : Expr}

theorem Stands.parenthesized {needed : Bool} {symbol : Symbol} (h : dialect.Stands fragment tree)
    (hn : needed = false → dialect.Prints fragment.text symbol tree) :
    dialect.Prints (fragment.parenthesized needed) symbol tree := by
  cases needed with
  | true => exact (Prints.sum_of h).parentheses.of_primary
  | false => exact hn rfl

theorem rank_of_not_looser {than : Priority} (h : fragment.isLooser than = false) :
    ∀ priority ∈ fragment.priority, than.rank ≤ priority.rank := by
  intro priority hp
  rw [Fragment.isLooser, hp] at h
  simpa using h

theorem rank_of_tighter {than : Priority} (h : fragment.isNoTighter than = false) :
    ∀ priority ∈ fragment.priority, than.rank < priority.rank := by
  intro priority hp
  rw [Fragment.isNoTighter, hp] at h
  simpa using h

theorem symbolOf_ne_sum {priority : Option Priority}
    (h : ∀ p ∈ priority, Priority.addSubtract.rank < p.rank) : symbolOf priority ≠ .sum := by
  rcases priority with _ | p
  · nofun
  · have hp := h p rfl
    cases p <;> revert hp <;> decide

theorem symbolOf_ne_product {priority : Option Priority}
    (h : ∀ p ∈ priority, Priority.multiplyDivide.rank < p.rank) :
    symbolOf priority ≠ .sum ∧ symbolOf priority ≠ .product := by
  rcases priority with _ | p
  · exact ⟨nofun, nofun⟩
  · have hp := h p rfl
    cases p <;> revert hp <;> decide

theorem Stands.product_of_tighter (h : dialect.Stands fragment tree)
    (hp : ∀ p ∈ fragment.priority, Priority.addSubtract.rank < p.rank) :
    dialect.Prints fragment.text .product tree :=
  Prints.product_of h (symbolOf_ne_sum hp)

theorem Stands.factor_of_tighter (h : dialect.Stands fragment tree)
    (hp : ∀ p ∈ fragment.priority, Priority.multiplyDivide.rank < p.rank) :
    dialect.Prints fragment.text .factor tree :=
  Prints.factor_of h (symbolOf_ne_product hp).1 (symbolOf_ne_product hp).2

/-- A sum between two operands: only a sum on the right needs parentheses. -/
theorem Stands.around_additive {kind : TokenKind} {c : Char} {op : Operator}
    (hs : (c, kind) ∈ Token.signs) (ho : (kind, op) ∈ Grammar.additive)
    (hl : dialect.Stands left l) (hr : dialect.Stands right r) :
    dialect.Stands (.around [c] .addSubtract left right) (.binary op l r) := by
  have hl : dialect.Prints (left.parenthesized (left.isLooser .addSubtract)) .sum l :=
    hl.parenthesized fun _ => Prints.sum_of hl
  have hr : dialect.Prints (right.parenthesized (right.isNoTighter .addSubtract)) .product r :=
    hr.parenthesized fun h => hr.product_of_tighter (rank_of_tighter h)
  have h := Prints.additive hs ho hl hr
  simpa only [Stands, symbolOf, Fragment.around, List.append_assoc, List.cons_append,
    List.nil_append] using h

/-- A product between two operands: sums need parentheses, and products on the right. -/
theorem Stands.around_multiplicative {kind : TokenKind} {c : Char} {op : Operator}
    (hs : (c, kind) ∈ Token.signs) (ho : (kind, op) ∈ dialect.multiplicative)
    (hl : dialect.Stands left l) (hr : dialect.Stands right r) :
    dialect.Stands (.around [c] .multiplyDivide left right) (.binary op l r) := by
  have hl : dialect.Prints (left.parenthesized (left.isLooser .multiplyDivide)) .product l :=
    hl.parenthesized fun h => hl.product_of_tighter (rank_of_not_looser h)
  have hr : dialect.Prints (right.parenthesized (right.isNoTighter .multiplyDivide)) .factor r :=
    hr.parenthesized fun h => hr.factor_of_tighter (rank_of_tighter h)
  have h := Prints.multiplicative hs ho hl hr
  simpa only [Stands, symbolOf, Fragment.around, List.append_assoc, List.cons_append,
    List.nil_append] using h

theorem Stands.behind_minus (h : dialect.Stands fragment tree) :
    dialect.Stands (.behind ['-'] .unary fragment) (.negative tree) := by
  refine Prints.negative (h.parenthesized fun hn => ?_)
  rw [Bool.or_eq_false_iff] at hn
  exact h.factor_of_tighter (rank_of_not_looser hn.1)

theorem Stands.call {name : List Char} {f : UnaryFunction} (hw : dialect.isWord name)
    (hf : dialect.unaryNames.lookup (String.ofList name) = some f)
    (h : dialect.Stands fragment tree) :
    dialect.Stands (.call name [fragment]) (.call f tree) := by
  have hc := (Prints.sum_of h).call hw hf
  simpa only [Stands, symbolOf, Fragment.call, List.map_cons, List.map_nil,
    List.intercalate_singleton] using hc

theorem Stands.pair {name : List Char} {f : PairFunction} (hw : dialect.isWord name)
    (hf : dialect.pairNames.lookup (String.ofList name) = some f) (hl : dialect.Stands left l)
    (hr : dialect.Stands right r) :
    dialect.Stands (.call name [left, right]) (f.tree l r) := by
  have h := Prints.pair hw hf (Prints.sum_of hl) (Prints.sum_of hr)
  have hi : [',', ' '].intercalate [left.text, right.text] =
      left.text ++ ',' :: ' ' :: right.text := by
    simp [List.intercalate]
  simpa only [Stands, symbolOf, Fragment.call, List.map_cons, List.map_nil, hi] using h

end

end

/-! ### Expressions -/

/-- How the language has an operator: as a sign of one of the tiers, or as a name. -/
inductive Displays (dialect : Dialect) (op : Operator) : List Char × Priority → Prop where
  | additive (c kind) : (c, kind) ∈ Token.signs → (kind, op) ∈ Grammar.additive →
      Displays dialect op ([c], .addSubtract)
  | multiplicative (c kind) : (c, kind) ∈ Token.signs → (kind, op) ∈ dialect.multiplicative →
      Displays dialect op ([c], .multiplyDivide)
  | call (name) : op = .pow → dialect.isWord name →
      dialect.pairNames.lookup (String.ofList name) = some .power →
      Displays dialect op (name, .function)

/-- What the profile spells is what the words of the language are. -/
structure Speaks (dialect : Dialect) (profile : Profile) : Prop where
  operator : ∀ op, dialect.Displays op (profile.construct (.operator op))
  negative : profile.construct .negative = (['-'], .unary)
  call : ∀ f, ∃ name, profile.construct (.function (.unary f)) = (name, .function) ∧
    dialect.isWord name ∧ dialect.unaryNames.lookup (String.ofList name) = some f
  extremum : ∀ f, ∃ name, profile.construct (.function (.extremum f)) = (name, .function) ∧
    dialect.isWord name ∧ dialect.pairNames.lookup (String.ofList name) = some (.extremum f)
  constant : ∀ value, ∀ name ∈ profile.spelling? (Instruction.constantKind value),
    value.isNegative = false ∧ dialect.isWord name.toList ∧
      dialect.constantNames.lookup name = some value
  suffix : profile.floatSuffix = dialect.suffix?
  suffixName : ∀ suffix ∈ dialect.suffix?, Token.isName suffix.toList

section
variable {dialect : Dialect} {profile : Profile}

/-- A finite constant stands as its name, or as a number behind its sign. -/
theorem stands_literal (speaks : dialect.Speaks profile) {value : Binary64}
    (hv : value.isFinite) :
    dialect.Stands (profile.literal value) (Expr.constant value).signSplit := by
  cases hk : profile.spelling? (Instruction.constantKind value) with
  | some name =>
    obtain ⟨hs, hw, hl⟩ := speaks.constant value name hk
    have h := dialect.prints_name hw
    rw [String.ofList_toList, named, hl] at h
    simp only [Expr.signSplit, hs, Bool.false_eq_true, if_false, Profile.literal, hk]
    exact h
  | none =>
    have hn := prints_number (Binary64.isNumeral_magnitudeText hv)
      (Binary64.ofText_magnitudeText hv) speaks.suffixName
    rw [suffixText, Binary64.hasFraction_ofMagnitude, ← suffixText] at hn
    have ht : profile.literal value =
        ⟨value.text.toList ++ dialect.suffixText value,
          if value.isNegative then some .unary else none⟩ := by
      simp only [Profile.literal, hk, suffixText, speaks.suffix]
    rw [ht, Binary64.text_of_finite hv]
    cases hs : value.isNegative with
    | true =>
      simp only [Expr.signSplit, hs, if_true, Binary64.neg_of_negative hs]
      exact hn.factor.negative
    | false =>
      simp only [Expr.signSplit, hs, Bool.false_eq_true, if_false]
      rw [Binary64.ofMagnitude_of_nonneg hs] at hn
      exact hn

theorem stands_layout (speaks : dialect.Speaks profile) {tree : Expr}
    (h : ∀ i ∈ tree.postfixOrder, i.WritableIn dialect) :
    dialect.Stands (profile.layout tree) tree.signSplit := by
  induction tree with
  | constant value => exact stands_literal speaks (h (.constant value) List.mem_cons_self)
  | var name =>
    obtain ⟨hs, hn⟩ := h (.var name) List.mem_cons_self
    have hp := dialect.prints_name (isWord_of_isName (Token.isName_of_scan hs))
    rw [String.ofList_toList, dialect.named_of_not_mem hn] at hp
    exact hp
  | binary op left right ihl ihr =>
    rw [Expr.forall_binary] at h
    have hl := ihl h.1
    have hr := ihr h.2.1
    have hd := speaks.operator op
    rw [Profile.layout, Profile.apply₂]
    generalize profile.construct (.operator op) = shown at hd
    cases hd with
    | additive _ _ hs ho => exact hl.around_additive hs ho hr
    | multiplicative _ _ hs ho => exact hl.around_multiplicative hs ho hr
    | call _ hp hw hf =>
      subst hp
      exact hl.pair hw hf hr
  | negative operand ih =>
    rw [Expr.forall_negative] at h
    rw [Profile.layout, Profile.apply, speaks.negative]
    exact (ih h.1).behind_minus
  | call f argument ih =>
    rw [Expr.forall_call] at h
    obtain ⟨name, hc, hw, hf⟩ := speaks.call f
    rw [Profile.layout, Profile.apply, hc]
    exact (ih h.1).call hw hf
  | extremum f left right ihl ihr =>
    rw [Expr.forall_extremum] at h
    obtain ⟨name, hc, hw, hf⟩ := speaks.extremum f
    rw [Profile.layout, Profile.apply₂, hc]
    exact (ihl h.1).pair hw hf (ihr h.2.1)

/-- The text of a tree, wherever it starts, is a sum of the grammar to its end. -/
theorem derives_layout (speaks : dialect.Speaks profile) {tree : Expr}
    (h : ∀ i ∈ tree.postfixOrder, i.WritableIn dialect) (offset : Nat) :
    dialect.Derives .sum (dialect.scanFrom offset (profile.layout tree).text) tree.signSplit
      [] := by
  obtain ⟨stop, hd⟩ := (Prints.sum_of (stands_layout speaks h)) offset [] ends_nil
  rw [List.append_nil, scanFrom_nil] at hd
  exact hd

end

end Dialect

/-! ### Languages -/

/-- Every profile spells the words of its language. -/
theorem Language.speaks (language : Language) : language.dialect.Speaks language.profile := by
  constructor
  · intro op
    cases op with
    | add => cases language <;> exact .additive '+' .plus (by decide) (by decide)
    | subtract =>
      cases language <;> exact .additive '-' .minus (by decide) (by decide)
    | multiply =>
      cases language <;> exact .multiplicative '*' .star (by decide) (by decide)
    | divide =>
      cases language <;> exact .multiplicative '/' .slash (by decide) (by decide)
    | pow =>
      cases language with
      | generic => exact .multiplicative '^' .caret (by decide) (by decide)
      | c => exact .call "powf".toList rfl (by decide) (by decide)
      | swift => exact .call "pow".toList rfl (by decide) (by decide)
      | javaScript => exact .call "Math.pow".toList rfl (by decide) (by decide)
  · cases language <;> rfl
  · intro f
    cases language <;> cases f <;> exact ⟨_, rfl, by decide, by decide⟩
  · intro f
    cases language <;> cases f <;> exact ⟨_, rfl, by decide, by decide⟩
  · intro value name hn
    by_cases hpi : value = .pi
    · subst hpi
      cases language <;> cases hn <;> exact ⟨by decide, by decide, by decide⟩
    · by_cases he : value = .e
      · subst he
        cases language <;> cases hn <;> exact ⟨by decide, by decide, by decide⟩
      · rw [Instruction.constantKind, if_neg hpi, if_neg he] at hn
        cases language <;> cases hn
  · cases language <;> rfl
  · intro suffix hs
    cases language <;> cases hs
    decide

/-! ### Rendering -/

section
variable {dialect : Dialect} {profile : Profile}

theorem Outline.accepts_of_writableIn {program : Program}
    (h : ∀ i ∈ program, i.WritableIn dialect) : Accepts profile.refuse program := by
  intro i hi
  cases i with
  | constant value =>
    have hv : value.isFinite := h _ hi
    simp [refusal?, Profile.refuse, hv]
  | _ => rfl

theorem pushes_of_writableIn {program : Program} (h : ∀ i ∈ program, i.WritableIn dialect) :
    ∀ i ∈ program, i.pushes := by
  intro i hi
  cases i with
  | directive d => exact (h _ hi).elim
  | _ => rfl

theorem Program.render_of_tree {tree : Expr}
    (accepted : Outline.Accepts profile.refuse tree.postfixOrder) :
    Program.render profile tree.postfixOrder = .ok (String.ofList (profile.layout tree).text) := by
  have hr := Outline.readFrom_postfixOrder accepted 0 [] []
  rw [List.append_nil] at hr
  rw [render, hr]
  simp [Outline.readFrom]

end

end SpriteFormula
