import Mathlib.Data.List.Forall2
import SpriteFormula.Declaration
import SpriteFormula.Proofs.FormulaRoundTrip

/-!
What a declaration text is read as: line by line, each assignment an expression of a formula and
the part of the sprite it is written to.
-/

namespace SpriteFormula

/-! ### Lines -/

namespace Text

/-- No character of the text ends a line. -/
def Unbroken (line : List Char) : Prop := ∀ c ∈ line, c ≠ '\r' ∧ c ≠ '\n'

instance (line : List Char) : Decidable (Unbroken line) :=
  List.decidableBAll (fun c => c ≠ '\r' ∧ c ≠ '\n') line

theorem unbroken_append {text others : List Char} :
    Unbroken (text ++ others) ↔ Unbroken text ∧ Unbroken others := List.forall_mem_append

theorem lines_break {line : List Char} (h : ∀ c ∈ line, c ≠ '\n') (rest : List Char) :
    lines (line ++ '\n' :: rest) = (line ++ ['\n']) :: lines rest := by
  induction line with
  | nil => simp [lines]
  | cons c others ih =>
    obtain ⟨hc, ho⟩ := List.forall_mem_cons.mp h
    rw [List.cons_append, lines, if_neg hc, ih ho]
    rfl

theorem lines_unbroken {line : List Char} (h : Unbroken line) (hn : line ≠ []) :
    lines line = [line] := by
  induction line with
  | nil => exact absurd rfl hn
  | cons c others ih =>
    obtain ⟨hc, ho⟩ := List.forall_mem_cons.mp h
    rw [lines, if_neg hc.2]
    by_cases hl : others = []
    · rw [hl]
      rfl
    · rw [ih ho hl]

theorem dropEndWhile_append {p : Char → Bool} {ending : List Char} (h : ∀ c ∈ ending, p c)
    (text : List Char) : dropEndWhile p (text ++ ending) = dropEndWhile p text := by
  have hr : ∀ c ∈ ending.reverse, p c := by simpa using h
  rw [dropEndWhile, List.reverse_append, List.dropWhile_append_of_pos hr, dropEndWhile]

theorem exists_dropEndWhile (p : Char → Bool) (text : List Char) :
    ∃ ending, text = dropEndWhile p text ++ ending ∧ ∀ c ∈ ending, p c := by
  refine ⟨(text.reverse.takeWhile p).reverse, ?_, fun c hc => ?_⟩
  · rw [dropEndWhile, ← List.reverse_append, List.takeWhile_append_dropWhile, List.reverse_reverse]
  · exact List.all_eq_true.mp List.all_takeWhile c (List.mem_reverse.mp hc)

theorem withoutBreak_append {line ending : List Char} (h : Unbroken line)
    (he : ∀ c ∈ ending, c = '\r' ∨ c = '\n') : withoutBreak (line ++ ending) = line := by
  have ends : ∀ c ∈ ending, (c = '\r' || c = '\n') := by simpa using he
  obtain ⟨cut, hl, hc⟩ := exists_dropEndWhile (fun c => c = '\r' || c = '\n') line
  have uncut : cut = [] := by
    refine List.eq_nil_iff_forall_not_mem.mpr fun c hm => ?_
    have hb := h c (by rw [hl]; exact List.mem_append_right _ hm)
    exact absurd (hc c hm) (by simp [hb])
  rw [uncut, List.append_nil] at hl
  rw [withoutBreak, dropEndWhile_append ends, ← hl]

/-- A text that starts with no blank still starts with the same character after trimming. -/
theorem trim_cons {c : Char} (h : isBlank c = false) (rest : List Char) :
    ∃ others, trim (c :: rest) = c :: others := by
  rw [trim, List.dropWhile_cons_of_neg (by simp [h]), dropEndWhile, List.reverse_cons,
    List.dropWhile_append]
  split
  · rw [List.dropWhile_cons_of_neg (by simp [h])]
    exact ⟨[], rfl⟩
  · rw [List.reverse_append]
    exact ⟨_, rfl⟩

end Text

namespace Line

/-- Reading lines succeeds exactly if each line can be read, with what they are read as. -/
theorem readFrom_ok_iff {text : String} {offset : Nat} {lines : List (List Char)}
    {reads : List Line} :
    readFrom text offset lines = .ok reads ↔
      List.Forall₂ (fun line result => read line = .ok result) lines reads := by
  induction lines generalizing offset reads with
  | nil =>
    rw [readFrom, List.forall₂_nil_left_iff]
    constructor
    · intro h
      cases h
      rfl
    · intro h
      rw [h]
  | cons line rest ih =>
    rw [readFrom, List.forall₂_cons_left_iff]
    constructor
    · intro h
      split at h
      · cases h
      · next first hf =>
        split at h
        · cases h
        · next others ho =>
          cases h
          exact ⟨first, others, hf, ih.mp ho, rfl⟩
    · rintro ⟨first, others, hf, ho, rfl⟩
      rw [hf]
      simp only [ih.mpr ho]

theorem read_assignment {line : List Char} {a : Assignment} (h : read line = .ok (.assignment a)) :
    Assignment.ofTokens? (Token.scanFrom 0 (Text.withoutBreak line)) = .ok (some a) := by
  simp only [read] at h
  split at h
  · cases h
  · split at h
    · cases h
    · cases h
    · next ha => cases h; exact ha

end Line

/-! ### Assignments -/

/-- A name has no quotation mark in it. -/
def Directive.Unquoted (directive : Directive) : Prop :=
  ∀ name, directive = .var name → ∀ c ∈ name.toList, c ≠ '"'

/-- What a line declares: the expression has no signed constants, and a name has no quotation
mark in it. -/
structure Statement.Readable (statement : Statement) : Prop where
  value : ∀ i ∈ statement.value.postfixOrder, i.Readable
  name : statement.directive.Unquoted

/-- The assignment of the value of the statement's expression. -/
def Statement.assignment (statement : Statement) : Assignment :=
  ⟨statement.directive, statement.value.postfixOrder⟩

namespace Token

theorem take_some {kind : TokenKind} {tokens rest : List Token} {text : String}
    (h : take? kind tokens = some (text, rest)) :
    ∃ token, tokens = token :: rest ∧ token.kind = kind ∧ token.text = text := by
  cases tokens with
  | nil => cases h
  | cons token others =>
    rw [take?] at h
    split at h
    · next hk => cases h; exact ⟨token, rfl, hk, rfl⟩
    · cases h

theorem skip_some {kind : TokenKind} {tokens rest : List Token}
    (h : skip? kind tokens = some rest) : ∃ token, tokens = token :: rest ∧ token.kind = kind := by
  cases tokens with
  | nil => cases h
  | cons token others =>
    rw [skip?] at h
    split at h
    · next hk => cases h; exact ⟨token, rfl, hk⟩
    · cases h

end Token

namespace Directive

open Token

theorem keywordValue_some {name : String} {value : Binary64}
    (h : keywordValue? name = some value) : value = .zero ∨ value = .one := by
  unfold keywordValue? at h
  split at h
  · exact .inl (Option.some.inj h).symm
  · split at h
    · exact .inr (Option.some.inj h).symm
    · cases h

/-- The part of the sprite is read from the first tokens, and a name of it stood between quotes. -/
theorem read_some {tokens rest : List Token} {directive : Directive}
    (h : read? tokens = some (directive, rest)) :
    rest <:+ tokens ∧ ∀ name, directive = .var name →
      ∃ token ∈ tokens, token.kind = .string ∧ unquoted token.text = name := by
  simp only [read?, Option.bind_eq_bind, Option.bind_eq_some_iff, Prod.exists] at h
  obtain ⟨sprite, afterSprite, hsprite, h⟩ := h
  obtain ⟨t₁, rfl, _, _⟩ := take_some hsprite
  by_cases hs : sprite = "sprite"
  · rw [if_neg (not_not_intro hs)] at h
    simp only [Option.bind_eq_some_iff, Prod.exists] at h
    obtain ⟨afterPeriod, hperiod, part, afterPart, hpart, h⟩ := h
    obtain ⟨t₂, rfl, _⟩ := skip_some hperiod
    obtain ⟨t₃, rfl, _, _⟩ := take_some hpart
    rw [ite_eq_iff] at h
    rcases h with ⟨_, h⟩ | ⟨_, h⟩
    · cases h
      exact ⟨⟨[t₁, t₂, t₃], rfl⟩, nofun⟩
    rw [ite_eq_iff] at h
    rcases h with ⟨_, h⟩ | ⟨_, h⟩
    · cases h
      exact ⟨⟨[t₁, t₂, t₃], rfl⟩, nofun⟩
    rw [ite_eq_iff] at h
    rcases h with ⟨_, h⟩ | ⟨_, h⟩
    · simp only [Option.bind_eq_some_iff, Prod.exists] at h
      obtain ⟨afterPeriod, hperiod, edge, afterEdge, hedge, h⟩ := h
      obtain ⟨t₄, rfl, _⟩ := skip_some hperiod
      obtain ⟨t₅, rfl, _, _⟩ := take_some hedge
      rw [ite_eq_iff] at h
      rcases h with ⟨_, h⟩ | ⟨_, h⟩
      · cases h
        exact ⟨⟨[t₁, t₂, t₃, t₄, t₅], rfl⟩, nofun⟩
      · cases h
    rw [ite_eq_iff] at h
    rcases h with ⟨_, h⟩ | ⟨_, h⟩
    · simp only [Option.bind_eq_some_iff, Prod.exists] at h
      obtain ⟨afterBracket, hbracket, name, afterName, hname, afterClosing, hclosing, h⟩ := h
      obtain ⟨t₄, rfl, _⟩ := skip_some hbracket
      obtain ⟨t₅, rfl, hk, rfl⟩ := take_some hname
      obtain ⟨t₆, rfl, _⟩ := skip_some hclosing
      cases h
      refine ⟨⟨[t₁, t₂, t₃, t₄, t₅, t₆], rfl⟩, ?_⟩
      rintro name ⟨⟩
      exact ⟨t₅, by simp, hk, rfl⟩
    · cases h
  · rw [if_pos hs] at h
    cases h

theorem readTarget_some {tokens rest : List Token} {directive : Directive}
    (h : readTarget? tokens = some (directive, rest)) :
    rest <:+ tokens ∧ ∀ name, directive = .var name →
      ∃ token ∈ tokens, token.kind = .string ∧ unquoted token.text = name := by
  simp only [readTarget?, Option.bind_eq_bind, Option.bind_eq_some_iff, Prod.exists] at h
  obtain ⟨read, afterRead, hread, afterSign, hsign, h⟩ := h
  obtain ⟨sign, rfl, _⟩ := skip_some hsign
  cases h
  obtain ⟨hs, hn⟩ := read_some hread
  exact ⟨(List.suffix_cons sign rest).trans hs, hn⟩

end Directive

namespace Token

/-- No quotation mark stands between the quotes of a token. -/
theorem unquoted_of_shaped {token : Token} (hs : Shaped token) (hk : token.kind = .string) :
    ∀ c ∈ (unquoted token.text).toList, c ≠ '"' := by
  rw [Shaped, hk] at hs
  obtain ⟨body, ht, hb⟩ := hs
  rw [unquoted, ht, String.toList_ofList, List.cons_append, List.drop_succ_cons, List.drop_zero,
    List.dropLast_concat]
  exact hb

end Token

namespace Assignment

open Formula Grammar Token

theorem keyword_some {tokens : List Token} {value : Binary64} (h : keyword? tokens = some value) :
    ∃ token, tokens = [token] ∧ token.kind = .identifier ∧
      Directive.keywordValue? token.text = some value := by
  unfold keyword? at h
  split at h
  · next token =>
    split at h
    · next hk => exact ⟨token, rfl, hk, h⟩
    · cases h
  · cases h

theorem nonneg_of_keywordValue {name : String} {value : Binary64}
    (h : Directive.keywordValue? name = some value) : value.isNegative = false := by
  rcases Directive.keywordValue_some h with rfl | rfl
  · rfl
  · rfl

theorem readValue_ok {q : Token → Prop} {p : Instruction → Prop} (carries : Carries q p)
    (keyword : ∀ {name : String} {value : Binary64},
      Directive.keywordValue? name = some value → p (.constant value))
    {directive : Directive} {tokens : List Token} {program : Program}
    (h : readValue directive tokens = .ok program) (hq : ∀ token ∈ tokens, q token) :
    ∃ tree : Expr, program = tree.postfixOrder ∧ ∀ i ∈ tree.postfixOrder, p i := by
  have derived (h : ∃ tree, Derives .sum tokens tree [] ∧ program = tree.postfixOrder) :
      ∃ tree : Expr, program = tree.postfixOrder ∧ ∀ i ∈ tree.postfixOrder, p i := by
    obtain ⟨tree, hd, rfl⟩ := h
    exact ⟨tree, rfl, (carries.of_derives hd hq).1⟩
  unfold readValue at h
  split at h
  · split at h
    · next value hk =>
      cases h
      obtain ⟨_, _, _, hv⟩ := keyword_some hk
      refine ⟨.constant value, rfl, ?_⟩
      rw [Expr.postfixOrder_constant, List.forall_mem_singleton]
      exact keyword hv
    · exact derived (whole_ok_iff.mp h)
  · exact derived (ofTokens_ok_iff.mp h)

theorem ofTokens_some {tokens : List Token} {a : Assignment}
    (h : ofTokens? tokens = .ok (some a)) (hs : ∀ token ∈ tokens, Shaped token) :
    ∃ statement : Statement, a.program = statement.program ∧ statement.Readable := by
  unfold ofTokens? at h
  split at h
  · cases h
  · next directive rest ht =>
    obtain ⟨hr, hn⟩ := Directive.readTarget_some ht
    split at h
    · cases h
    · next value hv =>
      cases h
      obtain ⟨tree, rfl, hread⟩ := readValue_ok shaped_carries_readable nonneg_of_keywordValue hv
        fun token hm => hs token (hr.subset hm)
      refine ⟨⟨directive, tree⟩, rfl, hread, fun name hd => ?_⟩
      obtain ⟨token, hm, hk, rfl⟩ := hn name hd
      exact unquoted_of_shaped (hs token hm) hk

end Assignment

theorem Line.statement_of_read {line : List Char} {a : Assignment}
    (h : read line = .ok (.assignment a)) :
    ∃ statement : Statement, a.program = statement.program ∧ statement.Readable :=
  Assignment.ofTokens_some (read_assignment h) fun _ ht => Token.shaped_of_mem ht

theorem Program.reads_of_parse {text : String} {program : Program}
    (h : Program.parseDeclarations text = .ok program) :
    ∃ reads, List.Forall₂ (fun line result => Line.read line = .ok result)
        (Text.lines text.toList) reads ∧
      program = (reads.filterMap Line.assignment?).flatMap Assignment.program := by
  unfold parseDeclarations Assignment.parse at h
  cases hr : Line.readFrom text 0 (Text.lines text.toList) with
  | error error =>
    rw [hr] at h
    cases h
  | ok reads =>
    rw [hr] at h
    cases h
    exact ⟨reads, Line.readFrom_ok_iff.mp hr, rfl⟩

theorem Program.statements_of_parse {text : String} {program : Program}
    (h : Program.parseDeclarations text = .ok program) :
    ∃ statements : List Statement,
      program = statements.flatMap Statement.program ∧ ∀ s ∈ statements, s.Readable := by
  obtain ⟨reads, each, rfl⟩ := reads_of_parse h
  clear h
  generalize Text.lines text.toList = lines at each
  induction each with
  | nil => exact ⟨[], rfl, nofun⟩
  | @cons line read lines reads hl _ ih =>
    obtain ⟨statements, hs, hread⟩ := ih
    cases read with
    | assignment a =>
      obtain ⟨statement, ha, hst⟩ := Line.statement_of_read hl
      refine ⟨statement :: statements, ?_, List.forall_mem_cons.mpr ⟨hst, hread⟩⟩
      rw [List.flatMap_cons, ← ha, ← hs]
      rfl
    | blank => exact ⟨statements, hs, hread⟩
    | skipped content => exact ⟨statements, hs, hread⟩

end SpriteFormula
