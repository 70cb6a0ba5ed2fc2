import SpriteFormula.Proofs.DeclarationLines

/-!
The rendered text of an assignment is one line: neither expressions nor names between quotes have
line breaks in them.
-/

namespace SpriteFormula

namespace Text

theorem unbroken_name {text : List Char} (h : Token.isName text) : Unbroken text := fun _ hc =>
  ⟨ne_of_mem_of_not_mem hc (Token.not_mem_name h (by decide) (by decide)),
    ne_of_mem_of_not_mem hc (Token.not_mem_name h (by decide) (by decide))⟩

theorem unbroken_numeral {text : List Char} (h : Binary64.IsNumeral text) : Unbroken text :=
  fun _ hc => ⟨ne_of_mem_of_not_mem hc (Token.not_mem_numeral h (by decide)),
    ne_of_mem_of_not_mem hc (Token.not_mem_numeral h (by decide))⟩

theorem mem_toDigits_sixteen {n : Nat} {c : Char} (h : c ∈ Nat.toDigits 16 n) :
    ∃ d < 16, c = Nat.digitChar d := by
  induction n using Nat.strongRecOn with
  | ind n ih =>
    rw [Nat.toDigits_eq_if (by decide)] at h
    split at h
    · next hn => exact ⟨n, hn, List.mem_singleton.mp h⟩
    · rcases List.mem_append.mp h with h | h
      · exact ih (n / 16) (by omega) h
      · exact ⟨n % 16, Nat.mod_lt _ (by decide), List.mem_singleton.mp h⟩

/-- No character of the text ends the quotes around it or the line. -/
def Enclosed (text : List Char) : Prop := ∀ c ∈ text, c ≠ '"' ∧ c ≠ '\r' ∧ c ≠ '\n'

instance (text : List Char) : Decidable (Enclosed text) :=
  List.decidableBAll (fun c => c ≠ '"' ∧ c ≠ '\r' ∧ c ≠ '\n') text

theorem enclosed_append {text others : List Char} :
    Enclosed (text ++ others) ↔ Enclosed text ∧ Enclosed others := List.forall_mem_append

theorem enclosed_codePointEscape (c : Char) : Enclosed (codePointEscape c) := by
  have digits : ∀ k < 16, Enclosed [Nat.digitChar k] := by decide
  rw [codePointEscape, enclosed_append, enclosed_append]
  refine ⟨⟨by decide, fun d hd => ?_⟩, by decide⟩
  obtain ⟨k, hk, rfl⟩ := mem_toDigits_sixteen hd
  exact digits k hk _ List.mem_cons_self

/-- The form of a character other than the quotation mark neither ends the quotes nor the line. -/
theorem enclosed_quotedChar {c : Char} (hc : c ≠ '"') : Enclosed (quotedChar c) := by
  by_cases h₀ : c = '\x00'
  · rw [h₀]
    decide
  by_cases h₁ : c = '\t'
  · rw [h₁]
    decide
  by_cases h₂ : c = '\r'
  · rw [h₂]
    decide
  by_cases h₃ : c = '\n'
  · rw [h₃]
    decide
  by_cases h₄ : c = '\\'
  · rw [h₄]
    decide
  rw [quotedChar, if_neg h₀, if_neg h₁, if_neg h₂, if_neg h₃, if_neg hc, if_neg h₄]
  split
  · exact enclosed_codePointEscape c
  · exact List.forall_mem_singleton.mpr ⟨hc, h₂, h₃⟩

theorem enclosed_escapes {name : List Char} (hn : ∀ c ∈ name, c ≠ '"') :
    Enclosed (name.flatMap quotedChar) := by
  intro d hd
  obtain ⟨c, hc, hd⟩ := List.mem_flatMap.mp hd
  exact enclosed_quotedChar (hn c hc) d hd

theorem toList_quoted (name : String) :
    (quoted name).toList = '"' :: name.toList.flatMap quotedChar ++ ['"'] := by
  rw [quoted, String.toList_ofList]

theorem unbroken_quoted {name : String} (hn : ∀ c ∈ name.toList, c ≠ '"') :
    Unbroken (quoted name).toList := by
  rw [toList_quoted, unbroken_append]
  refine ⟨List.forall_mem_cons.mpr ⟨by decide, fun c hc => ?_⟩, by decide⟩
  exact (enclosed_escapes hn c hc).2

end Text

namespace Fragment

open Text

variable {fragment left right : Fragment}

theorem unbroken_parenthesized (h : Unbroken fragment.text) (needed : Bool) :
    Unbroken (fragment.parenthesized needed) := by
  cases needed with
  | false => exact h
  | true =>
    change Unbroken (['('] ++ fragment.text ++ [')'])
    rw [unbroken_append, unbroken_append]
    exact ⟨⟨by decide, h⟩, by decide⟩

theorem unbroken_around {name : List Char} (hn : Unbroken name) (priority : Priority)
    (hl : Unbroken left.text) (hr : Unbroken right.text) :
    Unbroken (around name priority left right).text := by
  change Unbroken (left.parenthesized _ ++ ([' '] ++ name) ++ ([' '] ++ right.parenthesized _))
  simp only [unbroken_append]
  exact ⟨⟨unbroken_parenthesized hl _, by decide, hn⟩, by decide, unbroken_parenthesized hr _⟩

theorem unbroken_behind {name : List Char} (hn : Unbroken name) (priority : Priority)
    (h : Unbroken fragment.text) : Unbroken (behind name priority fragment).text := by
  change Unbroken (name ++ fragment.parenthesized _)
  rw [unbroken_append]
  exact ⟨hn, unbroken_parenthesized h _⟩

theorem unbroken_call {name : List Char} (hn : Unbroken name) (h : Unbroken fragment.text) :
    Unbroken (call name [fragment]).text := by
  change Unbroken (name ++ (['('] ++ (fragment.text ++ [])) ++ [')'])
  simp only [unbroken_append]
  exact ⟨⟨hn, by decide, h, nofun⟩, by decide⟩

theorem unbroken_call₂ {name : List Char} (hn : Unbroken name) (hl : Unbroken left.text)
    (hr : Unbroken right.text) : Unbroken (call name [left, right]).text := by
  change Unbroken (name ++ (['('] ++ (left.text ++ ([',', ' '] ++ (right.text ++ [])))) ++ [')'])
  simp only [unbroken_append]
  exact ⟨⟨hn, by decide, hl, by decide, hr, nofun⟩, by decide⟩

end Fragment

namespace Profile

open Text

theorem unbroken_literal {value : Binary64} (hv : value.isFinite) :
    Unbroken (generic.literal value).text := by
  by_cases hpi : value = .pi
  · rw [hpi]
    change Unbroken ['p', 'i']
    decide
  by_cases he : value = .e
  · rw [he]
    change Unbroken ['e']
    decide
  rw [Formula.literal_of_unnamed hpi he hv]
  have hm := unbroken_numeral (Binary64.isNumeral_magnitudeText hv)
  dsimp only
  split
  · exact List.forall_mem_cons.mpr ⟨by decide, hm⟩
  · exact hm

theorem unbroken_layout {tree : Expr} (h : ∀ i ∈ tree.postfixOrder, i.Writable) :
    Unbroken (generic.layout tree).text := by
  induction tree with
  | constant value => exact unbroken_literal (h (.constant value) List.mem_cons_self)
  | var name =>
    exact unbroken_name (Token.isName_of_scan (h (.var name) List.mem_cons_self).1)
  | binary op left right ihl ihr =>
    rw [Expr.forall_binary] at h
    have hl := ihl h.1
    have hr := ihr h.2.1
    cases op <;> exact Fragment.unbroken_around (by decide) _ hl hr
  | negative operand ih =>
    rw [Expr.forall_negative] at h
    exact Fragment.unbroken_behind (by decide) _ (ih h.1)
  | call f argument ih =>
    rw [Expr.forall_call] at h
    have ha := ih h.1
    cases f <;> exact Fragment.unbroken_call (by decide) ha
  | extremum f left right ihl ihr =>
    rw [Expr.forall_extremum] at h
    have hl := ihl h.1
    have hr := ihr h.2.1
    cases f <;> exact Fragment.unbroken_call₂ (by decide) hl hr

theorem unbroken_target {directive : Directive} (hn : directive.Unquoted) :
    Unbroken (generic.target directive).toList := by
  cases directive with
  | var name =>
    have target : generic.target (.var name) = "sprite.Variables[" ++ quoted name ++ "]" := rfl
    rw [target, String.toList_append, String.toList_append, unbroken_append, unbroken_append]
    exact ⟨⟨by decide, unbroken_quoted (hn name rfl)⟩, by decide⟩
  | _ => decide

theorem unbroken_assignedText {statement : Statement}
    (hw : ∀ i ∈ statement.value.postfixOrder, i.Writable) :
    Unbroken (generic.assignedText statement) := by
  unfold assignedText
  split
  · next keyword hk =>
    have hkey : keyword = "LeftDirection" ∨ keyword = "RightDirection" := by
      unfold directionKeyword? at hk
      split at hk
      · unfold Directive.keyword? at hk
        split at hk
        · exact .inl (Option.some.inj hk).symm
        · split at hk
          · exact .inr (Option.some.inj hk).symm
          · cases hk
      · cases hk
    rcases hkey with rfl | rfl <;> decide
  · exact unbroken_layout hw

/-- The rendered text of a statement is one line. -/
theorem unbroken_statementLine {statement : Statement} (hn : statement.directive.Unquoted)
    (hw : ∀ i ∈ statement.value.postfixOrder, i.Writable) :
    Unbroken (generic.statementLine statement) := by
  change Unbroken (_ ++ _ ++ _ ++ [])
  simp only [unbroken_append]
  exact ⟨⟨⟨unbroken_target hn, by decide⟩, unbroken_assignedText hw⟩, nofun⟩

theorem statementLine_cons (statement : Statement) :
    ∃ rest, generic.statementLine statement = 's' :: rest := by
  have ht : ∃ rest, (generic.target statement.directive).toList = 's' :: rest := by
    cases statement.directive with
    | var name =>
      have target : generic.target (.var name) = "sprite.Variables[" ++ quoted name ++ "]" := rfl
      rw [target, String.toList_append, String.toList_append]
      exact ⟨_, rfl⟩
    | _ => exact ⟨_, rfl⟩
  obtain ⟨rest, ht⟩ := ht
  rw [statementLine, ht]
  exact ⟨_, rfl⟩

end Profile

end SpriteFormula
