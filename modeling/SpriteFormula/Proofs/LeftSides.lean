import SpriteFormula.Proofs.FormulaBlanks
import SpriteFormula.Proofs.RenderedLines

/-!
The left sides of assignments: the words that name a part of the sprite, up to the sign, with blanks
in front of any of them. What stands behind the sign has the tokens that it has elsewhere.
-/

namespace SpriteFormula

open Text

/-! ### Spaced words -/

namespace Token

/-- Whether a token of the kind ends in front of the character. -/
def endsAt : TokenKind → Char → Bool
  | .identifier, c => !isNamePart c
  | .period, c => !c.isDigit
  | _, _ => true

theorem endsAt_of_blank {c : Char} (h : isBlank c) (kind : TokenKind) : endsAt kind c := by
  cases kind with
  | identifier => simp [endsAt, not_namePart_of_blank h]
  | period => simp [endsAt, not_digit_of_blank h]
  | _ => rfl

/-- The word is one token of the kind, in front of anything that the token ends at. -/
def Stands (word : TokenKind × String) : Prop :=
  ∀ offset rest, (∀ c ∈ rest.head?, endsAt word.1 c) →
    scanFrom offset (word.2.toList ++ rest) =
      ⟨word.1, word.2, offset⟩ :: scanFrom (offset + byteLength word.2.toList) rest

theorem stands_name {name : String} (h : isName name.toList) : Stands (.identifier, name) := by
  intro offset rest hr
  rw [scanFrom_name h (fun c hc => by simpa [endsAt] using hr c hc), String.ofList_toList]

theorem stands_period : Stands (.period, ".") := fun offset _ hr =>
  scanFrom_period (fun c hc => by simpa [endsAt] using hr c hc) offset

theorem stands_sign {kind : TokenKind} {c : Char} (h : (c, kind) ∈ signs) :
    Stands (kind, String.ofList [c]) := by
  intro offset rest _
  rw [String.toList_ofList]
  exact scanFrom_sign kind h offset rest

theorem toList_enquoted (name : String) :
    ("\"" ++ name ++ "\"").toList = '"' :: name.toList ++ ['"'] := by
  rw [String.toList_append, String.toList_append]
  rfl

theorem unquoted_enquoted (name : String) : unquoted ("\"" ++ name ++ "\"") = name := by
  rw [unquoted, toList_enquoted, List.cons_append, List.drop_succ_cons, List.drop_zero,
    List.dropLast_concat, String.ofList_toList]

theorem stands_string {name : String} (h : ∀ c ∈ name.toList, c ≠ '"') :
    Stands (.string, "\"" ++ name ++ "\"") := by
  intro offset rest _
  have hs := scanFrom_string h offset rest
  rw [← toList_enquoted, String.ofList_toList] at hs
  rw [← hs, toList_enquoted]
  simp only [List.cons_append, List.append_assoc, List.nil_append]

/-- Words that may follow each other directly, the last of which ends in front of anything. -/
inductive Seamed : List (TokenKind × String) → Prop where
  | last {word} : Stands word → (∀ c, endsAt word.1 c) → Seamed [word]
  | cons {word next words c} : Stands word → next.2.toList.head? = some c → endsAt word.1 c →
      Seamed (next :: words) → Seamed (word :: next :: words)

/-- The words one after the other, with blanks in front of each that do not end the line. -/
inductive Spaced : List (TokenKind × String) → List Char → Prop where
  | nil : Spaced [] []
  | cons {blanks word words text} : (∀ c ∈ blanks, isBlank c) → Unbroken blanks →
      Spaced words text → Spaced (word :: words) (blanks ++ (word.2.toList ++ text))

/-- The token is the word, wherever it stands. -/
def Spells (token : Token) (word : TokenKind × String) : Prop :=
  token.kind = word.1 ∧ token.text = word.2

theorem Spaced.head {word : TokenKind × String} {words : List (TokenKind × String)}
    {text : List Char} (h : Spaced (word :: words) text) {first : Char}
    (hf : word.2.toList.head? = some first) (rest : List Char) :
    ∀ c ∈ (text ++ rest).head?, isBlank c ∨ c = first := by
  cases h with
  | @cons blanks _ _ others hb _ _ =>
    cases blanks with
    | cons b blanks =>
      rintro c ⟨⟩
      exact .inl (hb _ List.mem_cons_self)
    | nil =>
      intro c hc
      rw [List.nil_append, List.append_assoc, List.head?_append, hf] at hc
      cases hc
      exact .inr rfl

/-- Spaced words have their tokens, and what follows them has its own. -/
theorem Spaced.scanFrom {words : List (TokenKind × String)} {text : List Char}
    (h : Spaced words text) (hw : Seamed words) (offset : Nat) (rest : List Char) :
    ∃ front, Token.scanFrom offset (text ++ rest) =
      front ++ Token.scanFrom (offset + byteLength text) rest ∧
      List.Forall₂ Spells front words := by
  induction hw generalizing offset text with
  | @last word hs he =>
    obtain _ | ⟨hb, _, ⟨⟩⟩ := h
    rw [List.append_assoc, scanFrom_blanks hb, List.append_nil, hs _ _ fun c _ => he c,
      byteLength_append, Nat.add_assoc]
    exact ⟨[_], rfl, .cons ⟨rfl, rfl⟩ .nil⟩
  | @cons word next words first hs hf he _ ih =>
    obtain _ | ⟨hb, _, ht⟩ := h
    have ends : ∀ c ∈ (_ ++ rest).head?, endsAt word.1 c := fun c hc => by
      rcases ht.head hf rest c hc with hc | rfl
      · exact endsAt_of_blank hc _
      · exact he
    obtain ⟨front, hscan, hspells⟩ := ih ht _
    rw [List.append_assoc, scanFrom_blanks hb, List.append_assoc, hs _ _ ends, hscan,
      byteLength_append, byteLength_append, ← Nat.add_assoc, ← Nat.add_assoc]
    exact ⟨_ :: front, rfl, .cons ⟨rfl, rfl⟩ hspells⟩

end Token

/-! ### Parts of the sprite -/

namespace Directive

open Token

/-- The words left of a value that is written to a part of the sprite, up to the sign. -/
def words : Directive → List (TokenKind × String)
  | .direction =>
    [(.identifier, "sprite"), (.period, "."), (.identifier, "Direction"), (.assign, "=")]
  | .animation =>
    [(.identifier, "sprite"), (.period, "."), (.identifier, "Animation"), (.assign, "=")]
  | .hitboxTop =>
    [(.identifier, "sprite"), (.period, "."), (.identifier, "Hitbox"), (.period, "."),
      (.identifier, "Top"), (.assign, "=")]
  | .var name =>
    [(.identifier, "sprite"), (.period, "."), (.identifier, "Variables"), (.leftBracket, "["),
      (.string, "\"" ++ name ++ "\""), (.rightBracket, "]"), (.assign, "=")]

/-- The words of a left side, spaced, on one line. -/
structure IsLeftSide (directive : Directive) (left : List Char) : Prop where
  spaced : Spaced directive.words left
  name : ∀ name, directive = .var name → Enclosed name.toList

theorem seamed_words {directive : Directive}
    (hn : ∀ name, directive = .var name → Enclosed name.toList) : Seamed directive.words := by
  have assign : Seamed [(.assign, "=")] := .last (stands_sign (c := '=') (by decide)) fun _ => rfl
  have sprite : Stands (.identifier, "sprite") := stands_name (by decide)
  have part {name : String} (h : isName name.toList) {words} (hw : Seamed words)
      (hs : ∃ next others c, words = next :: others ∧ next.2.toList.head? = some c ∧
        endsAt .identifier c) :
      Seamed ((.period, ".") :: (.identifier, name) :: words) := by
    obtain ⟨next, others, c, rfl, hc, he⟩ := hs
    obtain ⟨first, rest, hname, hf, _⟩ := isName_iff.mp h
    refine .cons stands_period (c := first) (by rw [hname]; rfl) ?_
      (.cons (stands_name h) hc he hw)
    simp [endsAt, not_digit_of_nameStart hf]
  cases directive with
  | direction =>
    exact .cons sprite (c := '.') rfl (by decide)
      (part (by decide) assign ⟨_, _, '=', rfl, rfl, by decide⟩)
  | animation =>
    exact .cons sprite (c := '.') rfl (by decide)
      (part (by decide) assign ⟨_, _, '=', rfl, rfl, by decide⟩)
  | hitboxTop =>
    exact .cons sprite (c := '.') rfl (by decide)
      (part (by decide) (part (by decide) assign ⟨_, _, '=', rfl, rfl, by decide⟩)
        ⟨_, _, '.', rfl, rfl, by decide⟩)
  | var name =>
    have quoted : Stands (.string, "\"" ++ name ++ "\"") :=
      stands_string fun c hc => (hn name rfl c hc).1
    have closing : Seamed [(.rightBracket, "]"), (.assign, "=")] :=
      .cons (stands_sign (c := ']') (by decide)) (c := '=') rfl rfl assign
    have opening : Stands (.leftBracket, "[") := stands_sign (c := '[') (by decide)
    have bracketed := Seamed.cons opening (c := '"') (by rw [toList_enquoted]; rfl) rfl
      (.cons quoted (c := ']') rfl rfl closing)
    exact .cons sprite (c := '.') rfl (by decide)
      (part (by decide) bracketed ⟨_, _, '[', rfl, rfl, by decide⟩)

/-- The tokens of the words name the part of the sprite. -/
theorem readTarget_words {directive : Directive} {front : List Token}
    (h : List.Forall₂ Spells front directive.words) (rest : List Token) :
    readTarget? (front ++ rest) = some (directive, rest) := by
  cases directive with
  | direction =>
    obtain _ | ⟨h₁, _ | ⟨h₂, _ | ⟨h₃, _ | ⟨h₄, ⟨⟩⟩⟩⟩⟩ := h
    simp [readTarget?, read?, take?, skip?, h₁.1, h₁.2, h₂.1, h₃.1, h₃.2, h₄.1]
  | animation =>
    obtain _ | ⟨h₁, _ | ⟨h₂, _ | ⟨h₃, _ | ⟨h₄, ⟨⟩⟩⟩⟩⟩ := h
    simp [readTarget?, read?, take?, skip?, h₁.1, h₁.2, h₂.1, h₃.1, h₃.2, h₄.1]
  | hitboxTop =>
    obtain _ | ⟨h₁, _ | ⟨h₂, _ | ⟨h₃, _ | ⟨h₄, _ | ⟨h₅, _ | ⟨h₆, ⟨⟩⟩⟩⟩⟩⟩⟩ := h
    simp [readTarget?, read?, take?, skip?, h₁.1, h₁.2, h₂.1, h₃.1, h₃.2, h₄.1, h₅.1, h₅.2, h₆.1]
  | var name =>
    obtain _ | ⟨h₁, _ | ⟨h₂, _ | ⟨h₃, _ | ⟨h₄, _ | ⟨h₅, _ | ⟨h₆, _ | ⟨h₇, ⟨⟩⟩⟩⟩⟩⟩⟩⟩ := h
    have hname := (congrArg unquoted h₅.2).trans (unquoted_enquoted name)
    simp [readTarget?, read?, take?, skip?, h₁.1, h₁.2, h₂.1, h₃.1, h₃.2, h₄.1, h₅.1, h₆.1, h₇.1,
      hname]

variable {directive : Directive} {left : List Char}

/-- Behind a left side the tokens are those of the right side, farther on. -/
theorem IsLeftSide.readTarget (h : IsLeftSide directive left) (right : List Char) :
    readTarget? (scanFrom 0 (left ++ right)) =
      some (directive, scanFrom (byteLength left) right) := by
  obtain ⟨front, hscan, hfront⟩ := h.spaced.scanFrom (seamed_words h.name) 0 right
  rw [hscan, Nat.zero_add]
  exact readTarget_words hfront _

theorem unbroken_spaced {words : List (TokenKind × String)} (h : Spaced words left)
    (hw : ∀ word ∈ words, Unbroken word.2.toList) : Unbroken left := by
  induction h with
  | nil => exact List.forall_mem_nil _
  | cons _ hu _ ih =>
    obtain ⟨hword, ho⟩ := List.forall_mem_cons.mp hw
    exact unbroken_append.mpr ⟨hu, unbroken_append.mpr ⟨hword, ih ho⟩⟩

theorem IsLeftSide.unbroken (h : IsLeftSide directive left) : Unbroken left := by
  refine unbroken_spaced h.spaced ?_
  have hname := h.name
  cases directive with
  | var name =>
    have quoted : Unbroken ("\"" ++ name ++ "\"").toList := by
      rw [toList_enquoted, List.cons_append]
      refine List.forall_mem_cons.mpr ⟨by decide, unbroken_append.mpr ⟨fun c hc => ?_, by decide⟩⟩
      exact (hname name rfl c hc).2
    simp only [words, List.forall_mem_cons, List.not_mem_nil, false_implies, implies_true,
      and_true]
    exact ⟨by decide, by decide, by decide, by decide, quoted, by decide, by decide⟩
  | _ => decide

/-- A left side begins with a name, behind blanks. -/
theorem IsLeftSide.begins (h : IsLeftSide directive left) :
    ∃ blanks rest, left = blanks ++ 's' :: rest ∧ ∀ c ∈ blanks, isBlank c := by
  have hw : ∃ others, directive.words = (.identifier, "sprite") :: others := by
    cases directive <;> exact ⟨_, rfl⟩
  obtain ⟨others, hw⟩ := hw
  have hs := h.spaced
  rw [hw] at hs
  obtain _ | ⟨hb, _, _⟩ := hs
  exact ⟨_, _, rfl, hb⟩

end Directive

end SpriteFormula
