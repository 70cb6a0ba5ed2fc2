import SpriteFormula.Proofs.LeftSides
import SpriteFormula.Proofs.ReadingAlike
import SpriteFormula.Proofs.TokenCuts

/-!
The right side of an assignment is read as a formula is, and its errors are those of the formula,
behind the left side. Only a direction may be given by a keyword, and where nothing is given for it,
it is an operand that is missing.
-/

namespace SpriteFormula

open Text

/-! ### Places behind a left side -/

namespace Token

/-- The same token, some bytes farther on. -/
def Later (shift : Nat) (token other : Token) : Prop :=
  Alike token other ∧ token.start = other.start + shift

theorem Alike.shown {token other : Token} (h : Alike token other) : token.shown = other.shown := by
  unfold Token.shown
  rw [h.1, h.2]

/-- Tokens that are alike show the same where they begin, the end of the text where they are none. -/
theorem shown_head_alike {tokens others : List Token} (h : List.Forall₂ Alike tokens others)
    (length other : Nat) :
    (tokens.head?.getD (endOfInput length)).shown =
      (others.head?.getD (endOfInput other)).shown := by
  cases h with
  | nil => rfl
  | cons hk _ => exact hk.shown

theorem scanFrom_later (text : List Char) (offset shift : Nat) :
    List.Forall₂ (Later shift) (scanFrom (offset + shift) text) (scanFrom offset text) := by
  fun_induction scanFrom offset text with
  | case1 offset =>
    rw [scanFrom_nil]
    exact .nil
  | case2 offset c rest hc ih =>
    rw [scanFrom_blank hc, Nat.add_right_comm]
    exact ih
  | case3 offset c rest hc kind count hm body ih =>
    rw [scanFrom_token (by simpa using hc) hm, Nat.add_right_comm]
    exact .cons ⟨⟨rfl, rfl⟩, rfl⟩ ih

theorem scanFrom_eq_nil_iff {offset : Nat} {text : List Char} :
    scanFrom offset text = [] ↔ ∀ c ∈ text, isBlank c := by
  fun_induction scanFrom offset text with
  | case1 offset => exact ⟨fun _ => List.forall_mem_nil _, fun _ => rfl⟩
  | case2 offset c rest hc ih => rw [ih, List.forall_mem_cons, and_iff_right hc]
  | case3 offset c rest hc kind count hm body ih =>
    constructor
    · intro h
      cases h
    · intro h
      exact absurd (h c List.mem_cons_self) hc

end Token

/-- The place behind other characters of its line. -/
def Location.behind (left : List Char) (location : Location) : Location :=
  { location with
    column := location.column + left.length
    index := location.index + byteLength left }

def ParseError.behind (left : List Char) (error : ParseError) : ParseError :=
  { error with location := error.location.behind left }

namespace Location

theorem walk_column {line : List Char} (h : '\n' ∉ line) (offset row column more : Nat) :
    walk line offset row (column + more) =
      ((walk line offset row column).1, (walk line offset row column).2 + more) := by
  induction line generalizing offset column with
  | nil => rfl
  | cons c line ih =>
    rw [List.mem_cons, not_or] at h
    rw [walk, walk]
    split
    · rfl
    · rw [if_neg (Ne.symm h.1), if_neg (Ne.symm h.1), Nat.add_right_comm, ih h.2]

theorem of_behind {left right : List Char} (hl : '\n' ∉ left) (hr : '\n' ∉ right) (offset : Nat) :
    Location.of (String.ofList (left ++ right)) (byteLength left + offset) =
      (Location.of (String.ofList right) offset).behind left := by
  have hi : min (byteLength left + offset) (byteLength left + byteLength right) =
      min offset (byteLength right) + byteLength left := by omega
  simp only [Location.of, behind, String.toList_ofList, walk_unbroken hl, walk_column hr,
    byteLength_append]
  congr 1

end Location

/-- Refusals that agree are the same errors, but for what stands in front of the line's tokens. -/
theorem Refusal.Agree.locate {left right : List Char} {refusal other : Refusal}
    (h : refusal.Agree (Token.Later (byteLength left)) other) (hl : '\n' ∉ left)
    (hr : '\n' ∉ right) :
    refusal.locate (String.ofList (left ++ right)) 0 (byteLength (left ++ right)) =
      (other.locate (String.ofList right) 0 (byteLength right)).behind left := by
  have start {tokens others : List Token}
      (hs : List.Forall₂ (Token.Later (byteLength left)) tokens others) :
      (tokens.head?.getD (.endOfInput (byteLength (left ++ right)))).start =
        byteLength left + (others.head?.getD (.endOfInput (byteLength right))).start := by
    cases hs with
    | nil => exact byteLength_append left right
    | cons hk _ => exact hk.2.trans (Nat.add_comm _ _)
  have shown := Token.shown_head_alike (h.found.imp fun _ _ hk => hk.1)
    (byteLength (left ++ right)) (byteLength right)
  simp only [Refusal.locate, ParseError.behind, Nat.zero_add, start h.place, shown, h.issue,
    Location.of_behind hl hr]

/-! ### One assignment -/

namespace Assignment

open Formula

variable {directive : Directive} {tokens : List Token}

theorem readValue_formula (h : directive = .direction → keyword? tokens = none ∧ tokens ≠ []) :
    readValue directive tokens = ofTokens tokens := by
  unfold readValue
  split
  · next hd =>
    obtain ⟨hk, hn⟩ := h hd
    rw [hk, ofTokens, if_neg (by simpa using hn)]
  · rfl

theorem keyword_iff {value : Binary64} :
    keyword? tokens = some value ↔ ∃ token, tokens = [token] ∧ token.kind = .identifier ∧
      Directive.keywordValue? token.text = some value := by
  refine ⟨keyword_some, ?_⟩
  rintro ⟨token, rfl, hk, hv⟩
  rw [keyword?, if_pos hk, hv]

theorem keyword_alike {others : List Token} (h : List.Forall₂ Token.Alike tokens others) :
    keyword? tokens = keyword? others := by
  rcases h with _ | ⟨hk, _ | ⟨_, _⟩⟩
  · rfl
  · simp only [keyword?, hk.1, hk.2]
  · rfl

end Assignment

/-- The text is one name, which is a keyword for the direction. -/
def Directive.IsKeyword (text : String) (value : Binary64) : Prop :=
  ∃ token, Token.scan text = [token] ∧ token.kind = .identifier ∧
    (token.text, value) ∈ [("LeftDirection", Binary64.zero), ("RightDirection", Binary64.one)]

theorem Directive.keywordValue_iff {name : String} {value : Binary64} :
    keywordValue? name = some value ↔
      (name, value) ∈ [("LeftDirection", Binary64.zero), ("RightDirection", Binary64.one)] := by
  simp only [List.mem_cons, Prod.mk.injEq, List.not_mem_nil, or_false]
  unfold keywordValue?
  constructor
  · intro h
    split at h
    · next hn => exact .inl ⟨hn, (Option.some.inj h).symm⟩
    · split at h
      · next hn => exact .inr ⟨hn, (Option.some.inj h).symm⟩
      · cases h
  · rintro (⟨rfl, rfl⟩ | ⟨rfl, rfl⟩)
    · rfl
    · rfl

/-- A right side is a keyword if its tokens are one, wherever they stand. -/
theorem Directive.isKeyword_iff {right : String} {value : Binary64} (offset : Nat) :
    IsKeyword right value ↔
      Assignment.keyword? (Token.scanFrom offset right.toList) = some value := by
  rw [Assignment.keyword_alike (Token.scanFrom_alike right.toList offset 0),
    Assignment.keyword_iff, IsKeyword, Token.scan]
  simp only [keywordValue_iff]

namespace Program

open Token Formula

variable {directive : Directive} {left right : List Char}

/-- A left and a right side are one line, which is read from the tokens of the right side. -/
theorem parseDeclarations_sides (hl : directive.IsLeftSide left) (hr : Unbroken right) :
    parseDeclarations (String.ofList (left ++ right)) =
      match Assignment.readValue directive (scanFrom (byteLength left) right) with
      | .error refusal =>
        .error (refusal.locate (String.ofList (left ++ right)) 0 (byteLength (left ++ right)))
      | .ok value => .ok (value ++ [.directive directive]) := by
  have hu : Unbroken (left ++ right) := unbroken_append.mpr ⟨hl.unbroken, hr⟩
  obtain ⟨blanks, rest, hs, hb⟩ := hl.begins
  have hlines : lines (left ++ right) = [left ++ right] :=
    lines_unbroken hu (by rw [hs]; simp)
  have hcontent : withoutBreak (left ++ right) = left ++ right := by
    have h := withoutBreak_append hu (List.forall_mem_nil _)
    rwa [List.append_nil] at h
  have htrim : ∃ others, trim (left ++ right) = 's' :: others := by
    obtain ⟨others, ht⟩ := trim_cons (c := 's') (by decide) (rest ++ right)
    refine ⟨others, ?_⟩
    rw [← ht, trim, trim, hs, List.append_assoc, List.dropWhile_append_of_pos hb, List.cons_append]
  obtain ⟨others, htrim⟩ := htrim
  simp only [parseDeclarations, Assignment.parse, String.toList_ofList, hlines, Line.readFrom,
    Line.read, htrim, hcontent, Assignment.ofTokens?, hl.readTarget]
  cases Assignment.readValue directive (scanFrom (byteLength left) right) with
  | error refusal => rfl
  | ok value => simp [Except.map, Line.assignment?, Assignment.program]

/-- A right side that is no keyword, and not blank where it is for a direction, is a formula. -/
theorem parseDeclarations_formula (hl : directive.IsLeftSide left) (hr : Unbroken right)
    (hd : directive = .direction →
      Assignment.keyword? (scanFrom (byteLength left) right) = none ∧
        ¬ ∀ c ∈ right, isBlank c) :
    parseDeclarations (String.ofList (left ++ right)) =
      match parse (String.ofList right) with
      | .error error => .error (error.behind left)
      | .ok value => .ok (value ++ [.directive directive]) := by
  have hformula : Assignment.readValue directive (scanFrom (byteLength left) right) =
      ofTokens (scanFrom (byteLength left) right) :=
    Assignment.readValue_formula fun h => ⟨(hd h).1, fun hn => (hd h).2 (scanFrom_eq_nil_iff.mp hn)⟩
  have hlater := scanFrom_later right 0 (byteLength left)
  rw [Nat.zero_add] at hlater
  have hagree := ofTokens_agrees (fun _ _ h => h.1) hlater
  rw [parseDeclarations_sides hl hr, hformula, parse, scan, String.toList_ofList,
    byteLength_ofList]
  generalize ofTokens (scanFrom (byteLength left) right) = read at hagree
  generalize ofTokens (scanFrom 0 right) = other at hagree
  cases hagree with
  | ok => rfl
  | error h =>
    exact congrArg Except.error (h.locate (fun hc => (hl.unbroken _ hc).2 rfl)
      fun hc => (hr _ hc).2 rfl)

/-- A keyword for a direction is its value. -/
theorem parseDeclarations_keyword (hl : Directive.direction.IsLeftSide left) (hr : Unbroken right)
    {value : Binary64} (hv : Directive.IsKeyword (String.ofList right) value) :
    parseDeclarations (String.ofList (left ++ right)) =
      .ok [.constant value, .directive .direction] := by
  have hk := (Directive.isKeyword_iff (byteLength left)).mp hv
  rw [String.toList_ofList] at hk
  have hread : Assignment.readValue .direction (scanFrom (byteLength left) right) =
      .ok [.constant value] := by
    rw [Assignment.readValue, if_pos rfl, hk]
  rw [parseDeclarations_sides hl hr, hread]
  rfl

theorem parse_blank (hb : ∀ c ∈ right, isBlank c) :
    parse (String.ofList right) = .error
      ((Refusal.here .missingExpression []).locate (String.ofList right) 0 (byteLength right)) := by
  rw [parse, scan, String.toList_ofList, scanFrom_eq_nil_iff.mpr hb, byteLength_ofList]
  rfl

/-- Where nothing is given for a direction an operand is missing. -/
theorem parseDeclarations_blank (hl : Directive.direction.IsLeftSide left) (hr : Unbroken right)
    (hb : ∀ c ∈ right, isBlank c) {error : ParseError}
    (he : parse (String.ofList right) = .error error) :
    error.issue = .missingExpression ∧
      parseDeclarations (String.ofList (left ++ right)) =
        .error ({ error with issue := .missingOperand }.behind left) := by
  obtain rfl := Except.error.inj ((parse_blank hb).symm.trans he)
  have hvalue : Assignment.readValue .direction [] = .error (.here .missingOperand []) := by
    decide +kernel
  have hagree : (Refusal.here .missingOperand []).Agree (Later (byteLength left))
      (.here .missingOperand []) := Refusal.agree_here .nil _
  rw [parseDeclarations_sides hl hr, scanFrom_eq_nil_iff.mpr hb, hvalue]
  exact ⟨rfl, congrArg Except.error (hagree.locate (fun hc => (hl.unbroken _ hc).2 rfl)
    fun hc => (hr _ hc).2 rfl)⟩

end Program

/-- What stands right of the sign of an assignment is read as a formula: the same program, which is
then written, or the same error, which stands as many bytes and characters farther on as the left
side has. A direction may be a keyword instead, and where nothing is given for it the error is that
an operand is missing. -/
theorem right_sides_are_formulas {directive : Directive} {left right : String}
    (hl : directive.IsLeftSide left.toList) (hr : Unbroken right.toList) :
    (directive = .direction → ∀ value, Directive.IsKeyword right value →
      Program.parseDeclarations (left ++ right) =
        .ok [.constant value, .directive .direction]) ∧
    ((directive = .direction → ∀ value, ¬ Directive.IsKeyword right value) →
      (∀ value, Program.parseDeclarations (left ++ right) =
          .ok (value ++ [.directive directive]) ↔ Program.parse right = .ok value) ∧
      ∀ error, Program.parse right = .error error →
        (¬ (directive = .direction ∧ ∀ c ∈ right.toList, isBlank c) →
          Program.parseDeclarations (left ++ right) = .error (error.behind left.toList)) ∧
        (directive = .direction → (∀ c ∈ right.toList, isBlank c) →
          error.issue = .missingExpression ∧
            Program.parseDeclarations (left ++ right) =
              .error ({ error with issue := .missingOperand }.behind left.toList))) := by
  have htext : left ++ right = String.ofList (left.toList ++ right.toList) := by
    rw [String.ofList_append, String.ofList_toList, String.ofList_toList]
  have hright := String.ofList_toList (s := right)
  rw [htext]
  constructor
  · rintro rfl value hv
    exact Program.parseDeclarations_keyword hl hr (by rwa [hright])
  · intro hn
    have nokeyword (hd : directive = .direction) :
        Assignment.keyword? (Token.scanFrom (byteLength left.toList) right.toList) = none :=
      Option.eq_none_iff_forall_ne_some.mpr fun value hv =>
        hn hd value ((Directive.isKeyword_iff _).mpr hv)
    by_cases hb : directive = .direction ∧ ∀ c ∈ right.toList, isBlank c
    · obtain ⟨rfl, hb⟩ := hb
      have hparse := Program.parse_blank hb
      have hblank := (Program.parseDeclarations_blank hl hr hb hparse).2
      rw [hright] at hparse
      refine ⟨fun value => ?_, fun error he => ⟨fun h => absurd ⟨rfl, hb⟩ h, fun _ _ => ?_⟩⟩
      · rw [hblank, hparse]
        simp
      · exact Program.parseDeclarations_blank hl hr hb (by rwa [hright])
    · have hformula := Program.parseDeclarations_formula hl hr fun hd =>
        ⟨nokeyword hd, fun h => hb ⟨hd, h⟩⟩
      rw [hright] at hformula
      rw [hformula]
      refine ⟨fun value => ?_, fun error he => ⟨fun _ => ?_, fun hd h => absurd ⟨hd, h⟩ hb⟩⟩
      · cases Program.parse right with
        | error error => simp
        | ok found => simp
      · rw [he]

/-- A keyword, a formula, an error of one and nothing, right of a sign. -/
theorem direction_takes_keyword_or_formula :
    Program.parseDeclarations ("\tsprite .Direction =" ++ " RightDirection") =
        .ok [.constant .one, .directive .direction] ∧
      Program.parseDeclarations ("\tsprite .Direction =" ++ "-π") =
        .ok ([.constant .pi, .negative] ++ [.directive .direction]) ∧
      Program.parseDeclarations ("\tsprite .Direction =" ++ " (π") =
        .error (ParseError.behind "\tsprite .Direction =".toList
          ⟨⟨1, 2, 1⟩, "<end of input>", .unclosedParenthesis⟩) ∧
      Program.parseDeclarations ("\tsprite .Direction =" ++ " ") =
        .error (ParseError.behind "\tsprite .Direction =".toList
          ⟨⟨1, 2, 1⟩, "<end of input>", .missingOperand⟩) := by
  have one (c : Char) (hb : isBlank c) : ∀ d ∈ [c], isBlank d := List.forall_mem_singleton.mpr hb
  have words : Token.Spaced (Directive.words .direction)
      (['\t'] ++ ("sprite".toList ++ ([' '] ++ (".".toList ++ ([] ++ ("Direction".toList ++
        ([' '] ++ ("=".toList ++ [])))))))) :=
    .cons (one '\t' (by decide)) (by decide) (.cons (one ' ' (by decide)) (by decide)
      (.cons (List.forall_mem_nil _) (by decide)
        (.cons (one ' ' (by decide)) (by decide) .nil)))
  have hleft : "\tsprite .Direction =".toList =
      ['\t'] ++ ("sprite".toList ++ ([' '] ++ (".".toList ++ ([] ++ ("Direction".toList ++
        ([' '] ++ ("=".toList ++ []))))))) := by
    decide +kernel
  have hl : Directive.direction.IsLeftSide "\tsprite .Direction =".toList :=
    ⟨hleft ▸ words, nofun⟩
  have formula {right : String} (h : Assignment.keyword? (Token.scan right) = none) :
      Directive.direction = .direction → ∀ value, ¬ Directive.IsKeyword right value := by
    intro _ value hv
    rw [Token.scan, (Directive.isKeyword_iff 0).mp hv] at h
    cases h
  refine ⟨?_, ?_, ?_, ?_⟩
  · exact (right_sides_are_formulas hl (by decide +kernel)).1 rfl .one
      ((Directive.isKeyword_iff 0).mpr (by decide +kernel))
  · exact (((right_sides_are_formulas hl (by decide +kernel)).2
      (formula (by decide +kernel))).1 _).mpr (by decide +kernel)
  · exact (((right_sides_are_formulas hl (by decide +kernel)).2 (formula (by decide +kernel))).2 _
      (by decide +kernel)).1 fun h => absurd (h.2 '(' (by decide)) (by decide)
  · have blank : ∀ c ∈ " ".toList, isBlank c := one ' ' (by decide)
    exact (((right_sides_are_formulas hl (by decide +kernel)).2 (formula (by decide +kernel))).2
      ⟨⟨1, 2, 1⟩, "<end of input>", .missingExpression⟩ (by decide +kernel)).2 rfl blank |>.2

end SpriteFormula
