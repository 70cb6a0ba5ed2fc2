import SpriteFormula.Proofs.LineLocality
import SpriteFormula.Proofs.RefusedFormulas
import SpriteFormula.Proofs.TokenCuts

/-!
Errors point where they say. The place of an error is the start of a token of the formula or line,
or its end, and what is shown is the token that starts there. A parenthesis that is not closed is
the one exception: the error points at it, and shows the token found in place of its end.
-/

namespace SpriteFormula

open Text

/-! ### Shown tokens -/

namespace Token

/-- What is shown at a place of a text, given by what stands in front of it and behind it: the token
that starts there, or a mark where nothing is left. -/
inductive ShownAt : List Char → List Char → String → Prop where
  | token {before c rest token} : isBlank c = false → token ∈ scanFrom 0 (before ++ c :: rest) →
      token.start = byteLength before → token.text.toList <+: c :: rest →
      ShownAt before (c :: rest) token.text
  | endOfInput {before} : ShownAt before [] "<end of input>"

theorem measure_ne_endOfInput {c : Char} {rest : List Char} {kind : TokenKind} {count : Nat}
    (h : measure c rest = (kind, count)) : kind ≠ .endOfInput := by
  rintro rfl
  rcases measure_known h nofun nofun with ⟨hm, _⟩ | ⟨hk, _⟩ | ⟨hk, _⟩ | ⟨hk, _⟩
  · have all : ∀ sign ∈ signs, sign.2 ≠ .endOfInput := by decide
    exact all _ hm rfl
  all_goals cases hk

/-- An open parenthesis is one character. -/
theorem scanFrom_leftParen {offset : Nat} {c : Char} {rest : List Char} {opening : Token}
    {inside : List Token} (hb : isBlank c = false)
    (h : scanFrom offset (c :: rest) = opening :: inside) (hk : opening.kind = .leftParen) :
    c = '(' ∧ opening.text = "(" ∧ inside = scanFrom (offset + byteLength ['(']) rest := by
  rcases hm : measure c rest with ⟨kind, count⟩
  rw [scanFrom_token hb hm] at h
  cases h
  change kind = .leftParen at hk
  rw [hk] at hm
  rcases measure_known hm nofun nofun with ⟨hs, rfl⟩ | ⟨hk, _⟩ | ⟨hk, _⟩ | ⟨hk, _⟩
  · obtain rfl : c = '(' := by
      have all : ∀ sign ∈ signs, sign.2 = .leftParen → sign.1 = '(' := by decide
      exact all _ hs rfl
    exact ⟨rfl, rfl, rfl⟩
  all_goals cases hk

theorem Cut.shownAt {before after : List Char} {front : List Token} (h : Cut 0 before after front)
    (length : Nat) :
    ShownAt before after
      ((scanFrom (byteLength before) after).head?.getD (.endOfInput length)).shown := by
  cases after with
  | nil =>
    rw [scanFrom_nil]
    exact .endOfInput
  | cons c rest =>
    have hb := h.start c rfl
    rcases hm : measure c rest with ⟨kind, count⟩
    have whole := h.scanFrom_append
    rw [Nat.zero_add, scanFrom_token hb hm] at whole
    rw [scanFrom_token hb hm, List.head?_cons, Option.getD_some, shown,
      if_neg (measure_ne_endOfInput hm)]
    refine .token hb (whole ▸ List.mem_append_right _ List.mem_cons_self) rfl ?_
    rw [String.toList_ofList]
    exact List.cons_prefix_cons.mpr ⟨rfl, List.take_prefix _ _⟩

end Token

/-! ### Errors -/

open Token Grammar Formula

/-- An error points at a place of a piece of a text. The piece stands behind the characters `above`
and is divided by the place. Lines and columns count the characters in front. -/
structure ParseError.PointsAt (error : ParseError) (above before after : List Char) : Prop where
  line : error.location.line = 1 + (above ++ before).count '\n'
  column : error.location.column = 1 + (lastLine (above ++ before)).length
  index : error.location.index = byteLength (above ++ before)
  token : error.issue ≠ .unclosedParenthesis → ShownAt before after error.token
  /-- Behind the parenthesis stands a formula, which goes on with nothing of what is found. -/
  unclosed : error.issue = .unclosedParenthesis → ShownAt before after "(" ∧
    ∃ inside rest, after = '(' :: (inside ++ rest) ∧
      (∃ program, Program.parse (String.ofList inside) = .ok program) ∧
      ShownAt (before ++ '(' :: inside) rest error.token ∧
      continuation? (scanFrom (byteLength (before ++ '(' :: inside)) rest) = none ∧
      startsWith .rightParen (scanFrom (byteLength (before ++ '(' :: inside)) rest) = false

/-- The tokens of a formula in front of a cut are read as it from their own text. -/
theorem Grammar.Derives.parse_cut {offset : Nat} {before after : List Char} {front : List Token}
    {tree : Expr} (hc : Cut offset before after front)
    (h : Derives .sum (scanFrom offset (before ++ after)) tree
      (scanFrom (offset + byteLength before) after)) :
    Program.parse (String.ofList before) = .ok tree.postfixOrder := by
  rw [hc.scanFrom_append] at h
  obtain ⟨used, hu, uses⟩ := h.uses
  obtain ⟨same, hs, _, hd⟩ := h.split
  obtain rfl := List.append_cancel_right hu
  obtain rfl := List.append_cancel_right hs
  have alone := @Cut.scanFrom_other _ _ _ _ hc uses.whole [] nofun
  rw [List.append_nil, scanFrom_nil, List.append_nil] at alone
  have whole := hd [] fun _ => nofun
  rw [List.append_nil, ← alone] at whole
  obtain ⟨left, hl, hread⟩ := whole.alike (scanFrom_alike before offset 0)
  cases hl
  rw [Program.parse_ok_iff, scan, String.toList_ofList]
  exact ⟨tree, hread, rfl⟩

/-- Behind a parenthesis at a cut the text is cut again where the formula in it ends. -/
theorem Token.Cut.parentheses {before after : List Char} {front inside found : List Token}
    {opening : Token} {tree : Expr} (hc : Cut 0 before after front)
    (hp : scanFrom (byteLength before) after = opening :: inside)
    (ho : opening.kind = .leftParen) (hd : Derives .sum inside tree found) :
    ∃ between rest whole, after = '(' :: (between ++ rest) ∧ opening.shown = "(" ∧
      Program.parse (String.ofList between) = .ok tree.postfixOrder ∧
      Cut 0 (before ++ '(' :: between) rest whole ∧
      found = scanFrom (byteLength (before ++ '(' :: between)) rest := by
  cases after with
  | nil =>
    rw [scanFrom_nil] at hp
    cases hp
  | cons c rest =>
    obtain ⟨rfl, htext, rfl⟩ := scanFrom_leftParen (hc.start c rfl) hp ho
    obtain ⟨_, hfound, _⟩ := hd.split
    obtain ⟨between, rest, more, rfl, hm, hf⟩ := exists_cut (hfound ▸ List.suffix_append _ found)
    have opened : Cut (0 + byteLength before) (['('] ++ between) rest
        (⟨.leftParen, String.ofList ['('], 0 + byteLength before⟩ :: more) := by
      rw [Nat.zero_add]
      exact @Cut.token _ '(' [] _ _ _ _ (by decide) rfl hm
    have hlength : byteLength before + byteLength ['('] + byteLength between =
        byteLength (before ++ '(' :: between) := by
      rw [byteLength_append, byteLength, byteLength, byteLength, Nat.add_zero, Nat.add_assoc]
    refine ⟨between, rest, _, rfl, ?_, (hf ▸ hd).parse_cut hm, hc.trans opened, ?_⟩
    · rw [Token.shown, ho, if_neg (by decide), htext]
    · rw [hf, hlength]

/-- The error that a refusal of the tokens at the end of a piece of a text is shown as. -/
theorem Formula.Refused.points_at {content : List Char} {tokens : List Token} {refusal : Refusal}
    (h : Refused .sum tokens refusal) (hs : tokens <:+ scanFrom 0 content)
    (above below : List Char) :
    ∃ before after, content = before ++ after ∧
      (refusal.locate (String.ofList (above ++ content ++ below)) (byteLength above)
        (byteLength content)).PointsAt above before after := by
  obtain ⟨used, ht, _⟩ := h.front
  have hplace : refusal.place <:+ scanFrom 0 content :=
    (ht ▸ List.suffix_append used refusal.place : refusal.place <:+ tokens).trans hs
  obtain ⟨before, after, front, rfl, hc, hp, hl⟩ := Refusal.exists_cut hplace above below
  have shown := hc.shownAt (byteLength (before ++ after))
  rw [← hp] at shown
  refine ⟨before, after, rfl, congrArg Location.line hl, congrArg Location.column hl,
    congrArg Location.index hl, fun hi => ?_, fun hi => ?_⟩
  · cases h.points with
    | here _ => exact shown
    | unclosed _ _ _ _ => exact absurd rfl hi
  · cases h.points with
    | here hn => exact absurd hi hn
    | @unclosed opening inside tree found ho hd hnone hclosing =>
      obtain ⟨between, rest, whole, rfl, hopening, hread, hw, hf⟩ :=
        hc.parentheses hp.symm ho hd
      have found_shown := hw.shownAt (byteLength (before ++ '(' :: (between ++ rest)))
      rw [← hf] at found_shown
      rw [List.head?_cons, Option.getD_some, hopening] at shown
      exact ⟨shown, between, rest, rfl, ⟨_, hread⟩, found_shown, hf ▸ hnone, hf ▸ hclosing⟩

/-! ### Lines -/

/-- A line that cannot be read assigns to a part of the sprite what is refused. -/
theorem Line.read_refused {line : List Char} {refusal : Refusal}
    (h : Line.read line = .error refusal) :
    ∃ directive value, Directive.readTarget? (tokens line) = some (directive, value) ∧
      Refused .sum value refusal := by
  unfold Line.read at h
  dsimp only at h
  split at h
  · cases h
  · split at h
    · next found hf =>
      cases h
      unfold Assignment.ofTokens? at hf
      split at hf
      · cases hf
      · next directive value ht =>
        split at hf
        · next issue hv =>
          cases hf
          exact ⟨directive, value, ht, Assignment.readValue_refused hv⟩
        · cases hf
    · cases h
    · cases h

/-- An error is that of the first line that cannot be read. -/
theorem Line.readFrom_error {text : String} {offset : Nat} {lines : List (List Char)}
    {error : ParseError} (h : Line.readFrom text offset lines = .error error) :
    ∃ above line below refusal, lines = above ++ line :: below ∧
      (∀ other ∈ above, ∃ result, Line.read other = .ok result) ∧
      Line.read line = .error refusal ∧
      error = refusal.locate text (offset + byteLength above.flatten)
        (byteLength (withoutBreak line)) := by
  induction lines generalizing offset with
  | nil => cases h
  | cons line rest ih =>
    rw [Line.readFrom] at h
    split at h
    · next refusal hr =>
      cases h
      exact ⟨[], line, rest, refusal, rfl, List.forall_mem_nil _, hr, rfl⟩
    · next first hf =>
      split at h
      · next found hr =>
        cases h
        obtain ⟨above, broken, below, refusal, rfl, ha, hb, he⟩ := ih hr
        refine ⟨line :: above, broken, below, refusal, rfl,
          List.forall_mem_cons.mpr ⟨⟨first, hf⟩, ha⟩, hb, ?_⟩
        rw [he, List.flatten_cons, byteLength_append, Nat.add_assoc]
      · cases h

theorem Program.parse_points {text : String} {error : ParseError}
    (h : Program.parse text = .error error) :
    ∃ before after, text.toList = before ++ after ∧ error.PointsAt [] before after := by
  unfold Program.parse at h
  split at h
  · next refusal hr =>
    cases h
    obtain ⟨before, after, ht, hp⟩ :=
      (ofTokens_refused hr).points_at (List.suffix_refl (scanFrom 0 text.toList)) [] []
    rw [List.nil_append, List.append_nil, String.ofList_toList, byteLength_toList] at hp
    exact ⟨before, after, ht, hp⟩
  · cases h

theorem Program.readFrom_of_error {text : String} {error : ParseError}
    (h : Program.parseDeclarations text = .error error) :
    Line.readFrom text 0 (lines text.toList) = .error error := by
  unfold Program.parseDeclarations Assignment.parse at h
  cases hr : Line.readFrom text 0 (lines text.toList) with
  | error found =>
    rw [hr] at h
    cases h
    rfl
  | ok reads =>
    rw [hr] at h
    cases h

/-- Behind the lines above it stands what a line has in front of its break. -/
theorem Text.exists_behind_line {text line : List Char} {above below : List (List Char)}
    (h : lines text = above ++ line :: below) :
    ∃ rest, text = above.flatten ++ withoutBreak line ++ rest := by
  obtain ⟨ending, he, _⟩ := exists_dropEndWhile (fun c => c = '\r' || c = '\n') line
  refine ⟨ending ++ below.flatten, ?_⟩
  rw [← flatten_lines text, h, List.flatten_append, List.flatten_cons, List.append_assoc,
    ← List.append_assoc (withoutBreak line)]
  exact congrArg (fun piece => above.flatten ++ (piece ++ below.flatten)) he

theorem Program.parseDeclarations_points {text : String} {error : ParseError}
    (h : Program.parseDeclarations text = .error error) :
    ∃ above line below before after, lines text.toList = above ++ line :: below ∧
      (∀ other ∈ above, ∃ result, Line.read other = .ok result) ∧
      withoutBreak line = before ++ after ∧ above.flatten ++ before <+: text.toList ∧
      error.PointsAt above.flatten before after := by
  obtain ⟨above, line, below, refusal, hl, ha, hline, rfl⟩ :=
    Line.readFrom_error (Program.readFrom_of_error h)
  obtain ⟨directive, value, ht, hv⟩ := Line.read_refused hline
  obtain ⟨rest, htext⟩ := Text.exists_behind_line hl
  have within : value <:+ scanFrom 0 (withoutBreak line) := (Directive.readTarget_some ht).1
  obtain ⟨before, after, hc, hp⟩ := hv.points_at within above.flatten rest
  rw [← htext, String.ofList_toList] at hp
  rw [Nat.zero_add]
  refine ⟨above, line, below, before, after, hl, ha, hc, ?_, hp⟩
  rw [htext, hc, ← List.append_assoc above.flatten, List.append_assoc]
  exact List.prefix_append _ _

/-- Every error of a formula or of declarations points at the start of a token of the formula or of
the line that is read, or at its end, by bytes, lines and columns of the whole text, and shows what
is found there. Only a parenthesis that is not closed is itself pointed at, where what is shown is
the token found instead of its end. -/
theorem errors_point_where_they_say (text : String) (error : ParseError) :
    (Program.parse text = .error error →
      ∃ before after, text.toList = before ++ after ∧ error.PointsAt [] before after) ∧
    (Program.parseDeclarations text = .error error →
      ∃ above line below before after, lines text.toList = above ++ line :: below ∧
        (∀ other ∈ above, ∃ result, Line.read other = .ok result) ∧
        withoutBreak line = before ++ after ∧ above.flatten ++ before <+: text.toList ∧
        error.PointsAt above.flatten before after) :=
  ⟨Program.parse_points, Program.parseDeclarations_points⟩

/-- A parenthesis that is not closed, and arguments that are too few behind letters of two bytes. -/
theorem unclosed_parenthesis_is_pointed_at :
    (Program.parse "2 * (π\n+ 1 = 3" = .error ⟨⟨1, 5, 4⟩, "=", .unclosedParenthesis⟩ ∧
      ∃ before after, "2 * (π\n+ 1 = 3".toList = before ++ after ∧
        (⟨⟨1, 5, 4⟩, "=", .unclosedParenthesis⟩ : ParseError).PointsAt [] before after) ∧
    (Program.parseDeclarations "é\r\nsprite.Animation = max(π )\r\n" =
        .error ⟨⟨2, 26, 30⟩, ")", .wrongArgumentCount (.extremum .max) "max"⟩ ∧
      ∃ above line below before after,
        lines "é\r\nsprite.Animation = max(π )\r\n".toList = above ++ line :: below ∧
        (∀ other ∈ above, ∃ result, Line.read other = .ok result) ∧
        withoutBreak line = before ++ after ∧
        above.flatten ++ before <+: "é\r\nsprite.Animation = max(π )\r\n".toList ∧
        (⟨⟨2, 26, 30⟩, ")", .wrongArgumentCount (.extremum .max) "max"⟩ : ParseError).PointsAt
          above.flatten before after) := by
  have hp : Program.parse "2 * (π\n+ 1 = 3" = .error ⟨⟨1, 5, 4⟩, "=", .unclosedParenthesis⟩ := by
    decide +kernel
  have hd : Program.parseDeclarations "é\r\nsprite.Animation = max(π )\r\n" =
      .error ⟨⟨2, 26, 30⟩, ")", .wrongArgumentCount (.extremum .max) "max"⟩ := by
    decide +kernel
  exact ⟨⟨hp, (errors_point_where_they_say _ _).1 hp⟩, hd, (errors_point_where_they_say _ _).2 hd⟩

end SpriteFormula
