import SpriteFormula.Proofs.RightSides

/-!
How a formula is laid out does not matter: texts with the same tokens are read alike, and each text
has the tokens of the one that separates them by single spaces.
-/

namespace SpriteFormula

namespace Token

open Text

/-! ### Tokens in front of a space -/

/-- A token ends where it does in front of another text that starts with a blank. If nothing follows
it, nothing may follow it there, for a string that does not end would go on. -/
theorem measure_blank {c : Char} {body rest other : List Char} {kind : TokenKind}
    (h : measure c (body ++ rest) = (kind, body.length)) (hr : rest = [] → other = [])
    (ho : ∀ d ∈ other.head?, isBlank d) :
    measure c (body ++ other) = (kind, body.length) := by
  by_cases hs : kind = .string
  · subst hs
    obtain ⟨inner, ht, hi⟩ := shaped_of_measure h 0
    rw [String.toList_ofList, List.take_left, List.cons_append, List.cons.injEq] at ht
    obtain ⟨rfl, rfl⟩ := ht
    rw [List.append_assoc, List.singleton_append, measure_string hi, List.length_append]
    rfl
  by_cases hi : kind = .invalid
  · subst hi
    generalize hl : body.length = count at h
    cases measured h with
    | sign hm => exact measure_sign hm _
    | unended =>
      obtain rfl : rest = [] := by
        rw [List.length_append] at hl
        exact List.length_eq_zero_iff.mp (by omega)
      rw [hr rfl, h]
    | stray hm => exact hm _
  · exact measure_seam h hs hi (.inr ho)

/-- The tokens of a text with one space between each two of them. -/
def spaced (text : String) : String := " ".intercalate ((scan text).map Token.text)

theorem scanFrom_spaced (offset : Nat) (text : List Char) (other : Nat) :
    List.Forall₂ Alike (scanFrom offset text)
      (scanFrom other ([' '].intercalate ((scanFrom offset text).map (·.text.toList)))) := by
  fun_induction scanFrom offset text generalizing other with
  | case1 offset =>
    rw [List.map_nil, List.intercalate_nil, scanFrom_nil]
    exact .nil
  | case2 offset c rest hb ih => exact ih other
  | case3 offset c rest hb kind count hm body ih =>
    have first {tail : List Char} (hr : rest.drop count = [] → tail = [])
        (ht : ∀ d ∈ tail.head?, isBlank d) : scanFrom other (body ++ tail) =
          ⟨kind, String.ofList body, other⟩ :: scanFrom (other + byteLength body) tail :=
      scanFrom_body (by simpa using hb) (measure_blank (measure_take_drop hm) hr ht) other
    generalize hs : scanFrom (offset + byteLength body) (rest.drop count) = tokens at ih
    rw [List.map_cons, String.toList_ofList]
    cases tokens with
    | nil =>
      rw [List.map_nil, List.intercalate_singleton, ← List.append_nil body,
        first (fun _ => rfl) (by simp), scanFrom_nil]
      exact .cons ⟨rfl, congrArg String.ofList (List.append_nil body)⟩ .nil
    | cons token tokens =>
      have more : rest.drop count ≠ [] := by
        intro hd
        rw [hd, scanFrom_nil] at hs
        cases hs
      have space : isBlank ' ' := by decide
      rw [List.map_cons, List.intercalate_cons_cons, List.append_assoc, List.singleton_append,
        first (fun hd => absurd hd more) (by rintro d ⟨⟩; exact space), scanFrom_blank space]
      exact .cons ⟨rfl, rfl⟩ (ih _)

theorem tokenize_alike_iff {text other : String} :
    List.Forall₂ Alike (tokenize text) (tokenize other) ↔
      List.Forall₂ Alike (scan text) (scan other) := by
  constructor
  · intro h
    have same : (scan text).length = (scan other).length := by
      simpa [tokenize] using h.length_eq
    have front := List.forall₂_take (scan text).length h
    rwa [tokenize, List.take_left, same, tokenize, List.take_left] at front
  · intro h
    exact List.rel_append h (.cons ⟨rfl, rfl⟩ .nil)

theorem scan_spaced (text : String) :
    List.Forall₂ Alike (scan text) (scan (spaced text)) := by
  have h := scanFrom_spaced 0 text.toList 0
  rw [scan, scan, spaced, String.toList_intercalate, List.map_map]
  exact h

end Token

/-- The same program, or errors that name the same token and say the same. -/
inductive ReadAlike : Except ParseError Program → Except ParseError Program → Prop where
  | ok {program} : ReadAlike (.ok program) (.ok program)
  | error {error other : ParseError} : error.token = other.token → error.content = other.content →
      ReadAlike (.error error) (.error other)

namespace Program

open Token

theorem parse_alike {text other : String} (h : List.Forall₂ Alike (scan text) (scan other)) :
    ReadAlike (parse text) (parse other) := by
  have hagree := Formula.ofTokens_agrees (fun _ _ => id) h
  unfold parse
  generalize Formula.ofTokens (scan text) = read at hagree
  generalize Formula.ofTokens (scan other) = found at hagree
  cases hagree with
  | ok => exact .ok
  | @error refusal found h =>
    have shown := shown_head_alike h.found text.utf8ByteSize other.utf8ByteSize
    exact .error shown (congrArg₂ Issue.message h.issue shown)

end Program

/-- Texts with tokens of the same kinds and texts are read as the same program, or refused for the
same reason at the same token. So a text is read as its tokens with single spaces between them
are, which are the same tokens. -/
theorem layout_does_not_matter (text : String) :
    (∀ other, List.Forall₂ Token.Alike (Token.tokenize text) (Token.tokenize other) →
      ReadAlike (Program.parse text) (Program.parse other)) ∧
    List.Forall₂ Token.Alike (Token.tokenize text) (Token.tokenize (Token.spaced text)) ∧
    ReadAlike (Program.parse text) (Program.parse (Token.spaced text)) :=
  ⟨fun _ h => Program.parse_alike (Token.tokenize_alike_iff.mp h),
    Token.tokenize_alike_iff.mpr (Token.scan_spaced text),
    Program.parse_alike (Token.scan_spaced text)⟩

/-- Both texts are refused at their point, wherever it stands, and in the text with single spaces
the blanks of the string that does not end are as many as before. -/
theorem spaces_move_no_refusal :
    let text := "2π+.$\"a  b"
    let other := "\t2 π +\n. $ \"a  b"
    List.Forall₂ Token.Alike (Token.tokenize text) (Token.tokenize other) ∧
    ReadAlike (Program.parse text) (Program.parse other) ∧
    Program.parse text = .error ⟨⟨1, 4, 4⟩, ".", .strayToken⟩ ∧
    Program.parse other = .error ⟨⟨2, 1, 8⟩, ".", .strayToken⟩ ∧
    Token.spaced text = "2 π + . $ \"a  b" ∧
    ReadAlike (Program.parse text) (Program.parse "2 π + . $ \"a  b") := by
  intro text other
  have tokens : Token.tokenize text =
      [⟨.number, "2", 0⟩, ⟨.identifier, "π", 1⟩, ⟨.plus, "+", 3⟩, ⟨.period, ".", 4⟩,
        ⟨.invalid, "$", 5⟩, ⟨.invalid, "\"a  b", 6⟩, .endOfInput 11] := by decide +kernel
  have others : Token.tokenize other =
      [⟨.number, "2", 1⟩, ⟨.identifier, "π", 3⟩, ⟨.plus, "+", 6⟩, ⟨.period, ".", 8⟩,
        ⟨.invalid, "$", 10⟩, ⟨.invalid, "\"a  b", 12⟩, .endOfInput 17] := by decide +kernel
  have same : List.Forall₂ Token.Alike (Token.tokenize text) (Token.tokenize other) := by
    rw [tokens, others]
    simp [Token.Alike, Token.endOfInput]
  have spaced : Token.spaced text = "2 π + . $ \"a  b" := by decide +kernel
  obtain ⟨alike, -, spacedAlike⟩ := layout_does_not_matter text
  rw [spaced] at spacedAlike
  exact ⟨same, alike other same, by decide +kernel, by decide +kernel, spaced, spacedAlike⟩

end SpriteFormula
