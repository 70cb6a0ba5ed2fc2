import Mathlib.Data.List.TakeDrop
import Mathlib.Logic.Basic
import SpriteFormula.Proofs.DecimalRoundTrip
import SpriteFormula.Token.Scan

/-!
Where a text may be cut without changing its tokens: a token ends where the next character cannot
continue it, whatever offset it stands at and whatever follows.
-/

namespace SpriteFormula

/-! ### Classes of characters -/

namespace Text

theorem CodeRanges.exists_of_contains {ranges : CodeRanges} {code : Nat}
    (h : ranges.contains code) : ∃ range ∈ ranges, range.1 ≤ code ∧ code ≤ range.2 := by
  induction ranges with
  | nil => cases h
  | cons range rest ih =>
    rw [contains] at h
    split at h
    · cases h
    · next hf =>
      split at h
      · next hl => exact ⟨range, List.mem_cons_self, by omega, hl⟩
      · obtain ⟨found, hm, hc⟩ := ih h
        exact ⟨found, List.mem_cons_of_mem _ hm, hc⟩

/-- A class and a class whose few characters are none of it are apart. -/
theorem CodeRanges.not_contains_of_contains {ranges others : CodeRanges} {code : Nat}
    (hd : ∀ range ∈ ranges, ∀ n ∈ List.range' range.1 (range.2 + 1 - range.1),
      others.contains n = false) (h : ranges.contains code) : others.contains code = false := by
  obtain ⟨range, hm, hl, hu⟩ := exists_of_contains h
  exact hd range hm code (by rw [List.mem_range'_1]; omega)

theorem not_alphabetic_of_blank {c : Char} (h : isBlank c) : isAlphabetic c = false :=
  CodeRanges.not_contains_of_contains (by decide +kernel) h

theorem not_alphabetic_of_digit {c : Char} (h : c.isDigit) : isAlphabetic c = false := by
  have hlt : c.toNat < 0x41 := by
    simp only [Char.isDigit, Bool.and_eq_true, decide_eq_true_eq] at h
    have := UInt32.le_iff_toNat_le.mp h.2
    exact Nat.lt_of_le_of_lt this (by decide)
  rw [isAlphabetic, alphabeticRanges, CodeRanges.contains, if_pos hlt]

end Text

namespace Token

open Text

/-- The characters that are tokens by themselves wherever they stand. -/
def signs : List (Char × TokenKind) :=
  [('+', .plus), ('-', .minus), ('*', .star), ('/', .slash), ('^', .caret), ('=', .assign),
    ('(', .leftParen), (')', .rightParen), ('[', .leftBracket), (']', .rightBracket),
    (',', .comma)]

theorem measure_sign {c : Char} {kind : TokenKind} (h : (c, kind) ∈ signs) (rest : List Char) :
    measure c rest = (kind, 0) := by
  simp only [signs, List.mem_cons, Prod.mk.injEq, List.not_mem_nil, or_false] at h
  rcases h with ⟨rfl, rfl⟩ | ⟨rfl, rfl⟩ | ⟨rfl, rfl⟩ | ⟨rfl, rfl⟩ | ⟨rfl, rfl⟩ | ⟨rfl, rfl⟩ |
    ⟨rfl, rfl⟩ | ⟨rfl, rfl⟩ | ⟨rfl, rfl⟩ | ⟨rfl, rfl⟩ | ⟨rfl, rfl⟩ <;> rfl

theorem kind_of_sign {c : Char} {kind : TokenKind} (h : (c, kind) ∈ signs) :
    kind ≠ .string ∧ kind ≠ .number ∧ kind ≠ .identifier := by
  have all : ∀ sign ∈ signs, sign.2 ≠ .string ∧ sign.2 ≠ .number ∧ sign.2 ≠ .identifier := by
    decide
  exact all _ h

theorem not_blank_of_sign {c : Char} {kind : TokenKind} (h : (c, kind) ∈ signs) :
    isBlank c = false := by
  have all : ∀ sign ∈ signs, isBlank sign.1 = false := by decide
  exact all _ h

theorem not_blank_of_nameStart {c : Char} (h : isNameStart c) : isBlank c = false := by
  cases hb : isBlank c with
  | false => rfl
  | true =>
    rw [isNameStart, not_alphabetic_of_blank hb, Bool.false_or, decide_eq_true_eq] at h
    rw [h] at hb
    exact absurd hb (by decide)

theorem ne_of_nameStart {c d : Char} (h : isNameStart c) (hd : isNameStart d = false) : c ≠ d := by
  rintro rfl
  rw [h] at hd
  cases hd

theorem not_digit_of_nameStart {c : Char} (h : isNameStart c) : c.isDigit = false := by
  cases hd : c.isDigit with
  | false => rfl
  | true =>
    rw [isNameStart, not_alphabetic_of_digit hd, Bool.false_or, decide_eq_true_eq] at h
    rw [h] at hd
    exact absurd hd (by decide)

theorem measure_name {c : Char} (h : isNameStart c) (rest : List Char) :
    measure c rest = (.identifier, (rest.takeWhile isNamePart).length) := by
  have ne (d : Char) (hd : isNameStart d = false) : c ≠ d := ne_of_nameStart h hd
  have hn : isNumberPart c = false := by
    simp [isNumberPart, not_digit_of_nameStart h, ne '.' (by decide)]
  simp [measure, ne '+' (by decide), ne '-' (by decide), ne '*' (by decide), ne '/' (by decide),
    ne '^' (by decide), ne '=' (by decide), ne '(' (by decide), ne ')' (by decide),
    ne '[' (by decide), ne ']' (by decide), ne ',' (by decide), ne '.' (by decide),
    ne '"' (by decide), hn, h]

theorem measure_digit {c : Char} (h : c.isDigit) (rest : List Char) :
    measure c rest = (.number, (rest.takeWhile isNumberPart).length) := by
  have ne (d : Char) (hd : d.isDigit = false) : c ≠ d := by
    rintro rfl
    rw [h] at hd
    cases hd
  simp [measure, ne '+' (by decide), ne '-' (by decide), ne '*' (by decide), ne '/' (by decide),
    ne '^' (by decide), ne '=' (by decide), ne '(' (by decide), ne ')' (by decide),
    ne '[' (by decide), ne ']' (by decide), ne ',' (by decide), ne '.' (by decide),
    ne '"' (by decide), isNumberPart, h]

theorem measure_period {rest : List Char} (h : ∀ c ∈ rest.head?, c.isDigit = false) :
    measure '.' rest = (.period, 0) := by
  have hd : rest.head?.any Char.isDigit = false := by
    cases rest with
    | nil => rfl
    | cons c rest => exact h c rfl
  simp [measure, hd]

theorem takeWhile_append_of_stop {p : Char → Bool} {body rest : List Char}
    (hb : ∀ c ∈ body, p c) (hr : ∀ c ∈ rest.head?, p c = false) :
    (body ++ rest).takeWhile p = body := by
  rw [List.takeWhile_append_of_pos hb]
  cases rest with
  | nil => rw [List.takeWhile_nil, List.append_nil]
  | cons c rest => rw [List.takeWhile_cons_of_neg (by simp [hr c rfl]), List.append_nil]

theorem measure_quote (rest : List Char) : measure '"' rest =
    if (rest.takeWhile (· ≠ '"')).length < rest.length then
      (.string, (rest.takeWhile (· ≠ '"')).length + 1)
    else (.invalid, rest.length) := rfl

theorem measure_string {body rest : List Char} (h : ∀ c ∈ body, c ≠ '"') :
    measure '"' (body ++ '"' :: rest) = (.string, body.length + 1) := by
  have hb : (body ++ '"' :: rest).takeWhile (· ≠ '"') = body :=
    takeWhile_append_of_stop (by simpa using h) (by rintro c ⟨⟩; simp)
  have hl : body.length < (body ++ '"' :: rest).length := by simp
  rw [measure_quote, hb, if_pos hl]

/-! ### One token -/

theorem scanFrom_nil (offset : Nat) : scanFrom offset [] = [] := by rw [scanFrom]

theorem scanFrom_blank {c : Char} (h : isBlank c) (offset : Nat) (rest : List Char) :
    scanFrom offset (c :: rest) = scanFrom (offset + c.utf8Size) rest := by
  rw [scanFrom, if_pos h]

theorem scanFrom_token {c : Char} (hb : isBlank c = false) {rest : List Char} {kind : TokenKind}
    {count : Nat} (hm : measure c rest = (kind, count)) (offset : Nat) :
    scanFrom offset (c :: rest) =
      ⟨kind, String.ofList (c :: rest.take count), offset⟩ ::
        scanFrom (offset + byteLength (c :: rest.take count)) (rest.drop count) := by
  rw [scanFrom, if_neg (by simp [hb])]
  simp only [hm]

/-- A character followed by others that all go with it, and by a rest that does not. -/
theorem scanFrom_body {c : Char} (hb : isBlank c = false) {body rest : List Char}
    {kind : TokenKind} (hm : measure c (body ++ rest) = (kind, body.length)) (offset : Nat) :
    scanFrom offset (c :: body ++ rest) =
      ⟨kind, String.ofList (c :: body), offset⟩ ::
        scanFrom (offset + byteLength (c :: body)) rest := by
  rw [List.cons_append, scanFrom_token hb hm, List.take_left, List.drop_left]

theorem scanFrom_sign (kind : TokenKind) {c : Char} (h : (c, kind) ∈ signs) (offset : Nat)
    (rest : List Char) :
    scanFrom offset (c :: rest) =
      ⟨kind, String.ofList [c], offset⟩ :: scanFrom (offset + byteLength [c]) rest :=
  scanFrom_token (not_blank_of_sign h) (measure_sign h rest) offset

/-- A name, as names are written in a text. -/
def isName : List Char → Bool
  | [] => false
  | first :: rest => isNameStart first && rest.all isNamePart

theorem isName_iff {text : List Char} :
    isName text ↔ ∃ first rest, text = first :: rest ∧ isNameStart first ∧
      ∀ c ∈ rest, isNamePart c := by
  cases text with
  | nil => simp [isName]
  | cons first rest => simp [isName]

/-- A name ends where no character continues it. -/
theorem scanFrom_name {name : List Char} (hn : isName name) {rest : List Char}
    (hr : ∀ c ∈ rest.head?, isNamePart c = false) (offset : Nat) :
    scanFrom offset (name ++ rest) =
      ⟨.identifier, String.ofList name, offset⟩ ::
        scanFrom (offset + byteLength name) rest := by
  obtain ⟨first, others, rfl, hf, ho⟩ := isName_iff.mp hn
  refine scanFrom_body (not_blank_of_nameStart hf) ?_ offset
  rw [measure_name hf, takeWhile_append_of_stop ho hr]

theorem not_mem_name {text : List Char} {c : Char} (h : isName text)
    (hs : isNameStart c = false) (hp : isNamePart c = false) : c ∉ text := by
  obtain ⟨first, rest, rfl, hf, hr⟩ := isName_iff.mp h
  intro hc
  rcases List.mem_cons.mp hc with rfl | hc
  · exact ne_of_nameStart hf hs rfl
  · rw [hr c hc] at hp
    cases hp

theorem not_mem_numeral {text : List Char} {c : Char} (h : Binary64.IsNumeral text)
    (hp : isNumberPart c = false) : c ∉ text := by
  obtain ⟨first, rest, rfl, hf, hr⟩ := h
  intro hc
  have part : isNumberPart c := by
    rcases List.mem_cons.mp hc with rfl | hc
    · simp [isNumberPart, hf]
    · simpa [isNumberPart] using hr c hc
  rw [part] at hp
  cases hp

theorem not_blank_of_digit {c : Char} (h : c.isDigit) : isBlank c = false := by
  cases hb : isBlank c with
  | false => rfl
  | true =>
    have all : ∀ code ∈ List.range' 48 10, blankRanges.contains code = false := by decide
    simp only [Char.isDigit, Bool.and_eq_true, decide_eq_true_eq] at h
    have hl := UInt32.le_iff_toNat_le.mp h.1
    have hu := UInt32.le_iff_toNat_le.mp h.2
    have hm : c.toNat ∈ List.range' 48 10 := List.mem_range'_1.mpr ⟨hl, Nat.lt_succ_of_le hu⟩
    rw [isBlank, all _ hm] at hb
    cases hb

/-- A number ends where no digit and no point follows. -/
theorem scanFrom_number {number : List Char} (hn : Binary64.IsNumeral number) {rest : List Char}
    (hr : ∀ c ∈ rest.head?, isNumberPart c = false) (offset : Nat) :
    scanFrom offset (number ++ rest) =
      ⟨.number, String.ofList number, offset⟩ ::
        scanFrom (offset + byteLength number) rest := by
  obtain ⟨first, others, rfl, hf, ho⟩ := hn
  refine scanFrom_body (not_blank_of_digit hf) ?_ offset
  have hp : ∀ c ∈ others, isNumberPart c := by
    intro c hc
    rcases ho c hc with hd | rfl
    · simp [isNumberPart, hd]
    · decide
  rw [measure_digit hf, takeWhile_append_of_stop hp hr]

theorem scanFrom_period {rest : List Char} (hr : ∀ c ∈ rest.head?, c.isDigit = false)
    (offset : Nat) :
    scanFrom offset ('.' :: rest) =
      ⟨.period, ".", offset⟩ :: scanFrom (offset + byteLength ['.']) rest :=
  scanFrom_token (by decide) (measure_period hr) offset

/-- What stands between quotes is one token, whatever it is. -/
theorem scanFrom_string {body : List Char} (hb : ∀ c ∈ body, c ≠ '"') (offset : Nat)
    (rest : List Char) :
    scanFrom offset ('"' :: body ++ '"' :: rest) =
      ⟨.string, String.ofList ('"' :: body ++ ['"']), offset⟩ ::
        scanFrom (offset + byteLength ('"' :: body ++ ['"'])) rest := by
  have hm : measure '"' ((body ++ ['"']) ++ rest) = (.string, (body ++ ['"']).length) := by
    rw [List.append_assoc, List.singleton_append, measure_string hb, List.length_append,
      List.length_singleton]
  have h := scanFrom_body (by decide) hm offset
  simpa only [List.cons_append, List.append_assoc, List.singleton_append, List.nil_append] using h

theorem scan_of_isName {name : String} (h : isName name.toList) :
    scan name = [⟨.identifier, name, 0⟩] := by
  have hs := @scanFrom_name name.toList h [] nofun 0
  rw [List.append_nil, String.ofList_toList, scanFrom_nil] at hs
  exact hs

/-! ### What the tokens of a text look like -/

/-- What the token that starts with a character in front of a rest can be, and how many characters of
the rest belong to it. -/
inductive Measured : Char → List Char → TokenKind → Nat → Prop where
  | sign {c rest kind} : (c, kind) ∈ signs → Measured c rest kind 0
  | period {rest} : rest.head?.any Char.isDigit = false → Measured '.' rest .period 0
  | string {rest} : (rest.takeWhile (· ≠ '"')).length < rest.length →
      Measured '"' rest .string ((rest.takeWhile (· ≠ '"')).length + 1)
  | unended {rest} : Measured '"' rest .invalid rest.length
  | number {c rest} : isNumberPart c → (c = '.' → rest.head?.any Char.isDigit) →
      Measured c rest .number (rest.takeWhile isNumberPart).length
  | name {c rest} : isNameStart c → Measured c rest .identifier (rest.takeWhile isNamePart).length
  /-- No text makes the character valid. -/
  | stray {c rest} : (∀ other, measure c other = (.invalid, 0)) → Measured c rest .invalid 0

theorem measured {c : Char} {rest : List Char} {kind : TokenKind} {count : Nat}
    (h : measure c rest = (kind, count)) : Measured c rest kind count := by
  rw [measure] at h
  -- first the signs of one character, in the order of the scanner
  iterate 11
    rcases ite_eq_iff.mp h with ⟨hc, h⟩ | ⟨_, h⟩
    · cases h
      rw [hc]
      exact .sign (by decide)
  rcases ite_eq_iff.mp h with ⟨hp, h⟩ | ⟨hp, h⟩
  · cases h
    rw [Bool.and_eq_true, decide_eq_true_eq, Bool.not_eq_true'] at hp
    rw [hp.1]
    exact .period hp.2
  rcases ite_eq_iff.mp h with ⟨hq, h⟩ | ⟨_, h⟩
  · rw [hq]
    rcases ite_eq_iff.mp h with ⟨hl, h⟩ | ⟨_, h⟩
    · cases h
      exact .string hl
    · cases h
      exact .unended
  rcases ite_eq_iff.mp h with ⟨hn, h⟩ | ⟨hn, h⟩
  · cases h
    refine .number hn ?_
    rintro rfl
    simpa using hp
  rcases ite_eq_iff.mp h with ⟨hs, h⟩ | ⟨_, h⟩
  · cases h
    exact .name hs
  · cases h
    have hd : c ≠ '.' := by
      rintro rfl
      exact hn rfl
    exact .stray fun other => by simp [measure, *]

/-- What a token of more than one character can be: a string up to its end, a number or a name. -/
theorem measure_cases {c : Char} {rest : List Char} {kind : TokenKind} {count : Nat}
    (h : measure c rest = (kind, count)) :
    (kind ≠ .string ∧ kind ≠ .number ∧ kind ≠ .identifier) ∨
    (kind = .string ∧ c = '"' ∧ (rest.takeWhile (· ≠ '"')).length < rest.length ∧
      count = (rest.takeWhile (· ≠ '"')).length + 1) ∨
    (kind = .number ∧ isNumberPart c) ∨
    (kind = .identifier ∧ isNameStart c ∧ count = (rest.takeWhile isNamePart).length) := by
  cases measured h with
  | sign hm => exact .inl (kind_of_sign hm)
  | period _ => exact .inl (by decide)
  | string hl => exact .inr (.inl ⟨rfl, rfl, hl, rfl⟩)
  | unended => exact .inl (by decide)
  | number hn _ => exact .inr (.inr (.inl ⟨rfl, hn⟩))
  | name hs => exact .inr (.inr (.inr ⟨rfl, hs, rfl⟩))
  | stray _ => exact .inl (by decide)

theorem take_length_takeWhile (p : Char → Bool) (text : List Char) :
    text.take (text.takeWhile p).length = text.takeWhile p :=
  (List.prefix_iff_eq_take.mp (List.takeWhile_prefix p)).symm

theorem take_string {rest : List Char}
    (h : (rest.takeWhile (· ≠ '"')).length < rest.length) :
    rest.take ((rest.takeWhile (· ≠ '"')).length + 1) = rest.takeWhile (· ≠ '"') ++ ['"'] := by
  have hsplit := List.takeWhile_append_dropWhile (p := (· ≠ '"')) (l := rest)
  have hstop := List.head?_dropWhile_not (· ≠ '"') rest
  generalize rest.takeWhile (· ≠ '"') = body at h hsplit ⊢
  generalize rest.dropWhile (· ≠ '"') = others at hsplit hstop
  cases others with
  | nil =>
    rw [List.append_nil] at hsplit
    rw [hsplit] at h
    exact absurd h (Nat.lt_irrefl _)
  | cons c others =>
    have hc : c = '"' := by simpa using hstop
    rw [← hsplit, hc, List.take_length_add_append]
    rfl

/-- The text of a token is what its kind demands of it. -/
def Shaped (token : Token) : Prop :=
  match token.kind with
  | .identifier => isName token.text.toList
  | .number => ∀ c ∈ token.text.toList.head?, isNumberPart c
  | .string => ∃ body, token.text.toList = '"' :: body ++ ['"'] ∧ ∀ c ∈ body, c ≠ '"'
  | _ => True

theorem shaped_of_measure {c : Char} {rest : List Char} {kind : TokenKind} {count : Nat}
    (h : measure c rest = (kind, count)) (offset : Nat) :
    Shaped ⟨kind, String.ofList (c :: rest.take count), offset⟩ := by
  rcases measure_cases h with ⟨hs, hn, hi⟩ | ⟨rfl, rfl, hl, rfl⟩ | ⟨rfl, hp⟩ | ⟨rfl, hs, rfl⟩
  · cases kind with
    | string => exact absurd rfl hs
    | number => exact absurd rfl hn
    | identifier => exact absurd rfl hi
    | _ => trivial
  · refine ⟨rest.takeWhile (· ≠ '"'), ?_, fun d hd => ?_⟩
    · rw [String.toList_ofList, take_string hl]
      rfl
    · simpa using List.all_eq_true.mp List.all_takeWhile d hd
  · change ∀ d ∈ (String.ofList (c :: rest.take count)).toList.head?, isNumberPart d
    rw [String.toList_ofList]
    rintro d ⟨⟩
    exact hp
  · refine isName_iff.mpr ⟨c, _, String.toList_ofList, hs, fun d hd => ?_⟩
    rw [take_length_takeWhile] at hd
    exact List.all_eq_true.mp List.all_takeWhile d hd

theorem shaped_of_mem {offset : Nat} {text : List Char} {token : Token}
    (h : token ∈ scanFrom offset text) : Shaped token := by
  fun_induction scanFrom offset text with
  | case1 offset => cases h
  | case2 offset c rest hb ih => exact ih h
  | case3 offset c rest hb kind count hm body ih =>
    rcases List.mem_cons.mp h with rfl | h
    · exact shaped_of_measure hm offset
    · exact ih h

theorem isName_of_scan {name : String} (h : scan name = [⟨.identifier, name, 0⟩]) :
    isName name.toList := by
  have hm : ⟨.identifier, name, 0⟩ ∈ scan name := by rw [h]; exact List.mem_singleton_self _
  exact shaped_of_mem hm

end Token

end SpriteFormula
