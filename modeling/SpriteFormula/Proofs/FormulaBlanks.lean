import SpriteFormula.Proofs.FormulaTokens
import SpriteFormula.Proofs.LineEnds
import SpriteFormula.Transcript

/-!
Blanks around formulas, and the parentheses in them. A formula that can be read has the same tokens
without the blanks around it, but for their places, and as many closing parentheses as opening ones:
no string can hold a parenthesis, for a formula has none.
-/

namespace SpriteFormula

/-! ### Known tokens -/

namespace Text

theorem not_numeric_of_blank {c : Char} (h : isBlank c) : isNumeric c = false :=
  CodeRanges.not_contains_of_contains (by decide +kernel) h

end Text

namespace Token

open Text

theorem not_digit_of_blank {c : Char} (h : isBlank c) : c.isDigit = false := by
  by_contra hd
  rw [not_blank_of_digit (by simpa using hd)] at h
  cases h

theorem not_numberPart_of_blank {c : Char} (h : isBlank c) : isNumberPart c = false := by
  have hp : c ≠ '.' := by
    rintro rfl
    exact absurd h (by decide)
  simp [isNumberPart, not_digit_of_blank h, hp]

theorem not_namePart_of_blank {c : Char} (h : isBlank c) : isNamePart c = false := by
  have hu : c ≠ '_' := by
    rintro rfl
    exact absurd h (by decide)
  simp [isNamePart, not_alphabetic_of_blank h, not_numeric_of_blank h, hu]

/-- What a token that is neither a string nor invalid can be. -/
theorem measure_known {c : Char} {rest : List Char} {kind : TokenKind} {count : Nat}
    (h : measure c rest = (kind, count)) (hs : kind ≠ .string) (hi : kind ≠ .invalid) :
    ((c, kind) ∈ signs ∧ count = 0) ∨
    (kind = .period ∧ c = '.' ∧ rest.head?.any Char.isDigit = false ∧ count = 0) ∨
    (kind = .number ∧ isNumberPart c ∧ (c = '.' → rest.head?.any Char.isDigit) ∧
      count = (rest.takeWhile isNumberPart).length) ∨
    (kind = .identifier ∧ isNameStart c ∧ count = (rest.takeWhile isNamePart).length) := by
  cases measured h with
  | sign hm => exact .inl ⟨hm, rfl⟩
  | period hd => exact .inr (.inl ⟨rfl, rfl, hd, rfl⟩)
  | string _ => exact absurd rfl hs
  | unended => exact absurd rfl hi
  | number hn hd => exact .inr (.inr (.inl ⟨rfl, hn, hd, rfl⟩))
  | name hn => exact .inr (.inr (.inr ⟨rfl, hn, rfl⟩))
  | stray _ => exact absurd rfl hi

theorem measure_number {c : Char} {rest : List Char} (h : isNumberPart c)
    (hp : c = '.' → rest.head?.any Char.isDigit) :
    measure c rest = (.number, (rest.takeWhile isNumberPart).length) := by
  by_cases hc : c = '.'
  · rw [hc]
    simp [measure, hp hc, isNumberPart]
  · exact measure_digit (by simpa [isNumberPart, hc] using h) rest

/-! ### Blanks at the ends -/

theorem takeWhile_append_blanks {p : Char → Bool} {blanks : List Char}
    (h : ∀ c ∈ blanks, p c = false) (rest : List Char) :
    (rest ++ blanks).takeWhile p = rest.takeWhile p := by
  have hb : blanks.takeWhile p = [] := by
    cases blanks with
    | nil => rfl
    | cons c blanks => exact List.takeWhile_cons_of_neg (by simp [h c List.mem_cons_self])
  rw [List.takeWhile_append]
  split
  · next hl =>
    rw [hb, List.append_nil, (List.takeWhile_prefix p).eq_of_length hl]
  · rfl

/-- A known token stands as well where no blanks follow the text. -/
theorem measure_append_blanks {blanks : List Char} (hb : ∀ c ∈ blanks, isBlank c) {c : Char}
    {rest : List Char} {kind : TokenKind} {count : Nat}
    (h : measure c (rest ++ blanks) = (kind, count)) (hs : kind ≠ .string)
    (hi : kind ≠ .invalid) : measure c rest = (kind, count) ∧ count ≤ rest.length := by
  have digit : (rest ++ blanks).head?.any Char.isDigit = rest.head?.any Char.isDigit := by
    cases rest with
    | cons d rest => rfl
    | nil =>
      cases blanks with
      | nil => rfl
      | cons d blanks => exact not_digit_of_blank (hb d List.mem_cons_self)
  have shorter (p : Char → Bool) : (rest.takeWhile p).length ≤ rest.length :=
    (List.takeWhile_sublist p).length_le
  rcases measure_known h hs hi with ⟨hm, rfl⟩ | ⟨rfl, rfl, hd, rfl⟩ | ⟨rfl, hn, hd, rfl⟩ |
    ⟨rfl, hn, rfl⟩
  · exact ⟨measure_sign hm rest, Nat.zero_le _⟩
  · refine ⟨measure_period ?_, Nat.zero_le _⟩
    rw [digit] at hd
    intro d hr
    rw [Option.mem_def.mp hr] at hd
    exact hd
  · rw [digit] at hd
    rw [takeWhile_append_blanks fun d hd => not_numberPart_of_blank (hb d hd)]
    exact ⟨measure_number hn hd, shorter _⟩
  · rw [takeWhile_append_blanks fun d hd => not_namePart_of_blank (hb d hd)]
    exact ⟨measure_name hn rest, shorter _⟩

theorem scanFrom_blanks {blanks : List Char} (hb : ∀ c ∈ blanks, isBlank c) (offset : Nat)
    (rest : List Char) :
    scanFrom offset (blanks ++ rest) = scanFrom (offset + byteLength blanks) rest := by
  induction blanks generalizing offset with
  | nil => rfl
  | cons c blanks ih =>
    obtain ⟨hc, ho⟩ := List.forall_mem_cons.mp hb
    rw [List.cons_append, scanFrom_blank hc, ih ho, byteLength, Nat.add_assoc]

theorem scanFrom_append_blanks {blanks : List Char} (hb : ∀ c ∈ blanks, isBlank c)
    (text : List Char) (offset : Nat)
    (hk : ∀ token ∈ scanFrom offset (text ++ blanks),
      token.kind ≠ .string ∧ token.kind ≠ .invalid) :
    scanFrom offset (text ++ blanks) = scanFrom offset text := by
  fun_induction scanFrom offset text with
  | case1 offset =>
    have h := scanFrom_blanks hb offset []
    rwa [List.append_nil, scanFrom_nil] at h
  | case2 offset c rest hc ih =>
    rw [List.cons_append, scanFrom_blank hc] at hk ⊢
    exact ih hk
  | case3 offset c rest hc kind count hm body ih =>
    have hc : isBlank c = false := by simpa using hc
    cases hw : measure c (rest ++ blanks) with
    | mk found length =>
      rw [List.cons_append, scanFrom_token hc hw] at hk ⊢
      obtain ⟨⟨hs, hi⟩, ho⟩ := List.forall_mem_cons.mp hk
      obtain ⟨same, hl⟩ := measure_append_blanks hb hw hs hi
      obtain ⟨rfl, rfl⟩ := Prod.mk.inj (hm.symm.trans same)
      rw [List.take_append_of_le_length hl, List.drop_append_of_le_length hl] at ho ⊢
      rw [ih ho]

/-! ### Places -/

/-- The tokens differ at most in where they stand. -/
def Alike (token other : Token) : Prop := token.kind = other.kind ∧ token.text = other.text

theorem scanFrom_alike (text : List Char) (offset other : Nat) :
    List.Forall₂ Alike (scanFrom offset text) (scanFrom other text) := by
  fun_induction scanFrom offset text generalizing other with
  | case1 offset =>
    rw [scanFrom_nil]
    exact .nil
  | case2 offset c rest hc ih =>
    rw [scanFrom_blank hc]
    exact ih _
  | case3 offset c rest hc kind count hm body ih =>
    rw [scanFrom_token (by simpa using hc) hm]
    exact .cons ⟨rfl, rfl⟩ (ih _)

end Token

namespace Grammar

open Token

theorem NotCalled.alike {rest others : List Token} (h : NotCalled rest)
    (ha : List.Forall₂ Alike rest others) : NotCalled others := by
  cases ha with
  | nil => exact h
  | cons hk _ =>
    rintro next ⟨⟩
    rw [← hk.1]
    exact h _ rfl

/-- Where tokens stand does not matter to the grammar. -/
theorem Derives.alike {symbol : Symbol} {tokens rest others : List Token} {tree : Expr}
    (h : Derives symbol tokens tree rest) (ha : List.Forall₂ Alike tokens others) :
    ∃ left, List.Forall₂ Alike rest left ∧ Derives symbol others tree left := by
  induction h generalizing others with
  | product _ ih =>
    obtain ⟨left, hl, hd⟩ := ih ha
    exact ⟨left, hl, .product hd⟩
  | factor _ ih =>
    obtain ⟨left, hl, hd⟩ := ih ha
    exact ⟨left, hl, .factor hd⟩
  | primary _ ih =>
    obtain ⟨left, hl, hd⟩ := ih ha
    exact ⟨left, hl, .primary hd⟩
  | additive _ hs _ ihl ihr =>
    obtain ⟨_, ⟨⟩ | ⟨hk, hm⟩, hl⟩ := ihl ha
    obtain ⟨left, hrest, hr⟩ := ihr hm
    exact ⟨left, hrest, .additive hl (hk.1 ▸ hs) hr⟩
  | multiplicative _ hs _ ihl ihr =>
    obtain ⟨_, ⟨⟩ | ⟨hk, hm⟩, hl⟩ := ihl ha
    obtain ⟨left, hrest, hr⟩ := ihr hm
    exact ⟨left, hrest, .multiplicative hl (hk.1 ▸ hs) hr⟩
  | adjacent _ _ ihl ihr =>
    obtain ⟨middle, hm, hl⟩ := ihl ha
    obtain ⟨left, hrest, hr⟩ := ihr hm
    exact ⟨left, hrest, .adjacent hl hr⟩
  | negative hk _ ih =>
    obtain ⟨⟩ | ⟨hm, ht⟩ := ha
    obtain ⟨left, hl, hd⟩ := ih ht
    exact ⟨left, hl, .negative (hm.1 ▸ hk) hd⟩
  | number hk hv =>
    obtain ⟨⟩ | ⟨hm, ht⟩ := ha
    exact ⟨_, ht, .number (hm.1 ▸ hk) (hm.2 ▸ hv)⟩
  | named hk hv hn =>
    obtain ⟨⟩ | ⟨hm, ht⟩ := ha
    exact ⟨_, ht, .named (hm.1 ▸ hk) (hm.2 ▸ hv) (hn.alike ht)⟩
  | var hk hv hn =>
    obtain ⟨⟩ | ⟨hm, ht⟩ := ha
    refine ⟨_, ht, ?_⟩
    rw [hm.2]
    exact .var (hm.1 ▸ hk) (hm.2 ▸ hv) (hn.alike ht)
  | call hk hf ho _ hc ih =>
    obtain ⟨⟩ | ⟨hm, ⟨⟩ | ⟨hp, ht⟩⟩ := ha
    obtain ⟨_, ⟨⟩ | ⟨hq, hrest⟩, hd⟩ := ih ht
    exact ⟨_, hrest, .call (hm.1 ▸ hk) (hm.2 ▸ hf) (hp.1 ▸ ho) hd (hq.1 ▸ hc)⟩
  | extremum hk hf ho _ hcomma _ hc ihl ihr =>
    obtain ⟨⟩ | ⟨hm, ⟨⟩ | ⟨hp, ht⟩⟩ := ha
    obtain ⟨_, ⟨⟩ | ⟨hb, hmiddle⟩, hl⟩ := ihl ht
    obtain ⟨_, ⟨⟩ | ⟨hq, hrest⟩, hr⟩ := ihr hmiddle
    exact ⟨_, hrest, .extremum (hm.1 ▸ hk) (hm.2 ▸ hf) (hp.1 ▸ ho) hl (hb.1 ▸ hcomma) hr
      (hq.1 ▸ hc)⟩
  | parentheses ho _ hc ih =>
    obtain ⟨⟩ | ⟨hp, ht⟩ := ha
    obtain ⟨_, ⟨⟩ | ⟨hq, hrest⟩, hd⟩ := ih ht
    exact ⟨_, hrest, .parentheses (hp.1 ▸ ho) hd (hq.1 ▸ hc)⟩

end Grammar

/-- Blanks around a formula do not change what it is read as. -/
theorem Program.parse_trim {text : List Char} {program : Program}
    (h : parse (String.ofList text) = .ok program) :
    parse (String.ofList (Text.trim text)) = .ok program := by
  have uses := uses_of_parse h
  obtain ⟨tree, hd, rfl⟩ := parse_ok_iff.mp h
  obtain ⟨before, after, ht, hb, ha⟩ := Text.exists_trim text
  rw [Token.scan, String.toList_ofList] at hd uses
  rw [parse_ok_iff, Token.scan, String.toList_ofList]
  generalize Text.trim text = inner at ht ⊢
  rw [ht, List.append_assoc, Token.scanFrom_blanks hb] at hd uses
  rw [Token.scanFrom_append_blanks ha _ _ uses.whole] at hd
  obtain ⟨left, hl, hs⟩ := hd.alike (Token.scanFrom_alike inner _ 0)
  cases hl
  exact ⟨tree, hs, rfl⟩

/-! ### Parentheses -/

namespace EntryLines

theorem openCount_append (text others : List Char) :
    openCount (text ++ others) = openCount text + openCount others := by
  simp only [openCount, List.count_append]
  omega

/-- A text without parentheses opens none. -/
theorem openCount_of_forall {text : List Char} (h : ∀ c ∈ text, c ≠ '(' ∧ c ≠ ')') :
    openCount text = 0 := by
  have ho : text.count '(' = 0 := List.count_eq_zero.mpr fun hm => (h _ hm).1 rfl
  have hc : text.count ')' = 0 := List.count_eq_zero.mpr fun hm => (h _ hm).2 rfl
  rw [openCount, ho, hc]
  rfl

/-- Characters of a class without the parentheses. -/
theorem openCount_takeWhile {p : Char → Bool} (ho : p '(' = false) (hc : p ')' = false)
    {first : Char} (hf : first ≠ '(' ∧ first ≠ ')') (rest : List Char) :
    openCount (first :: rest.takeWhile p) = 0 := by
  apply openCount_of_forall
  refine List.forall_mem_cons.mpr ⟨hf, fun c hm => ?_⟩
  have hp := List.all_eq_true.mp List.all_takeWhile c hm
  constructor
  · rintro rfl
    rw [ho] at hp
    cases hp
  · rintro rfl
    rw [hc] at hp
    cases hp

theorem openCount_measure {c : Char} {rest : List Char} {kind : TokenKind} {count : Nat}
    (h : Token.measure c rest = (kind, count)) (hs : kind ≠ .string) (hi : kind ≠ .invalid) :
    openCount (c :: rest.take count) = kind.opening := by
  rcases Token.measure_known h hs hi with ⟨hm, rfl⟩ | ⟨rfl, rfl, _, rfl⟩ | ⟨rfl, hn, _, rfl⟩ |
    ⟨rfl, hn, rfl⟩
  · have all : ∀ sign ∈ Token.signs, openCount [sign.1] = sign.2.opening := by decide
    exact all _ hm
  · rfl
  · rw [Token.take_length_takeWhile]
    refine openCount_takeWhile rfl rfl ⟨?_, ?_⟩ rest
    · rintro rfl
      cases hn
    · rintro rfl
      cases hn
  · rw [Token.take_length_takeWhile]
    exact openCount_takeWhile (by decide) (by decide)
      ⟨Token.ne_of_nameStart hn (by decide), Token.ne_of_nameStart hn (by decide)⟩ rest

/-- The parentheses of a text are those of its tokens. -/
theorem openCount_scanFrom (text : List Char) (offset : Nat)
    (hk : ∀ token ∈ Token.scanFrom offset text, token.kind ≠ .string ∧ token.kind ≠ .invalid) :
    openCount text = Token.openCount (Token.scanFrom offset text) := by
  fun_induction Token.scanFrom offset text with
  | case1 offset => rfl
  | case2 offset c rest hc ih =>
    have hb : openCount [c] = 0 := by
      refine openCount_of_forall (List.forall_mem_singleton.mpr ⟨?_, ?_⟩)
      · rintro rfl
        exact absurd hc (by decide)
      · rintro rfl
        exact absurd hc (by decide)
    rw [← List.singleton_append, openCount_append, hb, Int.zero_add]
    exact ih hk
  | case3 offset c rest hc kind count hm body ih =>
    obtain ⟨⟨hs, hi⟩, ho⟩ := List.forall_mem_cons.mp hk
    have hsplit : c :: rest = (c :: rest.take count) ++ rest.drop count := by
      rw [List.cons_append, List.take_append_drop]
    rw [hsplit, openCount_append, openCount_measure hm hs hi, ih ho, Token.openCount]

/-- A formula that can be read closes each parenthesis that it opens, and no more. -/
theorem openCount_of_parse {text : List Char} {program : Program}
    (h : Program.parse (String.ofList text) = .ok program) : openCount text = 0 := by
  have uses := Program.uses_of_parse h
  rw [Token.scan, String.toList_ofList] at uses
  rw [openCount_scanFrom text 0 uses.whole, uses.balanced]

end EntryLines

end SpriteFormula
