import SpriteFormula.Proofs.FormulaRoundTrip

/-!
The tokens of formulas. In a formula that can be read parentheses come in pairs, no token is a
string or invalid, and a name is that of a function, of a constant or of a variable of the program.
-/

namespace SpriteFormula

/-- What a token of this kind adds to the parentheses that are open. -/
def TokenKind.opening : TokenKind → Int
  | .leftParen => 1
  | .rightParen => -1
  | _ => 0

namespace Token

/-- How many more parentheses the tokens open than they close. -/
def openCount : List Token → Int
  | [] => 0
  | token :: rest => token.kind.opening + openCount rest

theorem openCount_append (tokens others : List Token) :
    openCount (tokens ++ others) = openCount tokens + openCount others := by
  induction tokens with
  | nil => exact (Int.zero_add _).symm
  | cons token rest ih => rw [List.cons_append, openCount, ih, openCount, Int.add_assoc]

theorem openCount_singleton (token : Token) : openCount [token] = token.kind.opening :=
  Int.add_zero _

end Token

namespace Grammar

/-- The names that stand for no variable. -/
def reserved : List String :=
  unaryNames.map Prod.fst ++ extremumNames.map Prod.fst ++ constantNames.map Prod.fst

/-- The kinds of the tokens that are neither names nor parentheses. -/
def plainKinds : List TokenKind := [.plus, .minus, .star, .slash, .caret, .comma, .number]

/-- What the tokens of a formula, or of a part of it, are. -/
structure Uses (used : List Token) (program : Program) : Prop where
  balanced : Token.openCount used = 0
  whole : ∀ token ∈ used, token.kind ≠ .string ∧ token.kind ≠ .invalid
  named : ∀ token ∈ used, token.kind = .identifier →
    token.text ∈ reserved ∨ .var token.text ∈ program

namespace Uses

variable {used others : List Token} {program more : Program} {token opening closing : Token}

theorem mono (h : Uses used program) (hp : program ⊆ more) : Uses used more where
  balanced := h.balanced
  whole := h.whole
  named t ht hk := (h.named t ht hk).imp_right fun hm => hp hm

theorem append (h : Uses used program) (ho : Uses others program) :
    Uses (used ++ others) program := by
  constructor
  · rw [Token.openCount_append, h.balanced, ho.balanced, Int.add_zero]
  · exact List.forall_mem_append.mpr ⟨h.whole, ho.whole⟩
  · exact List.forall_mem_append.mpr ⟨h.named, ho.named⟩

theorem plain (h : token.kind ∈ plainKinds) (program : Program) : Uses [token] program := by
  have all : ∀ kind ∈ plainKinds, kind.opening = 0 ∧
      (kind ≠ .string ∧ kind ≠ .invalid) ∧ kind ≠ .identifier := by decide
  obtain ⟨ho, hw, hi⟩ := all _ h
  constructor
  · rw [Token.openCount_singleton, ho]
  · exact List.forall_mem_singleton.mpr hw
  · exact List.forall_mem_singleton.mpr fun hk => absurd hk hi

theorem name (hk : token.kind = .identifier)
    (hn : token.text ∈ reserved ∨ .var token.text ∈ program) : Uses [token] program := by
  constructor
  · rw [Token.openCount_singleton, hk]
    rfl
  · exact List.forall_mem_singleton.mpr (by rw [hk]; decide)
  · exact List.forall_mem_singleton.mpr fun _ => hn

theorem enclosed (h : Uses used program) (ho : opening.kind = .leftParen)
    (hc : closing.kind = .rightParen) : Uses ([opening] ++ used ++ [closing]) program := by
  constructor
  · rw [Token.openCount_append, Token.openCount_append, Token.openCount_singleton,
      Token.openCount_singleton, ho, hc, h.balanced]
    rfl
  · simp only [List.forall_mem_append, List.forall_mem_singleton, ho, hc]
    exact ⟨⟨by decide, h.whole⟩, by decide⟩
  · simp only [List.forall_mem_append, List.forall_mem_singleton, ho, hc]
    exact ⟨⟨nofun, h.named⟩, nofun⟩

theorem empty (program : Program) : Uses [] program :=
  ⟨rfl, List.forall_mem_nil _, List.forall_mem_nil _⟩

/-- Two operands and what stands between them, where an instruction takes the two. -/
theorem operands {before between after : List Token} {left right : Program} {i : Instruction}
    (hl : Uses before left) (hb : Uses between (left ++ right ++ [i])) (hr : Uses after right) :
    Uses (before ++ between ++ after) (left ++ right ++ [i]) := by
  have left_sub : left ⊆ left ++ right ++ [i] := by
    rw [List.append_assoc]
    exact List.subset_append_left _ _
  have right_sub : right ⊆ left ++ right ++ [i] :=
    List.Subset.trans (List.subset_append_right _ _) (List.subset_append_left _ _)
  exact ((hl.mono left_sub).append hb).append (hr.mono right_sub)

/-- The name of a function in front of what it is called with. -/
theorem call (hk : token.kind = .identifier) (hm : token.text ∈ reserved)
    (ho : opening.kind = .leftParen) (h : Uses used program) (hc : closing.kind = .rightParen) :
    Uses ([token] ++ ([opening] ++ used ++ [closing])) program :=
  (name hk (.inl hm)).append (h.enclosed ho hc)

end Uses

/-- The tokens that a symbol takes are those of its tree. -/
theorem Derives.uses {symbol : Symbol} {tokens rest : List Token} {tree : Expr}
    (h : Derives symbol tokens tree rest) :
    ∃ used, tokens = used ++ rest ∧ Uses used tree.postfixOrder := by
  induction h with
  | product _ ih => exact ih
  | factor _ ih => exact ih
  | primary _ ih => exact ih
  | @additive _ left sign _ op right _ _ hs _ ihl ihr =>
    obtain ⟨before, rfl, hl⟩ := ihl
    obtain ⟨after, rfl, hr⟩ := ihr
    have all : ∀ sign ∈ Grammar.additive, sign.1 ∈ plainKinds := by decide
    refine ⟨before ++ [sign] ++ after, by simp, ?_⟩
    rw [Expr.postfixOrder_binary]
    exact hl.operands (.plain (all _ hs) _) hr
  | @multiplicative _ left sign _ op right _ _ hs _ ihl ihr =>
    obtain ⟨before, rfl, hl⟩ := ihl
    obtain ⟨after, rfl, hr⟩ := ihr
    have all : ∀ sign ∈ Grammar.multiplicative, sign.1 ∈ plainKinds := by decide
    refine ⟨before ++ [sign] ++ after, by simp, ?_⟩
    rw [Expr.postfixOrder_binary]
    exact hl.operands (.plain (all _ hs) _) hr
  | @adjacent _ left _ right _ _ _ ihl ihr =>
    obtain ⟨before, rfl, hl⟩ := ihl
    obtain ⟨after, rfl, hr⟩ := ihr
    refine ⟨before ++ [] ++ after, by simp, ?_⟩
    rw [Expr.postfixOrder_binary]
    exact hl.operands (.empty _) hr
  | @negative minus _ operand _ hk _ ih =>
    obtain ⟨used, rfl, hu⟩ := ih
    refine ⟨[minus] ++ used, by simp, ?_⟩
    rw [Expr.postfixOrder_negative]
    exact (Uses.plain (by rw [hk]; decide) _).append (hu.mono (List.subset_append_left _ _))
  | @number token _ _ hk _ =>
    exact ⟨[token], rfl, .plain (by rw [hk]; decide) _⟩
  | @named token _ _ hk hv _ =>
    have hm : token.text ∈ reserved :=
      List.mem_append_right _ (List.mem_map_of_mem hv)
    exact ⟨[token], rfl, .name hk (.inl hm)⟩
  | @var token _ hk _ _ =>
    exact ⟨[token], rfl, .name hk (.inr List.mem_cons_self)⟩
  | @call token opening _ f argument closing _ hk hf ho _ hc ih =>
    obtain ⟨used, rfl, hu⟩ := ih
    have hm : token.text ∈ reserved :=
      List.mem_append_left _ (List.mem_append_left _ (List.mem_map_of_mem hf))
    refine ⟨[token] ++ ([opening] ++ used ++ [closing]), by simp, ?_⟩
    rw [Expr.postfixOrder_call]
    exact .call hk hm ho (hu.mono (List.subset_append_left _ _)) hc
  | @extremum token opening _ f left comma _ right closing _ hk hf ho _ hcomma _ hc ihl ihr =>
    obtain ⟨before, rfl, hl⟩ := ihl
    obtain ⟨after, rfl, hr⟩ := ihr
    have hm : token.text ∈ reserved :=
      List.mem_append_left _ (List.mem_append_right _ (List.mem_map_of_mem hf))
    refine ⟨[token] ++ ([opening] ++ (before ++ [comma] ++ after) ++ [closing]), by simp, ?_⟩
    rw [Expr.postfixOrder_extremum]
    exact .call hk hm ho (hl.operands (.plain (by rw [hcomma]; decide) _) hr) hc
  | @parentheses opening _ tree closing _ ho _ hc ih =>
    obtain ⟨used, rfl, hu⟩ := ih
    exact ⟨[opening] ++ used ++ [closing], by simp, hu.enclosed ho hc⟩

end Grammar

/-- The tokens of a text that can be read are those of its program. -/
theorem Program.uses_of_parse {text : String} {program : Program}
    (h : Program.parse text = .ok program) : Grammar.Uses (Token.scan text) program := by
  obtain ⟨tree, hd, rfl⟩ := Program.parse_ok_iff.mp h
  obtain ⟨used, hu, uses⟩ := hd.uses
  rw [List.append_nil] at hu
  rw [hu]
  exact uses

end SpriteFormula
