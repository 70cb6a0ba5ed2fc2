import SpriteFormula.Proofs.FormulaBlanks
import SpriteFormula.Proofs.TextPlaces

/-!
A text cut in front of one of its tokens, or at its end. The tokens behind the cut are those of the
text behind it. The tokens in front of it stay what they are when another text takes the place of
the one behind it, if a blank comes first. The line and column of the cut count the characters in
front of it.
-/

namespace SpriteFormula

namespace Token

open Text

/-! ### Seams -/

theorem measure_le {c : Char} {rest : List Char} {kind : TokenKind} {count : Nat}
    (h : measure c rest = (kind, count)) : count ≤ rest.length := by
  have shorter (p : Char → Bool) : (rest.takeWhile p).length ≤ rest.length :=
    (List.takeWhile_sublist p).length_le
  cases measured h with
  | sign _ | period _ | stray _ => exact Nat.zero_le _
  | string hl => exact hl
  | unended => exact Nat.le_refl _
  | number _ _ | name _ => exact shorter _

/-- The characters of a token, and the rest behind them. -/
theorem measure_take_drop {c : Char} {rest : List Char} {kind : TokenKind} {count : Nat}
    (h : measure c rest = (kind, count)) :
    measure c (rest.take count ++ rest.drop count) = (kind, (rest.take count).length) := by
  rw [List.take_append_drop, h, List.length_take_of_le (measure_le h)]

/-- A longest run of a class ends where the class does. -/
theorem stop_of_takeWhile {p : Char → Bool} {body rest : List Char}
    (h : body.length = ((body ++ rest).takeWhile p).length) :
    (∀ c ∈ body, p c) ∧ ∀ c ∈ rest.head?, p c = false := by
  have hb : (body ++ rest).takeWhile p = body := by
    have run := List.takeWhile_prefix (l := body ++ rest) p
    exact (List.prefix_of_prefix_length_le run (List.prefix_append body rest)
      (Nat.le_of_eq h.symm)).eq_of_length h.symm
  have all : ∀ c ∈ body, p c := fun c hc => by
    rw [← hb] at hc
    exact List.all_eq_true.mp List.all_takeWhile c hc
  refine ⟨all, ?_⟩
  cases rest with
  | nil => nofun
  | cons d rest =>
    rintro c ⟨⟩
    rw [List.takeWhile_append_of_pos all] at hb
    by_contra hd
    rw [List.takeWhile_cons_of_pos (by simpa using hd)] at hb
    simpa using congrArg List.length hb

/-- A known token ends where it does in front of another text that starts alike, or with a blank. -/
theorem measure_seam {c : Char} {body rest other : List Char} {kind : TokenKind}
    (h : measure c (body ++ rest) = (kind, body.length)) (hs : kind ≠ .string)
    (hi : kind ≠ .invalid) (ho : other.head? = rest.head? ∨ ∀ d ∈ other.head?, isBlank d) :
    measure c (body ++ other) = (kind, body.length) := by
  have stops {p : Char → Bool} (hp : ∀ d, isBlank d → p d = false)
      (hr : ∀ d ∈ rest.head?, p d = false) : ∀ d ∈ other.head?, p d = false := by
    rcases ho with ho | ho
    · rwa [ho]
    · exact fun d hd => hp d (ho d hd)
  rcases measure_known h hs hi with ⟨hm, hl⟩ | ⟨rfl, rfl, hd, hl⟩ | ⟨rfl, hn, hd, hl⟩ |
    ⟨rfl, hn, hl⟩
  · rw [measure_sign hm, hl]
  · obtain rfl := List.length_eq_zero_iff.mp hl
    refine measure_period (stops (fun _ => not_digit_of_blank) fun d hr => ?_)
    rw [List.nil_append, Option.mem_def.mp hr] at hd
    exact hd
  · obtain ⟨hb, hr⟩ := stop_of_takeWhile hl
    have digit (hc : c = '.') : (body ++ other).head?.any Char.isDigit := by
      cases body with
      | cons d body => exact hd hc
      | nil =>
        -- a point in front of no digit would be no number
        cases rest with
        | nil => cases hd hc
        | cons d rest =>
          have hdigit : d.isDigit := hd hc
          have hpart := hr d rfl
          simp [isNumberPart, hdigit] at hpart
    rw [measure_number hn digit, takeWhile_append_of_stop hb
      (stops (fun _ => not_numberPart_of_blank) hr)]
  · obtain ⟨hb, hr⟩ := stop_of_takeWhile hl
    rw [measure_name hn, takeWhile_append_of_stop hb
      (stops (fun _ => not_namePart_of_blank) hr)]

/-! ### Cuts -/

/-- A text cut where one of its tokens starts, or at its end, with the tokens in front of the
cut. -/
inductive Cut : Nat → List Char → List Char → List Token → Prop where
  | here {offset after} : (∀ c ∈ after.head?, isBlank c = false) → Cut offset [] after []
  | blank {offset c before after front} : isBlank c → Cut (offset + c.utf8Size) before after front →
      Cut offset (c :: before) after front
  | token {offset c body before after kind front} : isBlank c = false →
      measure c (body ++ (before ++ after)) = (kind, body.length) →
      Cut (offset + byteLength (c :: body)) before after front →
      Cut offset (c :: body ++ before) after (⟨kind, String.ofList (c :: body), offset⟩ :: front)

/-- Any tail of the tokens of a text is what is behind a cut. -/
theorem exists_cut {offset : Nat} {text : List Char} {tail : List Token}
    (h : tail <:+ scanFrom offset text) :
    ∃ before after front, text = before ++ after ∧ Cut offset before after front ∧
      tail = scanFrom (offset + byteLength before) after := by
  fun_induction scanFrom offset text with
  | case1 offset =>
    obtain rfl := List.suffix_nil.mp h
    exact ⟨[], [], [], rfl, .here (by simp), (scanFrom_nil _).symm⟩
  | case2 offset c rest hb ih =>
    obtain ⟨before, after, front, rfl, hc, ht⟩ := ih h
    refine ⟨c :: before, after, front, rfl, .blank hb hc, ?_⟩
    rw [ht, byteLength, Nat.add_assoc]
  | case3 offset c rest hb kind count hm body ih =>
    have hb : isBlank c = false := by simpa using hb
    rcases List.suffix_cons_iff.mp h with rfl | h
    · refine ⟨[], c :: rest, [], rfl, .here (by rintro d ⟨⟩; exact hb), ?_⟩
      rw [byteLength, Nat.add_zero, scanFrom_token hb hm]
    · obtain ⟨before, after, front, hr, hc, ht⟩ := ih h
      have seam := measure_take_drop hm
      rw [hr] at seam
      refine ⟨body ++ before, after, _, ?_, .token hb seam hc, ?_⟩
      · rw [List.append_assoc, ← hr, List.cons_append, List.take_append_drop]
      · rw [ht, byteLength_append, Nat.add_assoc]

namespace Cut

variable {offset : Nat} {before after : List Char} {front : List Token}

theorem start (h : Cut offset before after front) : ∀ c ∈ after.head?, isBlank c = false := by
  induction h with
  | here hs => exact hs
  | blank _ _ ih => exact ih
  | token _ _ _ ih => exact ih

theorem scanFrom_append (h : Cut offset before after front) :
    scanFrom offset (before ++ after) =
      front ++ scanFrom (offset + byteLength before) after := by
  induction h with
  | here => rfl
  | blank hb _ ih => rw [List.cons_append, scanFrom_blank hb, ih, byteLength, Nat.add_assoc]
  | token hb hm _ ih =>
    rw [List.append_assoc, scanFrom_body hb hm, ih, byteLength_append, List.cons_append,
      Nat.add_assoc]

/-- Behind a blank another text follows the known tokens in front of the cut. -/
theorem scanFrom_other (h : Cut offset before after front)
    (hk : ∀ token ∈ front, token.kind ≠ .string ∧ token.kind ≠ .invalid) {other : List Char}
    (ho : ∀ c ∈ other.head?, isBlank c) :
    scanFrom offset (before ++ other) =
      front ++ scanFrom (offset + byteLength before) other := by
  induction h with
  | here => rfl
  | blank hb _ ih => rw [List.cons_append, scanFrom_blank hb, ih hk, byteLength, Nat.add_assoc]
  | @token offset c body before after kind front hb hm _ ih =>
    obtain ⟨⟨hs, hi⟩, hk⟩ := List.forall_mem_cons.mp hk
    have seam : (before ++ other).head? = (before ++ after).head? ∨
        ∀ d ∈ (before ++ other).head?, isBlank d := by
      cases before with
      | nil => exact .inr ho
      | cons d before => exact .inl rfl
    rw [List.append_assoc, scanFrom_body hb (measure_seam hm hs hi seam), ih hk,
      byteLength_append, List.cons_append, Nat.add_assoc]

/-- A cut of what is behind a cut. -/
theorem trans {between rest : List Char} {more : List Token}
    (h : Cut offset before (between ++ rest) front)
    (hm : Cut (offset + byteLength before) between rest more) :
    Cut offset (before ++ between) rest (front ++ more) := by
  generalize ha : between ++ rest = after at h
  induction h with
  | here => exact hm
  | @blank offset c before after front hb _ ih =>
    rw [byteLength, ← Nat.add_assoc] at hm
    exact .blank hb (ih hm ha)
  | @token offset c body before after kind front hb ht _ ih =>
    rw [byteLength_append, ← Nat.add_assoc] at hm
    rw [← ha, ← List.append_assoc before] at ht
    rw [List.append_assoc]
    exact .token hb ht (ih hm ha)

/-- The first token behind the cut starts at the cut. -/
theorem starts_text (h : Cut offset before after front) {token : Token} {rest : List Token}
    (ht : scanFrom (offset + byteLength before) after = token :: rest) :
    token.start = offset + byteLength before ∧ token.text.toList <+: after := by
  cases after with
  | nil =>
    rw [scanFrom_nil] at ht
    cases ht
  | cons c after =>
    rcases hm : measure c after with ⟨kind, count⟩
    rw [scanFrom_token (h.start c rfl) hm] at ht
    cases ht
    refine ⟨rfl, ?_⟩
    rw [String.toList_ofList]
    exact List.cons_prefix_cons.mpr ⟨rfl, List.take_prefix _ _⟩

theorem eq_nil_of_scanFrom (h : Cut offset before after front) {place : Nat}
    (ht : scanFrom place after = []) : after = [] := by
  cases after with
  | nil => rfl
  | cons c after =>
    rcases hm : measure c after with ⟨kind, count⟩
    rw [scanFrom_token (h.start c rfl) hm] at ht
    cases ht

end Cut

end Token

/-! ### Lines and columns -/

namespace Text

/-- The characters behind the last line break. -/
def lastLine (text : List Char) : List Char := (text.reverse.takeWhile (· ≠ '\n')).reverse

theorem exists_lastLine (text : List Char) :
    ∃ above, text = above ++ lastLine text ∧ Complete above ∧ '\n' ∉ lastLine text := by
  refine ⟨dropEndWhile (· ≠ '\n') text, ?_, ?_, ?_⟩
  · rw [dropEndWhile, lastLine, ← List.reverse_append, List.takeWhile_append_dropWhile,
      List.reverse_reverse]
  · intro c hc
    have stop := List.head?_dropWhile_not (· ≠ '\n') text.reverse
    rw [dropEndWhile, List.getLast?_reverse] at hc
    rw [Option.mem_def.mp hc] at stop
    simpa using stop
  · intro hm
    have hp := List.all_eq_true.mp List.all_takeWhile _ (List.mem_reverse.mp hm)
    simp at hp

end Text

namespace Location

open Text

/-- Over the characters of a line only the column moves. -/
theorem walk_unbroken {line : List Char} (h : '\n' ∉ line) (after : List Char)
    (offset row column : Nat) :
    walk (line ++ after) (byteLength line + offset) row column =
      walk after offset row (column + line.length) := by
  induction line generalizing column with
  | nil => rw [List.nil_append, byteLength, Nat.zero_add, List.length_nil, Nat.add_zero]
  | cons c line ih =>
    rw [List.mem_cons, not_or] at h
    have hp := c.utf8Size_pos
    have hs : c.utf8Size + byteLength line + offset - c.utf8Size = byteLength line + offset := by
      omega
    rw [List.cons_append, walk, byteLength, if_neg (by omega), if_neg (Ne.symm h.1), hs, ih h.2,
      List.length_cons, Nat.add_assoc, Nat.add_comm 1]

theorem walk_zero (text : List Char) (row column : Nat) :
    walk text 0 row column = (row, column) := by
  cases text with
  | nil => rfl
  | cons c rest => rw [walk, if_pos rfl]

/-- Lines and columns count from one what stands in front of a place. -/
theorem of_append (before after : List Char) :
    Location.of (String.ofList (before ++ after)) (byteLength before) =
      ⟨1 + before.count '\n', 1 + (lastLine before).length, byteLength before⟩ := by
  have hi : Nat.min (byteLength before) (byteLength (before ++ after)) = byteLength before := by
    rw [byteLength_append]
    exact Nat.min_eq_left (Nat.le_add_right _ _)
  have hw : walk (before ++ after) (byteLength before) 1 1 =
      (1 + before.count '\n', 1 + (lastLine before).length) := by
    obtain ⟨above, hb, hc, hl⟩ := exists_lastLine before
    generalize lastLine before = line at hb hl ⊢
    rw [hb, List.count_append, List.count_eq_zero.mpr hl, Nat.add_zero, List.append_assoc,
      byteLength_append, walk_append_right hc _ _ _ _ fun _ => rfl,
      ← Nat.add_zero (byteLength line), walk_unbroken hl, walk_zero]
  rw [Location.of, String.toList_ofList, hw, hi]

end Location

/-- A refusal of a piece of a text is located where the piece is cut in front of its place. -/
theorem Refusal.exists_cut {refusal : Refusal} {content : List Char}
    (h : refusal.place <:+ Token.scanFrom 0 content) (above below : List Char) :
    ∃ before after front, content = before ++ after ∧ Token.Cut 0 before after front ∧
      refusal.place = Token.scanFrom (Text.byteLength before) after ∧
      (refusal.locate (String.ofList (above ++ content ++ below)) (Text.byteLength above)
          (Text.byteLength content)).location =
        ⟨1 + (above ++ before).count '\n', 1 + (Text.lastLine (above ++ before)).length,
          Text.byteLength (above ++ before)⟩ := by
  obtain ⟨before, after, front, rfl, hc, hp⟩ := Token.exists_cut h
  rw [Nat.zero_add] at hp
  refine ⟨before, after, front, rfl, hc, hp, ?_⟩
  have start : (refusal.place.head?.getD
      (.endOfInput (Text.byteLength (before ++ after)))).start = Text.byteLength before := by
    cases hn : refusal.place with
    | nil =>
      rw [hn] at hp
      rw [hc.eq_nil_of_scanFrom hp.symm, List.append_nil]
      rfl
    | cons token rest =>
      rw [hn, ← Nat.zero_add (Text.byteLength before)] at hp
      exact (hc.starts_text hp.symm).1.trans (Nat.zero_add _)
  have place := Location.of_append (above ++ before) (after ++ below)
  rw [locate, ← place, Text.byteLength_append above before, ← start]
  simp only [List.append_assoc]

end SpriteFormula
