import SpriteFormula.Proofs.RefusedFormulas
import SpriteFormula.Proofs.TokenCuts

/-!
No error is reported too late. What stands in front of the place of an error is the beginning of a
formula that is read, and the words that are missing for it can be written down behind it.
-/

namespace SpriteFormula

namespace Formula

open Token Grammar Text

/-! ### The missing words -/

/-- The words of tokens, each behind a blank. -/
def spelled (tokens : List Token) : List Char :=
  tokens.flatMap fun token => ' ' :: token.text.toList

theorem spelled_start (tokens : List Token) : ∀ c ∈ (spelled tokens).head?, isBlank c := by
  cases tokens with
  | nil => nofun
  | cons token rest =>
    rintro c ⟨⟩
    decide

/-- A completing word is one character, which is a token in front of any blank. -/
theorem measure_completing {word : TokenKind × String} (h : word ∈ completingWords)
    {rest : List Char} (hr : ∀ c ∈ rest.head?, isBlank c) :
    ∃ c, word.2.toList = [c] ∧ isBlank c = false ∧ measure c rest = (word.1, 0) := by
  simp only [completingWords, List.mem_cons, List.not_mem_nil, or_false] at h
  rcases h with rfl | rfl | rfl
  · refine ⟨'1', rfl, by decide, ?_⟩
    have stop := takeWhile_append_of_stop (List.forall_mem_nil _) fun c hc =>
      not_numberPart_of_blank (hr c hc)
    rw [measure_digit (by decide), ← List.nil_append rest, stop]
    rfl
  · exact ⟨',', rfl, by decide, measure_sign (by decide) rest⟩
  · exact ⟨')', rfl, by decide, measure_sign (by decide) rest⟩

theorem scanFrom_spelled {tokens : List Token} (h : AreCompleting tokens) (offset : Nat) :
    List.Forall₂ Alike tokens (scanFrom offset (spelled tokens)) := by
  induction tokens generalizing offset with
  | nil =>
    rw [spelled, List.flatMap_nil, scanFrom_nil]
    exact .nil
  | cons token rest ih =>
    obtain ⟨hw, ho⟩ := List.forall_mem_cons.mp h
    obtain ⟨c, ht, hb, hm⟩ := measure_completing hw (spelled_start rest)
    have hs : spelled (token :: rest) = ' ' :: c :: spelled rest := by
      rw [spelled, List.flatMap_cons, ht]
      rfl
    rw [hs, scanFrom_blank (by decide), scanFrom_token hb hm]
    refine .cons ⟨rfl, ?_⟩ (ih ho _)
    rw [List.take_zero, ← ht, String.ofList_toList]

/-- Behind the beginning of a formula the words that are missing make it one. -/
theorem Completable.exists_parse {before after : List Char} {used : List Token}
    (hc : Cut 0 before after used) (h : Completable .sum used) :
    ∃ completion program, Program.parse (String.ofList (before ++ completion)) = .ok program := by
  obtain ⟨missing, tree, hw, hs⟩ := h
  have hd := hs [] nofun
  obtain ⟨whole, hu, uses⟩ := hd.uses
  rw [List.append_cancel_right hu.symm] at uses
  have known : ∀ token ∈ used, token.kind ≠ .string ∧ token.kind ≠ .invalid := fun token ht =>
    uses.whole token (List.mem_append_left _ ht)
  have scanned := hc.scanFrom_other known (spelled_start missing)
  have alike : List.Forall₂ Alike (used ++ missing)
      (used ++ scanFrom (0 + byteLength before) (spelled missing)) :=
    List.rel_append (List.forall₂_same.mpr fun _ _ => ⟨rfl, rfl⟩) (scanFrom_spelled hw _)
  rw [List.append_nil] at hd
  obtain ⟨left, hl, hread⟩ := hd.alike alike
  cases hl
  refine ⟨spelled missing, tree.postfixOrder, Program.parse_ok_iff.mpr ⟨tree, ?_, rfl⟩⟩
  rw [scan, String.toList_ofList, scanned]
  exact hread

end Formula

/-- No error is too late: what stands in front of its place is the beginning of a text that can be
read. -/
theorem errors_stand_behind_valid_prefixes {text : String} {error : ParseError}
    (h : Program.parse text = .error error) :
    ∃ before after completion : String, text = before ++ after ∧
      before.utf8ByteSize = error.location.index ∧
      ∃ program, Program.parse (before ++ completion) = .ok program := by
  unfold Program.parse at h
  split at h
  · next refusal hr =>
    cases h
    obtain ⟨used, ht, hu⟩ := (Formula.ofTokens_refused hr).front
    obtain ⟨before, after, front, htext, hc, hp, hplace⟩ :=
      Refusal.exists_cut (ht ▸ List.suffix_append used refusal.place) [] []
    obtain rfl : used = front := by
      have hscan := hc.scanFrom_append
      rw [← htext, Nat.zero_add, ← hp] at hscan
      exact List.append_cancel_right (ht.symm.trans hscan)
    obtain ⟨completion, program, hprogram⟩ := hu.exists_parse hc
    refine ⟨String.ofList before, String.ofList after, String.ofList completion, ?_, ?_,
      program, ?_⟩
    · rw [← String.ofList_append, ← htext, String.ofList_toList]
    · rw [Text.byteLength_ofList]
      simp only [List.nil_append, List.append_nil, String.ofList_toList,
        Text.byteLength_toList] at hplace
      exact (congrArg Location.index hplace).symm
    · rw [← String.ofList_append]
      exact hprogram
  · cases h

/-- Behind a multiplication in an argument of an argument. -/
theorem open_arguments_can_be_completed :
    ∃ error, Program.parse "π * max(1, sin(2 *) x" = .error error ∧ error.location.index = 19 ∧
      ∃ before after completion : String, "π * max(1, sin(2 *) x" = before ++ after ∧
        before.utf8ByteSize = error.location.index ∧
        ∃ program, Program.parse (before ++ completion) = .ok program :=
  have h : Program.parse "π * max(1, sin(2 *) x" = .error ⟨⟨1, 19, 19⟩, ")", .strayClosing⟩ := by
    decide +kernel
  ⟨_, h, rfl, errors_stand_behind_valid_prefixes h⟩

end SpriteFormula
