import SpriteFormula.Dialogue
import SpriteFormula.Proofs.CodecRoundTrip

/-!
A session that reads its input line by line and counts parentheses as it goes shows what is shown
for the entries of the whole input. If the input is text, so is each of its lines, for no byte of a
longer character is that of a line break.
-/

namespace SpriteFormula

/-! ### Lines of bytes -/

namespace Text

/-- The bytes of a line. -/
def lineBytes (line : List Char) : List UInt8 := utf8Bytes (String.ofList line)

theorem ofUtf8_lineBytes (line : List Char) :
    ofUtf8? (lineBytes line) = some (String.ofList line) := ofUtf8_utf8Bytes _

theorem lineBytes_nil : lineBytes [] = [] := by decide

theorem lineBytes_cons (c : Char) (rest : List Char) :
    lineBytes (c :: rest) = String.utf8EncodeChar c ++ lineBytes rest := by
  simp [lineBytes, utf8Bytes, String.toUTF8, String.toByteArray_ofList, List.utf8Encode]

/-- No byte of a character is that of a line break, unless the character is one. -/
theorem ne_break_of_mem_encode {c : Char} (hc : c ≠ '\n') :
    ∀ b ∈ String.utf8EncodeChar c, b ≠ 10 := by
  have one : c.val.toNat ≠ 10 := by
    intro h
    exact hc (Char.ext (UInt32.toNat_inj.mp h))
  have far (n : Nat) (h : n % 256 ≠ 10) : UInt8.ofNat n ≠ 10 := by
    intro he
    apply h
    rw [← UInt8.toNat_ofNat', he]
    rfl
  fun_cases String.utf8EncodeChar c
  · exact List.forall_mem_singleton.mpr (far _ (by omega))
  · simp only [List.forall_mem_cons]
    exact ⟨far _ (by omega), far _ (by omega), List.forall_mem_nil _⟩
  · simp only [List.forall_mem_cons]
    exact ⟨far _ (by omega), far _ (by omega), far _ (by omega), List.forall_mem_nil _⟩
  · simp only [List.forall_mem_cons]
    exact ⟨far _ (by omega), far _ (by omega), far _ (by omega), far _ (by omega),
      List.forall_mem_nil _⟩

theorem encode_ne_nil (c : Char) : String.utf8EncodeChar c ≠ [] := by
  fun_cases String.utf8EncodeChar c
  all_goals exact List.cons_ne_nil _ _

/-- Bytes without a line break go in front of the first line. -/
theorem byteLines_append {bytes : List UInt8} (hb : ∀ b ∈ bytes, b ≠ 10) (hn : bytes ≠ [])
    (rest : List UInt8) :
    byteLines (bytes ++ rest) =
      match byteLines rest with
      | [] => [bytes]
      | line :: others => (bytes ++ line) :: others := by
  induction bytes with
  | nil => exact absurd rfl hn
  | cons b bytes ih =>
    obtain ⟨hf, ho⟩ := List.forall_mem_cons.mp hb
    rw [List.cons_append, byteLines, if_neg hf]
    cases bytes with
    | nil =>
      rw [List.nil_append]
      cases byteLines rest <;> rfl
    | cons next bytes =>
      rw [ih ho (List.cons_ne_nil _ _)]
      cases byteLines rest <;> rfl

/-- The lines of a text, as bytes, are the lines of its bytes. -/
theorem byteLines_lineBytes (text : List Char) :
    byteLines (lineBytes text) = (lines text).map lineBytes := by
  induction text with
  | nil => rfl
  | cons c rest ih =>
    rw [lineBytes_cons, lines]
    by_cases hc : c = '\n'
    · have newline : lineBytes ['\n'] = [10] := by decide
      rw [if_pos hc, List.map_cons, ← ih, hc, newline]
      rfl
    · rw [if_neg hc, byteLines_append (ne_break_of_mem_encode hc) (encode_ne_nil c), ih]
      cases lines rest with
      | nil => rw [List.map_nil, List.map_singleton, lineBytes_cons, lineBytes_nil, List.append_nil]
      | cons line others => rw [List.map_cons, List.map_cons, lineBytes_cons]

end Text

namespace Dialogue

open EntryLines

/-! ### Loops -/

/-- Where the counters stand as many parentheses apart as are open, the lines that are asked for are
those that the entry takes. -/
theorem complete_lines (lines : List (List Char)) {opened closed : Nat} {count : Int}
    (hc : count = opened - closed) (text : List Char) :
    complete opened closed text (lines.map Text.lineBytes) =
      ⟨text ++ (more count lines).1.lines.flatten,
        (more count lines).1.lines.length + (if (more count lines).1.cutOff then 1 else 0),
        .ok ((more count lines).2.map Text.lineBytes)⟩ := by
  -- the loop keeps two counters that never go down, the entry one count that may
  induction lines generalizing opened closed count text with
  | nil =>
    rw [List.map_nil, complete, more]
    by_cases h : closed < opened
    · have hp : 0 < count := by omega
      simp [h, hp]
    · have hp : ¬ 0 < count := by omega
      simp [h, hp]
  | cons line rest ih =>
    rw [List.map_cons, complete, more]
    by_cases h : closed < opened
    · have hp : 0 < count := by omega
      have hn : count + openCount line = ((opened + line.count '(' : Nat) : Int) -
          (closed + line.count ')' : Nat) := by
        rw [openCount]
        omega
      simp only [if_pos h, if_pos hp, Text.ofUtf8_lineBytes, String.toList_ofList, ih hn,
        List.flatten_cons, List.append_assoc, List.length_cons]
      congr 1
      omega
    · have hp : ¬ 0 < count := by omega
      simp [h, hp]

/-- A complete entry is shown as an entry of the whole input is. -/
theorem run_cons {session : Session} {line : List UInt8} {rest left : List (List UInt8)}
    {first : List Char} {entry : EntryLines} (hu : Text.ofUtf8? line = some (String.ofList first))
    (hc : complete (first.count '(') (first.count ')') first rest =
      ⟨entry.lines.flatten, entry.requests, .ok left⟩) :
    run session (line :: rest) =
      ⟨session.shown entry ++ (run (session.execute entry.text).2 left).shown,
        (run (session.execute entry.text).2 left).fault⟩ := by
  have completed : complete ((String.ofList first).toList.count '(')
      ((String.ofList first).toList.count ')') (String.ofList first).toList rest =
        ⟨entry.lines.flatten, entry.requests, .ok left⟩ := by
    rw [String.toList_ofList]
    exact hc
  rw [run]
  simp only [hu]
  split
  · next fault hf =>
    rw [completed] at hf
    cases hf
  · next found hl =>
    rw [completed] at hl
    cases hl
    rw [completed]
    rfl

/-- The session shows the transcript of its entries, and no fault ends it. -/
theorem run_lines (session : Session) (lines : List (List Char)) :
    run session (lines.map Text.lineBytes) = ⟨session.transcriptOf (split lines), none⟩ := by
  induction lines using split.induct generalizing session with
  | case1 =>
    rw [List.map_nil, run, split]
    rfl
  | case2 line rest found ih =>
    let entry : EntryLines := { found.1 with lines := line :: found.1.lines }
    have completed : complete (line.count '(') (line.count ')') line (rest.map Text.lineBytes) =
        ⟨entry.lines.flatten, entry.requests, .ok (found.2.map Text.lineBytes)⟩ :=
      complete_lines rest rfl line
    rw [List.map_cons, run_cons (Text.ofUtf8_lineBytes _) completed, ih, split]
    rfl

/-- If the input is a text, the session goes on to its end. -/
theorem ofInput_utf8Bytes (input : String) :
    ofInput (Text.utf8Bytes input) = ⟨Session.transcript input, none⟩ := by
  have h := Text.byteLines_lineBytes input.toList
  rw [Text.lineBytes, String.ofList_toList] at h
  rw [ofInput, h, run_lines]
  rfl

end Dialogue

end SpriteFormula
