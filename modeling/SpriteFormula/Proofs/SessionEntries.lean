import SpriteFormula.Proofs.FormulaBlanks
import SpriteFormula.Proofs.ReadingBalance
import SpriteFormula.Proofs.SessionDialogue
import SpriteFormula.Proofs.TextPlaces

/-!
The entries of an interactive session. They are the lines of the input, each line once and in order,
and an entry ends as soon as no parenthesis is left open. From one entry to the next a session keeps
the value of its parameter and nothing else. A line that can be read by itself is an entry by
itself, for its parentheses come in pairs.
-/

namespace SpriteFormula

namespace EntryLines

/-! ### Cutting lines into entries -/

/-- The entry ends with the first line that leaves no parenthesis open, if there is one. -/
structure IsShortest (entry : EntryLines) : Prop where
  nonempty : entry.lines ≠ []
  openBefore : ∀ n, 0 < n → n < entry.lines.length → 0 < openCount (entry.lines.take n).flatten
  cutOff_iff : entry.cutOff ↔ 0 < openCount entry.lines.flatten

variable {count : Int} {lines : List (List Char)}

theorem more_append (count : Int) (lines : List (List Char)) :
    (more count lines).1.lines ++ (more count lines).2 = lines := by
  induction lines generalizing count with
  | nil => rfl
  | cons line rest ih =>
    rw [more]
    split
    · exact congrArg (line :: ·) (ih _)
    · rfl

/-- Further lines are taken while parentheses are open. -/
theorem open_of_more {n : Nat} (h : n < (more count lines).1.lines.length) :
    0 < count + openCount ((more count lines).1.lines.take n).flatten := by
  induction lines generalizing count n with
  | nil => exact absurd h (Nat.not_lt_zero n)
  | cons line rest ih =>
    rw [more] at h ⊢
    by_cases hc : 0 < count
    · rw [if_pos hc] at h ⊢
      cases n with
      | zero => exact (Int.add_zero count).symm ▸ hc
      | succ n =>
        have hn := ih (Nat.lt_of_succ_lt_succ h)
        rw [List.take_succ_cons, List.flatten_cons, openCount_append, ← Int.add_assoc]
        exact hn
    · rw [if_neg hc] at h
      exact absurd h (Nat.not_lt_zero n)

/-- Lines run out exactly where parentheses are left open, and then no line is left. -/
theorem cutOff_more (count : Int) (lines : List (List Char)) :
    ((more count lines).1.cutOff ↔ 0 < count + openCount (more count lines).1.lines.flatten) ∧
      ((more count lines).1.cutOff → (more count lines).2 = []) := by
  induction lines generalizing count with
  | nil =>
    refine ⟨?_, fun _ => rfl⟩
    rw [more, List.flatten_nil, openCount, List.count_nil]
    simp
  | cons line rest ih =>
    rw [more]
    by_cases hc : 0 < count
    · rw [if_pos hc, List.flatten_cons, openCount_append, ← Int.add_assoc]
      exact ih _
    · rw [if_neg hc]
      refine ⟨?_, fun h => absurd h Bool.false_ne_true⟩
      rw [List.flatten_nil, openCount, List.count_nil]
      simpa using hc

theorem isShortest_first (line : List Char) (rest : List (List Char)) :
    IsShortest { (more (openCount line) rest).1 with
      lines := line :: (more (openCount line) rest).1.lines } := by
  constructor
  · exact List.cons_ne_nil _ _
  · intro n hp hn
    cases n with
    | zero => exact absurd hp (Nat.lt_irrefl 0)
    | succ n =>
      rw [List.take_succ_cons, List.flatten_cons, openCount_append]
      exact open_of_more (Nat.lt_of_succ_lt_succ hn)
  · rw [List.flatten_cons, openCount_append]
    exact (cutOff_more _ rest).1

theorem flatMap_split (lines : List (List Char)) :
    (split lines).flatMap EntryLines.lines = lines := by
  induction lines using split.induct with
  | case1 => rw [split, List.flatMap_nil]
  | case2 line rest found ih =>
    rw [split, List.flatMap_cons, ih, List.cons_append]
    exact congrArg (line :: ·) (more_append _ rest)

theorem isShortest_split (lines : List (List Char)) : ∀ entry ∈ split lines, entry.IsShortest := by
  induction lines using split.induct with
  | case1 =>
    rw [split]
    exact List.forall_mem_nil _
  | case2 line rest found ih =>
    rw [split]
    exact List.forall_mem_cons.mpr ⟨isShortest_first line rest, ih⟩

/-- Only the last entry can run out of lines. -/
theorem cutOff_split (lines : List (List Char)) :
    ∀ entry ∈ (split lines).dropLast, entry.cutOff = false := by
  induction lines using split.induct with
  | case1 =>
    rw [split]
    exact List.forall_mem_nil _
  | case2 line rest found ih =>
    rw [split]
    cases h : split found.2 with
    | nil => exact List.forall_mem_nil _
    | cons next others =>
      rw [h] at ih
      rw [List.dropLast_cons_of_ne_nil (List.cons_ne_nil _ _)]
      refine List.forall_mem_cons.mpr ⟨?_, ih⟩
      cases hc : found.1.cutOff with
      | false => rfl
      | true =>
        have hn : found.2 = [] := (cutOff_more _ rest).2 hc
        rw [hn, split] at h
        cases h

/-- A line that closes what it opens is an entry by itself. -/
theorem IsShortest.eq_of_closed {entry : EntryLines} (h : entry.IsShortest) {line : List Char}
    (hl : entry.lines.head? = some line) (hc : openCount line ≤ 0) : entry = ⟨[line], false⟩ := by
  obtain ⟨lines, cutOff⟩ := entry
  obtain ⟨rest, rfl⟩ := List.head?_eq_some_iff.mp hl
  cases rest with
  | cons next others =>
    have ho := h.openBefore 1 Nat.one_pos (Nat.lt_add_of_pos_left (Nat.succ_pos _))
    rw [List.take_succ_cons, List.take_zero, List.flatten_singleton] at ho
    omega
  | nil =>
    have hf := h.cutOff_iff
    rw [List.flatten_singleton] at hf
    have : cutOff = false := by
      by_contra hn
      have := hf.mp (by simpa using hn)
      omega
    rw [this]

/-- The entries of an input. -/
def ofInput (input : String) : List EntryLines := split (Text.lines input.toList)

/-- The value that the entry gives the parameter, if it is a command that gives it one. -/
def setting? (entry : EntryLines) : Option Binary64 :=
  match Entry.read entry.text with
  | .setX value => Binary64.ofText? value
  | _ => none

end EntryLines

namespace Session

/-! ### What a session keeps -/

/-- The value of the parameter after some entries: that of the last one that gave it one. -/
def lastX (earlier : List EntryLines) : Binary64 :=
  (earlier.filterMap EntryLines.setting?).getLast?.getD .zero

/-- The value of the parameter at an entry of an input. -/
def xAt (input : String) (k : Nat) : Binary64 := lastX ((EntryLines.ofInput input).take k)

theorem lastX_concat (earlier : List EntryLines) (entry : EntryLines) :
    lastX (earlier ++ [entry]) = entry.setting?.getD (lastX earlier) := by
  rw [lastX, List.filterMap_append]
  cases h : entry.setting? with
  | none =>
    rw [List.filterMap_cons_none h, List.filterMap_nil, List.append_nil, Option.getD_none, lastX]
  | some value =>
    rw [List.filterMap_cons_some h, List.filterMap_nil, List.getLast?_concat, Option.getD_some,
      Option.getD_some]

/-- An entry changes the parameter if it gives it a value, and nothing else. -/
theorem execute_session (session : Session) (entry : EntryLines) :
    (session.execute entry.text).2 = ⟨entry.setting?.getD session.x⟩ := by
  rw [execute, EntryLines.setting?]
  cases Entry.read entry.text with
  | blank => rfl
  | formula text => rfl
  | setX value =>
    dsimp only
    cases Binary64.ofText? value <;> rfl

/-- The entries are shown one after the other, each with the parameter as the entries before it left
it. -/
theorem transcriptOf_lastX (earlier entries : List EntryLines) :
    transcriptOf ⟨lastX earlier⟩ entries =
      String.join (entries.mapIdx fun k entry => shown ⟨lastX (earlier ++ entries.take k)⟩ entry) ++
        ">> " := by
  -- an entry that was answered is one of the earlier ones for the rest
  induction entries generalizing earlier with
  | nil => rfl
  | cons entry rest ih =>
    have next : (execute ⟨lastX earlier⟩ entry.text).2 = ⟨lastX (earlier ++ [entry])⟩ := by
      rw [execute_session, lastX_concat]
    rw [transcriptOf, next, ih, List.mapIdx_cons, String.join_cons, List.take_zero,
      List.append_nil, String.append_assoc]
    simp only [List.take_succ_cons, List.append_assoc, List.singleton_append]

/-! ### Lines that can be read by themselves -/

/-- A text that can be read is no command and not blank. -/
theorem read_of_parse {text : List Char} {program : Program}
    (h : Program.parse (String.ofList text) = .ok program) :
    Entry.read (String.ofList text) = .formula (String.ofList (Text.trim text)) := by
  have ht := Program.parse_trim h
  rw [Entry.read, String.toList_ofList]
  split
  · next hn =>
    rw [hn] at ht
    have unreadable : ∃ error, Program.parse (String.ofList []) = .error error :=
      ⟨⟨⟨1, 1, 0⟩, "<end of input>", .missingExpression⟩, by decide +kernel⟩
    obtain ⟨error, he⟩ := unreadable
    rw [he] at ht
    cases ht
  · next value hv =>
    rw [hv] at ht
    have uses := Program.uses_of_parse ht
    have blank : Text.isBlank ':' = false := by decide
    have invalid : Token.measure ':' ('x' :: value) = (.invalid, 0) := rfl
    rw [Token.scan, String.toList_ofList, Token.scanFrom_token blank invalid] at uses
    exact absurd rfl (uses.whole _ List.mem_cons_self).2
  · rfl

/-- A line that can be read by itself is answered with the value of its program. -/
theorem shown_of_parse {line : List Char} {program : Program}
    (h : Program.parse (String.ofList line) = .ok program) (x : Binary64) :
    ∃ value, (program.runAt x).number = .ok value ∧
      shown ⟨x⟩ ⟨[line], false⟩ = ">> " ++ value.text ++ "\n" := by
  obtain ⟨tree, _, rfl⟩ := Program.parse_ok_iff.mp h
  obtain ⟨found, hv⟩ :=
    (Program.isExpression_postfixOrder tree).neverFails { x := x } { sprite := none }
  have number : (Program.runAt x tree.postfixOrder).number = .ok (found.getD .zero) := by
    rw [Outcome.number, Program.runAt, Program.run, hv]
    rfl
  have answered : answer x (String.ofList (Text.trim line)) = (found.getD .zero).text := by
    have evaluated : Program.evaluate { x := x } (String.ofList (Text.trim line)) =
        .ok (found.getD .zero) := by
      rw [Program.runAt] at number
      simp only [Program.evaluate, Program.parse_trim h, number]
      rfl
    simp only [answer, evaluated]
  refine ⟨found.getD .zero, number, ?_⟩
  have text : EntryLines.text ⟨[line], false⟩ = String.ofList line := by
    rw [EntryLines.text, List.flatten_singleton]
  have executed : (execute ⟨x⟩ (EntryLines.text ⟨[line], false⟩)).1 =
      some (found.getD .zero).text := by
    simp only [execute, text, read_of_parse h, answered]
  rw [shown, executed]
  rfl

end Session

/-- A session on a text ends with the text. It cuts the lines into entries, each of which ends with
the first line that leaves no parenthesis open or else with the input. What it shows are its prompts
and, for each entry, the answer with the parameter as the last of the earlier entries left it that
gave it a value. A line at the start of an entry that can be read by itself is the whole entry, and
the answer is its value. -/
theorem session_answers_entries (input : String) :
    (EntryLines.ofInput input).flatMap EntryLines.lines = Text.lines input.toList ∧
    (∀ entry ∈ EntryLines.ofInput input, entry.IsShortest) ∧
    (∀ entry ∈ (EntryLines.ofInput input).dropLast, entry.cutOff = false) ∧
    Dialogue.ofInput (Text.utf8Bytes input) =
      ⟨String.join ((EntryLines.ofInput input).mapIdx fun k entry =>
        Session.shown ⟨Session.xAt input k⟩ entry) ++ ">> ", none⟩ ∧
    ∀ k entry, (EntryLines.ofInput input)[k]? = some entry →
      ∀ line, entry.lines.head? = some line →
      ∀ program, Program.parse (String.ofList line) = .ok program →
        entry = ⟨[line], false⟩ ∧
        ∃ value, (program.runAt (Session.xAt input k)).number = .ok value ∧
          Session.shown ⟨Session.xAt input k⟩ entry = ">> " ++ value.text ++ "\n" := by
  refine ⟨EntryLines.flatMap_split _, EntryLines.isShortest_split _, EntryLines.cutOff_split _,
    ?_, ?_⟩
  · have shown := Session.transcriptOf_lastX [] (EntryLines.ofInput input)
    rw [Dialogue.ofInput_utf8Bytes, Session.transcript]
    exact congrArg (fun shown => Dialogue.mk shown none) shown
  · intro k entry hk line hl program hp
    have shortest := EntryLines.isShortest_split _ entry (List.mem_of_getElem? hk)
    have closed : EntryLines.openCount line ≤ 0 := Int.le_of_eq (EntryLines.openCount_of_parse hp)
    obtain rfl := shortest.eq_of_closed hl closed
    exact ⟨rfl, Session.shown_of_parse hp (Session.xAt input k)⟩

/-- The call takes two lines, and the last line is answered with the value that the parameter was
given. -/
theorem call_takes_two_lines :
    let input := "max(x,\n 3)\n:x 5\nx\n"
    let line := ['x', '\n']
    Dialogue.ofInput (Text.utf8Bytes input) = ⟨">> .. 3\n>> x = 5\n>> 5\n>> ", none⟩ ∧
      Program.parse (String.ofList line) = .ok [.var "x"] ∧
      ∃ x value, Binary64.ofText? "5" = some x ∧
        (Program.runAt x [.var "x"]).number = .ok value ∧
        Session.shown ⟨x⟩ ⟨[line], false⟩ = ">> " ++ value.text ++ "\n" := by
  intro input line
  have hp : Program.parse (String.ofList line) = .ok [.var "x"] := by decide +kernel
  have hshown : Session.transcript input = ">> .. 3\n>> x = 5\n>> 5\n>> " := by decide +kernel
  have hk : (EntryLines.ofInput input)[2]? = some ⟨[line], false⟩ := by decide +kernel
  have hx : Binary64.ofText? "5" = some (Session.xAt input 2) := by decide +kernel
  have answered := (session_answers_entries input).2.2.2.2 2 _ hk line rfl _ hp
  obtain ⟨-, value, hv, hs⟩ := answered
  refine ⟨?_, hp, _, value, hx, hv, hs⟩
  rw [Dialogue.ofInput_utf8Bytes, hshown]

end SpriteFormula
