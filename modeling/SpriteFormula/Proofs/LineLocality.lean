import Mathlib.Data.List.TakeWhile
import SpriteFormula.Proofs.ReadingBalance
import SpriteFormula.Proofs.RefusalPlaces
import SpriteFormula.Proofs.TextPlaces

/-!
Declarations are read line by line: of a text behind complete lines the same is read as of it alone,
and its errors are the same ones farther down. Lines that assign to nothing may stand anywhere.
-/

namespace SpriteFormula

open Text

def ParseError.below (text : String) (error : ParseError) : ParseError :=
  { error with location := error.location.below text }

/-- A line that assigns to nothing: a blank one, a remark, or one with no part of the sprite left of
an assignment sign. -/
inductive Line.Idle (line : List Char) : Prop where
  | blank : (∀ c ∈ line, isBlank c) → Idle line
  | remark : (line.dropWhile isBlank).head? = some '#' → Idle line
  | unrecognized : Directive.readTarget? (tokens line) = none → Idle line

/-! ### Places of errors -/

theorem Refusal.locate_append_right {first : String} (h : Complete first.toList) (second : String)
    (refusal : Refusal) (offset length : Nat) :
    refusal.locate (first ++ second) (first.utf8ByteSize + offset) length =
      (refusal.locate second offset length).below first := by
  simp only [locate, ParseError.below, Nat.add_assoc, Location.of_append_right h]

/-- What is reported about a line stands in the line. -/
theorem Refusal.Within.locate_append_left {refusal : Refusal} {content : List Char}
    (h : refusal.Within (Token.scanFrom 0 content)) {first : String} {offset : Nat}
    (hl : offset + byteLength content ≤ first.utf8ByteSize) (second : String) :
    refusal.locate (first ++ second) offset (byteLength content) =
      refusal.locate first offset (byteLength content) := by
  have hs : (refusal.place.head?.getD (.endOfInput (byteLength content))).start ≤
      byteLength content := by
    cases hp : refusal.place with
    | nil => exact Nat.le_refl _
    | cons token rest =>
      have hm : token ∈ Token.scanFrom 0 content :=
        h.place.subset (by rw [hp]; exact List.mem_cons_self)
      have hb := (Token.bounds_of_mem hm).2
      rw [Token.stop, Nat.zero_add] at hb
      exact Nat.le_trans (Nat.le_add_right _ _) hb
  simp only [locate]
  rw [Location.of_append_left (by omega)]

namespace Text

theorem byteLength_withoutBreak_le (line : List Char) :
    byteLength (withoutBreak line) ≤ byteLength line := by
  obtain ⟨ending, he, _⟩ := exists_dropEndWhile (fun c => c = '\r' || c = '\n') line
  have hl := congrArg byteLength he
  rw [byteLength_append] at hl
  exact Nat.le.intro hl.symm

end Text

/-! ### Lines one after the other -/

namespace Line

theorem read_error {line : List Char} {refusal : Refusal} (h : read line = .error refusal) :
    refusal.Within (tokens line) := by
  unfold read at h
  dsimp only at h
  split at h
  · cases h
  · split at h
    · next found hf =>
      cases h
      unfold Assignment.ofTokens? at hf
      split at hf
      · cases hf
      · next directive rest ht =>
        split at hf
        · next issue hv =>
          cases hf
          exact (Assignment.readValue_within hv).trans (Directive.readTarget_some ht).1
        · cases hf
    · cases h
    · cases h

/-- Lines of a text are read no differently when another text stands behind it. -/
theorem readFrom_append_left {first : String} (second : String) {offset : Nat}
    {lines : List (List Char)} (h : offset + byteLength lines.flatten ≤ first.utf8ByteSize) :
    readFrom (first ++ second) offset lines = readFrom first offset lines := by
  induction lines generalizing offset with
  | nil => rfl
  | cons line rest ih =>
    rw [List.flatten_cons, byteLength_append] at h
    rw [readFrom, readFrom, ih (by omega)]
    cases hr : read line with
    | error refusal =>
      have hl := byteLength_withoutBreak_le line
      have hin : offset + byteLength (withoutBreak line) ≤ first.utf8ByteSize := by omega
      have hplace := (read_error hr).locate_append_left hin second
      simp only [hplace]
    | ok result => rfl

/-- Lines of a text are read the same behind complete lines, their errors farther down. -/
theorem readFrom_append_right {first : String} (h : Complete first.toList) (second : String)
    (offset : Nat) (lines : List (List Char)) :
    readFrom (first ++ second) (first.utf8ByteSize + offset) lines =
      (readFrom second offset lines).mapError (ParseError.below first) := by
  induction lines generalizing offset with
  | nil => rfl
  | cons line rest ih =>
    rw [readFrom, readFrom, Nat.add_assoc, ih]
    cases read line with
    | error refusal => simp only [Refusal.locate_append_right h, Except.mapError]
    | ok result => cases readFrom second (offset + byteLength line) rest <;> rfl

theorem readFrom_append (text : String) (offset : Nat) (lines others : List (List Char)) :
    readFrom text offset (lines ++ others) =
      match readFrom text offset lines with
      | .error error => .error error
      | .ok reads =>
        (readFrom text (offset + byteLength lines.flatten) others).map (reads ++ ·) := by
  induction lines generalizing offset with
  | nil =>
    rw [List.nil_append, readFrom, List.flatten_nil, byteLength, Nat.add_zero]
    cases readFrom text offset others <;> rfl
  | cons line rest ih =>
    rw [List.cons_append, readFrom, readFrom, ih, List.flatten_cons, byteLength_append,
      ← Nat.add_assoc]
    cases read line with
    | error refusal => rfl
    | ok result =>
      cases readFrom text (offset + byteLength line) rest with
      | error error => rfl
      | ok reads =>
        cases readFrom text (offset + byteLength line + byteLength rest.flatten) others <;> rfl

/-- A line that assigns to nothing can always be read. -/
theorem Idle.read {line : List Char} (h : Idle line) :
    ∃ result, Line.read line = .ok result ∧ result.assignment? = none := by
  have passed (hc : ((trim line).isEmpty || (trim line).head? = some '#') = true) :
      ∃ result, Line.read line = .ok result ∧ result.assignment? = none := by
    refine ⟨.blank, ?_, rfl⟩
    simp only [Line.read, hc, if_true]
  cases h with
  | blank hb =>
    apply passed
    rw [trim, List.dropWhile_eq_nil_iff.mpr hb]
    rfl
  | remark hr =>
    apply passed
    cases hd : line.dropWhile isBlank with
    | nil =>
      rw [hd] at hr
      cases hr
    | cons c rest =>
      rw [hd] at hr
      cases hr
      obtain ⟨others, ht⟩ := trim_cons (c := '#') (by decide) rest
      have htrim : trim line = '#' :: others := by
        rw [← ht, trim, trim, hd, List.dropWhile_cons_of_neg (by decide)]
      rw [htrim]
      rfl
  | unrecognized ht =>
    by_cases hc : ((trim line).isEmpty || (trim line).head? = some '#') = true
    · exact passed hc
    · refine ⟨.skipped (String.ofList (trim line)), ?_, rfl⟩
      rw [tokens] at ht
      simp only [Line.read, if_neg hc, Assignment.ofTokens?, ht]

/-- Lines that assign to nothing are read as no assignments. -/
theorem readFrom_of_idle {lines : List (List Char)} (h : ∀ line ∈ lines, Idle line) (text : String)
    (offset : Nat) :
    ∃ reads, readFrom text offset lines = .ok reads ∧ reads.filterMap assignment? = [] := by
  induction lines generalizing offset with
  | nil => exact ⟨[], rfl, rfl⟩
  | cons line rest ih =>
    rw [List.forall_mem_cons] at h
    obtain ⟨result, hr, hn⟩ := h.1.read
    obtain ⟨reads, ho, hreads⟩ := ih h.2 (offset + byteLength line)
    refine ⟨result :: reads, ?_, ?_⟩
    · simp only [readFrom, hr, ho]
    · rw [List.filterMap_cons_none hn, hreads]

end Line

/-! ### Texts -/

namespace Program

/-- What is read of two texts put together, the first of complete lines, is what is read of each. -/
theorem parseDeclarations_append {first : String} (h : Complete first.toList) (second : String) :
    parseDeclarations (first ++ second) =
      match parseDeclarations first, parseDeclarations second with
      | .ok program, .ok others => .ok (program ++ others)
      | .ok _, .error error => .error (error.below first)
      | .error error, _ => .error error := by
  have hl : byteLength (lines first.toList).flatten = first.utf8ByteSize := by
    rw [flatten_lines, byteLength_toList]
  have hin : 0 + byteLength (lines first.toList).flatten ≤ first.utf8ByteSize := by
    rw [Nat.zero_add, hl]
  have hleft := Line.readFrom_append_left second hin
  have hright := Line.readFrom_append_right h second 0 (lines second.toList)
  rw [Nat.add_zero] at hright
  simp only [parseDeclarations, Assignment.parse, String.toList_append, lines_append h,
    Line.readFrom_append, hleft, Nat.zero_add, hl, hright]
  cases Line.readFrom first 0 (lines first.toList) with
  | error error => rfl
  | ok reads =>
    cases Line.readFrom second 0 (lines second.toList) with
    | error error => rfl
    | ok others =>
      simp only [Except.map, Except.mapError, List.filterMap_append, List.flatMap_append]

theorem parseDeclarations_of_idle {text : String}
    (h : ∀ line ∈ lines text.toList, Line.Idle line) : parseDeclarations text = .ok [] := by
  obtain ⟨reads, hr, hn⟩ := Line.readFrom_of_idle h text 0
  simp only [parseDeclarations, Assignment.parse, hr, Except.map, hn, List.flatMap_nil]

/-- Lines that assign to nothing may stand behind any complete lines. -/
theorem parseDeclarations_insert_idle {first idle : String} (h : Complete first.toList)
    (hi : Complete idle.toList) (hn : ∀ line ∈ lines idle.toList, Line.Idle line)
    (second : String) (program : Program) :
    parseDeclarations (first ++ idle ++ second) = .ok program ↔
      parseDeclarations (first ++ second) = .ok program := by
  have hc : Complete (first ++ idle).toList := by
    rw [String.toList_append]
    exact h.append hi
  rw [parseDeclarations_append hc, parseDeclarations_append h idle,
    parseDeclarations_of_idle hn, parseDeclarations_append h second]
  cases parseDeclarations first with
  | error error => rfl
  | ok found =>
    cases parseDeclarations second with
    | error error => exact ⟨nofun, nofun⟩
    | ok others => simp only [List.append_nil]

end Program

/-- Of declarations behind complete lines the same is read as of them alone, and behind lines that
cannot be read nothing is read: the error is that of these lines, or else the error of the others,
which stands as many lines and bytes farther down as there are in front of them. Blank lines,
remarks and lines that assign to nothing known make no difference between any two lines. -/
theorem declarations_read_line_by_line {first : String} (h : Complete first.toList)
    (second : String) :
    (Program.parseDeclarations (first ++ second) =
      match Program.parseDeclarations first, Program.parseDeclarations second with
      | .ok program, .ok others => .ok (program ++ others)
      | .ok _, .error error => .error (error.below first)
      | .error error, _ => .error error) ∧
    ∀ idle : String, Complete idle.toList → (∀ line ∈ lines idle.toList, Line.Idle line) →
      ∀ program, Program.parseDeclarations (first ++ idle ++ second) = .ok program ↔
        Program.parseDeclarations (first ++ second) = .ok program :=
  ⟨Program.parseDeclarations_append h second,
    fun _ hi hn program => Program.parseDeclarations_insert_idle h hi hn second program⟩

/-- A stray parenthesis behind two lines and in front of none, with a remark let in between. -/
theorem stray_parenthesis_moves_down :
    let first := "# π\r\nsprite.Animation = 1\n"
    let second := "sprite.Hitbox.Top = )"
    let idle := "speed = 2\n"
    Complete first.toList ∧
      Program.parseDeclarations first = .ok [.constant .one, .directive .animation] ∧
      Program.parseDeclarations second = .error ⟨⟨1, 21, 20⟩, ")", .strayClosing⟩ ∧
      Program.parseDeclarations (first ++ second) = .error ⟨⟨3, 21, 47⟩, ")", .strayClosing⟩ ∧
      Program.parseDeclarations (first ++ idle ++ "") =
        .ok [.constant .one, .directive .animation] := by
  intro first second idle
  have hc : Complete first.toList := by decide
  have hf : Program.parseDeclarations first = .ok [.constant .one, .directive .animation] := by
    decide +kernel
  have hs : Program.parseDeclarations second = .error ⟨⟨1, 21, 20⟩, ")", .strayClosing⟩ := by
    decide +kernel
  have happend := (declarations_read_line_by_line hc second).1
  rw [hf, hs] at happend
  have hidle : ∀ line ∈ lines idle.toList, Line.Idle line := by
    have hl : lines idle.toList = ["speed = 2\n".toList] := by decide
    rw [hl, List.forall_mem_singleton]
    exact .unrecognized (by decide +kernel)
  refine ⟨hc, hf, hs, happend.trans (by decide), ?_⟩
  rw [(declarations_read_line_by_line hc "").2 idle (by decide) hidle]
  exact hf

end SpriteFormula
