import SpriteFormula.Bytecode.File
import SpriteFormula.Proofs.CanonicalBytes
import SpriteFormula.Proofs.LineEnds
import SpriteFormula.Proofs.RenderedLines

/-!
Listings of programs beside their bytes. The offset in a listing is where the instruction's bytes
stand in the encoded program, and the character behind it is the first of them. Each instruction has
a line of its own, unless a variable has a line break in its name, which is listed as it is.
-/

namespace SpriteFormula

/-! ### Offsets -/

/-- The bytes of an instruction start with its tag. -/
theorem Instruction.encode_starts {i : Instruction} {piece : List UInt8}
    (h : i.encode = .ok piece) : ∃ payload, piece = i.kind.tag :: payload := by
  unfold encode at h
  split at h
  · cases h
  · next payload _ =>
    cases h
    exact ⟨payload, rfl⟩

namespace Program

theorem encode_cons_ok {i : Instruction} {rest : Program} {bytes : List UInt8} :
    Program.encode (i :: rest) = .ok bytes ↔
      ∃ piece others, i.encode = .ok piece ∧ rest.encode = .ok others ∧
        bytes = piece ++ others := by
  rw [encode]
  constructor
  · intro h
    split at h
    · cases h
    · next piece hp =>
      split at h
      · cases h
      · next others ho =>
        cases h
        exact ⟨piece, others, hp, ho, rfl⟩
  · rintro ⟨piece, others, hp, ho, rfl⟩
    rw [hp]
    simp only [ho]

theorem encode_append_ok {first rest : Program} {bytes : List UInt8} :
    Program.encode (first ++ rest) = .ok bytes ↔
      ∃ front others, first.encode = .ok front ∧ rest.encode = .ok others ∧
        bytes = front ++ others := by
  induction first generalizing bytes with
  | nil => simp [encode]
  | cons i first ih =>
    rw [List.cons_append, encode_cons_ok]
    constructor
    · rintro ⟨piece, more, hp, hm, rfl⟩
      obtain ⟨front, others, hf, ho, rfl⟩ := ih.mp hm
      exact ⟨piece ++ front, others, encode_cons_ok.mpr ⟨piece, front, hp, hf, rfl⟩, ho,
        (List.append_assoc ..).symm⟩
    · rintro ⟨_, others, hc, ho, rfl⟩
      obtain ⟨piece, front, hp, hf, rfl⟩ := encode_cons_ok.mp hc
      exact ⟨piece, front ++ others, hp, ih.mpr ⟨front, others, hf, ho, rfl⟩,
        List.append_assoc ..⟩

/-- Behind the bytes of the instructions before it an instruction has its tag. -/
theorem encode_split {before after : Program} {i : Instruction} {bytes : List UInt8}
    (h : Program.encode (before ++ i :: after) = .ok bytes) :
    ∃ front through, before.encode = .ok front ∧ Program.encode (before ++ [i]) = .ok through ∧
      bytes[front.length]? = some i.kind.tag := by
  obtain ⟨front, others, hf, ho, rfl⟩ := encode_append_ok.mp h
  obtain ⟨piece, more, hp, -, rfl⟩ := encode_cons_ok.mp ho
  have single : Program.encode [i] = .ok piece :=
    encode_cons_ok.mpr ⟨piece, [], hp, rfl, (List.append_nil piece).symm⟩
  refine ⟨front, front ++ piece, hf, encode_append_ok.mpr ⟨front, piece, hf, single, rfl⟩, ?_⟩
  obtain ⟨payload, rfl⟩ := Instruction.encode_starts hp
  rw [List.getElem?_append_right (Nat.le_refl _), Nat.sub_self]
  rfl

theorem map_snd_offsetsFrom (program : Program) (offset : Nat) :
    (program.offsetsFrom offset).map Prod.snd = program := by
  induction program generalizing offset with
  | nil => rfl
  | cons i rest ih => rw [offsetsFrom, List.map_cons, ih]

/-- The offset of an instruction adds up what those before it take. -/
theorem getElem_offsetsFrom {program : Program} {k : Nat} {i : Instruction}
    (h : program[k]? = some i) (offset : Nat) :
    (program.offsetsFrom offset)[k]? =
      some (offset + ((program.take k).map Instruction.encodedLength).sum, i) := by
  induction program generalizing offset k with
  | nil => cases h
  | cons j rest ih =>
    cases k with
    | zero =>
      cases h
      rfl
    | succ k =>
      rw [List.getElem?_cons_succ] at h
      rw [offsetsFrom, List.getElem?_cons_succ, ih h, List.take_succ_cons, List.map_cons,
        List.sum_cons, Nat.add_assoc]

end Program

/-- The lines for the instructions, without their breaks. -/
def Program.entries (program : Program) : List String :=
  (program.offsetsFrom 0).map fun entry => entry.2.listed entry.1

theorem Program.listing_eq (name : String) (program : Program) :
    program.listing name =
      "Disassembly of '" ++ name ++ "'\n" ++ String.join (program.entries.map (· ++ "\n")) := by
  unfold listing entries
  rw [List.map_map]
  exact congrArg _ (congrArg _ (List.map_congr_left fun _ _ => Eq.refl _))

/-- The line of a listing for an instruction: an offset in decimal, with at least four digits, the
byte there as a character, and what the instruction is. -/
def Listing.entry (offset : Nat) (byte : UInt8) (i : Instruction) : String :=
  "\t" ++ String.ofList ((Nat.toDigits 10 offset).leftpad 4 '0') ++ "  " ++
    String.singleton (Char.ofNat byte.toNat) ++ "  " ++ i.text

/-- A listing of a program that can be encoded has an entry for each instruction, in order. Its
offset is the number of bytes that the instructions before it are encoded as, its character is the
byte that the program has there, and as many bytes farther as the instruction takes is the next
offset, or the end of the bytes. -/
theorem listing_follows_bytes (name : String) {program : Program} {bytes : List UInt8}
    (encoded : program.encode = .ok bytes) :
    ∃ entries : List String,
      program.listing name =
        "Disassembly of '" ++ name ++ "'\n" ++ String.join (entries.map (· ++ "\n")) ∧
      entries.length = program.length ∧
      ∀ (k : Nat) (i : Instruction), program[k]? = some i → ∃ before through byte,
        Program.encode (program.take k) = .ok before ∧
        Program.encode (program.take (k + 1)) = .ok through ∧
        bytes[before.length]? = some byte ∧
        entries[k]? = some (Listing.entry before.length byte i) ∧
        through.length = before.length + i.encodedLength ∧
        (k + 1 = program.length → through.length = bytes.length) := by
  refine ⟨program.entries, program.listing_eq name, ?_, ?_⟩
  · rw [Program.entries, List.length_map, ← List.length_map Prod.snd, Program.map_snd_offsetsFrom]
  · intro k i hi
    have next : program.take (k + 1) = program.take k ++ [i] := by
      rw [List.take_add_one, hi]
      rfl
    have whole : program = program.take k ++ i :: program.drop (k + 1) := by
      rw [← List.singleton_append, ← List.append_assoc, ← next, List.take_append_drop]
    rw [whole] at encoded
    obtain ⟨before, through, hbefore, hthrough, hbyte⟩ := Program.encode_split encoded
    rw [← next] at hthrough
    have hlength := Program.length_encode hbefore
    have hnext := Program.length_encode hthrough
    refine ⟨before, through, i.kind.tag, hbefore, hthrough, hbyte, ?_, ?_, ?_⟩
    · rw [Program.entries, List.getElem?_map, Program.getElem_offsetsFrom hi, Nat.zero_add,
        ← hlength]
      rfl
    · rw [hnext, next, List.map_append, List.sum_append, ← hlength]
      rfl
    · intro last
      rw [last, List.take_length] at hnext
      rw [Program.length_encode encoded, ← whole, hnext]

/-- Behind a letter of two bytes and a constant of eight the power is listed where its byte is. -/
theorem power_is_listed_at_its_byte :
    let program : Program :=
      [.constant .pi, .var "x", .var "é", .constant .one, .operator .multiply, .operator .pow]
    let bytes : List UInt8 :=
      [0x70, 0x78, 0x76, 2, 0xc3, 0xa9, 0x23, 0x3f, 0xf0, 0, 0, 0, 0, 0, 0, 0x2a, 0x5e]
    program.encode = .ok bytes ∧ bytes[16]? = some 0x5e ∧
      ∃ entries : List String,
        program.listing "é" =
          "Disassembly of 'é'\n" ++ String.join (entries.map (· ++ "\n")) ∧
        entries.length = 6 ∧ entries[5]? = some "\t0016  ^  Pow" := by
  intro program bytes
  have encoded : program.encode = .ok bytes := by decide +kernel
  obtain ⟨entries, listed, length, each⟩ := listing_follows_bytes "é" encoded
  refine ⟨encoded, rfl, entries, listed, length, ?_⟩
  obtain ⟨before, _, byte, hbefore, -, hbyte, hentry, -⟩ := each 5 (.operator .pow) rfl
  have front : Program.encode (program.take 5) = .ok (bytes.take 16) := by decide +kernel
  obtain rfl := Except.ok.inj (hbefore.symm.trans front)
  cases hbyte
  rw [hentry]
  decide +kernel

/-! ### Lines -/

namespace Text

theorem not_mem_quoted (name : String) : '\n' ∉ (quoted name).toList := by
  have escape : ∀ c ∈ name.toList, '\n' ∉ quotedChar c := by
    intro c _ hm
    by_cases hq : c = '"'
    · rw [hq] at hm
      exact absurd hm (by decide)
    · exact (enclosed_quotedChar hq _ hm).2.2 rfl
  rw [toList_quoted]
  simpa using escape

end Text

theorem Binary64.not_mem_text (value : Binary64) : '\n' ∉ value.text.toList := by
  unfold text
  split
  · decide
  · next hn =>
    have magnitude : '\n' ∉ value.magnitudeText := by
      by_cases hi : value.isInfinite
      · rw [magnitudeText, if_pos hi]
        decide
      · have hf : value.isFinite := by
          simp only [isNaN, isInfinite, isFinite, decide_eq_true_eq, beq_iff_eq] at *
          omega
        exact fun hm => (Text.unbroken_numeral (isNumeral_magnitudeText hf) _ hm).2 rfl
    rw [String.toList_ofList]
    split
    · simpa using magnitude
    · exact magnitude

namespace Instruction

/-- How many line breaks an instruction is listed with: those in the name of a variable. -/
def listedBreaks : Instruction → Nat
  | .var name => name.toList.count '\n'
  | _ => 0

theorem count_text (i : Instruction) : i.text.toList.count '\n' = i.listedBreaks := by
  cases i with
  | constant value =>
    rw [text, String.toList_append, List.count_append,
      List.count_eq_zero.mpr value.not_mem_text]
    rfl
  | var name =>
    rw [text, String.toList_append, List.count_append]
    exact Nat.zero_add _
  | operator op => cases op <;> rfl
  | negative => rfl
  | function f => rcases f with f | f <;> cases f <;> rfl
  | directive d =>
    cases d with
    | var name =>
      rw [text, Directive.text, String.toList_append, List.count_append,
        List.count_eq_zero.mpr (Text.not_mem_quoted name)]
      rfl
    | _ => rfl

/-- A line of a listing has the breaks of its instruction only. -/
theorem count_listed (offset : Nat) (i : Instruction) :
    (i.listed offset).toList.count '\n' = i.listedBreaks := by
  have digits : '\n' ∉ (Nat.toDigits 10 offset).leftpad 4 '0' := by
    rw [List.leftpad, List.mem_append, not_or, List.mem_replicate]
    exact ⟨by simp, fun hm => absurd (Decimal.isDigit_of_mem_toDigits hm) (by decide)⟩
  have tag : '\n' ≠ i.kind.tagChar := by
    generalize i.kind = kind
    cases kind <;> decide
  have tab : "\t".toList.count '\n' = 0 := rfl
  have gap : "  ".toList.count '\n' = 0 := rfl
  simp only [listed, String.toList_append, List.count_append, String.toList_ofList,
    String.toList_singleton, tab, List.count_eq_zero.mpr digits, gap,
    List.count_singleton, beq_eq_false_iff_ne.mpr (Ne.symm tag), count_text, Bool.false_eq_true,
    if_false]
  omega

end Instruction

/-- The offset and the tag that a line of a listing shows. -/
def Listing.read? : List Char → Option (Nat × Char)
  | '\t' :: rest =>
    match rest.dropWhile Char.isDigit with
    | ' ' :: ' ' :: tag :: _ => some (Decimal.digitsValue (rest.takeWhile Char.isDigit), tag)
    | _ => none
  | _ => none

theorem Listing.read_listed (offset : Nat) (i : Instruction) (ending : List Char) :
    read? ((i.listed offset).toList ++ ending) = some (offset, i.kind.tagChar) := by
  have digits : ∀ c ∈ (Nat.toDigits 10 offset).leftpad 4 '0', c.isDigit := by
    rw [List.leftpad, List.forall_mem_append]
    refine ⟨fun c hc => ?_, fun c hc => Decimal.isDigit_of_mem_toDigits hc⟩
    rw [List.eq_of_mem_replicate hc]
    rfl
  have line : (i.listed offset).toList ++ ending = '\t' ::
      ((Nat.toDigits 10 offset).leftpad 4 '0' ++
        ' ' :: ' ' :: i.kind.tagChar :: (' ' :: ' ' :: i.text.toList ++ ending)) := by
    simp [Instruction.listed]
  rw [line, read?, List.dropWhile_append_of_pos digits, List.takeWhile_append_of_pos digits]
  rw [List.dropWhile_cons_of_neg (by decide), List.takeWhile_cons_of_neg (by decide)]
  rw [List.append_nil, Decimal.digitsValue_leftpad, Decimal.digitsValue_toDigits]
  rfl

namespace Program

open Text Layout

variable {name : String}

/-- A listing is its head and a line for each instruction, each with a line break behind it. -/
theorem toList_listing (name : String) (program : Program) :
    (program.listing name).toList =
      ((("Disassembly of '" ++ name ++ "'").toList ++ ['\n']) ::
        program.entries.map fun entry => entry.toList ++ ['\n']).flatten := by
  have head : "Disassembly of '" ++ name ++ "'\n" = "Disassembly of '" ++ name ++ "'" ++ "\n" := by
    rw [String.append_assoc, String.append_assoc, String.append_assoc]
    rfl
  rw [listing_eq, head, String.toList_append, String.toList_append, String.toList_join,
    List.flatMap_map, List.flatten_cons, List.flatMap_def]
  simp only [String.toList_append]
  rfl

/-- Each line has its own break, and those of its instruction. -/
theorem count_entries (program : Program) :
    ((program.entries.map fun entry => entry.toList ++ ['\n']).map (List.count '\n')).sum =
      program.length + (program.map Instruction.listedBreaks).sum := by
  have instructions := program.map_snd_offsetsFrom 0
  unfold entries
  generalize program.offsetsFrom 0 = places at instructions ⊢
  subst instructions
  induction places with
  | nil => rfl
  | cons place places ih =>
    have own : ['\n'].count '\n' = 1 := rfl
    simp only [List.map_cons, List.sum_cons, List.length_cons, List.count_append, own,
      Instruction.count_listed] at ih ⊢
    omega

theorem not_mem_head (hn : '\n' ∉ name.toList) :
    '\n' ∉ ("Disassembly of '" ++ name ++ "'").toList := by
  rw [String.toList_append, String.toList_append, List.mem_append, List.mem_append, not_or, not_or]
  exact ⟨⟨by decide, hn⟩, by decide⟩

/-- A listing has a break for its head and one for each instruction, and those in names. -/
theorem count_listing (hn : '\n' ∉ name.toList) (program : Program) :
    (program.listing name).toList.count '\n' =
      program.length + 1 + (program.map Instruction.listedBreaks).sum := by
  have head : (("Disassembly of '" ++ name ++ "'").toList ++ ['\n']).count '\n' = 1 := by
    rw [List.count_append, List.count_eq_zero.mpr (not_mem_head hn)]
    rfl
  have each := program.count_entries
  rw [toList_listing, List.count_flatten, List.map_cons, List.sum_cons, head, each]
  omega

theorem mem_of_mem_offsetsFrom {program : Program} {offset : Nat} {place : Nat × Instruction}
    (h : place ∈ program.offsetsFrom offset) : place.2 ∈ program := by
  rw [← program.map_snd_offsetsFrom offset]
  exact List.mem_map_of_mem h

/-- Without breaks in names the lines of a listing are its head and those of the instructions. -/
theorem lines_listing (hn : '\n' ∉ name.toList) {program : Program}
    (hb : ∀ i ∈ program, i.listedBreaks = 0) :
    lines (program.listing name).toList =
      (("Disassembly of '" ++ name ++ "'").toList ++ ['\n']) ::
        program.entries.map fun entry => entry.toList ++ ['\n'] := by
  have ended {body : List Char} (h : '\n' ∉ body) : IsEnded (body ++ ['\n']) :=
    ⟨body, fun c hc => ne_of_mem_of_not_mem hc h, rfl⟩
  rw [toList_listing]
  apply lines_flatten
  unfold entries
  rw [List.forall_mem_cons, List.forall_mem_map, List.forall_mem_map]
  refine ⟨ended (not_mem_head hn), fun place hm => ended ?_⟩
  rw [← List.count_eq_zero, Instruction.count_listed]
  exact hb _ (mem_of_mem_offsetsFrom hm)

theorem sum_listedBreaks_eq_zero_iff {program : Program} :
    (program.map Instruction.listedBreaks).sum = 0 ↔
      ∀ var, .var var ∈ program → '\n' ∉ var.toList := by
  rw [List.sum_eq_zero_iff_forall_eq_nat, List.forall_mem_map]
  constructor
  · intro h var hm
    exact List.count_eq_zero.mp (h _ hm)
  · intro h i hm
    cases i with
    | var var => exact List.count_eq_zero.mpr (h var hm)
    | _ => rfl

/-- Each line gives back the offset and the tag of its instruction. -/
theorem read_entries (program : Program) :
    (program.entries.map fun entry => entry.toList ++ ['\n']).map Listing.read? =
      (program.offsetsFrom 0).map fun (offset, i) => some (offset, i.kind.tagChar) := by
  simp only [entries, List.map_map, Function.comp_def, Listing.read_listed]

/-- No name that a text is read with has a line break in it. -/
theorem unbroken_of_reading {text : String} {program : Program}
    (read : parse text = .ok program ∨ parseDeclarations text = .ok program) {var : String}
    (hm : .var var ∈ program) : '\n' ∉ var.toList := by
  have readable : ∃ tree : Expr, .var var ∈ tree.postfixOrder ∧
      ∀ i ∈ tree.postfixOrder, i.Readable := by
    rcases read with formula | declarations
    · obtain ⟨tree, hd, rfl⟩ := parse_ok_iff.mp formula
      exact ⟨tree, hm, (Formula.readable_of_derives hd fun _ ht => Token.shaped_of_mem ht).1⟩
    · obtain ⟨statements, rfl, hs⟩ := statements_of_parse declarations
      obtain ⟨statement, hstatement, hm⟩ := List.mem_flatMap.mp hm
      rcases List.mem_append.mp hm with hm | hm
      · exact ⟨statement.value, hm, (hs _ hstatement).value⟩
      · cases List.mem_singleton.mp hm
  obtain ⟨tree, hv, hr⟩ := readable
  have named : Token.NamesVariable var := hr _ hv
  exact fun hc => (unbroken_name (Token.isName_of_scan named.1) _ hc).2 rfl

end Program

/-- The instructions of a program are those that its bytes hold. -/
theorem Layout.Splits.mem_iff {bytes : List UInt8} {program : Program} (h : Splits bytes program)
    {i : Instruction} : i ∈ program ↔ ∃ piece, Spells piece i ∧ Holds bytes piece := by
  constructor
  · intro hm
    induction h with
    | nil => cases hm
    | @cons piece rest j program hs hrest ih =>
      rcases List.mem_cons.mp hm with rfl | hm
      · exact ⟨piece, hs, [], [], rest, .nil, rfl⟩
      · obtain ⟨found, hf, before, front, after, hb, rfl⟩ := ih hm
        exact ⟨found, hf, piece ++ before, j :: front, after, .cons hs hb,
          by simp only [List.append_assoc]⟩
  · rintro ⟨piece, hs, before, front, after, hb, rfl⟩
    have hd := Program.decodeFrom_of_splits h 0
    rw [List.append_assoc, decodeFrom_splits hb, decodeFrom_spells hs] at hd
    cases hr : Program.decodeFrom (0 + before.length + piece.length) after with
    | error error =>
      rw [hr] at hd
      cases hd
    | ok others =>
      rw [hr] at hd
      cases hd
      exact List.mem_append_right front List.mem_cons_self

theorem Program.splits_of_ofFile {content : List UInt8} {program : Program}
    (h : ofFile content = .ok program) : Layout.Splits (content.drop magic.length) program := by
  by_cases hp : magic <+: content
  · obtain ⟨body, rfl⟩ := hp
    rw [ofFile_magic] at h
    rw [List.drop_left, ← decode_ok_iff]
    cases hd : decode body with
    | error error =>
      rw [hd] at h
      cases h
    | ok found =>
      rw [hd] at h
      cases h
      rfl
  · rw [ofFile_of_not_magic hp] at h
    cases h

/-- The listing of a loaded file has one line break behind its head and one behind each instruction,
and besides them those in the names of variables. So it has a line for each instruction exactly if
the file has no variable with a line break in its name. Each line then gives back the offset and the
tag of its instruction. A program that was read from text is always listed so. -/
theorem listing_breaks_in_names {name : String} (unbroken : '\n' ∉ name.toList)
    {content : List UInt8} {program : Program} (loaded : Program.ofFile content = .ok program) :
    let breaks := (program.listing name).toList.count '\n'
    breaks = program.length + 1 + (program.map Instruction.listedBreaks).sum ∧
    (breaks = program.length + 1 ↔ ∀ piece var, Layout.Spells piece (.var var) →
      Layout.Holds (content.drop Program.magic.length) piece → '\n' ∉ var.toList) ∧
    (breaks = program.length + 1 → ∃ head lines,
      Text.lines (program.listing name).toList = head :: lines ∧
      lines.map Listing.read? =
        (program.offsetsFrom 0).map fun (offset, i) => some (offset, i.kind.tagChar)) ∧
    ∀ text, Program.parse text = .ok program ∨ Program.parseDeclarations text = .ok program →
      breaks = program.length + 1 := by
  intro breaks
  have count : breaks = program.length + 1 + (program.map Instruction.listedBreaks).sum :=
    Program.count_listing unbroken program
  have plain : breaks = program.length + 1 ↔ ∀ var, .var var ∈ program → '\n' ∉ var.toList := by
    rw [← Program.sum_listedBreaks_eq_zero_iff]
    omega
  refine ⟨count, ?_, fun one => ?_, fun text read => ?_⟩
  · rw [plain]
    simp only [(Program.splits_of_ofFile loaded).mem_iff]
    constructor
    · intro h piece var hs hh
      exact h var ⟨piece, hs, hh⟩
    · rintro h var ⟨piece, hs, hh⟩
      exact h piece var hs hh
  · have hb : ∀ i ∈ program, i.listedBreaks = 0 := by
      have none : (program.map Instruction.listedBreaks).sum = 0 := by omega
      rwa [List.sum_eq_zero_iff_forall_eq_nat, List.forall_mem_map] at none
    exact ⟨_, _, Program.lines_listing unbroken hb, program.read_entries⟩
  · exact plain.mpr fun var hm => Program.unbroken_of_reading read hm

/-- The bytes of the name are a letter, a line break and a letter, and the line is broken in it. -/
theorem broken_name_breaks_listing :
    let content : List UInt8 := [0x4f, 0x50, 0x76, 3, 0x61, 0x0a, 0x62]
    let program : Program := [.var "a\nb"]
    Program.ofFile content = .ok program ∧
      program.listing "f" = "Disassembly of 'f'\n\t0000  v  Variable a\nb\n" ∧
      (program.listing "f").toList.count '\n' = 3 ∧
      (program.listing "f").toList.count '\n' ≠ program.length + 1 := by
  intro content program
  have loaded : Program.ofFile content = .ok program := by decide +kernel
  have head : '\n' ∉ "f".toList := by decide
  obtain ⟨count, -⟩ := listing_breaks_in_names head loaded
  refine ⟨loaded, by decide +kernel, count, ?_⟩
  rw [count]
  decide

end SpriteFormula
