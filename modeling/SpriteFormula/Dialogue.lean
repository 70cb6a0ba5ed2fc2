import SpriteFormula.Directory
import SpriteFormula.Text.Utf8
import SpriteFormula.Transcript

/-!
An interactive session as it goes on: a loop that asks for a line, and inside it a loop that asks
for more lines while more parentheses were opened than closed. The input is bytes, and a line that
is no text ends the session.
-/

namespace SpriteFormula

/-- The lines of bytes, each with its line break. -/
def Text.byteLines : List UInt8 → List (List UInt8)
  | [] => []
  | b :: rest =>
    if b = 10 then [b] :: byteLines rest
    else
      match byteLines rest with
      | [] => [[b]]
      | line :: others => (b :: line) :: others

/-- What a session shows, and the fault that ended it before the end of its input, if one did. -/
structure Dialogue where
  shown : String
  fault : Option FileFault
  deriving DecidableEq, Repr

namespace Dialogue

/-- An entry once it is complete: its text, how often another line of it was asked for, and the
lines after it. -/
structure Completed where
  text : List Char
  asked : Nat
  left : Except FileFault (List (List UInt8))

/-- Asks for lines while more parentheses were opened than closed. -/
def complete (opened closed : Nat) (text : List Char) (lines : List (List UInt8)) : Completed :=
  if closed < opened then
    match lines with
    | [] => ⟨text, 1, .ok []⟩
    | line :: rest =>
      match Text.ofUtf8? line with
      | none => ⟨text, 1, .error .notText⟩
      | some more =>
        let found := complete (opened + more.toList.count '(') (closed + more.toList.count ')')
          (text ++ more.toList) rest
        { found with asked := found.asked + 1 }
  else ⟨text, 0, .ok lines⟩

theorem complete_length_le {opened closed : Nat} {text : List Char} {lines left : List (List UInt8)}
    (h : (complete opened closed text lines).left = .ok left) : left.length ≤ lines.length := by
  fun_induction complete opened closed text lines with
  | case1 opened closed text hc => cases h; exact Nat.le_refl _
  | case2 opened closed text hc line rest hu => cases h
  | case3 opened closed text hc line rest more hu found ih => exact Nat.le_succ_of_le (ih h)
  | case4 opened closed text lines hc => cases h; exact Nat.le_refl _

/-- Answers entries until the input ends or has a line that is no text. -/
def run (session : Session) (lines : List (List UInt8)) : Dialogue :=
  match lines with
  | [] => ⟨">> ", none⟩
  | line :: rest =>
    match Text.ofUtf8? line with
    | none => ⟨">> ", some .notText⟩
    | some first =>
      let entry := complete (first.toList.count '(') (first.toList.count ')') first.toList rest
      let asked := ">> " ++ String.join (List.replicate entry.asked ".. ")
      match _h : entry.left with
      | .error fault => ⟨asked, some fault⟩
      | .ok left =>
        let (answer, next) := session.execute (String.ofList entry.text)
        let others := run next left
        let answered :=
          match answer with
          | some answer => answer ++ "\n"
          | none => ""
        ⟨asked ++ answered ++ others.shown, others.fault⟩
termination_by lines.length
decreasing_by exact Nat.lt_succ_of_le (complete_length_le _h)

/-- The session that has these bytes as its input. -/
def ofInput (input : List UInt8) : Dialogue := run {} (Text.byteLines input)

end Dialogue

end SpriteFormula
