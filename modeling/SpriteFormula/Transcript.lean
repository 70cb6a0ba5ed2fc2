import SpriteFormula.Session

/-!
What an interactive session shows for a whole input. An entry is a line, or as many lines as it
takes until no parenthesis is left open.
-/

namespace SpriteFormula

/-- The lines of one entry, and whether the input ended while a parenthesis was open. -/
structure EntryLines where
  lines : List (List Char)
  cutOff : Bool
  deriving DecidableEq, Repr

namespace EntryLines

/-- How many more parentheses a text opens than it closes. -/
def openCount (text : List Char) : Int := (text.count '(' : Int) - text.count ')'

/-- The further lines that an entry with some open parentheses takes, and the lines after them. -/
def more (count : Int) : List (List Char) → EntryLines × List (List Char)
  | [] => (⟨[], 0 < count⟩, [])
  | line :: rest =>
    if 0 < count then
      let (entry, after) := more (count + openCount line) rest
      ({ entry with lines := line :: entry.lines }, after)
    else (⟨[], false⟩, line :: rest)

theorem more_length_le (count : Int) (lines : List (List Char)) :
    (more count lines).2.length ≤ lines.length := by
  induction lines generalizing count with
  | nil => simp [more]
  | cons line rest ih =>
    rw [more]
    split
    · exact Nat.le_succ_of_le (ih _)
    · exact Nat.le_refl _

def split (lines : List (List Char)) : List EntryLines :=
  match lines with
  | [] => []
  | line :: rest =>
    let found := more (openCount line) rest
    { found.1 with lines := line :: found.1.lines } :: split found.2
termination_by lines.length
decreasing_by exact Nat.lt_succ_of_le (more_length_le _ _)

/-- How often the session asks for another line of the entry. -/
def requests (entry : EntryLines) : Nat :=
  entry.lines.length - 1 + if entry.cutOff then 1 else 0

def text (entry : EntryLines) : String := String.ofList entry.lines.flatten

end EntryLines

namespace Session

/-- What is shown for one entry: the prompts and the answer. -/
def shown (session : Session) (entry : EntryLines) : String :=
  ">> " ++ String.join (List.replicate entry.requests ".. ") ++
    match (session.execute entry.text).1 with
    | some answer => answer ++ "\n"
    | none => ""

/-- What is shown for entries and for the end of the input after them. -/
def transcriptOf (session : Session) : List EntryLines → String
  | [] => ">> "
  | entry :: rest =>
    session.shown entry ++ transcriptOf (session.execute entry.text).2 rest

def transcript (input : String) : String :=
  transcriptOf {} (EntryLines.split (Text.lines input.toList))

/-- What answering entries records. -/
def recordsOf (session : Session) : List EntryLines → List Record
  | [] => []
  | entry :: rest =>
    session.records entry.text ++ recordsOf (session.execute entry.text).2 rest

def transcriptRecords (input : String) : List Record :=
  recordsOf {} (EntryLines.split (Text.lines input.toList))

end Session

end SpriteFormula
