import SpriteFormula.Evaluation

/-!
Interactive sessions: lines that are evaluated, and a command that sets the positional parameter.
-/

namespace SpriteFormula

structure Session where
  x : Binary64 := .zero
  deriving DecidableEq, Repr

/-- What an entry asks for: nothing, a value of the parameter, given by a text, or the value of an
expression. -/
inductive Entry where
  | blank
  | setX (value : String)
  | formula (text : String)
  deriving DecidableEq, Repr

/-- The entry that a text is. Blanks around it and around the parameter's value do not count. -/
def Entry.read (text : String) : Entry :=
  match Text.trim text.toList with
  | [] => .blank
  | ':' :: 'x' :: value => .setX (String.ofList (Text.trim value))
  | content => .formula (String.ofList content)

namespace Session

def answer (x : Binary64) (formula : String) : String :=
  match Program.evaluate { x := x } formula with
  | .ok value => value.text
  | .error fault => "<stdin>:" ++ fault.message

/-- What an entry is answered with, if with anything, and the session after it. -/
def execute (session : Session) (text : String) : Option String × Session :=
  match Entry.read text with
  | .blank => (none, session)
  | .setX value =>
    match Binary64.ofText? value with
    | some x => (some ("x = " ++ x.text), { session with x })
    | none => (some ("invalid value for x: '" ++ value ++ "'"), session)
  | .formula formula => (some (answer session.x formula), session)

def records (session : Session) (text : String) : List Record :=
  match Entry.read text with
  | .formula formula => Program.evaluateRecords { x := session.x } formula
  | _ => []

end Session

end SpriteFormula
