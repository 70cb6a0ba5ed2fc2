import SpriteFormula.Declaration

/-!
What is worth recording while texts are read and programs are run.
-/

namespace SpriteFormula

/-- A problem met in a run that the run gets over. -/
inductive Warning where
  | divisionByZero (position : Nat)
  | ignoredValue (directive : Directive) (value : Binary64)
  deriving DecidableEq, Repr

def Warning.message : Warning → String
  | .divisionByZero position =>
    "division by zero at instruction " ++ toString position ++ ", substituted 0"
  | .ignoredValue directive value => "ignored " ++ directive.text ++ " value " ++ value.text

inductive Level where
  | trace
  | debug
  | warn
  deriving DecidableEq, Repr

def Level.name : Level → String
  | .trace => "TRACE"
  | .debug => "DEBUG"
  | .warn => "WARN"

/-- An event, in the order events happen. -/
inductive Record where
  | skipped (line : SkippedLine)
  | step (position : Nat) (instruction : Instruction)
  | notNumeric (name value : String)
  | nothingWritten (directive : Directive)
  | discarded (directive : Directive) (value : Binary64)
  | warning (w : Warning)
  | surplus (count : Nat)
  | columnKept (column : Nat) (value : Binary64)
  deriving DecidableEq, Repr

namespace Record

def level : Record → Level
  | .step .. => .trace
  | .skipped _ | .notNumeric .. | .nothingWritten _ | .discarded .. => .debug
  | .warning _ | .surplus _ | .columnKept .. => .warn

def text : Record → String
  | .skipped line =>
    "skipping line " ++ toString line.number ++ ": " ++ Text.quoted line.content
  | .step position instruction =>
    String.ofList ((Nat.toDigits 10 position).leftpad 4 ' ') ++ " " ++ instruction.text
  | .notNumeric name value =>
    "variable '" ++ name ++ "' holds non-numeric value " ++ Text.quoted value
  | .nothingWritten directive => "no value for " ++ directive.text ++ ", nothing written"
  | .discarded directive value =>
    "no sprite attached, discarding " ++ directive.text ++ " = " ++ value.text
  | .warning w => w.message
  | .surplus count =>
    "operation left " ++ toString count ++ " values on the stack, using the top one"
  | .columnKept column value =>
    "column " ++ toString column ++ " shift is " ++ value.text ++ ", leaving it in place"

def warning? : Record → Option Warning
  | .warning w => some w
  | _ => none

end Record

end SpriteFormula
