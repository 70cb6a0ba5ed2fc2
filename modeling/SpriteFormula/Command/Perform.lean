import SpriteFormula.Directory
import SpriteFormula.Transcript

/-!
What the program can be asked to do, and how it does that, given some access to files.
-/

namespace SpriteFormula

inductive Command where
  | eval (expression : String) (x : Binary64) (bindings : List (String × String))
  | compile (expression output : String)
  | disassemble (file : String)
  | render (expression : String) (language : Language)
  | declare (file : String) (language : Language)
  | repl
  deriving DecidableEq, Repr

/-- What a command leaves: its exit status and what it writes to the two output streams. -/
structure Response where
  status : Nat
  output : String
  errors : String
  deriving DecidableEq, Repr

namespace Response

def success (output : String) : Response := ⟨0, output, ""⟩
def failure (errors : String) : Response := ⟨1, "", errors ++ "\n"⟩

end Response

namespace Command

/-- The text of a file, if its bytes are text. -/
def textOf (content : List UInt8) : Except FileFault String :=
  match Text.ofUtf8? content with
  | some text => .ok text
  | none => .error .notText

def disassembled (path : String) (content : Except FileFault (List UInt8)) : Response :=
  match content with
  | .error fault => .failure (path ++ ": " ++ fault.message)
  | .ok bytes =>
    match Program.ofFile bytes with
    | .error error => .failure (path ++ ": " ++ path ++ ": " ++ error.message)
    | .ok program => .success (program.listing path)

def declared (path : String) (language : Language) (content : Except FileFault (List UInt8)) :
    Response :=
  match content.bind textOf with
  | .error fault => .failure fault.message
  | .ok text =>
    match Program.report language.profile text with
    | .error fault => .failure (path ++ ": " ++ fault.message)
    | .ok report => .success (report ++ "\n")

def answered (result : Except Fault String) : Response :=
  match result with
  | .ok text => .success (text ++ "\n")
  | .error fault => .failure ("<expression>:" ++ fault.message)

/-- Carries out a command. A formula that cannot be compiled writes no file. -/
def perform {m : Type → Type} [Monad m] (files : FileAccess m) (input : String)
    (command : Command) : m Response :=
  match command with
  | .eval expression x bindings =>
    return answered ((Program.evaluate ⟨x, some bindings⟩ expression).map Binary64.text)
  | .compile expression output =>
    match Program.compile expression with
    | .error fault => return .failure ("<expression>: " ++ fault.message)
    | .ok content => do
      match ← files.write output content with
      | .error fault => return .failure fault.message
      | .ok () => return .success ""
  | .disassemble file => return disassembled file (← files.read file)
  | .render expression language =>
    return answered (match Program.parse expression with
      | .error error => .error (.parse error)
      | .ok program => program.render language.profile)
  | .declare file language => return declared file language (← files.read file)
  | .repl => return .success (Session.transcript input)

end Command

end SpriteFormula
