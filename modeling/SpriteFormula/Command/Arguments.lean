import SpriteFormula.Command.Perform

/-!
The outer layer of the program: from the arguments of a command line to a command and its response.
It stands in for an argument library, whose rules on the order and the spelling of arguments it
follows: the first argument names the command, then come its operand and its options in any order. A
value is checked when the next operand or option is met, or at the end, so of several faults the one
that is met first is reported. The texts of help and of usage errors are this module's own. No
result is about arguments or these texts: results are about commands and what carrying them out does.
-/

namespace SpriteFormula

/-- Why arguments are no command, or what they ask for instead of one. -/
inductive UsageError where
  | nothingGiven
  | missingArgument
  | unknownArgument
  | missingOrWrongChoice
  | wrongValue
  | surplusValue
  | unknownCommand
  | repeatedArgument
  | helpAsked
  | versionAsked
  deriving DecidableEq, Repr

inductive Verb where
  | eval
  | compile
  | disassemble
  | render
  | declare
  | repl
  deriving DecidableEq, Repr

/-- What a command takes. The first two are operands and the others options. -/
inductive Parameter where
  | expression
  | file
  | x
  | binding
  | output
  | language
  deriving DecidableEq, Repr

inductive Argument where
  | expression (text : String)
  | file (path : String)
  | x (value : Binary64)
  | binding (name value : String)
  | output (path : String)
  | language (l : Language)
  deriving DecidableEq, Repr

namespace Verb

def ofName? (name : String) : Option Verb :=
  if name = "eval" then some .eval
  else if name = "compile" then some .compile
  else if name = "disassemble" then some .disassemble
  else if name = "render" then some .render
  else if name = "declare" then some .declare
  else if name = "repl" then some .repl
  else none

def operand? : Verb → Option Parameter
  | .eval | .compile | .render => some .expression
  | .disassemble | .declare => some .file
  | .repl => none

def options : Verb → List Parameter
  | .eval => [.x, .binding]
  | .compile => [.output]
  | .render | .declare => [.language]
  | .disassemble | .repl => []

end Verb

def Language.word : Language → String
  | .generic => "generic"
  | .c => "c"
  | .swift => "swift"
  | .javaScript => "javascript"

namespace Parameter

def longName : Parameter → String
  | .expression | .file => ""
  | .x => "x"
  | .binding => "var"
  | .output => "output"
  | .language => "language"

def shortName? : Parameter → Option Char
  | .output => some 'o'
  | _ => none

/-- Whether a command may be given several values of the parameter. -/
def isRepeatable : Parameter → Bool
  | .binding => true
  | _ => false

/-- Whether a negative number is a value of the parameter and not an option. -/
def takesNegative : Parameter → Bool
  | .x => true
  | _ => false

/-- A name and a value, divided by the first equals sign. The name is not blank. -/
def binding? (text : String) : Option (String × String) :=
  let name := text.toList.takeWhile (· ≠ '=')
  match text.toList.drop name.length with
  | _ :: value =>
    if Text.trim name = [] then none
    else some (String.ofList (Text.trim name), String.ofList value)
  | [] => none

def check (text : String) : Parameter → Except UsageError Argument
  | .expression => .ok (.expression text)
  | .file => if text = "" then .error .missingOrWrongChoice else .ok (.file text)
  | .output => if text = "" then .error .missingOrWrongChoice else .ok (.output text)
  | .x =>
    match Binary64.ofText? text with
    | some value => .ok (.x value)
    | none => .error .wrongValue
  | .binding =>
    match binding? text with
    | some (name, value) => .ok (.binding name value)
    | none => .error .wrongValue
  | .language =>
    match [Language.generic, .c, .swift, .javaScript].find? fun l => l.word = text with
    | some l => .ok (.language l)
    | none => .error .missingOrWrongChoice

end Parameter

def Argument.parameter : Argument → Parameter
  | .expression _ => .expression
  | .file _ => .file
  | .x _ => .x
  | .binding .. => .binding
  | .output _ => .output
  | .language _ => .language

/-- How an argument is written: `--name` or `--name=value`, letters behind a dash, or neither. -/
inductive Spelling where
  | separator
  | long (name : String) (value : Option String)
  | short (letters : List Char)
  | plain
  deriving DecidableEq, Repr

/-- The spelling of an argument. A lone dash is plain. -/
def Spelling.ofText (text : String) : Spelling :=
  match text.toList with
  | ['-', '-'] => .separator
  | '-' :: '-' :: rest =>
    let name := rest.takeWhile (· ≠ '=')
    .long (String.ofList name)
      (match rest.drop name.length with
      | _ :: value => some (String.ofList value)
      | [] => none)
  | '-' :: c :: rest => .short (c :: rest)
  | _ => .plain

/-- An exponent mark and digits, or nothing. -/
def isExponent : List Char → Bool
  | [] => true
  | mark :: digits => (mark = 'e' || mark = 'E') && !digits.isEmpty && digits.all Char.isDigit

/-- Whether the text behind a dash makes it a negative number: digits, with at most one point and
then at most one exponent mark among them; neither comes first, and the mark does not come last. -/
def isUnsignedNumber (text : List Char) : Bool :=
  let whole := text.takeWhile Char.isDigit
  match text.drop whole.length with
  | [] => true
  | '.' :: rest => !whole.isEmpty && isExponent (rest.dropWhile Char.isDigit)
  | rest => !whole.isEmpty && isExponent rest

/-- How far the arguments of a command are read. A pending value is not checked yet, and an option
may still wait for its value. -/
structure Reading where
  verb : Verb
  pending : Option (Parameter × Option String) := none
  given : List Argument := []
  operandSeen : Bool := false
  operandsOnly : Bool := false

namespace Reading

def settle (reading : Reading) : Except UsageError Reading :=
  match reading.pending with
  | none => .ok reading
  | some (_, none) => .error .missingOrWrongChoice
  | some (parameter, some text) =>
    if !parameter.isRepeatable && reading.given.any fun given => given.parameter = parameter then
      .error .repeatedArgument
    else
      (parameter.check text).map fun argument =>
        { reading with pending := none, given := reading.given ++ [argument] }

/-- An option is met, perhaps with its value. A value that comes with it is checked at once. -/
def meetOption (reading : Reading) (parameter : Parameter) (value : Option String) :
    Except UsageError Reading := do
  let settled ← reading.settle
  let waiting := { settled with pending := some (parameter, value) }
  if value.isSome then waiting.settle else .ok waiting

/-- Help is asked for, once the pending value is right. -/
def meetHelp (reading : Reading) : Except UsageError Reading := do
  let _ ← reading.settle
  .error .helpAsked

/-- An argument that is not an option is met: the value an option waits for, or the operand. -/
def meetPlain (reading : Reading) (text : String) : Except UsageError Reading :=
  match reading.operandsOnly, reading.pending with
  | false, some (parameter, none) => .ok { reading with pending := some (parameter, some text) }
  | _, _ =>
    match reading.verb.operand? with
    | some parameter =>
      if reading.operandSeen then .error .unknownArgument
      else
        reading.settle.map fun settled =>
          { settled with pending := some (parameter, some text), operandSeen := true }
    | none => .error .unknownArgument

/-- Whether the option that waits for a value takes this one, though it starts with a dash. -/
def takesAsNumber (reading : Reading) (letters : List Char) : Bool :=
  match reading.pending with
  | some (parameter, none) => parameter.takesNegative && isUnsignedNumber letters
  | _ => false

/-- Options written as letters behind a dash. What follows an option's letter is its value. -/
def meetShort (reading : Reading) (text : String) (letters : List Char) :
    Except UsageError Reading :=
  if reading.takesAsNumber letters then reading.meetPlain text
  else
    match letters with
    | [] => .error .unknownArgument
    | letter :: rest =>
      if letter = 'h' then reading.meetHelp
      else
        match reading.verb.options.find? fun option => option.shortName? = some letter with
        | none => .error .unknownArgument
        | some option =>
          match rest with
          | [] => reading.meetOption option none
          | '=' :: value => reading.meetOption option (some (String.ofList value))
          | value => reading.meetOption option (some (String.ofList value))

def meetLong (reading : Reading) (name : String) (value : Option String) :
    Except UsageError Reading :=
  if name = "help" then
    if value.isSome then .error .surplusValue else reading.meetHelp
  else
    match reading.verb.options.find? fun option => option.longName = name with
    | none => .error .unknownArgument
    | some option => reading.meetOption option value

/-- Takes the next argument. After a pair of dashes alone there are only operands. -/
def meet (reading : Reading) (text : String) : Except UsageError Reading :=
  if reading.operandsOnly then reading.meetPlain text
  else
    match Spelling.ofText text with
    | .separator => .ok { reading with operandsOnly := true }
    | .long name value => reading.meetLong name value
    | .short letters => reading.meetShort text letters
    | .plain => reading.meetPlain text

def meetAll (reading : Reading) : List String → Except UsageError Reading
  | [] => reading.settle
  | text :: rest =>
    match reading.meet text with
    | .error error => .error error
    | .ok next => next.meetAll rest

/-- The command once all its arguments are checked; options that are left out have defaults. -/
def command (reading : Reading) : Except UsageError Command :=
  let expression? := reading.given.findSome? fun
    | .expression text => some text
    | _ => none
  let file? := reading.given.findSome? fun
    | .file path => some path
    | _ => none
  let output? := reading.given.findSome? fun
    | .output path => some path
    | _ => none
  let x := (reading.given.findSome? fun
    | .x value => some value
    | _ => none).getD .zero
  let language := (reading.given.findSome? fun
    | .language l => some l
    | _ => none).getD .generic
  let bindings := reading.given.filterMap fun
    | .binding name value => some (name, value)
    | _ => none
  let found? : Option Command :=
    match reading.verb with
    | .eval => expression?.map fun expression => .eval expression x bindings
    | .compile =>
      expression?.bind fun expression => output?.map fun output => .compile expression output
    | .disassemble => file?.map .disassemble
    | .render => expression?.map fun expression => .render expression language
    | .declare => file?.map fun file => .declare file language
    | .repl => some .repl
  match found? with
  | some command => .ok command
  | none => .error .missingArgument

end Reading

namespace Command

def helpOn (arguments : List String) : UsageError :=
  match arguments with
  | [] => .helpAsked
  | [name] => if (Verb.ofName? name).isSome || name = "help" then .helpAsked else .unknownCommand
  | _ => .unknownCommand

def ofArguments (arguments : List String) : Except UsageError Command :=
  match arguments with
  | [] => .error .nothingGiven
  | first :: rest =>
    match Verb.ofName? first with
    | some verb =>
      match Reading.meetAll { verb := verb } rest with
      | .error error => .error error
      | .ok reading => reading.command
    | none =>
      if first = "help" then .error (helpOn rest)
      else
        match Spelling.ofText first with
        | .separator =>
          match rest with
          | [] => .error .nothingGiven
          | name :: _ =>
            if (Verb.ofName? name).isSome || name = "help" then .error .unknownArgument
            else .error .unknownCommand
        | .long name value =>
          if name = "help" ∨ name = "version" then
            if value.isSome then .error .surplusValue
            else if name = "help" then .error .helpAsked
            else .error .versionAsked
          else .error .unknownArgument
        | .short letters =>
          if letters.head? = some 'h' then .error .helpAsked
          else if letters.head? = some 'V' then .error .versionAsked
          else .error .unknownArgument
        | .plain => .error .unknownCommand

end Command

/-! ### Responses -/

namespace UsageError

def version : String := "opal 0.1.0"

def help : String :=
  "Usage: opal <COMMAND>\n\nCommands:\n  eval <EXPRESSION> [--x <X>] [--var <NAME=VALUE>]...\n" ++
  "  compile <EXPRESSION> --output <OUTPUT>\n  disassemble <FILE>\n" ++
  "  render <EXPRESSION> [--language <LANGUAGE>]\n" ++
  "  declare <FILE> [--language <LANGUAGE>]\n  repl\n"

def message : UsageError → String
  | .nothingGiven => help
  | .missingArgument => "a required argument is missing"
  | .unknownArgument => "an argument is not known"
  | .missingOrWrongChoice => "an option has no value or a value that it does not take"
  | .wrongValue => "a value cannot be read"
  | .surplusValue => "an option has a value that takes none"
  | .unknownCommand => "the command is not known"
  | .repeatedArgument => "an option is given twice"
  | .helpAsked => help
  | .versionAsked => version

/-- Help and the version are answers; all else is an error of usage. -/
def response (error : UsageError) : Response :=
  match error with
  | .helpAsked => .success help
  | .versionAsked => .success (version ++ "\n")
  | error => ⟨2, "", error.message ++ "\n"⟩

end UsageError

/-- The response to the arguments of a command line. -/
def Command.respond {m : Type → Type} [Monad m] (files : FileAccess m) (input : String)
    (arguments : List String) : m Response :=
  match Command.ofArguments arguments with
  | .error error => return error.response
  | .ok command => command.perform files input

end SpriteFormula
