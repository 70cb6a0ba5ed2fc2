import Std.Data.ExtTreeMap
import SpriteFormula.Text.Lines

/-!
Files by name, as a command reads and writes them.
-/

namespace SpriteFormula

inductive FileFault where
  | notFound
  | notDirectory
  | isDirectory
  | nameTooLong
  | zeroInName
  | notText
  | other (description : String)
  deriving DecidableEq, Repr

def FileFault.message : FileFault → String
  | .notFound => "No such file or directory (os error 2)"
  | .notDirectory => "Not a directory (os error 20)"
  | .isDirectory => "Is a directory (os error 21)"
  | .nameTooLong => "File name too long (os error 36)"
  | .zeroInName => "file name contained an unexpected NUL byte"
  | .notText => "stream did not contain valid UTF-8"
  | .other description => description

/-- Access to files: their contents, and writing a file anew. -/
structure FileAccess (m : Type → Type) where
  read : String → m (Except FileFault (List UInt8))
  write : String → List UInt8 → m (Except FileFault Unit)

/-- A directory that holds files only. The directories above it are there, but nothing is known of
what they hold: no file is found in them, and what is written there is not kept. -/
structure Directory where
  files : Std.ExtTreeMap String (List UInt8) := ∅

/-- Where a path leads: to a directory, or to a name in one, which is this directory or one above
it. -/
inductive Place where
  | directory
  | name (here : Bool) (step : List Char)
  deriving DecidableEq, Repr

namespace Directory

/-- The longest name of a file, in bytes. -/
def longestName : Nat := 255

/-- The longest path, in bytes. -/
def longestPath : Nat := 4095

/-- The steps of a path, which slashes divide. -/
def steps (path : List Char) : List (List Char) := (split path).filter (· ≠ [])
where
  split : List Char → List (List Char)
    | [] => [[]]
    | c :: rest =>
      if c = '/' then [] :: split rest
      else
        match split rest with
        | [] => [[c]]
        | step :: others => (c :: step) :: others

/-- Takes steps from this directory or from one above it. A name that is not the last step has to
be that of a directory, and none is known. -/
def walk (directory : Directory) (here : Bool) : List (List Char) → Except FileFault Place
  | [] => .ok .directory
  | step :: rest =>
    if step = ['.'] then directory.walk here rest
    else if step = ['.', '.'] then directory.walk false rest
    else if rest = [] then .ok (.name here step)
    else if longestName < Text.byteLength step then .error .nameTooLong
    else if here && directory.files.contains (String.ofList step) then .error .notDirectory
    else .error .notFound

/-- Where a path leads. A path with a zero character in it is refused before it is looked at. -/
def resolve (directory : Directory) (path : String) : Except FileFault Place :=
  if '\x00' ∈ path.toList then .error .zeroInName
  else if path = "" then .error .notFound
  else if longestPath < path.utf8ByteSize then .error .nameTooLong
  else directory.walk (path.toList.head? ≠ some '/') (steps path.toList)

/-- Whether a path asks for a directory by the slash it ends in. -/
def endsInSlash (path : String) : Bool := path.toList.getLast? = some '/'

def read (directory : Directory) (path : String) : Except FileFault (List UInt8) :=
  match directory.resolve path with
  | .error fault => .error fault
  | .ok .directory => .error .isDirectory
  | .ok (.name here step) =>
    if longestName < Text.byteLength step then .error .nameTooLong
    else
      match if here then directory.files[String.ofList step]? else none with
      | none => .error .notFound
      | some content => if endsInSlash path then .error .notDirectory else .ok content

/-- The directory after a file is written. A file of that name is replaced. -/
def write (directory : Directory) (path : String) (content : List UInt8) :
    Except FileFault Directory :=
  match directory.resolve path with
  | .error fault => .error fault
  | .ok .directory => .error .isDirectory
  | .ok (.name here step) =>
    if endsInSlash path then .error .isDirectory
    else if longestName < Text.byteLength step then .error .nameTooLong
    else if here then
      .ok { directory with files := directory.files.insert (String.ofList step) content }
    else .ok directory

/-- Access to the files of the directory that a computation carries along. -/
def access : FileAccess (StateM Directory) where
  read path := do return (← get).read path
  write path content := do
    match (← get).write path content with
    | .error fault => return .error fault
    | .ok directory =>
      set directory
      return .ok ()

end Directory

end SpriteFormula
