import SpriteFormula.Command.Arguments

/-!
The command line program.
-/

namespace SpriteFormula

namespace CommandLine

def fileFault (error : IO.Error) : FileFault :=
  match error with
  | .noFileOrDirectory .. => .notFound
  | .inappropriateType _ 20 _ => .notDirectory
  | .inappropriateType _ 21 _ => .isDirectory
  | .resourceExhausted _ 36 _ => .nameTooLong
  | error => .other (toString error)

def files : FileAccess IO where
  read path := do
    try
      return .ok (← IO.FS.readBinFile path).data.toList
    catch error =>
      return .error (fileFault error)
  write path content := do
    try
      IO.FS.writeBinFile path ⟨content.toArray⟩
      return .ok ()
    catch error =>
      return .error (fileFault error)

/-- Shows a prompt and reads a line; at the end of the input it is empty. -/
def ask (prompt : String) : IO String := do
  IO.print prompt
  (← IO.getStdout).flush
  (← IO.getStdin).getLine

/-- The entry that starts with a line. -/
partial def completeEntry (text : String) : IO String := do
  if EntryLines.openCount text.toList ≤ 0 then return text
  let line ← ask ".. "
  if line.isEmpty then return text
  completeEntry (text ++ line)

partial def interact (session : Session) : IO Unit := do
  let line ← ask ">> "
  if line.isEmpty then return
  let (answer, next) := session.execute (← completeEntry line)
  if let some answer := answer then IO.println answer
  interact next

end CommandLine

end SpriteFormula

open SpriteFormula in
def main (arguments : List String) : IO UInt32 := do
  if let .ok .repl := Command.ofArguments arguments then
    CommandLine.interact {}
    return 0
  let response ← Command.respond CommandLine.files "" arguments
  IO.print response.output
  IO.eprint response.errors
  return response.status.toUInt32
