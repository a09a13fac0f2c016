-- SUMMARY: The program: reads the files of a command line, executes its command, and writes the lines.
import StructuredText.Command.Arguments

/-!
# The program

All that the program decides is decided elsewhere: here files are read, and lines are written.
-/

namespace StructuredText.Program

/-- What a path names in the file system. -/
def content (path : String) : IO PathContent := do
  try
    let place ← IO.FS.realPath path
    if (← place.isDir) then
      let entries ← place.readDir
      let read ← entries.toList.mapM fun entry => do
        let text ← try some <$> IO.FS.readFile entry.path catch _ => pure none
        pure (entry.fileName, text)
      pure (.directory read)
    else
      pure (.file (← IO.FS.readFile path))
  catch _ => pure (.nothing .notFound)

/-- Writes why a command has no result. -/
def report (e : CommandError) : IO Unit := do
  if let .diagnostics ds := e then
    for d in ds do
      IO.eprintln s!"{d.primary.span.text}: error[{d.problem.code}]: {d.text}"
  IO.eprintln e.message

end StructuredText.Program

open StructuredText in
def main (words : List String) : IO UInt32 := do
  match Command.ofWords words with
  | .error message =>
    IO.eprintln message
    pure 2
  | .ok (command, paths) =>
    let found ← paths.mapM fun path => do pure (path, ← Program.content path)
    match command.execute found with
    | .error e =>
      Program.report e
      pure 1
    | .ok lines =>
      lines.forM IO.println
      if let .check := command then IO.println "OK"
      pure 0
