-- SUMMARY: Source files: what paths name, which files they stand for, and positions by line and column.
import StructuredText.Span

/-!
# Source files

A path of a directory stands for the files directly in it whose names end in `.st`, in the order of their
names; another path stands for the file that it names.
-/

namespace StructuredText

structure SourceFile where
  path : String
  text : String
  deriving DecidableEq, Repr, Inhabited

namespace SourceFile

def id (f : SourceFile) : FileId := .file f.path

/-- Advances a line and a column over the characters that end within a number of bytes. -/
def advance : List Char → (bytes line column : Nat) → Nat × Nat
  | [], _, line, column => (line, column)
  | c :: rest, bytes, line, column =>
    if bytes < c.utf8Size then (line, column)
    else if c = '\n' then advance rest (bytes - c.utf8Size) (line + 1) 0
    else advance rest (bytes - c.utf8Size) line (column + c.utf8Size)

/-- The line, from one on, and the column in bytes, from zero on, of a byte offset. -/
def position (f : SourceFile) (offset : Nat) : Nat × Nat := advance f.text.toList offset 1 0

end SourceFile

-- ---------------------------------------------------------------------------
-- Paths
-- ---------------------------------------------------------------------------

/-- Why a path cannot be used. -/
inductive PathProblem where
  | notFound | notADirectory | isADirectory
  deriving DecidableEq, Repr, Inhabited

def PathProblem.text : PathProblem → String
  | .notFound => "No such file or directory (os error 2)"
  | .notADirectory => "Not a directory (os error 20)"
  | .isADirectory => "Is a directory (os error 21)"

/-- What a path names. -/
inductive PathContent where
  | nothing (why : PathProblem)
  | file (text : String)
  /-- The names in a directory, with the texts of those that are files. -/
  | directory (entries : List (String × Option String))
  deriving DecidableEq, Repr, Inhabited

/-- Why there are no sources. -/
inductive SourceError where
  | unavailable (path : String) (why : PathProblem)
  | unreadable (path : String) (why : PathProblem)
  | noSources
  deriving DecidableEq, Repr, Inhabited

def SourceError.message : SourceError → String
  | .unavailable path why => s!"error: {path}. {why.text}"
  | .unreadable path why => s!"error: failed to read file {path}. {why.text}"
  | .noSources => "error: no source files"

namespace SourceFile

/-- A file in a directory is a source file. A name that only begins with a dot has no ending. -/
def hasSourceName (name : String) : Bool := name.endsWith ".st" && name ≠ ".st"

/-- The path of a name in a directory. -/
def join (directory name : String) : String :=
  if directory.endsWith "/" then directory ++ name else directory ++ "/" ++ name

/-- The files that a path stands for, with the texts of those that can be read. -/
def candidates (path : String) : PathContent → Except SourceError (List (String × Option String))
  | .nothing why => .error (.unavailable path why)
  | .file text => .ok [(path, some text)]
  | .directory entries =>
    let sources := entries.filter (hasSourceName ·.1)
    let sorted := sources.mergeSort fun a b => decide (a.1 ≤ b.1)
    .ok (sorted.map fun (name, text) => (join path name, text))

/-- The source files that paths stand for. All paths are looked up before a file is read. -/
def ofPaths (paths : List (String × PathContent)) : Except SourceError (List SourceFile) := do
  let found ← paths.mapM fun (path, content) => candidates path content
  if found.flatten.isEmpty then throw .noSources
  found.flatten.mapM fun (path, text) =>
    match text with
    | some text => pure ⟨path, text⟩
    | none => throw (.unreadable path .isADirectory)

end SourceFile

-- ---------------------------------------------------------------------------
-- Files held in memory
-- ---------------------------------------------------------------------------

/-- Files by the names of the directories that lead to them. -/
abbrev FileTree := List (List String × String)

namespace FileTree

/-- The names of a path. -/
def names (path : String) : List String :=
  (path.splitOn "/").filter fun name => name ≠ "" && name ≠ "."

def ofList (files : List (String × String)) : FileTree :=
  files.map fun (path, text) => (names path, text)

def isDirectory (t : FileTree) (place : List String) : Bool :=
  place.isEmpty || t.any fun (names, _) => place.isPrefixOf names && place.length < names.length

/-- The entries of a directory. -/
def entries (t : FileTree) (place : List String) : List (String × Option String) :=
  (t.filterMap fun (names, text) =>
    if place.isPrefixOf names then
      match names.drop place.length with
      | [] => none
      | [name] => some (name, some text)
      | name :: _ => some (name, none)
    else none).eraseDups

/-- Follows names from a directory. -/
def walk (t : FileTree) (place : List String) : List String → Except PathProblem (List String)
  | [] => .ok place
  | name :: rest =>
    if !t.isDirectory place then .error .notADirectory
    else
      let next := if name = ".." then place.dropLast else place ++ [name]
      if t.isDirectory next || (t.lookup next).isSome then t.walk next rest
      else .error .notFound

/-- What a path names, from the top of the tree on. -/
def find (t : FileTree) (path : String) : PathContent :=
  if path = "" || path.startsWith "/" then .nothing .notFound
  else
    match t.walk [] (names path) with
    | .error why => .nothing why
    | .ok place =>
      match t.lookup place with
      | none => .directory (t.entries place)
      | some text =>
        if path.endsWith "/" || path.endsWith "/." then .nothing .notADirectory else .file text

end FileTree

end StructuredText
