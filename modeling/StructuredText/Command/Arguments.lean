-- SUMMARY: The words of a command line, as a command and paths.
import StructuredText.Command

/-!
# Command line

A command line is the name of a command followed by options and paths in any order. The value of an option
is the next word.
-/

namespace StructuredText.Command

/-- What the words of a command line say. -/
structure Arguments where
  paths : List String := []
  program : Option String := none
  queries : List String := []
  cycles : Nat := 1
  maxMicroSteps : Option Nat := none
  linkDespiteErrors : Bool := false
  intoCalls : Bool := false
  deriving Inhabited

def usage : String :=
  "usage: check FILE...\n" ++
  "       tokenize FILE...\n" ++
  "       run FILE... --program NAME [--cycles N] [OPTION...]\n" ++
  "       step FILE... --program NAME [--into-calls] [OPTION...]\n" ++
  "options: --query TEXT, --max-micro-steps N, --resolve-links-on-parse-error"

/-- The value of an option that is a number. -/
def count (option text : String) : Except String Nat :=
  match text.toNat? with
  | some n => .ok n
  | none => .error s!"invalid value {text} for {option}"

namespace Arguments

/-- Reads the words after the name of the command. -/
def read (a : Arguments) : List String → Except String Arguments
  | [] => .ok { a with paths := a.paths.reverse, queries := a.queries.reverse }
  | "--resolve-links-on-parse-error" :: rest => { a with linkDespiteErrors := true }.read rest
  | "--into-calls" :: rest => { a with intoCalls := true }.read rest
  | [word] =>
    if word.startsWith "-" then .error s!"unexpected argument {word}"
    else { a with paths := word :: a.paths }.read []
  | word :: value :: rest =>
    match word with
    | "-p" | "--program" => { a with program := some value }.read rest
    | "-q" | "--query" => { a with queries := value :: a.queries }.read rest
    | "-c" | "--cycles" => do
      let cycles ← count word value
      { a with cycles }.read rest
    | "--max-micro-steps" => do
      let limit ← count word value
      { a with maxMicroSteps := some limit }.read rest
    | _ =>
      if word.startsWith "-" then .error s!"unexpected argument {word}"
      else { a with paths := word :: a.paths }.read (value :: rest)

/-- How the program that is named is to be executed. -/
def request (a : Arguments) : Except String Request :=
  match a.program with
  | none => .error "missing argument --program"
  | some program =>
    let options : Options := { linkDespiteErrors := a.linkDespiteErrors }
    let options := match a.maxMicroSteps with
      | some maxMicroSteps => { options with maxMicroSteps }
      | none => options
    .ok { program, queries := a.queries, options }

end Arguments

/-- The command and the paths of a command line. -/
def ofWords : List String → Except String (Command × List String)
  | [] => .error usage
  | name :: words => do
    let a ← Arguments.read {} words
    match name with
    | "check" => pure (.check, a.paths)
    | "tokenize" => pure (.tokenize, a.paths)
    | "run" => pure (.run (← a.request) a.cycles, a.paths)
    | "step" => pure (.step (← a.request) (if a.intoCalls then .into else .over), a.paths)
    | _ => throw usage

end StructuredText.Command
