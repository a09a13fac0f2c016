-- SUMMARY: From source text to compilation units and queries, with the report of syntax errors.
import StructuredText.CompilationUnit.OfTree
import StructuredText.Grammar.Declaration
import StructuredText.Token.Lexer

/-!
# Reading sources

A source is split into tokens, its literals are checked, and its tokens are matched with the grammar. Text
that is no token does not keep the rest of a source from being read; it is reported with the unit.
-/

namespace StructuredText

/-- The report of the furthest place at which the grammar was not followed. -/
def syntaxError (tokens : List Token) (f : Failure) : Diagnostic :=
  let (span, found) :=
    match tokens[tokens.length - f.remaining]?, tokens.getLast? with
    | some t, _ => (t.span, t.quoted)
    | none, some last => (last.span, "end of input")
    | none, none => (.origin, "end of input")
  .of .syntaxError span s!"Expected one of: {f.expected.text}. Found {found}"

/-- The tree of all tokens, or the report of a syntax error. -/
def parseTokens (p : Parser α) (tokens : List Token) : Except Diagnostic α :=
  (Parser.parseAll p tokens).mapError (syntaxError tokens)

/-- The unit of a source. The errors of its tokens come before the error that refuses it. -/
def parseUnit (source : String) (file : FileId) : Except (List Diagnostic) CompilationUnit :=
  let (tokens, errors) := tokenize source file
  let invalid := Literal.check tokens
  if !invalid.isEmpty then .error (errors ++ invalid)
  else
    match parseTokens Grammar.source tokens with
    | .error e => .error (errors ++ [e])
    | .ok elements => .ok (.ofElements file errors elements)

/-- A query from its text, which has no errors at all. -/
def parseQuery (text : String) : Except (List Diagnostic) Query :=
  let (tokens, errors) := tokenize text .anonymous
  if !errors.isEmpty then .error errors
  else
    let invalid := Literal.check tokens
    if !invalid.isEmpty then .error invalid
    else
      match parseTokens Grammar.query tokens with
      | .error e => .error [e]
      | .ok q => .ok (Body.ofQuery q)

end StructuredText
