-- SUMMARY: The grammar of statements and queries.
import StructuredText.Grammar.Expression

/-!
# Statements

A semicolon ends a statement; after the closing keyword of a compound statement it may be left out.
A semicolon by itself is no statement.
-/

namespace StructuredText.Grammar

open StructuredText.Parser

-- ---------------------------------------------------------------------------
-- Simple statements
-- ---------------------------------------------------------------------------

/-- An assignment to a variable. -/
def assignment : Parser (Tree.Path × Tree.Expr) := do
  let target ← variablePath
  let _ ← token .assignment
  pure (target, ← expression)

/-- A statement without statements inside, which still lacks its span. -/
def simpleStatement : Parser (Span → Tree.Stmt) :=
  (do let (target, value) ← assignment; pure (.assign target value))
  <|> (do let (name, args) ← call expression; pure (.call name args))
  <|> (do let _ ← token .kwExit; pure .exit)
  <|> (do let _ ← token .kwReturn; pure .ret)

-- ---------------------------------------------------------------------------
-- Compound statements
-- ---------------------------------------------------------------------------

def elseStatements (statements : Parser (List Tree.Stmt)) : Parser (List Tree.Stmt) := do
  let _ ← token .kwElse
  statements

/-- A condition and the statements that it guards, after the keyword. -/
def branch (keyword : TokenKind) (statements : Parser (List Tree.Stmt)) :
    Parser (Tree.Expr × List Tree.Stmt) := do
  let _ ← token keyword
  let condition ← expression
  let _ ← token .kwThen
  pure (condition, ← statements)

def ifStatement (statements : Parser (List Tree.Stmt)) : Parser (Span → Tree.Stmt) := do
  let first ← branch .kwIf statements
  let rest ← many (branch .kwElsif statements)
  let otherwise ← optional (elseStatements statements)
  let _ ← token .kwEndIf
  pure (.ifThen (first :: rest) otherwise)

/-- A constant or a variable. -/
def caseValue : Parser Tree.Expr :=
  (do let (value, span) ← spanned constant; pure (.constant value span))
  <|> Tree.Expr.var <$> variablePath

def caseLabel : Parser Tree.CaseLabel :=
  (do
    let low ← caseValue
    let _ ← token .range
    pure (.range low (← caseValue)))
  <|> Tree.CaseLabel.value <$> caseValue

def caseArm (statements : Parser (List Tree.Stmt)) : Parser (List Tree.CaseLabel × List Tree.Stmt) := do
  let labels ← sepBy1 caseLabel (token .comma)
  let _ ← token .colon
  pure (labels, ← statements)

def caseStatement (statements : Parser (List Tree.Stmt)) : Parser (Span → Tree.Stmt) := do
  let _ ← token .kwCase
  let selector ← expression
  let _ ← token .kwOf
  let arms ← many (caseArm statements)
  let otherwise ← optional (elseStatements statements)
  let _ ← token .kwEndCase
  pure (.case selector arms otherwise)

def forStatement (statements : Parser (List Tree.Stmt)) : Parser (Span → Tree.Stmt) := do
  let _ ← token .kwFor
  let (control, start) ← assignment
  let _ ← token .kwTo
  let stop ← expression
  let step ← optional (do let _ ← token .kwBy; expression)
  let _ ← token .kwDo
  let body ← statements
  let _ ← token .kwEndFor
  pure (.forLoop control start stop step body)

def whileStatement (statements : Parser (List Tree.Stmt)) : Parser (Span → Tree.Stmt) := do
  let _ ← token .kwWhile
  let condition ← expression
  let _ ← token .kwDo
  let body ← statements
  let _ ← token .kwEndWhile
  pure (.whileLoop condition body)

def repeatStatement (statements : Parser (List Tree.Stmt)) : Parser (Span → Tree.Stmt) := do
  let _ ← token .kwRepeat
  let body ← statements
  let _ ← token .kwUntil
  let condition ← expression
  let _ ← token .kwEndRepeat
  pure (.repeatLoop body condition)

def compoundStatement (statements : Parser (List Tree.Stmt)) : Parser (Span → Tree.Stmt) :=
  ifStatement statements <|> caseStatement statements <|> forStatement statements
  <|> whileStatement statements <|> repeatStatement statements

-- ---------------------------------------------------------------------------
-- Lists of statements
-- ---------------------------------------------------------------------------

/-- A statement with the span of its tokens. -/
def placed (p : Parser (Span → Tree.Stmt)) : Parser Tree.Stmt := do
  let (statement, span) ← spanned p
  pure (statement span)

/-- A statement with the semicolon after it, or a semicolon. -/
def statementItem (statements : Parser (List Tree.Stmt)) : Parser (Option Tree.Stmt) :=
  (do
    let s ← placed (compoundStatement statements)
    let _ ← optional (token .semicolon)
    pure (some s))
  <|> (do
    let s ← placed simpleStatement
    let _ ← token .semicolon
    pure (some s))
  <|> (do let _ ← token .semicolon; pure none)

def statementsWithin : (depth : Nat) → Parser (List Tree.Stmt)
  | 0 => fail
  | depth + 1 => do
    let items ← many (statementItem (statementsWithin depth))
    pure (items.filterMap id)

/-- Any number of statements. -/
def statements : Parser (List Tree.Stmt) := bounded statementsWithin

-- ---------------------------------------------------------------------------
-- Queries
-- ---------------------------------------------------------------------------

/-- An assignment to make or an expression to show. -/
def query : Parser Tree.Query :=
  (do
    let ((target, value), span) ← spanned assignment
    let _ ← optional (token .semicolon)
    pure (.assign target value span))
  <|> (do
    let e ← expression
    let _ ← optional (token .semicolon)
    pure (.read e))

end StructuredText.Grammar
