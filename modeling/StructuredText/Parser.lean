-- SUMMARY: Parsers over tokens: ordered choice, repetition, and the furthest place where they fail.
import StructuredText.Token

/-!
# Parsers

A parser takes tokens from the front of a list. A choice commits to its first alternative that succeeds, and
repetition takes as much as it can. Besides its result a parser reports the furthest place where something
that it tried failed, with what it was looking for there; this is where a syntax error is reported.
-/

namespace StructuredText

-- ---------------------------------------------------------------------------
-- Failures
-- ---------------------------------------------------------------------------

/-- What was looked for at a place. -/
structure Expected where
  endOfInput : Bool := false
  token : Bool := false
  repeatCount : Bool := false
  deriving DecidableEq, Repr, Inhabited

namespace Expected

def union (a b : Expected) : Expected :=
  ⟨a.endOfInput || b.endOfInput, a.token || b.token, a.repeatCount || b.repeatCount⟩

/-- The set as a message shows it. -/
def text (e : Expected) : String :=
  let items := [(e.endOfInput, "EOF"), (e.token, "[t if t.token_type == ty]"),
    (e.repeatCount, "repeat count")]
  ", ".intercalate ((items.filter (·.1)).map (·.2))

end Expected

/-- A place, by the number of tokens that follow it, and what was looked for there. -/
structure Failure where
  remaining : Nat
  expected : Expected
  deriving DecidableEq, Repr, Inhabited

namespace Failure

/-- The further one of two failures. Failures at the same place are united. -/
def join (a b : Failure) : Failure :=
  if a.remaining < b.remaining then a
  else if b.remaining < a.remaining then b
  else ⟨a.remaining, a.expected.union b.expected⟩

/-- The furthest failure of two parts, each of which may have none. -/
def furthest : Option Failure → Option Failure → Option Failure
  | none, b => b
  | a, none => a
  | some a, some b => some (a.join b)

end Failure

-- ---------------------------------------------------------------------------
-- Parsers
-- ---------------------------------------------------------------------------

/-- What a parser results in: a value with the remaining tokens, unless it failed. -/
structure Reply (α : Type) where
  result : Option (α × List Token)
  furthest : Option Failure := none
  deriving Inhabited

def Parser (α : Type) : Type := List Token → Reply α

namespace Parser

variable {α β : Type}

instance : Inhabited (Parser α) := ⟨fun _ => ⟨none, none⟩⟩

def run (p : Parser α) (ts : List Token) : Reply α := p ts

/-- Succeeds without taking a token. -/
protected def pure (a : α) : Parser α := fun ts => ⟨some (a, ts), none⟩

/-- Fails without looking for anything. -/
def fail : Parser α := fun _ => ⟨none, none⟩

protected def bind (p : Parser α) (f : α → Parser β) : Parser β := fun ts =>
  let r := p ts
  match r.result with
  | none => ⟨none, r.furthest⟩
  | some (a, rest) =>
    let s := f a rest
    ⟨s.result, Failure.furthest r.furthest s.furthest⟩

/-- The first parser, or the second one from the same place when the first one fails. -/
protected def orElse (p : Parser α) (q : Unit → Parser α) : Parser α := fun ts =>
  let r := p ts
  match r.result with
  | some _ => r
  | none =>
    let s := q () ts
    ⟨s.result, Failure.furthest r.furthest s.furthest⟩

instance : Monad Parser where
  pure := Parser.pure
  bind := Parser.bind

instance : OrElse (Parser α) := ⟨Parser.orElse⟩

/-- Fails at the present place. -/
def failExpecting (e : Expected) : Parser α := fun ts => ⟨none, some ⟨ts.length, e⟩⟩

/-- Takes a token that satisfies the condition. -/
def satisfy (p : Token → Bool) : Parser Token := fun ts =>
  match ts with
  | t :: rest => if p t then ⟨some (t, rest), none⟩ else failExpecting { token := true } ts
  | [] => failExpecting { token := true } ts

/-- Takes a token of the kind. -/
def token (k : TokenKind) : Parser Token := satisfy (·.kind = k)

/-- The parser, or nothing when it fails. -/
def optional (p : Parser α) : Parser (Option α) := (some <$> p) <|> pure none

/-- Repeats the parser until it fails or takes no token, at most as often as the bound says. -/
def manyWithin (p : Parser α) : Nat → Parser (List α)
  | 0 => pure []
  | bound + 1 => (do
      let a ← p
      let rest ← manyWithin p bound
      pure (a :: rest)) <|> pure []

/-- Repeats the parser as often as it succeeds. It takes at least one token each time. -/
def many (p : Parser α) : Parser (List α) := fun ts => manyWithin p ts.length ts

/-- Repeats the parser, which has to succeed at least once. -/
def some1 (p : Parser α) : Parser (List α) := do
  let a ← p
  let rest ← many p
  pure (a :: rest)

/-- One or more items with a separator between them. -/
def sepBy1 (p : Parser α) (separator : Parser β) : Parser (List α) := do
  let a ← p
  let rest ← many (separator *> p)
  pure (a :: rest)

/-- Any number of items with a separator between them. -/
def sepBy (p : Parser α) (separator : Parser β) : Parser (List α) :=
  sepBy1 p separator <|> pure []

/-- From the first to the last of the tokens at the front that the rest does not have any more. -/
def spanBetween (ts rest : List Token) : Span :=
  match ts with
  | [] => .origin
  | first :: _ =>
    match ts[ts.length - rest.length - 1]? with
    | some last => .join first.span last.span
    | none => first.span

/-- The result of the parser with the span of the tokens that it took. -/
def spanned (p : Parser α) : Parser (α × Span) := fun ts =>
  let r := p ts
  match r.result with
  | none => ⟨none, r.furthest⟩
  | some (a, rest) => ⟨some ((a, spanBetween ts rest), rest), r.furthest⟩

/-- The parser runs with a bound that no nesting in the remaining tokens exceeds. -/
def bounded (p : Nat → Parser α) : Parser α := fun ts => p (ts.length + 1) ts

/-- The parser has to take all tokens. Otherwise the result is the furthest failure. -/
def parseAll (p : Parser α) (ts : List Token) : Except Failure α :=
  let r := p ts
  match r.result with
  | some (a, []) => .ok a
  | some (_, rest) =>
    let left : Failure := ⟨rest.length, { endOfInput := true }⟩
    .error ((Failure.furthest r.furthest (some left)).getD left)
  | none => .error (r.furthest.getD ⟨ts.length, {}⟩)

end Parser

end StructuredText
