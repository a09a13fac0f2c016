-- SUMMARY: Splits a source text into tokens and reports the text that is none.
import StructuredText.Diagnostic
import StructuredText.Token

/-!
# Splitting a text into tokens

`tokenize` cuts a source into lexemes: white space and comments, which are dropped, tokens, and text
that is no token, which is reported. A lexeme is the longest text that some kind of token allows. The
following kinds are committed to once they are recognised by their start, and are reported as far as
they were read when the rest is missing: strings after the quote, direct addresses after `%`, dates and
times of day after the first digit that follows `#`, and block comments.
-/

namespace StructuredText.Lexer

/-- What a lexeme turns out to be. -/
inductive Lexeme where
  | skipped
  | token (kind : TokenKind)
  | invalid
  deriving DecidableEq, Repr, Inhabited

-- ---------------------------------------------------------------------------
-- Characters
-- ---------------------------------------------------------------------------

def isBlank (c : Char) : Bool :=
  c = ' ' || c = '\t' || c = '\r' || c = '\n' || c = '\x0c'

def isNameStart (c : Char) : Bool := c.isAlpha || c = '_'

def isNameChar (c : Char) : Bool := c.isAlphanum || c = '_'

def isDigitOrBar (c : Char) : Bool := c.isDigit || c = '_'

def isHexOrBar (c : Char) : Bool :=
  isDigitOrBar c || ('a' ≤ c && c ≤ 'f') || ('A' ≤ c && c ≤ 'F')

/--
A character stands for an upper case letter in a keyword. The long s and the Kelvin sign have an ASCII
letter as their other case, so they count too.
-/
def standsFor (c letter : Char) : Bool :=
  c.toUpper = letter || (c = 'ſ' && letter = 'S') || (c = '\u212a' && letter = 'K')

/-- What may follow the first digit of a duration. -/
def isDurationChar (c : Char) : Bool :=
  c.isAlphanum || c = '_' || c = '.' || c = 'ſ' || c = '\u212a'

-- ---------------------------------------------------------------------------
-- Lengths of the parts of a lexeme
-- ---------------------------------------------------------------------------

/-- The number of characters at the front of the text that satisfy `p`. -/
def runLength (p : Char → Bool) (cs : List Char) : Nat := (cs.takeWhile p).length

/-- The length of a fraction such as `.25`, zero when the text does not start with one. -/
def fractionLength : List Char → Nat
  | '.' :: d :: rest => if d.isDigit then 2 + runLength Char.isDigit rest else 0
  | _ => 0

/-- The length of an exponent such as `e-5`, zero when the text does not start with one. -/
def exponentLength : List Char → Nat
  | e :: s :: rest =>
    if e = 'e' || e = 'E' then
      if s.isDigit then 2 + runLength Char.isDigit rest
      else if s = '+' || s = '-' then
        let n := runLength Char.isDigit rest
        if n = 0 then 0 else 2 + n
      else 0
    else 0
  | _ => 0

/--
The length of groups of digits with the given separators between them, up to the last digit that is in
place, and whether every group is there. The first group may be empty.
-/
def digitGroups : (separators : List Char) → List Char → Nat × Bool
  | [], cs => (runLength Char.isDigit cs, true)
  | sep :: seps, cs =>
    let n := runLength Char.isDigit cs
    match cs.drop n with
    | c :: d :: rest =>
      if c = sep && d.isDigit then
        let (m, complete) := digitGroups seps (d :: rest)
        (n + 1 + m, complete)
      else (n, false)
    | _ => (n, false)

/--
The length of the rest of a string after its opening quote, and whether the closing quote is there. A
dollar sign takes the next character with it, which may not be the end of the line.
-/
def stringRest : List Char → Nat × Bool
  | [] => (0, false)
  | '$' :: [] => (0, false)
  | '$' :: c :: rest =>
    if c = '\n' then (0, false)
    else
      let (n, closed) := stringRest rest
      (n + 2, closed)
  | c :: rest =>
    if c = '\'' then (1, true)
    else
      let (n, closed) := stringRest rest
      (n + 1, closed)

/-- The length of a block comment after its opening mark, with the closing mark. -/
def commentRest? : List Char → Option Nat
  | [] => none
  | c :: rest =>
    if c = '*' && rest.head? = some ')' then some 2
    else (commentRest? rest).map (· + 1)

-- ---------------------------------------------------------------------------
-- Lexemes
-- ---------------------------------------------------------------------------

/-- The longest keyword that the text starts with, and its length. -/
def keyword? (cs : List Char) : Option (TokenKind × Nat) :=
  TokenKind.keywords.foldl (fun best (word, kind) =>
    let letters := word.toList
    let size := letters.length
    let here := cs.take size
    if here.length = size && (here.zip letters).all (fun (c, l) => standsFor c l) then
      match best with
      | some (_, n) => if n < size then some (kind, size) else best
      | none => some (kind, size)
    else best) none

/-- A literal of the form `prefix#…`, for the text after `#`. -/
def tagged? (tag : String) (cs : List Char) : Option (Lexeme × Nat) :=
  let grouped (kind : TokenKind) (separators : List Char) (fraction : Bool) :=
    if (cs.head?.map Char.isDigit).getD false then
      let (n, complete) := digitGroups separators cs
      if complete then
        some (.token kind, n + if fraction then fractionLength (cs.drop n) else 0)
      else some (.invalid, n)
    else none
  if tag = "t" || tag = "time" then
    let sign := if cs.head? = some '-' then 1 else 0
    match cs.drop sign with
    | d :: rest =>
      if d.isDigit then some (.token .duration, sign + 1 + runLength isDurationChar rest) else none
    | [] => none
  else if tag = "d" || tag = "date" then grouped .date ['-', '-'] false
  else if tag = "tod" || tag = "time_of_day" then grouped .timeOfDay [':', ':'] true
  else if tag = "dt" || tag = "date_and_time" then grouped .dateAndTime ['-', '-', '-', ':', ':'] true
  else none

/-- A name, a keyword or a literal that starts with a word. -/
def word (cs : List Char) : Lexeme × Nat :=
  let n := runLength isNameChar cs
  let name := cs.take n
  let plain :=
    match keyword? cs with
    | some (kind, size) => if n ≤ size then (.token kind, size) else (.token .identifier, n)
    | none => (.token .identifier, n)
  match cs.drop n with
  | '#' :: rest =>
    match tagged? (String.ofList (name.map Char.toLower)) rest with
    | some (lexeme, size) => (lexeme, n + 1 + size)
    | none => plain
  | _ => plain

/-- A number. -/
def number (cs : List Char) : Lexeme × Nat :=
  let n := runLength isDigitOrBar cs
  match cs.drop n with
  | '#' :: d :: rest =>
    if ["2", "8", "16"].contains (String.ofList (cs.take n)) && isHexOrBar d then
      (.token .basedInteger, n + 2 + runLength isHexOrBar rest)
    else (.token .integer, n)
  | '.' :: d :: rest =>
    if d.isDigit then
      let m := runLength isDigitOrBar rest
      (.token .real, n + 2 + m + exponentLength (rest.drop m))
    else (.token .integer, n)
  | _ => (.token .integer, n)

/-- A direct address, for the text after `%`. -/
def addressRest (cs : List Char) : Lexeme × Nat :=
  match cs with
  | area :: next :: rest =>
    if ['I', 'Q', 'M'].contains area.toUpper then
      let sized := ['X', 'B', 'W', 'D', 'L'].contains next.toUpper
      let digits := if sized then rest else next :: rest
      let n := runLength Char.isDigit digits
      if n = 0 then (.invalid, 1)
      else (.token .directAddress, 1 + (if sized then 1 else 0) + n + fractionLength (digits.drop n))
    else (.invalid, 0)
  | _ => (.invalid, 0)

/-- The longest mark or operator that the text starts with. -/
def symbol (cs : List Char) : Lexeme × Nat :=
  let two := String.ofList (cs.take 2)
  let one := String.ofList (cs.take 1)
  match TokenKind.symbols.find? (·.1 = two), TokenKind.symbols.find? (·.1 = one) with
  | some (text, kind), _ => (.token kind, text.length)
  | none, some (_, kind) => (.token kind, 1)
  | none, none => (.invalid, 1)

/-- The lexeme that starts with `c` and the number of characters that it has after `c`. -/
def lexeme (c : Char) (rest : List Char) : Lexeme × Nat :=
  let tail (found : Lexeme × Nat) : Lexeme × Nat := (found.1, found.2 - 1)
  if isBlank c then (.skipped, runLength isBlank rest)
  else if isNameStart c then tail (word (c :: rest))
  else if c.isDigit then tail (number (c :: rest))
  else if c = '\'' then
    let (n, closed) := stringRest rest
    (if closed then .token .string else .invalid, n)
  else if c = '%' then addressRest rest
  else if c = '(' && rest.head? = some '*' then
    match commentRest? (rest.drop 1) with
    | some n => (.skipped, 1 + n)
    | none => (.invalid, rest.length)
  else if c = '/' && rest.head? = some '/' then
    (.skipped, runLength (fun c => c ≠ '\r' && c ≠ '\n') rest)
  else
    match keyword? (c :: rest) with
    | some (kind, size) => (.token kind, size - 1)
    | none => tail (symbol (c :: rest))

-- ---------------------------------------------------------------------------
-- Whole texts
-- ---------------------------------------------------------------------------

/-- The number of bytes of a text in UTF-8. -/
def byteSize (cs : List Char) : Nat := cs.foldl (fun n c => n + c.utf8Size) 0

def invalidText (span : Span) (text : String) : Diagnostic :=
  .of .unexpectedToken span s!"The text '{text}' is not valid Structured Text at this location."

/-- The tokens and the diagnostics of a text that starts at a byte offset. -/
def scan (file : FileId) (offset : Nat) : List Char → List Token × List Diagnostic
  | [] => ([], [])
  | c :: rest =>
    let (what, more) := lexeme c rest
    let text := c :: rest.take more
    let stop := offset + byteSize text
    let span : Span := ⟨offset, stop, file⟩
    let (tokens, diagnostics) := scan file stop (rest.drop more)
    match what with
    | .skipped => (tokens, diagnostics)
    | .token kind => (⟨kind, String.ofList text, span⟩ :: tokens, diagnostics)
    | .invalid => (tokens, invalidText span (String.ofList text) :: diagnostics)
  termination_by cs => cs.length
  decreasing_by simp only [List.length_cons, List.length_drop]; omega

end Lexer

/-- The tokens of a source text, and a diagnostic for each text between them that is no token. -/
def tokenize (source : String) (file : FileId := .anonymous) : List Token × List Diagnostic :=
  Lexer.scan file 0 source.toList

end StructuredText
