-- SUMMARY: The lower case of a text, for comparing names without regard to case.
import StructuredText.Text.LetterTable

/-!
# Lower case

Names are compared by their lower case. Letters of every script count, not only those of ASCII. A
capital sigma has two lower cases, one for the end of a word and one for all other places.
-/

namespace StructuredText.Text

/-- The lower case of a letter that has one of a single character, else the character itself. -/
def lowerChar (c : Char) : Char :=
  if c.toNat < 0x80 then c.toLower
  else
    match lowerRuns.find? (fun (lo, hi, _, _) => lo ≤ c.toNat && c.toNat ≤ hi) with
    | some (lo, _, stride, shift) =>
      if (c.toNat - lo) % stride = 0 then Char.ofNat (c.toNat + shift).toNat else c
    | none => c

def inRanges (ranges : List (Nat × Nat)) (c : Char) : Bool :=
  ranges.any fun (lo, hi) => lo ≤ c.toNat && c.toNat ≤ hi

def isCased (c : Char) : Bool :=
  if c.toNat < 0x80 then c.isAlpha else inRanges casedRanges c

def isCaseIgnorable (c : Char) : Bool :=
  if c.toNat < 0x80 then ['\'', '.', ':', '^', '\x60'].contains c
  else inRanges caseIgnorableRanges c

/-- A letter with case comes next, after marks that do not count. -/
def meetsCased (cs : List Char) : Bool :=
  match cs.dropWhile isCaseIgnorable with
  | c :: _ => isCased c
  | [] => false

/--
The lower case of a text whose characters before it, in reverse, are `before`. A capital sigma that
ends a word of at least two letters takes the final form, and a capital dotted `I` keeps its dot.
-/
def lowerFrom : (before : List Char) → List Char → List Char
  | _, [] => []
  | before, c :: rest =>
    let lowered :=
      if c = 'Σ' then
        if meetsCased before && !meetsCased rest then ['ς'] else ['σ']
      else if c = 'İ' then ['i', '\u0307']
      else [lowerChar c]
    lowered ++ lowerFrom (c :: before) rest

/-- The lower case of a text. -/
def lowercase (s : String) : String :=
  if s.toList.all (·.toNat < 0x80) then s.map Char.toLower
  else String.ofList (lowerFrom [] s.toList)

end StructuredText.Text
