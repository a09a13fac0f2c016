-- SUMMARY: Direct addresses such as `%IX0.1`: how they are read and written.
import StructuredText.Text.Numeral
import StructuredText.Value.Error

/-!
# Direct addresses

An address names an area, a size and a byte, and for a single bit its position in the byte. The size
letter of a bit may be left out when an address is read and is always written.
-/

namespace StructuredText

/-- An area of the memory that the outside world shares. -/
inductive Area where
  | inputs | outputs | markers
  deriving DecidableEq, Repr, Inhabited

/-- How much an address covers. -/
inductive AddressSize where
  /-- One bit of a byte. -/
  | bit (position : Fin 8)
  | byte | word | doubleWord | longWord
  deriving DecidableEq, Repr, Inhabited

structure Address where
  area : Area
  size : AddressSize
  /-- The first byte of the area that the address covers. -/
  byte : Nat
  deriving DecidableEq, Repr, Inhabited

namespace Area

def letter : Area → Char
  | .inputs => 'I'
  | .outputs => 'Q'
  | .markers => 'M'

def ofLetter? (c : Char) : Option Area :=
  match c.toUpper with
  | 'I' => some .inputs
  | 'Q' => some .outputs
  | 'M' => some .markers
  | _ => none

end Area

namespace AddressSize

def letter : AddressSize → Char
  | .bit _ => 'X'
  | .byte => 'B'
  | .word => 'W'
  | .doubleWord => 'D'
  | .longWord => 'L'

/-- The size that a letter stands for, unless it stands for a bit. -/
def ofLetter? (c : Char) : Option AddressSize :=
  match c.toUpper with
  | 'B' => some .byte
  | 'W' => some .word
  | 'D' => some .doubleWord
  | 'L' => some .longWord
  | _ => none

def bits : AddressSize → Nat
  | .bit _ => 1
  | .byte => 8
  | .word => 16
  | .doubleWord => 32
  | .longWord => 64

/-- The number of bytes that the address lies in. -/
def bytes : AddressSize → Nat
  | .bit _ | .byte => 1
  | .word => 2
  | .doubleWord => 4
  | .longWord => 8

end AddressSize

namespace Address

/-- Bytes have positions below this number. -/
def byteLimit : Nat := 2 ^ 64

def text (a : Address) : String :=
  let place := s!"%{a.area.letter}{a.size.letter}{a.byte}"
  match a.size with
  | .bit position => s!"{place}.{position.val}"
  | _ => place

/-- The byte and the bit of a single bit, such as `0.1`. -/
def bitPlace? (cs : List Char) : Option (Nat × Fin 8) := do
  let byte := cs.takeWhile (· ≠ '.')
  match cs.drop byte.length with
  | _ :: position =>
    let byte ← Text.number? (byteLimit - 1) byte
    let position ← Text.number? 255 position
    if h : position < 8 then some (byte, ⟨position, h⟩) else none
  | [] => none

/-- Reads an address in any case of its letters. -/
def read? (text : String) : Option Address :=
  match text.toList with
  | '%' :: area :: first :: rest => do
    let area ← Area.ofLetter? area
    match AddressSize.ofLetter? first with
    | some size => pure ⟨area, size, ← Text.number? (byteLimit - 1) rest⟩
    | none =>
      let place ←
        if first.toUpper = 'X' then some rest
        else if first.isDigit then some (first :: rest)
        else none
      let (byte, position) ← bitPlace? place
      pure ⟨area, .bit position, byte⟩
  | _ => none

/-- Reads an address or fails with the error for a text that is none. -/
def read (text : String) : Except ValueError Address :=
  match read? text with
  | some a => .ok a
  | none => .error (.invalidArgument s!"{text} is not a direct address")

end Address

end StructuredText
