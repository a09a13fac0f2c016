-- SUMMARY: Direct memory: reading, writing, and copying to and from variables that are located in it.
import StructuredText.Memory.Address
import StructuredText.TypeTable

/-!
# Direct memory

Direct memory has an area of bytes for inputs, one for outputs and one for markers. Numbers of several
bytes have their low byte first. A variable located at an address is loaded from it before it is read and
stored to it after it is written.
-/

namespace StructuredText

/-- The bytes of each area. -/
structure DirectMemory where
  inputs : Array UInt8 := #[]
  outputs : Array UInt8 := #[]
  markers : Array UInt8 := #[]
  deriving Repr, Inhabited

-- ---------------------------------------------------------------------------
-- Bytes of numbers
-- ---------------------------------------------------------------------------

/-- The number that has the bytes, low byte first. -/
def numberOfBytes : List UInt8 → Nat
  | [] => 0
  | b :: bs => b.toNat + 256 * numberOfBytes bs

/-- The low bytes of a number, low byte first. -/
def bytesOfNumber : (count : Nat) → Nat → List UInt8
  | 0, _ => []
  | count + 1, n => UInt8.ofNat n :: bytesOfNumber count (n / 256)

/-- A byte with the bit at a position set or cleared. -/
def setBit (byte : UInt8) (position : Nat) (on : Bool) : UInt8 :=
  let mask : UInt8 := 1 <<< UInt8.ofNat position
  if on then byte ||| mask else byte &&& ~~~mask

namespace DirectMemory

-- ---------------------------------------------------------------------------
-- Areas
-- ---------------------------------------------------------------------------

/-- Memory with areas of the size, all zero. -/
def ofSize (size : Nat) : DirectMemory :=
  ⟨.replicate size 0, .replicate size 0, .replicate size 0⟩

def area (m : DirectMemory) : Area → Array UInt8
  | .inputs => m.inputs
  | .outputs => m.outputs
  | .markers => m.markers

def setArea (m : DirectMemory) (a : Area) (bytes : Array UInt8) : DirectMemory :=
  match a with
  | .inputs => { m with inputs := bytes }
  | .outputs => { m with outputs := bytes }
  | .markers => { m with markers := bytes }

/-- Replaces the bytes of an area from a position on, as far as the area reaches. -/
def setBytes (m : DirectMemory) (a : Area) (start : Nat) (bytes : List UInt8) : DirectMemory :=
  m.setArea a <| (bytes.zipIdx start).foldl (fun area (b, i) => area.setIfInBounds i b) (m.area a)

-- ---------------------------------------------------------------------------
-- Reading and writing
-- ---------------------------------------------------------------------------

/-- The address ends within an area of the size. -/
def inArea (a : Address) (size : Nat) : Except ValueError Unit :=
  if a.byte + a.size.bytes ≤ min size (Address.byteLimit - 1) then .ok ()
  else .error (.addressOutOfRange a.text)

/-- The bytes that the address lies in. -/
def bytesAt (m : DirectMemory) (a : Address) : Except ValueError (List UInt8) := do
  let area := m.area a.area
  inArea a area.size
  pure (area.extract a.byte (a.byte + a.size.bytes)).toList

/-- The number at the address. -/
def read (m : DirectMemory) (a : Address) : Except ValueError Nat := do
  let n := numberOfBytes (← m.bytesAt a)
  match a.size with
  | .bit position => pure (n / 2 ^ position.val % 2)
  | _ => pure n

/-- The memory with the low bits of a number at the address. -/
def write (m : DirectMemory) (a : Address) (n : Nat) : Except ValueError DirectMemory := do
  let bytes ← m.bytesAt a
  match a.size with
  | .bit position =>
    pure (m.setBytes a.area a.byte (bytes.map (setBit · position.val (n % 2 = 1))))
  | size => pure (m.setBytes a.area a.byte (bytesOfNumber size.bytes n))

-- ---------------------------------------------------------------------------
-- Located variables
-- ---------------------------------------------------------------------------

def mismatch (types : TypeTable) (id : TypeId) (a : Address) : ValueError :=
  .addressMismatch a.text (types.nameOf id)

/--
The elementary type behind a type whose values can be at the address: a boolean at a bit, an integer or a
bit string where the size is its own.
-/
def addressable (types : TypeTable) (id : TypeId) (a : Address) : Except ValueError Elementary := do
  match ← types.elementaryOf id with
  | none => throw (mismatch types id a)
  | some e =>
    let fits :=
      match e.kind, a.size with
      | .bool, .bit _ => true
      | .integer .., .bit _ | .bits, .bit _ => false
      | .integer .., size | .bits, size => e.bits = size.bits
      | _, _ => false
    if fits then pure e else throw (mismatch types id a)

/-- A variable of the type can be located at the address in areas of the size. -/
def check (types : TypeTable) (id : TypeId) (a : Address) (size : Nat) : Except ValueError Unit := do
  let _ ← addressable types id a
  inArea a size

/-- The number that stands for a value in memory. -/
def encode? (e : Elementary) : Value → Option Nat
  | .bool b => some b.toNat
  | .integer i => some (BitString.ofNat e.bits (i % 2 ^ 64).toNat).value
  | .bits b => some b.value
  | _ => none

/-- The value that a number in memory stands for. -/
def decode? (e : Elementary) (n : Nat) : Option Value :=
  match e.kind with
  | .bool => some (.bool (n ≠ 0))
  | .integer min _ => some (.integer (if min < 0 then (n : Int).bmod (2 ^ e.bits) else n))
  | .bits => some (.bits (.ofNat e.bits n))
  | _ => none

/-- The memory with the value of a variable at its address. -/
def store (types : TypeTable) (id : TypeId) (a : Address) (v : Value) (m : DirectMemory) :
    Except ValueError DirectMemory := do
  let e ← addressable types id a
  match encode? e v with
  | some n => m.write a n
  | none => throw (mismatch types id a)

/-- The value of a variable from its address. -/
def load (types : TypeTable) (id : TypeId) (a : Address) (m : DirectMemory) :
    Except ValueError Value := do
  let e ← addressable types id a
  match decode? e (← m.read a) with
  | some v => pure v
  | none => throw (mismatch types id a)

end DirectMemory

end StructuredText
