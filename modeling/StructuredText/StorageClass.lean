-- SUMMARY: The properties of a value that come from how its variable is stored.

/-!
# Storage classes

A storage class says of a value whether it is an intermediate result, whether it may be assigned to,
whether its variable stands for a global one, and whether it is kept over a warm restart.
-/

namespace StructuredText

structure StorageClass where
  /-- An intermediate result, whose type and range are not checked. -/
  temporary : Bool := false
  /-- Not assigned to. Its range is checked when it is assigned to something else. -/
  constant : Bool := false
  /-- Stands for a global variable. -/
  external : Bool := false
  /-- Kept over a warm restart. -/
  retain : Bool := false
  deriving DecidableEq, Repr, Inhabited

namespace StorageClass

/-- The class of intermediate results. -/
def result : StorageClass := { temporary := true }

/-- The class of literals and of what is computed from literals. -/
def literal : StorageClass := { temporary := true, constant := true }

/-- The class with the properties of both. -/
def union (a b : StorageClass) : StorageClass :=
  ⟨a.temporary || b.temporary, a.constant || b.constant, a.external || b.external,
    a.retain || b.retain⟩

/-- The class as a set of bits. -/
def bits (c : StorageClass) : Nat :=
  c.temporary.toNat + 2 * c.constant.toNat + 4 * c.external.toNat + 8 * c.retain.toNat

def ofBits (n : Nat) : StorageClass :=
  ⟨n.testBit 0, n.testBit 1, n.testBit 2, n.testBit 3⟩

end StorageClass

end StructuredText
