-- SUMMARY: Identifiers, which keep their spelling and compare without regard to case.
import StructuredText.Span
import StructuredText.Text.Lowercase

/-!
# Identifiers

An identifier is shown as it was written and compared by its lower case, so `Motor` and `MOTOR` name
the same thing.
-/

namespace StructuredText

/-- A name as it is written in a source. -/
structure Ident where
  /-- The spelling of the name. -/
  text : String
  /-- Where the name is written. -/
  span : Span := .origin
  deriving Repr, Inhabited

namespace Ident

/-- The form of a name by which it is compared and looked up. -/
def key (i : Ident) : String := Text.lowercase i.text

/-- Two names are the same when their keys are. -/
instance : BEq Ident := ⟨fun a b => a.key == b.key⟩

theorem beq_iff {a b : Ident} : (a == b) = true ↔ a.key = b.key := by
  simp [BEq.beq]

/-- Compares the key of a name with a text, without regard to the case of ASCII letters. -/
def isNamed (i : Ident) (text : String) : Bool :=
  i.key.map Char.toLower == text.map Char.toLower

end Ident

end StructuredText
