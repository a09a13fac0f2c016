-- SUMMARY: The kind of value that an operator results in, and where the check of expressions foresees it.
import StructuredText.Body.Verify
import StructuredText.Proofs.Computation

/-!
# Kinds of results

The kind of a result only depends on the operator and the kinds of its operands. The check of an expression foresees it
by a probe, which it takes from one of the operands unless the operator is a comparison. That is right for operands of
one kind, but for the difference of two points in time, which is a duration.
-/

namespace StructuredText

-- ---------------------------------------------------------------------------
-- Operations
-- ---------------------------------------------------------------------------

namespace ValueKind

def isPointInTime : ValueKind → Bool
  | .date | .timeOfDay | .dateAndTime => true
  | _ => false

/-- The kind that arithmetic on two kinds results in. -/
def arithmetic : ValueKind → ValueKind → ValueKind
  | .date, .date | .timeOfDay, .timeOfDay | .dateAndTime, .dateAndTime => .duration
  | .integer, .real => .real
  | a, _ => a

theorem arithmetic_self {a : ValueKind} (h : a.isPointInTime = false) : a.arithmetic a = a := by
  cases a <;> first | rfl | cases h

end ValueKind

namespace Value

variable {operation : Operation} {a b v : Value}

theorem negate_kind (h : a.negate = .ok v) : v.kind = a.kind := by
  obtain ⟨-, -, h⟩ := Except.bind_eq_ok.mp h
  cases a with
  | integer i =>
    obtain ⟨_, -, rfl⟩ := Except.map_eq_ok.mp h
    rfl
  | duration d =>
    obtain ⟨_, -, rfl⟩ := Except.map_eq_ok.mp h
    rfl
  | real x =>
    cases h
    rfl
  | _ => cases h

theorem complement_kind (h : a.complement = .ok v) : v.kind = a.kind := by
  obtain ⟨-, -, h⟩ := Except.bind_eq_ok.mp h
  cases a with
  | bool b =>
    cases h
    rfl
  | bits b =>
    cases h
    rfl
  | _ => cases h

theorem logical_kind (h : logical operation a b = .ok v) : v.kind = a.kind := by
  obtain ⟨-, -, h⟩ := Except.bind_eq_ok.mp h
  split at h
  · obtain ⟨_, -, h⟩ := Except.bind_eq_ok.mp h
    cases h
    rfl
  · obtain ⟨_, -, h⟩ := Except.bind_eq_ok.mp h
    cases h
    rfl
  · split at h
    · cases h
    · obtain ⟨_, -, h⟩ := Except.bind_eq_ok.mp h
      cases h
      rfl
  · cases h

/-- Of two numbers of which one is real, arithmetic makes a real one. -/
theorem arithmetic_of_isRealPair (h : a.isRealPair b = true) : a.kind.arithmetic b.kind = .real := by
  unfold isRealPair at h
  split at h
  · rfl
  · rfl
  · rfl
  · cases h

theorem elapsed_kind {x y : Int} (h : elapsed x y = .ok v) : v.kind = .duration := by
  obtain ⟨_, -, rfl⟩ := Except.map_eq_ok.mp h
  rfl

theorem arithmetic_kind (h : arithmetic operation a b = .ok v) : v.kind = a.kind.arithmetic b.kind := by
  obtain ⟨-, -, h⟩ := Except.bind_eq_ok.mp h
  split at h
  · obtain ⟨_, -, rfl⟩ := Except.map_eq_ok.mp h
    rfl
  · split at h
    · obtain ⟨_, -, rfl⟩ := Except.map_eq_ok.mp h
      rfl
    · obtain ⟨_, -, rfl⟩ := Except.map_eq_ok.mp h
      rfl
    · cases h
  · obtain ⟨_, -, rfl⟩ := Except.map_eq_ok.mp h
    rfl
  · obtain ⟨_, -, rfl⟩ := Except.map_eq_ok.mp h
    rfl
  · split at h
    · cases h
      rfl
    · cases h
      rfl
    · cases h
  · split at h
    · obtain ⟨_, -, rfl⟩ := Except.map_eq_ok.mp h
      rfl
    · obtain ⟨_, -, rfl⟩ := Except.map_eq_ok.mp h
      rfl
    · cases h
  · split at h
    · exact elapsed_kind h
    · cases h
  · split at h
    · exact elapsed_kind h
    · cases h
  · split at h
    · exact elapsed_kind h
    · cases h
  · split at h
    · next hreal =>
      rw [arithmetic_of_isRealPair (by simp_all)]
      obtain ⟨_, -, h⟩ := Except.bind_eq_ok.mp h
      obtain ⟨_, -, h⟩ := Except.bind_eq_ok.mp h
      obtain ⟨_, -, rfl⟩ := Except.map_eq_ok.mp h
      rfl
    · cases h

/-- The difference of two times of day is none. -/
example : ValueKind.timeOfDay.arithmetic .timeOfDay = .duration := rfl

end Value

-- ---------------------------------------------------------------------------
-- Operators
-- ---------------------------------------------------------------------------

theorem UnaryOp.evaluate_kind {op : UnaryOp} {a v : Value} (h : op.evaluate a = .ok v) : v.kind = a.kind := by
  cases op with
  | negate => exact Value.negate_kind h
  | not => exact Value.complement_kind h

/-- The kind that an operator results in, from the kinds of its operands. -/
def BinaryOp.resultKind (op : BinaryOp) (a b : ValueKind) : ValueKind :=
  match op with
  | .eq | .ne | .lt | .gt | .le | .ge => .bool
  | .and | .or | .xor => a
  | .add | .sub | .mul | .div | .mod | .pow => a.arithmetic b

theorem BinaryOp.evaluate_kind {op : BinaryOp} {a b v : Value} {epsilon : Float}
    (h : op.evaluate a b epsilon = .ok v) : v.kind = op.resultKind a.kind b.kind := by
  cases op with
  | eq | ne | lt | gt | le | ge =>
    obtain ⟨_, -, h⟩ := Except.bind_eq_ok.mp h
    cases h
    rfl
  | and | or | xor => exact Value.logical_kind h
  | add | sub | mul | div | mod | pow => exact Value.arithmetic_kind h

-- ---------------------------------------------------------------------------
-- Checked operators
-- ---------------------------------------------------------------------------

namespace Body

variable {s : Scope} {info : NodeInfo} {operand left right c : Checked} {a b v : Value} {epsilon : Float}

/-- An operator that passes the check with an operand of the foreseen kind results in the foreseen kind. -/
theorem checkUnary_kind {op : UnaryOp} (h : checkUnary info op operand = .ok c) (ha : a.kind = operand.probe.kind)
    (hv : op.evaluate a = .ok v) : v.kind = c.probe.kind := by
  rw [op.evaluate_kind hv, ha]
  obtain ⟨-, -, h⟩ := Except.bind_eq_ok.mp h
  split at h
  · obtain ⟨w, hw, h⟩ := Except.bind_eq_ok.mp h
    cases h
    exact (op.evaluate_kind (atSpan_eq_ok.mp hw)).symm
  · cases h
    rfl

/-- Two operands of one foreseen kind make for a result of the foreseen kind, unless they are points in time. -/
theorem checkBinary_kind {op : BinaryOp} (h : checkBinary s info op left right = .ok c)
    (hkind : left.probe.kind = right.probe.kind) (htime : left.probe.kind.isPointInTime = false)
    (ha : a.kind = left.probe.kind) (hb : b.kind = right.probe.kind) (hv : op.evaluate a b epsilon = .ok v) :
    v.kind = c.probe.kind := by
  rw [op.evaluate_kind hv, ha, hb]
  obtain ⟨-, -, h⟩ := Except.bind_eq_ok.mp h
  split at h
  · obtain ⟨w, hw, h⟩ := Except.bind_eq_ok.mp h
    cases h
    exact (op.evaluate_kind (Except.mapError_eq_ok.mp hw)).symm
  · split at h
    next type? probe hprobe =>
    cases h
    rw [← hkind]
    -- The probe of a comparison is a boolean, and any other one is that of the left or of the right operand.
    have hside (hop : op.isComparison = false) : probe.kind = left.probe.kind := by
      rw [if_neg (by simp [hop])] at hprobe
      split at hprobe <;> cases hprobe
      · exact hkind.symm
      · rfl
    cases op with
    | eq | ne | lt | gt | le | ge =>
      cases hprobe
      rfl
    | and | or | xor => exact (hside rfl).symm
    | add | sub | mul | div | mod | pow => exact (ValueKind.arithmetic_self htime).trans (hside rfl).symm

end Body

end StructuredText
