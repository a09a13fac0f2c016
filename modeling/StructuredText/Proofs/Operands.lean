-- SUMMARY: Which kinds of values an operation joins, and how far the check that tries it out foresees that.
import StructuredText.Proofs.Kinds
import StructuredText.Proofs.Reals
import StructuredText.Proofs.Results

/-!
# Operands

Whether an operation joins two values is a matter of their kinds, which a table gives. For kinds in the table it fails
because of the values only, and for other kinds it always fails because of the kinds. Two operations make exceptions: a
bit string is joined with an integer unless that is negative, which is reported as if the kinds did not go together, and
reals are ordered unless one of them is not a number. An operation is checked by trying it out, so the check of these two
depends on the values that it is tried on.
-/

namespace StructuredText

-- ---------------------------------------------------------------------------
-- The table of operands
-- ---------------------------------------------------------------------------

/-- Pairs of the same kind. -/
def ValueKind.alike (kinds : List ValueKind) : List (ValueKind × ValueKind) := kinds.map fun kind => (kind, kind)

/-- The kinds of two numbers of which one is real. -/
def ValueKind.realPairs : List (ValueKind × ValueKind) := [(.real, .real), (.real, .integer), (.integer, .real)]

namespace Operation

open ValueKind

/-- The kinds of operands that the operation joins. -/
def operands : Operation → List (ValueKind × ValueKind)
  | .equals =>
    alike [.bool, .integer, .bits, .string, .duration, .date, .timeOfDay, .dateAndTime, .enumeration] ++
      realPairs ++ [(.bits, .integer), (.integer, .bits)]
  | .greater | .lesser =>
    alike [.integer, .bits, .string, .duration, .date, .timeOfDay, .dateAndTime] ++ realPairs
  | .plus => alike [.integer, .duration] ++ realPairs ++ [(.timeOfDay, .duration), (.dateAndTime, .duration)]
  | .minus =>
    alike [.integer, .duration, .date, .timeOfDay, .dateAndTime] ++ realPairs ++
      [(.timeOfDay, .duration), (.dateAndTime, .duration)]
  | .multiply | .divide => alike [.integer] ++ realPairs ++ [(.duration, .integer), (.duration, .real)]
  | .modulus => alike [.integer]
  | .power => alike [.integer] ++ realPairs
  | .and | .or | .xor => alike [.bool, .bits] ++ [(.bits, .integer)]
  | _ => []

/-- The operations that bits are combined by. -/
def IsLogical (operation : Operation) : Prop := operation ∈ [.and, .or, .xor]

def Joins (operation : Operation) (a b : ValueKind) : Prop := (a, b) ∈ operation.operands

instance (operation : Operation) (a b : ValueKind) : Decidable (operation.Joins a b) :=
  inferInstanceAs (Decidable (_ ∈ _))

end Operation

namespace ValueError

/-- The values are to blame and not their kinds. -/
def IsOfValues : ValueError → Prop
  | .divisionByZero | .overflow _ | .invalidArgument _ => True
  | _ => False

end ValueError

namespace Value

variable {operation : Operation} {a b : Value} {α β : Type}

/-- The error is that the first value does not have the operation, or not with the second one. -/
def Refuses (operation : Operation) (a b : Value) (e : ValueError) : Prop :=
  e = a.notSupported operation ∨ e = a.incompatible operation b

/-- The operation fails because of the values only. -/
def FailsByValues (x : Except ValueError α) : Prop := ∀ e, x = .error e → e.IsOfValues

namespace FailsByValues

theorem ok (a : α) : FailsByValues (.ok a) := nofun

theorem error {e : ValueError} (h : e.IsOfValues) : FailsByValues (.error e : Except ValueError α) := by
  intro _ he
  cases he
  exact h

theorem map {x : Except ValueError α} (h : FailsByValues x) (f : α → β) : FailsByValues (f <$> x) := by
  cases x with
  | ok a => exact ok _
  | error e => exact error (h e rfl)

theorem bind {x : Except ValueError α} {f : α → Except ValueError β} (h : FailsByValues x)
    (hf : ∀ a, FailsByValues (f a)) : FailsByValues (x >>= f) := by
  cases x with
  | ok a => exact hf a
  | error e => exact error (h e rfl)

theorem ite {p : Prop} [Decidable p] {x y : Except ValueError α} (hx : FailsByValues x) (hy : FailsByValues y) :
    FailsByValues (if p then x else y) := by
  split
  · exact hx
  · exact hy

end FailsByValues

theorem fitInteger_fails (i : Int) : FailsByValues (fitInteger operation i) :=
  .ite (.ok i) (.error trivial)

theorem integerPower_fails (base : Int) (exponent : Nat) : FailsByValues (integerPower base exponent) := by
  unfold integerPower
  exact .ite (.error trivial) (.ite (fitInteger_fails _) (.ite (.ok _) (.ite (.ok _) (.error trivial))))

theorem integerArithmetic_fails (hop : operation.IsArithmetic) (i j : Int) :
    FailsByValues (integerArithmetic operation i j) := by
  unfold integerArithmetic
  split
  · exact fitInteger_fails _
  · exact fitInteger_fails _
  · exact fitInteger_fails _
  · exact .ite (.error trivial) (fitInteger_fails _)
  · exact .ite (.error trivial) (.bind (fitInteger_fails _) fun _ => .ok _)
  · exact .ite (.error trivial) (integerPower_fails _ _)
  · simp_all [Operation.IsArithmetic]

theorem realArithmetic_fails (hop : operation.IsArithmetic) (hmodulus : operation ≠ .modulus) (x y : Float) :
    FailsByValues (realArithmetic operation x y) := by
  unfold realArithmetic
  split
  · exact .ok _
  · exact .ok _
  · exact .ok _
  · exact .ite (.error trivial) (.ok _)
  · exact .ite (.error trivial) (.ite (.error trivial) (.ok _))
  · simp_all [Operation.IsArithmetic]

theorem orOverflow_fails (result : Option α) : FailsByValues (orOverflow operation result) := by
  cases result with
  | some a => exact .ok a
  | none => exact .error trivial

theorem supports_of_joins (h : operation.Joins a.kind b.kind) : a.supports operation = true := by
  have hoperations : ∀ p ∈ operation.operands, p.1.operations.contains operation = true := by
    cases operation <;> decide
  exact hoperations _ h

theorem require_of_joins (h : operation.Joins a.kind b.kind) : a.require operation = .ok () :=
  if_pos (supports_of_joins h)

/-- What is refused either way once the value has the operation is refused. -/
theorem refuses_of_supports {x : Except ValueError α}
    (h : a.supports operation = true → ∃ e, x = .error e ∧ Refuses operation a b e) :
    ∃ e, (a.require operation >>= fun _ => x) = .error e ∧ Refuses operation a b e := by
  unfold require
  by_cases hsupports : a.supports operation = true
  · rw [if_pos hsupports]
    exact h hsupports
  · rw [if_neg hsupports]
    exact ⟨_, rfl, .inl rfl⟩

/-- The value is made as values of the kind are. -/
def IsMadeAs (v : Value) : ValueKind → Prop
  | .void => v = .void
  | .bool => ∃ b, v = .bool b
  | .integer => ∃ i, v = .integer i
  | .bits => ∃ b, v = .bits b
  | .real => ∃ x, v = .real x
  | .string => ∃ s, v = .string s
  | .duration => ∃ d, v = .duration d
  | .date => ∃ d, v = .date d
  | .timeOfDay => ∃ t, v = .timeOfDay t
  | .dateAndTime => ∃ t, v = .dateAndTime t
  | .enumeration => ∃ name, v = .enumeration name
  | .array => ∃ elements, v = .array elements
  | .struct => ∃ members, v = .struct members
  | .arrayInit => ∃ items, v = .arrayInit items
  | .block => ∃ ref, v = .block ref

theorem isMadeAs_of_kind {k : ValueKind} (h : a.kind = k) : a.IsMadeAs k := by
  subst h
  cases a <;> first | exact ⟨_, rfl⟩ | rfl

theorem isRealPair_iff : a.isRealPair b = true ↔ (a.kind, b.kind) ∈ ValueKind.realPairs := by
  constructor
  · intro h
    unfold isRealPair at h
    split at h
    · exact of_decide_eq_true rfl
    · exact of_decide_eq_true rfl
    · exact of_decide_eq_true rfl
    · cases h
  · intro h
    simp only [ValueKind.realPairs, List.mem_cons, Prod.mk.injEq, List.not_mem_nil, or_false] at h
    obtain ⟨ha, hb⟩ | ⟨ha, hb⟩ | ⟨ha, hb⟩ := h
    all_goals
      obtain ⟨_, rfl⟩ := isMadeAs_of_kind ha
      obtain ⟨_, rfl⟩ := isMadeAs_of_kind hb
      rfl

-- ---------------------------------------------------------------------------
-- Equality
-- ---------------------------------------------------------------------------

/-- Values of joined kinds can always be tested for equality. -/
theorem exists_equals_of_joins (h : Operation.equals.Joins a.kind b.kind) (epsilon : Float) :
    ∃ r, a.equals b epsilon = .ok r := by
  simp only [Operation.Joins, Operation.operands, ValueKind.alike, ValueKind.realPairs, List.map_cons, List.map_nil,
    List.cons_append, List.nil_append, List.mem_cons, Prod.mk.injEq, List.not_mem_nil, or_false] at h
  obtain ⟨ha, hb⟩ | ⟨ha, hb⟩ | ⟨ha, hb⟩ | ⟨ha, hb⟩ | ⟨ha, hb⟩ | ⟨ha, hb⟩ | ⟨ha, hb⟩ | ⟨ha, hb⟩ | ⟨ha, hb⟩ | ⟨ha, hb⟩ |
    ⟨ha, hb⟩ | ⟨ha, hb⟩ | ⟨ha, hb⟩ | ⟨ha, hb⟩ := h
  all_goals
    obtain ⟨_, rfl⟩ := isMadeAs_of_kind ha
    obtain ⟨_, rfl⟩ := isMadeAs_of_kind hb
    exact ⟨_, rfl⟩

theorem equals_refuses (h : ¬ Operation.equals.Joins a.kind b.kind) (epsilon : Float) :
    ∃ e, a.equals b epsilon = .error e ∧ Refuses .equals a b e := by
  refine refuses_of_supports fun _ => ?_
  split
  case h_12 =>
    split
    · next hpair =>
      have hreals : ∀ p ∈ ValueKind.realPairs, p ∈ Operation.equals.operands := by decide
      exact absurd (hreals _ (isRealPair_iff.mp hpair)) h
    · exact ⟨_, rfl, .inr rfl⟩
  all_goals exact absurd (of_decide_eq_true rfl) h

-- ---------------------------------------------------------------------------
-- Order
-- ---------------------------------------------------------------------------

/-- The value is a real that is not a number. -/
def isNaN : Value → Bool
  | .real x => x.isNaN
  | _ => false

theorem ofInt_isNaN (i : Int) : (Binary64.ofInt i).isNaN = false :=
  Bool.eq_false_iff.mpr fun h => (Binary64.ofRatio_unpack _ _ _).1 (Binary64.isNaN_iff.mp h)

theorem compareReals_fails (x y : Float) : FailsByValues (compareReals x y) :=
  .ite (.ok _) (.ite (.ok _) (.ite (.ok _) (.error trivial)))

/-- Values of joined kinds are ordered unless one of them is not a number, which is a fault of the values. -/
theorem ordering_of_joins (h : Operation.greater.Joins a.kind b.kind) :
    ((a.ordering b).isOk = true ↔ ¬ (a.isNaN = true ∨ b.isNaN = true)) ∧ FailsByValues (a.ordering b) := by
  obtain halike | hreal := List.mem_append.mp h
  · simp only [ValueKind.alike, List.map_cons, List.map_nil, List.mem_cons, Prod.mk.injEq, List.not_mem_nil,
      or_false] at halike
    obtain ⟨ha, hb⟩ | ⟨ha, hb⟩ | ⟨ha, hb⟩ | ⟨ha, hb⟩ | ⟨ha, hb⟩ | ⟨ha, hb⟩ | ⟨ha, hb⟩ := halike
    all_goals
      obtain ⟨_, rfl⟩ := isMadeAs_of_kind ha
      obtain ⟨_, rfl⟩ := isMadeAs_of_kind hb
      exact ⟨iff_of_true rfl (by simp [isNaN]), .ok _⟩
  · have numbers {a b : Value} (x y : Float) (hx : x.isNaN = a.isNaN) (hy : y.isNaN = b.isNaN)
        (hxy : a.ordering b = compareReals x y) :
        ((a.ordering b).isOk = true ↔ ¬ (a.isNaN = true ∨ b.isNaN = true)) ∧ FailsByValues (a.ordering b) := by
      rw [← hx, ← hy, hxy]
      exact ⟨compareReals_isOk x y, compareReals_fails x y⟩
    have hpair := isRealPair_iff.mpr hreal
    unfold isRealPair at hpair
    split at hpair
    · next x y => exact numbers x y rfl rfl rfl
    · next x i => exact numbers x (Binary64.ofInt i) rfl (ofInt_isNaN i) rfl
    · next i y => exact numbers (Binary64.ofInt i) y (ofInt_isNaN i) rfl rfl
    · cases hpair

theorem ordering_refuses (h : ¬ Operation.greater.Joins a.kind b.kind) :
    ∃ e, a.ordering b = .error e ∧ Refuses .greater a b e := by
  refine refuses_of_supports fun _ => ?_
  split
  case h_8 =>
    split
    · next hpair =>
      have hreals : ∀ p ∈ ValueKind.realPairs, p ∈ Operation.greater.operands := by decide
      exact absurd (hreals _ (isRealPair_iff.mp hpair)) h
    · exact ⟨_, rfl, .inr rfl⟩
  all_goals exact absurd (of_decide_eq_true rfl) h

-- ---------------------------------------------------------------------------
-- Logic
-- ---------------------------------------------------------------------------

/-- The values are a bit string and a negative integer. -/
def isNegativePair : Value → Value → Bool
  | .bits _, .integer i => i < 0
  | _, _ => false

theorem exists_combineBits (hop : operation.IsLogical) (m n : Nat) : ∃ k, combineBits operation m n = .ok k := by
  simp only [Operation.IsLogical, List.mem_cons, List.not_mem_nil, or_false] at hop
  obtain rfl | rfl | rfl := hop <;> exact ⟨_, rfl⟩

/-- Values of joined kinds are combined unless they are a bit string and a negative integer, which are refused. -/
theorem logical_of_joins (hop : operation.IsLogical) (h : operation.Joins a.kind b.kind) :
    (a.isNegativePair b = false → ∃ v, logical operation a b = .ok v) ∧
      (a.isNegativePair b = true → logical operation a b = .error (a.incompatible operation b)) := by
  have hrequire := require_of_joins h
  have hrows : ∀ p ∈ operation.operands, p ∈ [(ValueKind.bool, ValueKind.bool), (.bits, .bits), (.bits, .integer)] := by
    simp only [Operation.IsLogical, List.mem_cons, List.not_mem_nil, or_false] at hop
    obtain rfl | rfl | rfl := hop <;> decide
  have hrow := hrows _ h
  simp only [List.mem_cons, Prod.mk.injEq, List.not_mem_nil, or_false] at hrow
  unfold logical
  rw [hrequire, Except.ok_bind]
  obtain ⟨ha, hb⟩ | ⟨ha, hb⟩ | ⟨ha, hb⟩ := hrow
  · obtain ⟨x, rfl⟩ := isMadeAs_of_kind ha
    obtain ⟨y, rfl⟩ := isMadeAs_of_kind hb
    obtain ⟨k, hk⟩ := exists_combineBits hop x.toNat y.toNat
    exact ⟨fun _ => ⟨_, by simp only [hk]; rfl⟩, nofun⟩
  · obtain ⟨x, rfl⟩ := isMadeAs_of_kind ha
    obtain ⟨y, rfl⟩ := isMadeAs_of_kind hb
    obtain ⟨k, hk⟩ := exists_combineBits hop x.value y.value
    exact ⟨fun _ => ⟨_, by simp only [hk]; rfl⟩, nofun⟩
  · obtain ⟨x, rfl⟩ := isMadeAs_of_kind ha
    obtain ⟨i, rfl⟩ := isMadeAs_of_kind hb
    obtain ⟨k, hk⟩ := exists_combineBits hop x.value (i.toNat % 2 ^ 64)
    simp only [isNegativePair, decide_eq_false_iff_not, decide_eq_true_eq]
    refine ⟨fun hsign => ?_, fun hsign => ?_⟩
    · rw [if_neg hsign, hk]
      exact ⟨_, rfl⟩
    · rw [if_pos hsign]
      rfl

theorem logical_refuses (hop : operation.IsLogical) (h : ¬ operation.Joins a.kind b.kind) :
    ∃ e, logical operation a b = .error e ∧ Refuses operation a b e := by
  have hrows : ∀ p ∈ [(ValueKind.bool, ValueKind.bool), (.bits, .bits), (.bits, .integer)], p ∈ operation.operands := by
    simp only [Operation.IsLogical, List.mem_cons, List.not_mem_nil, or_false] at hop
    obtain rfl | rfl | rfl := hop <;> decide
  refine refuses_of_supports fun _ => ?_
  split
  · exact absurd (hrows (.bool, .bool) (by decide)) h
  · exact absurd (hrows (.bits, .bits) (by decide)) h
  · exact absurd (hrows (.bits, .integer) (by decide)) h
  · exact ⟨_, rfl, .inr rfl⟩

-- ---------------------------------------------------------------------------
-- Arithmetic
-- ---------------------------------------------------------------------------

/-- What holds of the six arithmetic operations. -/
@[elab_as_elim] theorem of_isArithmetic {motive : Operation → Prop} (hop : operation.IsArithmetic)
    (h : ∀ o ∈ [Operation.plus, .minus, .multiply, .divide, .modulus, .power], motive o) : motive operation :=
  h operation hop

theorem joins_integers (hop : operation.IsArithmetic) : operation.Joins .integer .integer :=
  of_isArithmetic hop (by decide)

theorem joins_realPairs (hop : operation.IsArithmetic) :
    ∀ p ∈ ValueKind.realPairs, operation.Joins p.1 p.2 ↔ operation ≠ .modulus := of_isArithmetic hop (by decide)

theorem joins_durations (hop : operation.IsArithmetic) :
    operation.Joins .duration .duration ↔ operation = .plus ∨ operation = .minus := of_isArithmetic hop (by decide)

/-- Durations are scaled by numbers. -/
theorem joins_scaled (hop : operation.IsArithmetic) :
    ∀ k ∈ [ValueKind.integer, .real], operation.Joins .duration k ↔ operation = .multiply ∨ operation = .divide :=
  of_isArithmetic hop (by decide)

/-- Times are moved by durations. -/
theorem joins_moved (hop : operation.IsArithmetic) :
    ∀ k ∈ [ValueKind.timeOfDay, .dateAndTime], operation.Joins k .duration ↔ operation = .plus ∨ operation = .minus :=
  of_isArithmetic hop (by decide)

/-- Points in time are a duration apart. -/
theorem joins_points (hop : operation.IsArithmetic) :
    ∀ k ∈ [ValueKind.date, .timeOfDay, .dateAndTime], operation.Joins k k ↔ operation = .minus :=
  of_isArithmetic hop (by decide)

/-- There are no other kinds that arithmetic joins. -/
theorem rows_of_joins (hop : operation.IsArithmetic) (h : operation.Joins a.kind b.kind) :
    (a.kind, b.kind) ∈ ValueKind.realPairs ∨ (a.kind = .integer ∧ b.kind = .integer) ∨
      (a.kind = .duration ∧ b.kind = .duration) ∨ (a.kind = .duration ∧ b.kind ∈ [ValueKind.integer, .real]) ∨
      (a.kind ∈ [ValueKind.timeOfDay, .dateAndTime] ∧ b.kind = .duration) ∨
      (a.kind ∈ [ValueKind.date, .timeOfDay, .dateAndTime] ∧ b.kind = a.kind) := by
  have hrows : ∀ p ∈ operation.operands, p ∈ ValueKind.realPairs ∨ (p.1 = .integer ∧ p.2 = .integer) ∨
      (p.1 = .duration ∧ p.2 = .duration) ∨ (p.1 = .duration ∧ p.2 ∈ [ValueKind.integer, .real]) ∨
      (p.1 ∈ [ValueKind.timeOfDay, .dateAndTime] ∧ p.2 = .duration) ∨
      (p.1 ∈ [ValueKind.date, .timeOfDay, .dateAndTime] ∧ p.2 = p.1) := of_isArithmetic hop (by decide)
  exact hrows _ h

theorem scaleDuration_fails (hop : operation = .multiply ∨ operation = .divide) (d : Duration) {factor : Value}
    (hfactor : factor.kind = .integer ∨ factor.kind = .real) : FailsByValues (scaleDuration operation d factor) := by
  have scaled (nanos : Float) : FailsByValues (do
      fitDuration operation (← orOverflow operation (realNanos? nanos))) :=
    .bind (orOverflow_fails _) fun _ => orOverflow_fails _
  obtain hfactor | hfactor := hfactor
  · obtain ⟨i, rfl⟩ := isMadeAs_of_kind hfactor
    obtain rfl | rfl := hop
    · exact orOverflow_fails _
    · exact .ite (.error trivial) (orOverflow_fails _)
  · obtain ⟨x, rfl⟩ := isMadeAs_of_kind hfactor
    obtain rfl | rfl := hop
    · exact scaled _
    · exact .ite (.error trivial) (scaled _)

theorem scaleDuration_refuses (hop : ¬ (operation = .multiply ∨ operation = .divide)) {d : Duration} {factor : Value} :
    scaleDuration operation d factor = .error ((duration d).incompatible operation factor) := by
  unfold scaleDuration
  split
  · exact absurd (.inl rfl) hop
  · exact absurd (.inr rfl) hop
  · exact absurd (.inl rfl) hop
  · exact absurd (.inr rfl) hop
  · rfl

/-- Arithmetic on values of joined kinds fails because of the values only. -/
theorem arithmetic_fails (hop : operation.IsArithmetic) (h : operation.Joins a.kind b.kind) :
    FailsByValues (arithmetic operation a b) := by
  unfold arithmetic
  rw [require_of_joins h, Except.ok_bind]
  obtain hpair | ⟨ha, hb⟩ | ⟨ha, hb⟩ | ⟨ha, hb⟩ | ⟨ha, hb⟩ | ⟨ha, hb⟩ := rows_of_joins hop h
  · have hmodulus := (joins_realPairs hop _ hpair).mp h
    have hreal := isRealPair_iff.mpr hpair
    have hcondition : (a.isRealPair b && decide (operation ≠ .modulus)) = true := by simp [hreal, hmodulus]
    unfold isRealPair at hreal
    split at hreal
    · dsimp only
      rw [if_pos hcondition]
      exact .map (realArithmetic_fails hop hmodulus _ _) _
    · dsimp only
      rw [if_pos hcondition]
      exact .map (realArithmetic_fails hop hmodulus _ _) _
    · dsimp only
      rw [if_pos hcondition]
      exact .map (realArithmetic_fails hop hmodulus _ _) _
    · cases hreal
  · obtain ⟨i, rfl⟩ := isMadeAs_of_kind ha
    obtain ⟨j, rfl⟩ := isMadeAs_of_kind hb
    exact .map (integerArithmetic_fails hop i j) _
  · obtain ⟨x, rfl⟩ := isMadeAs_of_kind ha
    obtain ⟨y, rfl⟩ := isMadeAs_of_kind hb
    obtain rfl | rfl := (joins_durations hop).mp h
    · exact .map (orOverflow_fails _) _
    · exact .map (orOverflow_fails _) _
  · obtain ⟨d, rfl⟩ := isMadeAs_of_kind ha
    have hop := (joins_scaled hop _ hb).mp h
    simp only [List.mem_cons, List.not_mem_nil, or_false] at hb
    have hscaled := scaleDuration_fails hop d hb
    obtain hb | hb := hb
    · obtain ⟨i, rfl⟩ := isMadeAs_of_kind hb
      exact .map hscaled _
    · obtain ⟨x, rfl⟩ := isMadeAs_of_kind hb
      exact .map hscaled _
  · obtain ⟨d, rfl⟩ := isMadeAs_of_kind hb
    have hop := (joins_moved hop _ ha).mp h
    simp only [List.mem_cons, List.not_mem_nil, or_false] at ha
    obtain ha | ha := ha
    · obtain ⟨t, rfl⟩ := isMadeAs_of_kind ha
      obtain rfl | rfl := hop
      · exact .ok _
      · exact .ok _
    · obtain ⟨t, rfl⟩ := isMadeAs_of_kind ha
      obtain rfl | rfl := hop
      · exact .map (orOverflow_fails _) _
      · exact .map (orOverflow_fails _) _
  · rw [hb] at h
    obtain rfl := (joins_points hop _ ha).mp h
    simp only [List.mem_cons, List.not_mem_nil, or_false] at ha
    obtain ha | ha | ha := ha
    all_goals
      obtain ⟨x, rfl⟩ := isMadeAs_of_kind ha
      obtain ⟨y, rfl⟩ := isMadeAs_of_kind hb
      exact .map (orOverflow_fails _) _

theorem arithmetic_refuses (hop : operation.IsArithmetic) (h : ¬ operation.Joins a.kind b.kind) :
    ∃ e, arithmetic operation a b = .error e ∧ Refuses operation a b e := by
  refine refuses_of_supports fun _ => ?_
  split
  · exact absurd (joins_integers hop) h
  · split
    · exact absurd ((joins_durations hop).mpr (.inl rfl)) h
    · exact absurd ((joins_durations hop).mpr (.inr rfl)) h
    · exact ⟨_, rfl, .inr rfl⟩
  · next d i =>
    rw [scaleDuration_refuses (mt (joins_scaled hop .integer (by decide)).mpr h)]
    exact ⟨_, rfl, .inr rfl⟩
  · next d x =>
    rw [scaleDuration_refuses (mt (joins_scaled hop .real (by decide)).mpr h)]
    exact ⟨_, rfl, .inr rfl⟩
  · split
    · exact absurd ((joins_moved hop .timeOfDay (by decide)).mpr (.inl rfl)) h
    · exact absurd ((joins_moved hop .timeOfDay (by decide)).mpr (.inr rfl)) h
    · exact ⟨_, rfl, .inr rfl⟩
  · split
    · exact absurd ((joins_moved hop .dateAndTime (by decide)).mpr (.inl rfl)) h
    · exact absurd ((joins_moved hop .dateAndTime (by decide)).mpr (.inr rfl)) h
    · exact ⟨_, rfl, .inr rfl⟩
  · rw [if_neg (mt (joins_points hop .date (by decide)).mpr h)]
    exact ⟨_, rfl, .inr rfl⟩
  · rw [if_neg (mt (joins_points hop .timeOfDay (by decide)).mpr h)]
    exact ⟨_, rfl, .inr rfl⟩
  · rw [if_neg (mt (joins_points hop .dateAndTime (by decide)).mpr h)]
    exact ⟨_, rfl, .inr rfl⟩
  · split
    · next hreal =>
      obtain ⟨hpair, hmodulus⟩ : a.isRealPair b = true ∧ operation ≠ .modulus := by simpa using hreal
      exact absurd ((joins_realPairs hop _ (isRealPair_iff.mp hpair)).mpr hmodulus) h
    · exact ⟨_, rfl, .inr rfl⟩

-- ---------------------------------------------------------------------------
-- The check
-- ---------------------------------------------------------------------------

/-- Operands of joined kinds for which the check of the operation fails all the same. -/
def Clashes : Operation → Value → Value → Prop
  | .greater, a, b | .lesser, a, b => a.isNaN = true ∨ b.isNaN = true
  | .and, a, b | .or, a, b | .xor, a, b => a.isNegativePair b = true
  | _, _, _ => False

/-- The operation fails because of the kinds of the values. -/
def FailsByKinds (x : Except ValueError α) : Prop := ∃ e, x = .error e ∧ isKindError e = true

theorem FailsByKinds.of_refuses {x : Except ValueError α} (h : ∃ e, x = .error e ∧ Refuses operation a b e) :
    FailsByKinds x := by
  obtain ⟨_, hx, rfl | rfl⟩ := h
  · exact ⟨_, hx, rfl⟩
  · exact ⟨_, hx, rfl⟩

theorem FailsByValues.not_failsByKinds {x : Except ValueError α} (h : FailsByValues x) : ¬ FailsByKinds x := by
  rintro ⟨e, hx, he⟩
  have hvalues := h e hx
  cases e <;> first | exact False.elim hvalues | exact nomatch he

theorem ordering_isOk_iff : (a.ordering b).isOk = true ↔
    Operation.greater.Joins a.kind b.kind ∧ ¬ (a.isNaN = true ∨ b.isNaN = true) := by
  by_cases h : Operation.greater.Joins a.kind b.kind
  · exact (ordering_of_joins h).1.trans (and_iff_right h).symm
  · obtain ⟨e, he, -⟩ := ordering_refuses h
    rw [he]
    exact iff_of_false nofun fun hjoins => h hjoins.1

theorem failsByKinds_logical (hop : operation.IsLogical) : FailsByKinds (logical operation a b) ↔
    ¬ (operation.Joins a.kind b.kind ∧ ¬ a.isNegativePair b = true) := by
  by_cases h : operation.Joins a.kind b.kind
  · obtain ⟨hok, herror⟩ := logical_of_joins hop h
    rw [and_iff_right h, not_not]
    constructor
    · intro hfails
      by_contra hpair
      obtain ⟨v, hv⟩ := hok (Bool.eq_false_iff.mpr hpair)
      rw [hv] at hfails
      exact (FailsByValues.ok v).not_failsByKinds hfails
    · intro hpair
      exact .of_refuses ⟨_, herror hpair, .inr rfl⟩
  · exact iff_of_true (.of_refuses (logical_refuses hop h)) fun hjoins => h hjoins.1

theorem failsByKinds_arithmetic (hop : operation.IsArithmetic) :
    FailsByKinds (arithmetic operation a b) ↔ ¬ operation.Joins a.kind b.kind := by
  by_cases h : operation.Joins a.kind b.kind
  · exact iff_of_false (arithmetic_fails hop h).not_failsByKinds (not_not_intro h)
  · exact iff_of_true (.of_refuses (arithmetic_refuses hop h)) h

/-- The check of an operator is right about the kinds but for operands that clash. -/
theorem operatesWith_iff (op : BinaryOp) : operatesWith op.operation a b = true ↔
    op.operation.Joins a.kind b.kind ∧ ¬ Clashes op.operation a b := by
  have compared : a.comparableTo b = true ↔ Operation.equals.Joins a.kind b.kind ∧ ¬ False := by
    unfold comparableTo
    by_cases h : Operation.equals.Joins a.kind b.kind
    · obtain ⟨r, hr⟩ := exists_equals_of_joins h 0
      exact iff_of_true (by rw [hr]; rfl) ⟨h, not_false⟩
    · obtain ⟨e, he, -⟩ := equals_refuses h 0
      exact iff_of_false (by rw [he]; nofun) fun hjoins => h hjoins.1
  have tried {r : Except ValueError Value} {passes : Bool} (hok : ∀ v, r = .ok v → passes = true)
      (herror : ∀ e, r = .error e → passes = !isKindError e) : passes = true ↔ ¬ FailsByKinds r := by
    cases r with
    | ok v => exact iff_of_true (hok v rfl) (FailsByValues.ok v).not_failsByKinds
    | error e => simp [herror e rfl, FailsByKinds]
  have calculated {operation : Operation} (hop : operation.IsArithmetic) :
      ¬ FailsByKinds (arithmetic operation a b) ↔ operation.Joins a.kind b.kind ∧ ¬ False := by
    rw [failsByKinds_arithmetic hop, not_not, not_false_eq_true, and_true]
  cases op with
  | eq | ne => exact compared
  | lt | ge | gt | le => exact ordering_isOk_iff
  | and | or | xor =>
    refine (tried (r := logical _ a b) ?_ ?_).trans (not_iff_comm.mp (failsByKinds_logical ?_).symm)
    · intro v hv
      unfold operatesWith
      dsimp only [BinaryOp.operation] at hv ⊢
      rw [hv]
    · intro e he
      unfold operatesWith
      dsimp only [BinaryOp.operation] at he ⊢
      rw [he]
    · simp [Operation.IsLogical, BinaryOp.operation]
  | add | sub | mul | div | mod | pow =>
    refine (tried (r := arithmetic _ a b) ?_ ?_).trans (calculated ?_)
    · intro v hv
      unfold operatesWith
      dsimp only [BinaryOp.operation] at hv ⊢
      rw [hv]
    · intro e he
      unfold operatesWith
      dsimp only [BinaryOp.operation] at he ⊢
      rw [he]
    · simp [Operation.IsArithmetic, BinaryOp.operation]

/-- The check depends on the kinds of the operands only as long as they do not clash. -/
theorem operatesWith_congr (op : BinaryOp) {a' b' : Value} (ha : a.kind = a'.kind) (hb : b.kind = b'.kind)
    (h : ¬ Clashes op.operation a b) (h' : ¬ Clashes op.operation a' b') :
    operatesWith op.operation a b = operatesWith op.operation a' b' := by
  rw [Bool.eq_iff_iff, operatesWith_iff, operatesWith_iff, ha, hb]
  simp [h, h']

end Value

-- ---------------------------------------------------------------------------
-- Operators
-- ---------------------------------------------------------------------------

namespace BinaryOp

open Value

variable {op : BinaryOp} {a b : Value}

/-- An operator on operands of joined kinds fails because of their values, or it refuses a negative integer. -/
theorem evaluate_fails (h : op.operation.Joins a.kind b.kind) (epsilon : Float) {e : ValueError}
    (he : op.evaluate a b epsilon = .error e) : e.IsOfValues ∨
      op.operation.IsLogical ∧ a.isNegativePair b = true ∧ e = a.incompatible op.operation b := by
  have compared (f : Bool → Bool) (h : Operation.equals.Joins a.kind b.kind) :
      FailsByValues (a.equals b epsilon >>= fun r => pure (Value.bool (f r))) := by
    obtain ⟨r, hr⟩ := exists_equals_of_joins h epsilon
    rw [hr]
    exact .ok _
  have ordered (f : Ordering → Bool) (g : Bool → Bool) (h : Operation.greater.Joins a.kind b.kind) :
      FailsByValues ((a.ordering b >>= fun r => pure (f r)) >>= fun r => pure (Value.bool (g r))) :=
    .bind (.bind (ordering_of_joins h).2 fun _ => .ok _) fun _ => .ok _
  have combined (hop : op.operation.IsLogical) (he : logical op.operation a b = .error e) :
      op.operation.IsLogical ∧ a.isNegativePair b = true ∧ e = a.incompatible op.operation b := by
    obtain ⟨hok, herror⟩ := logical_of_joins hop h
    cases hpair : a.isNegativePair b with
    | false =>
      obtain ⟨v, hv⟩ := hok hpair
      cases hv.symm.trans he
    | true => exact ⟨hop, rfl, Except.error.inj (he.symm.trans (herror hpair))⟩
  cases op with
  | eq => exact .inl (compared id h e he)
  | ne => exact .inl (compared not h e he)
  | lt => exact .inl (ordered (· == .lt) id h e he)
  | gt => exact .inl (ordered (· == .gt) id h e he)
  | le => exact .inl (ordered (· == .gt) not h e he)
  | ge => exact .inl (ordered (· == .lt) not h e he)
  | and | or | xor => exact .inr (combined (by simp [Operation.IsLogical, operation]) he)
  | add | sub | mul | div | mod | pow =>
    exact .inl (arithmetic_fails (by simp [Operation.IsArithmetic, operation]) h e he)

/-- An operator on operands of other kinds always fails because of the kinds. -/
theorem evaluate_refuses (h : ¬ op.operation.Joins a.kind b.kind) (epsilon : Float) :
    FailsByKinds (op.evaluate a b epsilon) := by
  have compared (f : Bool → Bool) (h : ¬ Operation.equals.Joins a.kind b.kind) :
      FailsByKinds (a.equals b epsilon >>= fun r => pure (Value.bool (f r))) := by
    obtain ⟨e, he, hrefuses⟩ := equals_refuses h epsilon
    exact .of_refuses ⟨e, by rw [he]; rfl, hrefuses⟩
  have ordered (f : Ordering → Bool) (g : Bool → Bool) (h : ¬ Operation.greater.Joins a.kind b.kind) :
      FailsByKinds ((a.ordering b >>= fun r => pure (f r)) >>= fun r => pure (Value.bool (g r))) := by
    obtain ⟨e, he, hrefuses⟩ := ordering_refuses h
    exact .of_refuses ⟨e, by rw [he]; rfl, hrefuses⟩
  cases op with
  | eq => exact compared id h
  | ne => exact compared not h
  | lt => exact ordered (· == .lt) id h
  | gt => exact ordered (· == .gt) id h
  | le => exact ordered (· == .gt) not h
  | ge => exact ordered (· == .lt) not h
  | and | or | xor => exact .of_refuses (logical_refuses (by simp [Operation.IsLogical, operation]) h)
  | add | sub | mul | div | mod | pow =>
    exact .of_refuses (arithmetic_refuses (by simp [Operation.IsArithmetic, operation]) h)

/-- Once operands pass the check, the operator does not fail because of the kinds on any operands of these kinds but for
a bit string and a negative integer. -/
theorem evaluate_of_operatesWith {a' b' : Value} (hcheck : operatesWith op.operation a b = true)
    (ha : a.kind = a'.kind) (hb : b.kind = b'.kind) (epsilon : Float)
    (h : FailsByKinds (op.evaluate a' b' epsilon)) : op.operation.IsLogical ∧ a'.isNegativePair b' = true := by
  obtain ⟨hjoins, -⟩ := (operatesWith_iff op).mp hcheck
  rw [ha, hb] at hjoins
  by_contra hpair
  have hvalues : FailsByValues (op.evaluate a' b' epsilon) := by
    intro e he
    obtain hvalues | ⟨hop, hnegative, -⟩ := evaluate_fails hjoins epsilon he
    · exact hvalues
    · exact absurd ⟨hop, hnegative⟩ hpair
  exact hvalues.not_failsByKinds h

end BinaryOp

end StructuredText
