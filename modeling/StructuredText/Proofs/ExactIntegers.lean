-- SUMMARY: Integer arithmetic is exact within 128 bits, and which results are refused although they would fit.
import Mathlib.Algebra.Order.Ring.Int
import Mathlib.Tactic.NormNum.Pow
import StructuredText.Proofs.Results

/-!
# Exact integers

An operation on integers results in the mathematical result if that fits 128 bits, and overflows otherwise. It overflows
in two more cases. A remainder is refused when the quotient does not fit, and a power when its exponent has more than 32
bits, whatever the base.
-/

namespace StructuredText

-- ---------------------------------------------------------------------------
-- Magnitudes
-- ---------------------------------------------------------------------------

/-- The smallest integer of 128 bits, the only one that does not fit with its sign changed. -/
def smallestInteger : Int := -2 ^ 127

/-- A quotient fits unless it is that of the smallest integer by minus one. -/
theorem fitsInteger_tdiv_iff {a b : Int} (ha : FitsInteger a) (hb : b ≠ 0) :
    FitsInteger (a.tdiv b) ↔ ¬ (a = smallestInteger ∧ b = -1) := by
  unfold FitsInteger smallestInteger at *
  obtain rfl | rfl | hlarge : b = 1 ∨ b = -1 ∨ 2 ≤ b.natAbs := by omega
  · rw [Int.tdiv_one]
    omega
  · rw [Int.tdiv_neg, Int.tdiv_one]
    omega
  · have hhalf : (a.tdiv b).natAbs ≤ a.natAbs / 2 := by
      rw [Int.natAbs_tdiv]
      exact Nat.div_le_div_left hlarge (by decide)
    omega

/-- A power of a base that is not small does not fit when the exponent is large. -/
theorem not_fitsInteger_pow {a : Int} (ha : 2 ≤ a.natAbs) {n : Nat} (hn : 128 ≤ n) : ¬ FitsInteger (a ^ n) := by
  have hlarge : 2 ^ 128 ≤ (a ^ n).natAbs :=
    calc 2 ^ 128 ≤ 2 ^ n := Nat.pow_le_pow_right (by decide) hn
      _ ≤ a.natAbs ^ n := Nat.pow_le_pow_left ha n
      _ = (a ^ n).natAbs := (Int.natAbs_pow a n).symm
  unfold FitsInteger
  omega

theorem fitInteger_of_fits {i : Int} (h : FitsInteger i) (operation : Operation) :
    fitInteger operation i = .ok i := if_pos h

theorem fitInteger_of_not_fits {i : Int} (h : ¬ FitsInteger i) (operation : Operation) :
    fitInteger operation i = .error (.overflow operation) := if_neg h

/-- Up to exponents of 32 bits, the shortcuts for small bases and large exponents agree with the power. -/
theorem integerPower_eq_fitInteger (a : Int) {n : Nat} (hn : n < 2 ^ 32) :
    integerPower a n = fitInteger .power (a ^ n) := by
  unfold integerPower
  rw [if_neg (Nat.not_le.mpr hn)]
  by_cases hsmall : n < 128
  · rw [if_pos hsmall]
  · rw [if_neg hsmall]
    have hzero : n ≠ 0 := by omega
    by_cases ha : 2 ≤ a.natAbs
    · have hbase : a ≠ 0 ∧ a ≠ 1 ∧ a ≠ -1 := by omega
      rw [fitInteger_of_not_fits (not_fitsInteger_pow ha (Nat.not_lt.mp hsmall))]
      simp [hbase]
    · obtain rfl | rfl | rfl : a = 0 ∨ a = 1 ∨ a = -1 := by omega
      · rw [zero_pow hzero]
        rfl
      · rw [one_pow]
        rfl
      · obtain heven | hodd := Nat.even_or_odd n
        · rw [heven.neg_one_pow, if_neg (by decide), if_pos rfl, if_pos (Nat.even_iff.mp heven)]
          rfl
        · rw [hodd.neg_one_pow, if_neg (by decide), if_pos rfl, if_neg (by have := Nat.odd_iff.mp hodd; omega)]
          rfl

-- ---------------------------------------------------------------------------
-- Operations
-- ---------------------------------------------------------------------------

/-- The mathematical result of an operation: the quotient toward zero, the remainder with the sign of the dividend. -/
inductive Operation.Exact : Operation → Int → Int → Int → Prop
  | plus {a b} : Exact .plus a b (a + b)
  | minus {a b} : Exact .minus a b (a - b)
  | multiply {a b} : Exact .multiply a b (a * b)
  | divide {a b} (hb : b ≠ 0) : Exact .divide a b (a.tdiv b)
  | modulus {a b} (hb : b ≠ 0) : Exact .modulus a b (a.tmod b)
  | power {a b} (hb : 0 ≤ b) : Exact .power a b (a ^ b.toNat)

/-- The operation fails for the integers whether its result fits or not. -/
def Operation.Refuses (operation : Operation) (a b : Int) : Prop :=
  operation = .modulus ∧ a = smallestInteger ∧ b = -1 ∨ operation = .power ∧ 2 ^ 32 ≤ b

instance (operation : Operation) (a b : Int) : Decidable (operation.Refuses a b) :=
  inferInstanceAs (Decidable (_ ∨ _))

/-- An operation with a mathematical result has it unless it does not fit or the operation is refused. -/
theorem integerArithmetic_of_exact {operation : Operation} {a b r : Int} (ha : FitsInteger a)
    (h : operation.Exact a b r) : integerArithmetic operation a b =
      if operation.Refuses a b then .error (.overflow operation) else fitInteger operation r := by
  cases h with
  | plus | minus | multiply => simp [integerArithmetic, Operation.Refuses]
  | divide hb => simp [integerArithmetic, Operation.Refuses, hb]
  | modulus hb =>
    simp only [integerArithmetic, if_neg hb, Operation.Refuses, true_and, reduceCtorEq, false_and, or_false]
    split
    · next hrefused =>
      rw [fitInteger_of_not_fits (by rwa [fitsInteger_tdiv_iff ha hb, not_not])]
      rfl
    · next hrefused =>
      rw [fitInteger_of_fits ((fitsInteger_tdiv_iff ha hb).mpr hrefused), fitInteger_of_fits (fitsInteger_tmod ha b)]
      rfl
  | power hb =>
    simp only [integerArithmetic, if_neg (Int.not_lt.mpr hb), Operation.Refuses, true_and, reduceCtorEq, false_and, false_or]
    split
    · next hlarge =>
      unfold integerPower
      rw [if_pos (by omega)]
    · next hsmall => exact integerPower_eq_fitInteger a (by omega)

/-- Every operation that numbers are combined by has a result, but for divisors of zero and negative exponents. -/
theorem exact_or_invalid {operation : Operation} (hop : operation.IsArithmetic) (a b : Int) :
    (∃ r, operation.Exact a b r) ∨ (operation = .divide ∨ operation = .modulus) ∧ b = 0 ∨
      operation = .power ∧ b < 0 := by
  by_cases hzero : b = 0
  · by_cases hdivision : operation = .divide ∨ operation = .modulus
    · exact .inr (.inl ⟨hdivision, hzero⟩)
    · left
      simp only [Operation.IsArithmetic, List.mem_cons, List.not_mem_nil, or_false] at hop
      obtain rfl | rfl | rfl | rfl | rfl | rfl := hop
      · exact ⟨_, .plus⟩
      · exact ⟨_, .minus⟩
      · exact ⟨_, .multiply⟩
      · simp at hdivision
      · simp at hdivision
      · exact ⟨_, .power (by omega)⟩
  · simp only [Operation.IsArithmetic, List.mem_cons, List.not_mem_nil, or_false] at hop
    obtain rfl | rfl | rfl | rfl | rfl | rfl := hop
    · exact .inl ⟨_, .plus⟩
    · exact .inl ⟨_, .minus⟩
    · exact .inl ⟨_, .multiply⟩
    · exact .inl ⟨_, .divide hzero⟩
    · exact .inl ⟨_, .modulus hzero⟩
    · by_cases hnegative : b < 0
      · exact .inr (.inr ⟨rfl, hnegative⟩)
      · exact .inl ⟨_, .power (by omega)⟩

namespace Value

/-- Operators on integers are those on the numbers. -/
theorem arithmetic_integer {operation : Operation} (hop : operation.IsArithmetic) (a b : Int) :
    arithmetic operation (.integer a) (.integer b) = .integer <$> integerArithmetic operation a b := by
  have hrequire : (integer a).require operation = .ok () := by
    simp only [Operation.IsArithmetic, List.mem_cons, List.not_mem_nil, or_false] at hop
    obtain rfl | rfl | rfl | rfl | rfl | rfl := hop <;> rfl
  unfold arithmetic
  rw [hrequire]
  rfl

/--
Arithmetic on integers of 128 bits. A division by zero is found exactly for a divisor of zero, a negative exponent is
refused, and otherwise the result is exact if it fits. What does not fit overflows, and so does what is refused.
-/
theorem arithmetic_exact {operation : Operation} (hop : operation.IsArithmetic) {a b : Int} (ha : FitsInteger a) :
    (arithmetic operation (.integer a) (.integer b) = .error .divisionByZero ↔
      (operation = .divide ∨ operation = .modulus) ∧ b = 0) ∧
    (operation = .power → b < 0 → arithmetic operation (.integer a) (.integer b) =
      .error (.invalidArgument "integer power requires a non-negative exponent")) ∧
    ∀ r, operation.Exact a b r → arithmetic operation (.integer a) (.integer b) =
      if ¬ operation.Refuses a b ∧ FitsInteger r then .ok (.integer r) else .error (.overflow operation) := by
  rw [arithmetic_integer hop]
  have exact {r : Int} (h : operation.Exact a b r) : integer <$> integerArithmetic operation a b =
      if ¬ operation.Refuses a b ∧ FitsInteger r then .ok (.integer r) else .error (.overflow operation) := by
    rw [integerArithmetic_of_exact ha h, fitInteger]
    by_cases hrefused : operation.Refuses a b
    · rw [if_pos hrefused, if_neg (by simp [hrefused])]
      rfl
    · by_cases hfits : FitsInteger r
      · rw [if_neg hrefused, if_pos hfits, if_pos ⟨hrefused, hfits⟩]
        rfl
      · rw [if_neg hrefused, if_neg hfits, if_neg (by simp [hfits])]
        rfl
  refine ⟨⟨fun herror => ?_, ?_⟩, ?_, fun r => exact⟩
  · obtain ⟨r, hr⟩ | hdivision | ⟨rfl, hnegative⟩ := exact_or_invalid hop a b
    · rw [exact hr] at herror
      split at herror <;> cases herror
    · exact hdivision
    · rw [integerArithmetic, if_pos hnegative] at herror
      cases herror
  · rintro ⟨rfl | rfl, rfl⟩ <;> rfl
  · rintro rfl hnegative
    rw [integerArithmetic, if_pos hnegative]
    rfl

/-- Changing the sign is exact for all integers but the smallest. -/
theorem negate_exact {a : Int} (ha : FitsInteger a) : negate (.integer a) =
    if a = smallestInteger then .error (.overflow .negate) else .ok (.integer (-a)) := by
  have hfits : FitsInteger (-a) ↔ ¬ a = smallestInteger := by
    unfold FitsInteger smallestInteger at *
    omega
  show integer <$> fitInteger .negate (-a) = _
  rw [fitInteger]
  by_cases hsmallest : a = smallestInteger
  · rw [if_pos hsmallest, if_neg fun h => hfits.mp h hsmallest]
    rfl
  · rw [if_neg hsmallest, if_pos (hfits.mpr hsmallest)]
    rfl

/-- The remainder of the smallest integer by minus one is refused, although it is zero. -/
example : arithmetic .modulus (.integer smallestInteger) (.integer (-1)) = .error (.overflow .modulus) ∧
    smallestInteger.tmod (-1) = 0 := ⟨rfl, rfl⟩

end Value

end StructuredText
