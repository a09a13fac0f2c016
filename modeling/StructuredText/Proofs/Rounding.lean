-- SUMMARY: Arithmetic on binary floating point numbers, as rational arithmetic that is rounded to 53 bits.
import Mathlib
import StructuredText.Proofs.Reals

/-!
# Rounding

A product, a difference and a converted quotient are the rational result, rounded at the last place that 53 bits have
for it. Two facts follow and are all that is used later: the error is at most half of that place, and there is none when
the result has 53 bits. The integer part of a number and the rest over it are of this kind.
-/

namespace StructuredText.Binary64

open Float.Model UnpackedFloat

-- ---------------------------------------------------------------------------
-- Rounded numbers
-- ---------------------------------------------------------------------------

/-- The whole number is nearest to a number at the place of the last of 53 bits, or at the least place. -/
structure IsNearest (r : ℚ) (q : Nat) (e : Int) : Prop where
  near : |(q : ℚ) - r / 2 ^ e| ≤ 1 / 2
  least : -1074 ≤ e
  full : 2 ^ (52 + e) ≤ r ∨ e = -1074
  bits : r < 2 ^ (53 + e)

/-- The second number is the first one, rounded. -/
def Rounds (r v : ℚ) : Prop := ∃ (q : Nat) (e : Int), IsNearest r q e ∧ v = q * 2 ^ e

theorem rounds_zero : Rounds 0 0 := ⟨0, -1074, ⟨by simp, le_rfl, .inr rfl, by positivity⟩, by simp⟩

theorem rounds_stored {m : Nat} {e : Int} (h : IsStored m e) : Rounds (m * 2 ^ e) (m * 2 ^ e) := by
  refine ⟨m, e, ⟨?_, h.least, h.full.imp (fun hfull => ?_) id, ?_⟩, rfl⟩
  · rw [mul_div_cancel_right₀ _ (by positivity), sub_self, abs_zero]
    norm_num
  · rw [zpow_add₀ two_ne_zero]
    have hfull : (2 : ℚ) ^ (52 : Int) ≤ m := by exact_mod_cast hfull
    gcongr
  · rw [zpow_add₀ two_ne_zero]
    have hbits : (m : ℚ) < 2 ^ (53 : Int) := by exact_mod_cast h.bits
    gcongr

/-- Below a power of two, the error is at most half of the last place there. -/
theorem Rounds.error {r v : ℚ} (h : Rounds r v) {k : Int} (hr : r < 2 ^ k) (hk : -1021 ≤ k) :
    |v - r| ≤ 2 ^ (k - 54) := by
  obtain ⟨q, e, ⟨hnear, -, hfull, -⟩, rfl⟩ := h
  have he : e - 1 ≤ k - 54 := by
    rcases hfull with hfull | hfull
    · have hlt := (zpow_lt_zpow_iff_right₀ (by norm_num : (1 : ℚ) < 2)).mp (hfull.trans_lt hr)
      omega
    · omega
  have hpos : (0 : ℚ) < 2 ^ e := by positivity
  calc |(q : ℚ) * 2 ^ e - r| = |(q : ℚ) - r / 2 ^ e| * 2 ^ e := by
        rw [← abs_of_pos hpos, ← abs_mul, abs_of_pos hpos, sub_mul, div_mul_cancel₀ _ hpos.ne']
    _ ≤ 1 / 2 * 2 ^ e := by gcongr
    _ = 2 ^ (e - 1) := by rw [zpow_sub₀ two_ne_zero]; ring
    _ ≤ 2 ^ (k - 54) := zpow_le_zpow_right₀ (by norm_num) he

/-- A number that has 53 bits is not changed. -/
theorem Rounds.exact {m : Nat} {f : Int} {v : ℚ} (h : Rounds (m * 2 ^ f) v) (hm : m < 2 ^ 53) (hf : -1074 ≤ f) :
    v = m * 2 ^ f := by
  obtain ⟨q, e, ⟨hnear, -, hfull, -⟩, rfl⟩ := h
  have he : e ≤ f := by
    rcases hfull with hfull | hfull
    · have hlt : (m : ℚ) * 2 ^ f < 2 ^ (53 + f) := by
        rw [zpow_add₀ two_ne_zero]
        have hm : (m : ℚ) < 2 ^ (53 : Int) := by exact_mod_cast hm
        gcongr
      have hlt := (zpow_lt_zpow_iff_right₀ (by norm_num : (1 : ℚ) < 2)).mp (hfull.trans_lt hlt)
      omega
    · omega
  -- The place of the last bit is not above that of the number, so the quotient is whole and nearest to itself.
  obtain ⟨k, rfl⟩ := Int.le.dest he
  have hwhole : (m : ℚ) * 2 ^ (e + k) / 2 ^ e = (m * 2 ^ k : Nat) := by
    rw [zpow_add₀ two_ne_zero, zpow_natCast]
    push_cast
    field_simp
  rw [hwhole] at hnear
  have hq : q = m * 2 ^ k := by
    have hlt : |((q : Int) : ℚ) - ((m * 2 ^ k : Nat) : Int)| < 1 := by
      push_cast at hnear ⊢
      linarith
    have hzero : ((q : Int) - (m * 2 ^ k : Nat)) = 0 := Int.abs_lt_one_iff.mp (by exact_mod_cast hlt)
    exact_mod_cast sub_eq_zero.mp hzero
  rw [hq, zpow_add₀ two_ne_zero, zpow_natCast]
  push_cast
  ring

namespace IsNearest

variable {r : ℚ} {q : Nat} {e : Int}

theorem le (h : IsNearest r q e) {n : Nat} (hr : r / 2 ^ e ≤ n) : q ≤ n := by
  have hlt : (q : ℚ) < (n + 1 : Nat) := by
    push_cast
    linarith [(abs_le.mp h.near).2]
  exact Nat.lt_succ_iff.mp (by exact_mod_cast hlt)

theorem ge (h : IsNearest r q e) {n : Nat} (hr : n ≤ r / 2 ^ e) : n ≤ q := by
  have hlt : (n : ℚ) < (q + 1 : Nat) := by
    push_cast
    linarith [(abs_le.mp h.near).1]
  exact Nat.lt_succ_iff.mp (by exact_mod_cast hlt)

theorem le_carried (h : IsNearest r q e) : q ≤ 2 ^ 53 := by
  refine h.le ?_
  rw [div_le_iff₀ (by positivity)]
  have hbits := h.bits.le
  rw [zpow_add₀ two_ne_zero] at hbits
  exact_mod_cast hbits

theorem filled (h : IsNearest r q e) : 2 ^ 52 ≤ q ∨ e = -1074 := by
  refine h.full.imp (fun hfull => h.ge ?_) id
  rw [le_div_iff₀ (by positivity)]
  rw [zpow_add₀ two_ne_zero] at hfull
  exact_mod_cast hfull

/-- A number that is not above the largest one is not rounded to more than that. -/
theorem bounded (h : IsNearest r q e) (hr : r ≤ largest) : e ≤ 970 ∨ e = 971 ∧ q < 2 ^ 53 := by
  have he : e ≤ 971 := by
    rcases h.full with hfull | hfull
    · have hlt : (2 : ℚ) ^ (52 + e) < 2 ^ (1024 : Int) := (hfull.trans hr).trans_lt largest_lt
      have hlt := (zpow_lt_zpow_iff_right₀ (by norm_num : (1 : ℚ) < 2)).mp hlt
      omega
    · omega
  rcases Int.lt_or_eq_of_le he with hlt | rfl
  · exact .inl (by omega)
  · refine .inr ⟨rfl, Nat.lt_of_le_pred (by positivity) (h.le ?_)⟩
    rw [div_le_iff₀ (by positivity)]
    refine hr.trans_eq ?_
    rw [largest, Nat.pred_eq_sub_one, Nat.cast_sub (by decide)]
    norm_num

end IsNearest

-- ---------------------------------------------------------------------------
-- Shifted mantissas
-- ---------------------------------------------------------------------------

/-- A mantissa and the two bits after it say where a number lies. -/
inductive Locates : ExtendedMantissa → ℚ → Prop
  | exact (m : Nat) : Locates ⟨m, false, false⟩ m
  | below {m : Nat} {x : ℚ} (hlow : m < x) (hhigh : x < m + 1 / 2) : Locates ⟨m, false, true⟩ x
  | half (m : Nat) : Locates ⟨m, true, false⟩ (m + 1 / 2)
  | above {m : Nat} {x : ℚ} (hlow : m + 1 / 2 < x) (hhigh : x < m + 1) : Locates ⟨m, true, true⟩ x

theorem shiftRightOne_even (m : Nat) (r t : Bool) :
    (ExtendedMantissa.mk (2 * m) r t).shiftRightOne = ⟨m, false, r || t⟩ := by
  simp [ExtendedMantissa.shiftRightOne]

theorem shiftRightOne_odd (m : Nat) (r t : Bool) :
    (ExtendedMantissa.mk (2 * m + 1) r t).shiftRightOne = ⟨m, true, r || t⟩ := by
  simp [ExtendedMantissa.shiftRightOne, Nat.add_mod]
  omega

theorem Locates.halve {em : ExtendedMantissa} {x : ℚ} (h : Locates em x) : Locates em.shiftRightOne (x / 2) := by
  obtain ⟨m, r, t⟩ := em
  obtain ⟨m, rfl | rfl⟩ := Nat.even_or_odd' m
  · rw [shiftRightOne_even]
    cases h with
    | exact =>
      have hx : ((2 * m : Nat) : ℚ) / 2 = m := by push_cast; ring
      rw [hx]
      exact .exact m
    | below hlow hhigh =>
      push_cast at hlow hhigh
      exact .below (by linarith) (by linarith)
    | half => exact .below (by push_cast; linarith) (by push_cast; linarith)
    | above hlow hhigh =>
      push_cast at hlow hhigh
      exact .below (by linarith) (by linarith)
  · rw [shiftRightOne_odd]
    cases h with
    | exact =>
      have hx : ((2 * m + 1 : Nat) : ℚ) / 2 = m + 1 / 2 := by push_cast; ring
      rw [hx]
      exact .half m
    | below hlow hhigh =>
      push_cast at hlow hhigh
      exact .above (by linarith) (by linarith)
    | half => exact .above (by push_cast; linarith) (by push_cast; linarith)
    | above hlow hhigh =>
      push_cast at hlow hhigh
      exact .above (by linarith) (by linarith)

theorem Locates.shift {em : ExtendedMantissa} {x : ℚ} (h : Locates em x) (n : Nat) :
    Locates (em >>> n) (x / 2 ^ n) := by
  change Locates (n.repeat ExtendedMantissa.shiftRightOne em) _
  induction n with
  | zero => simpa [Nat.repeat] using h
  | succ n ih =>
    rw [pow_succ, ← div_div]
    exact ih.halve

/-- Rounding the mantissa to the nearest one moves it by half a place at most. -/
theorem Locates.rounded {em : ExtendedMantissa} {x : ℚ} (h : Locates em x) :
    |(em.roundedMantissa : ℚ) - x| ≤ 1 / 2 := by
  cases h with
  | exact m => simp [ExtendedMantissa.roundedMantissa, ExtendedMantissa.accuracy, Accuracy.roundToNearestEven]
  | @below m _ hlow hhigh =>
    change |(m : ℚ) - x| ≤ 1 / 2
    rw [abs_le]
    constructor <;> linarith
  | half m =>
    change |((m + m % 2 : Nat) : ℚ) - _| ≤ 1 / 2
    rw [abs_le]
    have hbit : ((m % 2 : Nat) : ℚ) ≤ 1 := by exact_mod_cast (by omega : m % 2 ≤ 1)
    push_cast at hbit ⊢
    constructor <;> linarith [Nat.cast_nonneg (α := ℚ) (m % 2)]
  | @above m _ hlow hhigh =>
    change |((m + 1 : Nat) : ℚ) - x| ≤ 1 / 2
    rw [abs_le]
    push_cast
    constructor <;> linarith

-- ---------------------------------------------------------------------------
-- Results of operations
-- ---------------------------------------------------------------------------

/-- The exponent at which a number has 53 bits, but not less than the least one. -/
theorem targetExponent_eq (m : Nat) (e : Int) :
    Format.binary64.targetExponent (totalExponent m e) = max (m.log2 + e - 52) (-1074) := by
  unfold Format.targetExponent totalExponent
  rw [show Format.binary64.minExponent = -1074 from rfl, show (Format.binary64.mantissaBits : Int) = 53 from rfl]
  omega

/-- How far a mantissa is shifted. -/
theorem shiftToTargetExponent_eq {m k : Nat} {e : Int} (h : (max (m.log2 + e - 52) (-1074) - e).toNat = k) :
    shiftToTargetExponent Format.binary64 m e .exact = ((⟨m, false, false⟩ : ExtendedMantissa) >>> k, e + k) := by
  simp only [shiftToTargetExponent, shiftToExponent, targetExponent_eq, h]
  rfl

theorem two_pow_log2_le {m : Nat} (hm : 0 < m) : (2 : ℚ) ^ m.log2 ≤ m := by
  exact_mod_cast Nat.log2_self_le hm.ne'

theorem lt_two_pow_log2 (m : Nat) : (m : ℚ) < 2 ^ (m.log2 + 1) := by
  exact_mod_cast Nat.lt_log2_self

/-- After rounding, a mantissa may have 54 bits, of which the last one is zero. -/
theorem sized_carry (s : Sign) {r : ℚ} {q : Nat} {e : Int} (h : IsNearest r q e) (hr : r ≤ largest) :
    Sized (unpack Format.binary64 (pack Format.binary64
      (if h : (shiftToTargetExponent Format.binary64 q e .exact).1.mantissa = 0 then .zero s
        else .finite s _ (shiftToTargetExponent Format.binary64 q e .exact).2 (Nat.pos_of_ne_zero h)))) s
      (q * 2 ^ e) := by
  have hbounded := h.bounded hr
  have hleast := h.least
  rcases Nat.lt_or_eq_of_le h.le_carried with hlt | rfl
  · have hlog : q.log2 ≤ 52 := by
      rcases Nat.eq_zero_or_pos q with rfl | hpos
      · decide
      · exact Nat.lt_succ_iff.mp ((Nat.log2_lt hpos.ne').mpr hlt)
    have hshift : shiftToTargetExponent Format.binary64 q e .exact = (⟨q, false, false⟩, e) := by
      rw [shiftToTargetExponent_eq (k := 0) (by omega), Nat.cast_zero, add_zero]
      rfl
    rw [hshift]
    dsimp only
    split
    · next hzero =>
      rw [hzero, Nat.cast_zero, zero_mul]
      exact sized_zero s
    · next hne => exact sized_finite s (Nat.pos_of_ne_zero hne) ⟨hlt, hleast, by omega, h.filled⟩
  · have hshift : shiftToTargetExponent Format.binary64 (2 ^ 53) e .exact = (⟨2 ^ 52, false, false⟩, e + 1) := by
      rw [shiftToTargetExponent_eq (k := 1) (by rw [Nat.log2_two_pow]; omega)]
      rfl
    have hvalue : ((2 ^ 53 : Nat) : ℚ) * 2 ^ e = (2 ^ 52 : Nat) * 2 ^ (e + 1) := by
      rw [zpow_add_one₀ two_ne_zero]
      push_cast
      ring
    rw [hshift, dif_neg (by simp), hvalue]
    exact sized_finite s _ ⟨by simp, by omega, by omega, .inl le_rfl⟩

/-- A number is rounded if its exponent is not above that of its last place. -/
theorem sized_roundWithAccuracy (s : Sign) {m : Nat} (hm : 0 < m) {e : Int} (he : 52 ≤ m.log2 ∨ e ≤ -1074)
    (hr : (m : ℚ) * 2 ^ e ≤ largest) :
    ∃ v, Sized (unpack Format.binary64 (pack Format.binary64
      (roundWithAccuracy Format.binary64 s m e .exact))) s v ∧ Rounds (m * 2 ^ e) v := by
  obtain ⟨k, hk⟩ := Int.le.dest (by omega : e ≤ max (m.log2 + e - 52) (-1074))
  have hshift : shiftToTargetExponent Format.binary64 m e .exact =
      ((⟨m, false, false⟩ : ExtendedMantissa) >>> k, e + k) := shiftToTargetExponent_eq (by omega)
  obtain ⟨q, hq⟩ : ∃ q, q = ((⟨m, false, false⟩ : ExtendedMantissa) >>> k).roundedMantissa := ⟨_, rfl⟩
  have hscaled : (m : ℚ) * 2 ^ e / 2 ^ (e + k : Int) = m / 2 ^ k := by
    rw [zpow_add₀ two_ne_zero, zpow_natCast]
    field_simp
  have hnearest : IsNearest (m * 2 ^ e) q (e + k) := by
    refine ⟨?_, by omega, ?_, ?_⟩
    · rw [hscaled, hq]
      exact ((Locates.exact m).shift k).rounded
    · by_cases hleast : e + k = -1074
      · exact .inr hleast
      · left
        rw [show 52 + (e + k : Int) = m.log2 + e by omega, zpow_add₀ two_ne_zero, zpow_natCast]
        have hle := two_pow_log2_le hm
        gcongr
    · calc (m : ℚ) * 2 ^ e < 2 ^ (m.log2 + 1) * 2 ^ e := by
            have hlt := lt_two_pow_log2 m
            gcongr
        _ = 2 ^ ((m.log2 : Int) + 1 + e) := by
            rw [zpow_add₀ two_ne_zero]
            norm_cast
        _ ≤ 2 ^ (53 + (e + k : Int)) := zpow_le_zpow_right₀ (by norm_num) (by omega)
  refine ⟨q * 2 ^ (e + k : Int), ?_, q, e + k, hnearest, rfl⟩
  have hround : roundWithAccuracy Format.binary64 s m e .exact =
      if h : (shiftToTargetExponent Format.binary64 q (e + k) .exact).1.mantissa = 0 then .zero s
      else .finite s _ (shiftToTargetExponent Format.binary64 q (e + k) .exact).2 (Nat.pos_of_ne_zero h) := by
    simp only [roundWithAccuracy, hshift, ← hq]
  rw [hround]
  exact sized_carry s hnearest hr

/-- A number of any exponent is rounded. -/
theorem sized_round (s : Sign) {m : Nat} (hm : 0 < m) (e : Int) (hr : (m : ℚ) * 2 ^ e ≤ largest) :
    ∃ v, Sized (unpack Format.binary64 (pack Format.binary64
      (UnpackedFloat.round Format.binary64 s m e))) s v ∧ Rounds (m * 2 ^ e) v := by
  obtain ⟨k, hk⟩ : ∃ k, k = (e - max (m.log2 + e - 52) (-1074)).toNat := ⟨_, rfl⟩
  have hround : UnpackedFloat.round Format.binary64 s m e =
      roundWithAccuracy Format.binary64 s (m * 2 ^ k) (e - k) .exact := by
    simp only [UnpackedFloat.round, decreaseExponent, targetExponent_eq, ← hk, Nat.shiftLeft_eq]
  have hvalue : ((m * 2 ^ k : Nat) : ℚ) * 2 ^ (e - k) = m * 2 ^ e := by
    rw [zpow_sub₀ two_ne_zero, zpow_natCast]
    push_cast
    field_simp
  have hlog : (m * 2 ^ k).log2 = m.log2 + k := by
    rw [Nat.log2_eq_iff (by positivity), pow_add, show m.log2 + k + 1 = m.log2 + 1 + k by omega, pow_add]
    exact ⟨Nat.mul_le_mul_right _ (Nat.log2_self_le hm.ne'), Nat.mul_lt_mul_of_pos_right Nat.lt_log2_self (by positivity)⟩
  rw [hround, ← hvalue]
  exact sized_roundWithAccuracy s (by positivity) (by omega) (by rwa [hvalue])

end StructuredText.Binary64
