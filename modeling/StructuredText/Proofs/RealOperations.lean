-- SUMMARY: Products, differences, quotients and fractions of binary floating point numbers as rational numbers.
import Mathlib
import StructuredText.Proofs.Rounding

/-!
# Operations on binary floating point numbers

What an operation results in is the rounded rational result. A number that is a quotient of natural numbers is rounded
in the same way when it is converted, and the integer part of a number and the rest over it are exact.
-/

namespace StructuredText.Binary64

open Float.Model UnpackedFloat

-- ---------------------------------------------------------------------------
-- Products and differences
-- ---------------------------------------------------------------------------

theorem is_mul {x y : Float} {s t : Sign} {a b : ℚ} (hx : Is x s a) (hy : Is y t b) (hab : a * b ≤ largest) :
    ∃ v, Is (x * y) (s * t) v ∧ Rounds (a * b) v := by
  change ∃ v, Sized (unpack Format.binary64 (pack Format.binary64
    (UnpackedFloat.mul Format.binary64 x.toModel.unpack y.toModel.unpack))) _ v ∧ _
  unfold Is at hx hy
  generalize hu : x.toModel.unpack = u at hx
  generalize hw : y.toModel.unpack = w at hy
  cases hx with
  | zero =>
    refine ⟨0, ?_, by simpa using rounds_zero⟩
    cases hy <;> exact sized_zero _
  | @finite _ m e hm =>
    cases hy with
    | zero => exact ⟨0, sized_zero _, by simpa using rounds_zero⟩
    | @finite _ m' e' hm' =>
      have hvalue : (m : ℚ) * 2 ^ e * (m' * 2 ^ e') = (m * m' : Nat) * 2 ^ (e + e') := by
        rw [zpow_add₀ two_ne_zero]
        push_cast
        ring
      rw [hvalue] at hab ⊢
      refine sized_roundWithAccuracy _ (Nat.mul_pos hm hm') ?_ hab
      -- Of two mantissas that are not full, the exponents are too low to matter.
      have hlog {n : Nat} (h : 2 ^ 52 ≤ n) : 52 ≤ n.log2 := (Nat.le_log2 (by omega)).mpr h
      rcases (isStored_of_unpack hu).full with hfull | rfl
      · exact .inl (hlog (hfull.trans (Nat.le_mul_of_pos_right _ hm')))
      · rcases (isStored_of_unpack hw).full with hfull | rfl
        · exact .inl (hlog (hfull.trans (Nat.le_mul_of_pos_left _ hm)))
        · exact .inr (by decide)

/-- The difference of a number and one that is not larger. -/
theorem is_sub {x y : Float} {a b : ℚ} (hx : Is x .positive a) (hy : Is y .positive b) (hle : b ≤ a) :
    ∃ v, Is (x - y) .positive v ∧ Rounds (a - b) v := by
  have ha := hx.le_largest
  change ∃ v, Sized (unpack Format.binary64 (pack Format.binary64
    (UnpackedFloat.sub Format.binary64 x.toModel.unpack y.toModel.unpack))) _ v ∧ _
  unfold Is at hx hy
  generalize hu : x.toModel.unpack = u at hx
  generalize hw : y.toModel.unpack = w at hy
  cases hx with
  | zero =>
    cases hy with
    | zero => exact ⟨0, sized_zero _, by simpa using rounds_zero⟩
    | finite hm => exact absurd hle (not_le.mpr (by positivity))
  | @finite _ m e hm =>
    cases hy with
    | zero =>
      have hstored := isStored_of_unpack hu
      exact ⟨_, sized_finite _ hm hstored, by simpa using rounds_stored hstored⟩
    | @finite _ m' e' hm' =>
      -- Both are multiples of the place of the last bit of either.
      obtain ⟨n, hn⟩ : ∃ n : Nat, n = (decreaseExponent m e (min e e')).1 := ⟨_, rfl⟩
      obtain ⟨n', hn'⟩ : ∃ n : Nat, n = (decreaseExponent m' e' (min e e')).1 := ⟨_, rfl⟩
      have value (k : Nat) {f : Int} (hf : min e e' ≤ f) :
          (k : ℚ) * 2 ^ f = (decreaseExponent k f (min e e')).1 * 2 ^ min e e' := by
        obtain ⟨j, rfl⟩ := Int.le.dest hf
        simp only [decreaseExponent, Nat.shiftLeft_eq]
        rw [zpow_add₀ two_ne_zero, zpow_natCast, show (min e e' + j - min e e').toNat = j by omega]
        push_cast
        ring
      rw [value m (min_le_left _ _), ← hn] at ha hle ⊢
      rw [value m' (min_le_right _ _), ← hn'] at hle ⊢
      obtain ⟨d, rfl⟩ := Nat.exists_eq_add_of_le (by exact_mod_cast le_of_mul_le_mul_right hle (by positivity) : n' ≤ n)
      have hsub : UnpackedFloat.sub Format.binary64 (.finite .positive m e hm) (.finite .positive m' e' hm') =
          UnpackedFloat.normalize Format.binary64 d (min e e') .positive := by
        simp only [UnpackedFloat.sub, Sign.apply, ← hn, ← hn']
        congr 1
        omega
      have hdifference : ((n' + d : Nat) : ℚ) * 2 ^ min e e' - n' * 2 ^ min e e' = d * 2 ^ min e e' := by
        push_cast
        ring
      rw [hsub, hdifference]
      rcases Nat.eq_zero_or_pos d with rfl | hd
      · exact ⟨0, sized_zero _, by simpa using rounds_zero⟩
      · have hcompare : compare (d : Int) 0 = .gt := Int.compare_eq_gt.mpr (by omega)
        simp only [UnpackedFloat.normalize, hcompare, Int.toNat_natCast]
        refine sized_round _ hd _ (le_trans ?_ ha)
        gcongr
        omega

-- ---------------------------------------------------------------------------
-- Quotients
-- ---------------------------------------------------------------------------

/-- The number whose bits are the place and the mantissa that it is rounded to. -/
theorem is_ofBits (negative : Bool) {r : ℚ} {q : Nat} {e : Int} (h : IsNearest r q e) (hr : r ≤ largest) :
    Is (Float.ofBits (UInt64.ofNat ((e + 1074).toNat * 2 ^ 52 + q + if negative then 2 ^ 63 else 0)))
      (if negative then .negative else .positive) (q * 2 ^ e) := by
  have hbounded := h.bounded hr
  have hcarried := h.le_carried
  have hfilled := h.filled
  obtain ⟨k, hk⟩ := Int.le.dest h.least
  rw [show (e + 1074).toNat = k by omega]
  obtain ⟨w, hw⟩ : ∃ w, w = UInt64.ofNat (k * 2 ^ 52 + q + if negative then 2 ^ 63 else 0) := ⟨_, rfl⟩
  have hword : w.toNat = k * 2 ^ 52 + q + if negative then 2 ^ 63 else 0 := by
    rw [hw, UInt64.toNat_ofNat', Nat.mod_eq_of_lt]
    split <;> omega
  have hsign : wordSign w = if negative then .negative else .positive := by
    unfold wordSign
    rw [hword]
    cases negative
    · exact if_neg (show ¬ (k * 2 ^ 52 + q + 0) / 2 ^ 63 = 1 by omega)
    · exact if_pos (show (k * 2 ^ 52 + q + 2 ^ 63) / 2 ^ 63 = 1 by omega)
  have fields (field fraction : Nat) (hsum : k * 2 ^ 52 + q = field * 2 ^ 52 + fraction) (hfraction : fraction < 2 ^ 52)
      (hfield : field < 2047) : Is (Float.ofBits w) (if negative then .negative else .positive)
        ((if field = 0 then fraction else 2 ^ 52 + fraction : Nat) * 2 ^ ((max field 1 : Nat) - 1075 : Int)) := by
    have hdiv : w.toNat / 2 ^ 52 % 2 ^ 11 = field := by
      rw [hword, hsum]
      split <;> omega
    have hmod : w.toNat % 2 ^ 52 = fraction := by
      rw [hword, hsum]
      split <;> omega
    have hsized := sized_word (w := w) (by omega)
    rw [hdiv, hmod, hsign, ← unpack_ofBits] at hsized
    exact hsized
  rw [← hw]
  by_cases hlow : q < 2 ^ 52
  · have his := fields 0 q (by omega) hlow (by omega)
    rwa [if_pos rfl, show ((max 0 1 : Nat) : Int) - 1075 = e by omega] at his
  · by_cases hhigh : q = 2 ^ 53
    · have his := fields (k + 2) 0 (by omega) (by omega) (by omega)
      have hvalue : (q : ℚ) * 2 ^ e = (2 ^ 52 + 0 : Nat) * 2 ^ (e + 1) := by
        rw [hhigh, zpow_add_one₀ two_ne_zero]
        push_cast
        ring
      rwa [if_neg (Nat.succ_ne_zero _), show ((max (k + 2) 1 : Nat) : Int) - 1075 = e + 1 by omega, ← hvalue] at his
    · have his := fields (k + 1) (q - 2 ^ 52) (by omega) (by omega) (by omega)
      rwa [if_neg (Nat.succ_ne_zero _), show 2 ^ 52 + (q - 2 ^ 52) = q by omega,
        show ((max (k + 1) 1 : Nat) : Int) - 1075 = e by omega] at his

theorem scaled_pos {n d : Nat} (hd : 0 < d) (e : Int) : 0 < (scaled n d e).2 := by
  unfold scaled
  split <;> positivity

theorem scaled_eq (n d : Nat) (e : Int) : ((scaled n d e).1 : ℚ) / (scaled n d e).2 = n / d / 2 ^ e := by
  rcases Int.le_total e 0 with h | h
  · obtain ⟨k, rfl⟩ := Int.exists_eq_neg_ofNat h
    rw [scaled_neg, zpow_neg, zpow_natCast]
    push_cast
    field_simp
  · obtain ⟨k, rfl⟩ := Int.eq_ofNat_of_zero_le h
    rw [scaled_nat, zpow_natCast]
    push_cast
    field_simp

theorem fills_iff {n d : Nat} (hd : 0 < d) (e : Int) : fills n d e = true ↔ (2 : ℚ) ^ (52 + e) ≤ n / d := by
  have hpos : (0 : ℚ) < (scaled n d e).2 := by exact_mod_cast scaled_pos hd e
  rw [zpow_add₀ two_ne_zero, ← le_div_iff₀ (by positivity), ← scaled_eq, le_div_iff₀ hpos]
  unfold fills
  rw [decide_eq_true_iff, mul_comm]
  exact_mod_cast Iff.rfl

theorem roundDiv_cases (n d : Nat) :
    2 * (n % d) ≤ d ∧ roundDiv n d = n / d ∨ d ≤ 2 * (n % d) ∧ roundDiv n d = n / d + 1 := by
  simp only [roundDiv]
  split
  · omega
  · split
    · omega
    · split <;> omega

theorem abs_roundDiv_sub (n : Nat) {d : Nat} (hd : 0 < d) : |(roundDiv n d : ℚ) - n / d| ≤ 1 / 2 := by
  have hd' : (0 : ℚ) < d := by exact_mod_cast hd
  have hdiv : (n : ℚ) / d = (n / d : Nat) + (n % d : Nat) / d := by
    rw [div_eq_iff hd'.ne', add_mul, div_mul_cancel₀ _ hd'.ne', mul_comm]
    exact_mod_cast (Nat.div_add_mod n d).symm
  have hnonneg : (0 : ℚ) ≤ (n % d : Nat) / d := by positivity
  rw [hdiv, abs_le]
  obtain ⟨hle, hround⟩ | ⟨hle, hround⟩ := roundDiv_cases n d
  · have hhalf : ((n % d : Nat) : ℚ) / d ≤ 1 / 2 := by
      rw [div_le_div_iff₀ hd' two_pos]
      exact_mod_cast (by omega : n % d * 2 ≤ 1 * d)
    rw [hround]
    constructor <;> linarith
  · have hhalf : (1 : ℚ) / 2 ≤ (n % d : Nat) / d := by
      rw [div_le_div_iff₀ two_pos hd']
      exact_mod_cast (by omega : 1 * d ≤ n % d * 2)
    have hlt : ((n % d : Nat) : ℚ) / d < 1 := by
      rw [div_lt_one hd']
      exact_mod_cast Nat.mod_lt n hd
    rw [hround]
    push_cast
    constructor <;> linarith

/-- A quotient is rounded at the exponent that is estimated from the lengths of its terms. -/
theorem isNearest_ratio {n d : Nat} (hn : 0 < n) (hd : 0 < d) :
    IsNearest (n / d) (roundDiv (scaled n d (ratioExponent n d)).1 (scaled n d (ratioExponent n d)).2)
      (ratioExponent n d) := by
  have hd' : (0 : ℚ) < d := by exact_mod_cast hd
  have hlow : (2 : ℚ) ^ ((n.log2 : Int) - (d.log2 + 1)) ≤ n / d :=
    calc (2 : ℚ) ^ ((n.log2 : Int) - (d.log2 + 1)) = 2 ^ n.log2 / 2 ^ (d.log2 + 1) := by
          rw [zpow_sub₀ two_ne_zero]
          norm_cast
      _ ≤ n / d := div_le_div₀ (by positivity) (two_pow_log2_le hn) hd' (lt_two_pow_log2 d).le
  have hhigh : (n : ℚ) / d < 2 ^ ((n.log2 : Int) + 1 - d.log2) :=
    calc (n : ℚ) / d < 2 ^ (n.log2 + 1) / 2 ^ d.log2 :=
          div_lt_div₀ (lt_two_pow_log2 n) (two_pow_log2_le hd) (by positivity) (by positivity)
      _ = 2 ^ ((n.log2 : Int) + 1 - d.log2) := by
          rw [zpow_sub₀ two_ne_zero]
          norm_cast
  obtain ⟨e, he⟩ : ∃ e : Int, e = (n.log2 : Int) - d.log2 - 52 := ⟨_, rfl⟩
  obtain ⟨f, hf⟩ : ∃ f, f = if fills n d e then e else e - 1 := ⟨_, rfl⟩
  have hfull : (2 : ℚ) ^ (52 + f) ≤ n / d ∧ (n : ℚ) / d < 2 ^ (53 + f) := by
    by_cases hfills : fills n d e = true
    · rw [if_pos hfills] at hf
      rw [hf]
      refine ⟨(fills_iff hd e).mp hfills, ?_⟩
      rwa [show 53 + e = (n.log2 : Int) + 1 - d.log2 by omega]
    · rw [if_neg hfills] at hf
      rw [hf, show 52 + (e - 1) = (n.log2 : Int) - (d.log2 + 1) by omega, show 53 + (e - 1) = 52 + e by omega]
      exact ⟨hlow, not_le.mp (mt (fills_iff hd e).mpr hfills)⟩
  have hratio : ratioExponent n d = max f (-1074) := by
    unfold ratioExponent
    rw [hf, he]
  have hround := abs_roundDiv_sub (scaled n d (ratioExponent n d)).1 (scaled_pos (n := n) hd (ratioExponent n d))
  rw [scaled_eq] at hround
  refine ⟨hround, by omega, ?_, ?_⟩
  · rcases le_total (-1074) f with h | h
    · rw [hratio, max_eq_left h]
      exact .inl hfull.1
    · exact .inr (hratio.trans (max_eq_right h))
  · exact hfull.2.trans_le (zpow_le_zpow_right₀ (by norm_num) (by omega))

/-- A quotient is converted to the number nearest to it. -/
theorem is_ofRatio (negative : Bool) (n : Nat) {d : Nat} (hd : 0 < d) (hr : (n : ℚ) / d ≤ largest) :
    ∃ v, Is (ofRatio negative n d) (if negative then .negative else .positive) v ∧ Rounds (n / d) v := by
  unfold ofRatio
  rcases Nat.eq_zero_or_pos n with rfl | hn
  · refine ⟨0, ?_, by simpa using rounds_zero⟩
    have hzero := is_ofBits negative (r := 0) (q := 0) (e := -1074) ⟨by simp, le_rfl, .inr rfl, by positivity⟩
      (by simpa using hr)
    rw [Nat.cast_zero, zero_mul] at hzero
    exact hzero
  · have hnearest := isNearest_ratio hn hd
    have hbounded := hnearest.bounded hr
    have hcarried := hnearest.le_carried
    have hbits : ratioBits n d = (ratioExponent n d + 1074).toNat * 2 ^ 52 +
        roundDiv (scaled n d (ratioExponent n d)).1 (scaled n d (ratioExponent n d)).2 := by
      simp only [ratioBits]
      omega
    dsimp only
    rw [if_neg hn.ne', hbits]
    exact ⟨_, is_ofBits negative hnearest hr, _, _, hnearest, rfl⟩

-- ---------------------------------------------------------------------------
-- Integer parts
-- ---------------------------------------------------------------------------

/-- A whole number that has 53 bits but for zeros at its end is converted to itself. -/
theorem is_ofInt {n q e : Nat} (hn : n = q * 2 ^ e) (hq : q < 2 ^ 53) (hle : (n : ℚ) ≤ largest) :
    Is (ofInt n) .positive n := by
  obtain ⟨v, his, hrounds⟩ := is_ofRatio (decide ((n : Int) < 0)) n one_pos (by rwa [Nat.cast_one, div_one])
  have hvalue : (n : ℚ) / (1 : Nat) = q * 2 ^ (e : Int) := by
    rw [hn, zpow_natCast]
    push_cast
    ring
  rw [hvalue] at hrounds
  rw [hrounds.exact hq (by omega), ← hvalue, Nat.cast_one, div_one, decide_eq_false (by omega)] at his
  exact his

/-- The integer part of a number is what is above the place of one, and the rest is what is below. -/
theorem Is.floor {x : Float} {s : Sign} {a : ℚ} (h : Is x s a) : ∃ (q e r : Nat) (f : Int),
    ⌊a⌋₊ = q * 2 ^ e ∧ q < 2 ^ 53 ∧ a - ⌊a⌋₊ = r * 2 ^ f ∧ r < 2 ^ 53 ∧ -1074 ≤ f := by
  unfold Is at h
  generalize hu : x.toModel.unpack = u at h
  cases h with
  | zero => exact ⟨0, 0, 0, 0, by simp⟩
  | @finite _ m e hm =>
    obtain ⟨hbits, hleast, -, -⟩ : IsStored m e := isStored_of_unpack hu
    obtain ⟨k, rfl, hsize⟩ | ⟨k, rfl, hsize⟩ := size_cases m e
    · rw [hsize, Nat.floor_div_eq_div]
      have hmod := Nat.mod_le m (2 ^ k)
      have hdiv := Nat.div_le_self m (2 ^ k)
      refine ⟨m / 2 ^ k, 0, m % 2 ^ k, -k, by simp, by omega, ?_, by omega, hleast⟩
      rw [zpow_neg, zpow_natCast, ← div_eq_mul_inv, sub_eq_iff_eq_add, div_eq_iff (by positivity), add_mul]
      push_cast
      rw [div_mul_cancel₀ _ (by positivity)]
      exact_mod_cast (Nat.mod_add_div' m (2 ^ k)).symm
    · rw [hsize, Nat.floor_natCast]
      exact ⟨m, k, 0, 0, rfl, hbits, by simp, by omega, by omega⟩

/-- The rest of a number over its integer part is exact. -/
theorem is_fraction {x : Float} {a : ℚ} (hx : Is x .positive a) : Is (fraction x) .positive (Int.fract a) := by
  have hnonneg := hx.nonneg
  have hfloor : (⌊a⌋₊ : ℚ) ≤ a := Nat.floor_le hnonneg
  have hfract : Int.fract a = a - ⌊a⌋₊ := by
    rw [Int.fract, natCast_floor_eq_intCast_floor hnonneg]
  obtain ⟨q, e, r, f, hwhole, hq, hrest, hr, hf⟩ := hx.floor
  have hinteger : Is (ofInt ⌊a⌋₊) .positive ⌊a⌋₊ := is_ofInt hwhole hq (hfloor.trans hx.le_largest)
  obtain ⟨v, his, hrounds⟩ := is_sub hx hinteger hfloor
  rw [hrest] at hrounds
  rw [hrounds.exact hr hf, ← hrest, ← hfract] at his
  unfold fraction
  rw [truncate_eq hx]
  exact his

/-- A number with 53 bits above the place of one is whole. -/
theorem Is.fract_eq_zero {x : Float} {s : Sign} {a : ℚ} (h : Is x s a) (ha : 2 ^ 53 ≤ a) : Int.fract a = 0 := by
  unfold Is at h
  generalize hu : x.toModel.unpack = u at h
  cases h with
  | zero => norm_num at ha
  | @finite _ m e hm =>
    obtain ⟨hbits, -, -, -⟩ : IsStored m e := isStored_of_unpack hu
    obtain ⟨k, rfl, hsize⟩ | ⟨k, rfl, hsize⟩ := size_cases m e
    · exfalso
      rw [hsize, le_div_iff₀ (by positivity)] at ha
      have hle : 2 ^ 53 * 2 ^ k ≤ m := by exact_mod_cast ha
      have hone := Nat.one_le_two_pow (n := k)
      nlinarith
    · rw [hsize]
      exact Int.fract_natCast _

end StructuredText.Binary64
