-- SUMMARY: Integers of 128 bits are within the range of REAL when they are converted.
import StructuredText.Elementary
import StructuredText.Value.Arithmetic

/-!
# The size of converted integers

An integer of 128 bits is at most `2 ^ 127` in size, and so is the number it is rounded to. This is less
than the largest number of 32 bits, so every integer can be stored in a `REAL` variable.
-/

namespace StructuredText

namespace Binary64

open Float.Model UnpackedFloat

-- ---------------------------------------------------------------------------
-- Rounding
-- ---------------------------------------------------------------------------

theorem roundDiv_le (n d : Nat) : roundDiv n d ≤ n / d + 1 := by
  simp only [roundDiv]
  split
  · omega
  · split
    · omega
    · split <;> omega

theorem scaled_neg (n d k : Nat) : scaled n d (-k) = (n * 2 ^ k, d) := by
  unfold scaled
  cases k with
  | zero => simp
  | succ k =>
    have hneg : -((k + 1 : Nat) : Int) < 0 := by omega
    have hto : (- -((k + 1 : Nat) : Int)).toNat = k + 1 := by omega
    rw [if_pos hneg, hto]

theorem scaled_nat (n d k : Nat) : scaled n d k = (n, d * 2 ^ k) := by
  unfold scaled
  rw [if_neg (by omega), Int.toNat_natCast]

/-- At the exponent of an integer, the mantissa has 53 bits. -/
theorem scaled_div_le {n : Nat} {e : Int} (he : e = n.log2 - 52) :
    (scaled n 1 e).1 / (scaled n 1 e).2 + 1 ≤ 2 * 2 ^ 52 := by
  have hhigh : n < 2 ^ (n.log2 + 1) := Nat.lt_log2_self
  rcases Int.le_total e 0 with h | h
  · obtain ⟨k, rfl⟩ := Int.exists_eq_neg_ofNat h
    rw [scaled_neg, Nat.div_one]
    calc n * 2 ^ k < 2 ^ (n.log2 + 1) * 2 ^ k :=
          Nat.mul_lt_mul_of_pos_right hhigh (Nat.two_pow_pos k)
      _ = 2 ^ (n.log2 + 1 + k) := (Nat.pow_add _ _ _).symm
      _ = 2 ^ (1 + 52) := by congr 1; omega
      _ = 2 * 2 ^ 52 := Nat.pow_add _ _ _
  · obtain ⟨k, rfl⟩ := Int.eq_ofNat_of_zero_le h
    rw [scaled_nat, Nat.one_mul, Nat.succ_le_iff, Nat.div_lt_iff_lt_mul (Nat.two_pow_pos k)]
    calc n < 2 ^ (n.log2 + 1) := hhigh
      _ = 2 ^ (1 + 52 + k) := by congr 1; omega
      _ = 2 * 2 ^ 52 * 2 ^ k := by rw [Nat.pow_add, Nat.pow_add]

theorem fills_of_log2 {n : Nat} {e : Int} (hn : 0 < n) (he : e = n.log2 - 52) :
    fills n 1 e = true := by
  have hlow : 2 ^ n.log2 ≤ n := Nat.log2_self_le (by omega)
  refine decide_eq_true ?_
  rcases Int.le_total e 0 with h | h
  · obtain ⟨k, rfl⟩ := Int.exists_eq_neg_ofNat h
    rw [scaled_neg, Nat.one_mul]
    calc 2 ^ 52 = 2 ^ (n.log2 + k) := by congr 1; omega
      _ = 2 ^ n.log2 * 2 ^ k := Nat.pow_add _ _ _
      _ ≤ n * 2 ^ k := Nat.mul_le_mul_right _ hlow
  · obtain ⟨k, rfl⟩ := Int.eq_ofNat_of_zero_le h
    rw [scaled_nat, Nat.one_mul]
    calc 2 ^ k * 2 ^ 52 = 2 ^ (k + 52) := (Nat.pow_add _ _ _).symm
      _ = 2 ^ n.log2 := by congr 1; omega
      _ ≤ n := hlow

theorem ratioExponent_one {n : Nat} (hn : 0 < n) : ratioExponent n 1 = n.log2 - 52 := by
  have hone : Nat.log2 1 = 0 := by decide
  have hfills := fills_of_log2 hn rfl
  unfold ratioExponent
  rw [hone]
  simp only [Int.natCast_zero, Int.sub_zero]
  rw [if_pos hfills]
  omega

/-- The bits of a positive integer below `2 ^ (k + 1)`. -/
theorem ratioBits_one_le {n : Nat} (hn : 0 < n) : ratioBits n 1 ≤ (n.log2 + 1024) * 2 ^ 52 := by
  have he := ratioExponent_one hn
  have hdiv := scaled_div_le he
  have hround := roundDiv_le (scaled n 1 (ratioExponent n 1)).1 (scaled n 1 (ratioExponent n 1)).2
  have hplace : (ratioExponent n 1 + 1074).toNat = n.log2 + 1022 := by omega
  calc ratioBits n 1 ≤ (ratioExponent n 1 + 1074).toNat * 2 ^ 52 + _ := Nat.min_le_left _ _
    _ ≤ (n.log2 + 1022) * 2 ^ 52 + 2 * 2 ^ 52 := by
      rw [hplace]
      exact Nat.add_le_add_left (Nat.le_trans hround hdiv) _
    _ = (n.log2 + 1022 + 2) * 2 ^ 52 := (Nat.add_mul _ _ _).symm

theorem ratioBits_le {n : Nat} (hn : n ≤ 2 ^ 127) : ratioBits n 1 ≤ 1150 * 2 ^ 52 := by
  rcases Nat.eq_zero_or_pos n with rfl | hpos
  · decide +kernel
  · rcases Nat.lt_or_eq_of_le hn with hlt | rfl
    · have hlog : n.log2 < 127 := (Nat.log2_lt (by omega)).mpr hlt
      exact Nat.le_trans (ratioBits_one_le hpos) (Nat.mul_le_mul_right _ (by omega))
    · decide +kernel

-- ---------------------------------------------------------------------------
-- Small numbers
-- ---------------------------------------------------------------------------

/-- The bits are those of a number of size `2 ^ 127` at most. -/
def SmallBits (b : BitVec Format.binary64.numBits) : Prop :=
  (unpackExponent b).toNat < 1150 ∨ (unpackExponent b).toNat = 1150 ∧ unpackMantissa b = 0

/-- The number has the size `2 ^ 127` at most. -/
def Small : UnpackedFloat → Prop
  | .zero _ => True
  | .finite _ m e _ => e < 75 ∨ e = 75 ∧ m = 2 ^ 52
  | _ => False

theorem Small.abs {u : UnpackedFloat} (h : Small u) : Small u.abs := by
  cases u <;> exact h

theorem small_unpack {b : BitVec Format.binary64.numBits} (h : SmallBits b) :
    Small (unpack Format.binary64 b) := by
  have hbias : (Format.binary64.exponentBias : Int) = 1023 := by decide
  have hexp : (unpackExponent b).toNat ≤ 1150 := by rcases h with h | h <;> omega
  have hfinite : unpackExponent b ≠ -1#_ := by
    intro heq
    rw [heq] at hexp
    revert hexp
    decide
  delta UnpackedFloat.unpack
  rw [if_neg hfinite]
  by_cases hzero : unpackExponent b = BitVec.ofNat _ 0
  · rw [if_pos hzero]
    by_cases hmantissa : unpackMantissa b = BitVec.ofNat _ 0
    · rw [dif_pos hmantissa]
      trivial
    · rw [dif_neg hmantissa]
      left
      rw [hzero, hbias]
      decide
  · rw [if_neg hzero]
    rcases h with h | ⟨h, hm⟩
    · left
      rw [hbias]
      simp
      omega
    · right
      rw [hbias, h, hm]
      exact ⟨by decide, by decide⟩

theorem smallBits_pack {u : UnpackedFloat} (h : Small u) : SmallBits (pack Format.binary64 u) := by
  have hbias : (Format.binary64.exponentBias : Int) = 1023 := by decide
  cases u with
  | notANumber => cases h
  | infinity s => cases h
  | zero s =>
    left
    delta UnpackedFloat.pack
    simp [packedZero]
  | finite s m e hm =>
    have he : (e + Format.binary64.exponentBias + (52 : Nat)).toNat ≤ 1150 := by
      rw [hbias]
      rcases h with h | h <;> omega
    delta UnpackedFloat.pack
    dsimp only
    rw [if_neg (by simp; omega)]
    split
    · rcases h with h | ⟨rfl, rfl⟩
      · left
        simp only [unpackExponent_packComponents, BitVec.toNat_ofNat]
        rw [hbias]
        omega
      · right
        simp [hbias]
    · left
      simp

theorem unpackExponent_word (w : UInt64) :
    (@unpackExponent Format.binary64 w.toBitVec).toNat = w.toNat / 2 ^ 52 % 2 ^ 11 := by
  change (w.toNat >>> 52) % 2 ^ 11 = _
  rw [Nat.shiftRight_eq_div_pow]

theorem smallBits_ofNat {n : Nat} (negative : Bool) (hn : n ≤ 1150 * 2 ^ 52) :
    SmallBits (UInt64.ofNat (n + if negative then 2 ^ 63 else 0)).toBitVec := by
  have hexp := unpackExponent_word (UInt64.ofNat (n + if negative then 2 ^ 63 else 0))
  have hword : (UInt64.ofNat (n + if negative then 2 ^ 63 else 0)).toNat / 2 ^ 52 % 2 ^ 11 =
      n / 2 ^ 52 := by
    cases negative <;> simp <;> omega
  rw [hword] at hexp
  rcases Nat.lt_or_eq_of_le hn with hlt | rfl
  · left
    rw [hexp]
    omega
  · right
    refine ⟨hexp.trans (Nat.mul_div_cancel 1150 (Nat.two_pow_pos 52)), ?_⟩
    cases negative <;> decide +kernel

theorem small_abs_ofRatio {n : Nat} (negative : Bool) (hn : n ≤ 2 ^ 127) :
    Small (ofRatio negative n 1).abs.toModel.unpack := by
  have hbits : (if n = 0 then 0 else ratioBits n 1) ≤ 1150 * 2 ^ 52 := by
    split
    · exact Nat.zero_le _
    · exact ratioBits_le hn
  have h := smallBits_pack (small_unpack (smallBits_ofNat negative hbits))
  exact small_unpack (smallBits_pack (small_unpack h).abs)

theorem largestReal_unpack :
    Elementary.largestReal.toModel.unpack = .finite .positive 9007198717870080 75 (by decide) := by
  have hbits : Elementary.largestReal.toModel.toBits = 0x47EFFFFFE0000000 := by decide +kernel
  unfold Float.Model.unpack
  rw [hbits]
  rfl

/-- Positive numbers are compared by their exponents, and by their mantissas if these are the same. -/
theorem lt_positive {m m' : Nat} {e e' : Int} (hm : 0 < m) (hm' : 0 < m') :
    (UnpackedFloat.finite .positive m e hm).lt (.finite .positive m' e' hm') =
      ((compare e e').then (compare m m') == .lt) := rfl

theorem not_largestReal_lt {x : Float} (h : Small x.toModel.unpack) :
    ¬ Elementary.largestReal < x := by
  intro hlt
  have hlt : Elementary.largestReal.toModel.unpack.lt x.toModel.unpack = true :=
    of_decide_eq_true hlt
  rw [largestReal_unpack] at hlt
  revert hlt
  generalize x.toModel.unpack = u at h
  cases u with
  | notANumber => cases h
  | infinity s => cases h
  | zero s => rintro ⟨⟩
  | finite s m e hm =>
    cases s with
    | negative => rintro ⟨⟩
    | positive =>
      rw [lt_positive]
      rcases h with h | ⟨rfl, rfl⟩
      · have hcompare : compare 75 e = .gt := Int.compare_eq_gt.mpr h
        rw [hcompare]
        rintro ⟨⟩
      · decide

end Binary64

/-- An integer of 128 bits can be stored where a real number can. -/
theorem Elementary.canHold_ofInt (e : Elementary) {i : Int} (hi : FitsInteger i)
    (he : e.kind = .real) : e.canHold (.real (Binary64.ofInt i)) = .ok () := by
  have hn : i.natAbs ≤ 2 ^ 127 := by
    obtain ⟨hlow, hhigh⟩ := hi
    omega
  have hsmall := Binary64.not_largestReal_lt (Binary64.small_abs_ofRatio (decide (i < 0)) hn)
  have hnot : ¬ (Binary64.ofInt i).abs > Elementary.largestReal := hsmall
  simp only [Elementary.canHold, he, hnot, decide_false, Bool.and_false, Bool.not_false, if_true]

end StructuredText
