-- SUMMARY: Binary floating point numbers as rational numbers, and which of them are ordered.
import Mathlib
import StructuredText.Proofs.Magnitude

/-!
# Binary floating point numbers as rational numbers

A finite number is a sign and a size, which is a mantissa times a power of two. The integer part of a number and the
integer nearest to it are read off the size. A number that is not finite has a sign too, unless it is not a number, and
that is the only case in which two numbers are not ordered.
-/

namespace StructuredText.Binary64

open Float.Model UnpackedFloat

-- ---------------------------------------------------------------------------
-- Stored numbers
-- ---------------------------------------------------------------------------

/-- A mantissa and an exponent as they are stored: with 53 bits, or with fewer at the least exponent. -/
structure IsStored (m : Nat) (e : Int) : Prop where
  bits : m < 2 ^ 53
  least : -1074 ≤ e
  greatest : e ≤ 971
  full : 2 ^ 52 ≤ m ∨ e = -1074

theorem exponentBias_eq : (Format.binary64.exponentBias : Int) = 1023 := by decide

theorem toNat_implicit (fraction : BitVec Format.binary64.mantissaBitsWithoutImplicit) :
    (1#1 ++ fraction).toNat = 2 ^ 52 + fraction.toNat := by
  rw [BitVec.toNat_append, ← Nat.shiftLeft_add_eq_or_of_lt fraction.isLt]
  rfl

theorem isStored_of_unpack {b : BitVec Format.binary64.numBits} {s : Sign} {m : Nat} {e : Int} {hm : 0 < m}
    (h : unpack Format.binary64 b = .finite s m e hm) : IsStored m e := by
  have hbias := exponentBias_eq
  have hfraction : (unpackMantissa b).toNat < 2 ^ 52 := (unpackMantissa b).isLt
  have hfield : (unpackExponent b).toNat < 2 ^ 11 := (unpackExponent b).isLt
  simp only [UnpackedFloat.unpack] at h
  split at h
  · split at h <;> cases h
  · next hfinite =>
    split at h
    · next hzero =>
      split at h
      · cases h
      · cases h
        rw [hzero, hbias]
        exact ⟨by omega, by decide, by decide, .inr rfl⟩
    · next hnormal =>
      cases h
      have h0 : (unpackExponent b).toNat ≠ 0 := fun h => hnormal (BitVec.eq_of_toNat_eq h)
      have h1 : (unpackExponent b).toNat ≠ 2047 := fun h => hfinite (BitVec.eq_of_toNat_eq h)
      have himplicit := toNat_implicit (unpackMantissa b)
      constructor <;> omega

theorem unpack_normal (s : Sign) {field : BitVec 11} (fraction : BitVec 52) (h0 : field ≠ 0#11) (h1 : field ≠ -1#11) :
    unpack Format.binary64 (packComponents Format.binary64 s field fraction) =
      .finite s (2 ^ 52 + fraction.toNat) (field.toNat - 1075) (by omega) := by
  have himplicit := toNat_implicit fraction
  simp only [UnpackedFloat.unpack, unpackMantissa_packComponents, unpackExponent_packComponents,
    unpackSign_packComponents, Sign.ofBitVec_toBitVec, if_neg h0, if_neg h1]
  congr 1

theorem unpack_subnormal (s : Sign) {fraction : BitVec 52} (h : fraction ≠ 0#52) :
    unpack Format.binary64 (packComponents Format.binary64 s 0#11 fraction) =
      .finite s fraction.toNat (-1074) (Nat.pos_of_ne_zero fun h0 => h (BitVec.eq_of_toNat_eq h0)) := by
  simp only [UnpackedFloat.unpack, unpackMantissa_packComponents, unpackExponent_packComponents,
    unpackSign_packComponents, Sign.ofBitVec_toBitVec, if_true, dif_neg h]
  rfl

/-- A mantissa and an exponent that can be stored are unpacked as they were packed. -/
theorem unpack_pack_finite (s : Sign) {m : Nat} {e : Int} (hm : 0 < m) (h : IsStored m e) :
    unpack Format.binary64 (pack Format.binary64 (.finite s m e hm)) = .finite s m e hm := by
  have hbias := exponentBias_eq
  obtain ⟨hbits, hleast, hgreatest, hfull⟩ := h
  have hfits : ¬ 2 ^ 11 ≤ (e + Format.binary64.exponentBias + (52 : Nat)).toNat + 1 := by omega
  have hlog : m.log2 + 1 = Format.binary64.mantissaBits ↔ 2 ^ 52 ≤ m := by
    rw [show Format.binary64.mantissaBits = 52 + 1 from rfl, Nat.add_right_cancel_iff, Nat.log2_eq_iff hm.ne']
    omega
  simp only [UnpackedFloat.pack, if_neg hfits]
  by_cases hnormal : 2 ^ 52 ≤ m
  · rw [if_pos (hlog.mpr hnormal)]
    have hfield : (BitVec.ofNat 11 (e + Format.binary64.exponentBias + (52 : Nat)).toNat).toNat =
        (e + Format.binary64.exponentBias + (52 : Nat)).toNat := by
      rw [BitVec.toNat_ofNat, Nat.mod_eq_of_lt (by omega)]
    rw [unpack_normal]
    · simp only [UnpackedFloat.finite.injEq, true_and]
      rw [BitVec.toNat_ofNat, hfield]
      omega
    · intro h
      rw [h] at hfield
      simp at hfield
      omega
    · intro h
      rw [h] at hfield
      simp at hfield
      omega
  · rw [if_neg (mt hlog.mp hnormal)]
    have hmantissa : (BitVec.ofNat 52 m).toNat = m := by
      rw [BitVec.toNat_ofNat, Nat.mod_eq_of_lt (by omega)]
    rw [unpack_subnormal]
    · simp only [UnpackedFloat.finite.injEq, true_and]
      omega
    · intro h
      rw [h] at hmantissa
      simp at hmantissa
      omega

-- ---------------------------------------------------------------------------
-- Sizes
-- ---------------------------------------------------------------------------

/-- The finite number has the sign and the size. -/
inductive Sized : UnpackedFloat → Sign → ℚ → Prop
  | zero {s : Sign} : Sized (.zero s) s 0
  | finite {s : Sign} {m : Nat} {e : Int} (hm : 0 < m) : Sized (.finite s m e hm) s (m * 2 ^ e)

theorem Sized.unique {u : UnpackedFloat} {s s' : Sign} {a a' : ℚ} (h : Sized u s a) (h' : Sized u s' a') :
    s = s' ∧ a = a' := by
  cases h <;> cases h' <;> exact ⟨rfl, rfl⟩

theorem Sized.nonneg {u : UnpackedFloat} {s : Sign} {a : ℚ} (h : Sized u s a) : 0 ≤ a := by
  cases h <;> positivity

theorem sized_zero (s : Sign) : Sized (unpack Format.binary64 (pack Format.binary64 (.zero s))) s 0 := by
  rw [UnpackedFloat.pack, unpack_packedZero]
  exact .zero

theorem sized_finite (s : Sign) {m : Nat} {e : Int} (hm : 0 < m) (h : IsStored m e) :
    Sized (unpack Format.binary64 (pack Format.binary64 (.finite s m e hm))) s (m * 2 ^ e) := by
  rw [unpack_pack_finite s hm h]
  exact .finite hm

theorem unpackMantissa_word (w : UInt64) :
    (@unpackMantissa Format.binary64 w.toBitVec).toNat = w.toNat % 2 ^ 52 := by
  change (w.toNat >>> 0) % 2 ^ 52 = _
  rw [Nat.shiftRight_zero]

/-- The sign that the highest bit of a number stands for. -/
def wordSign (w : UInt64) : Sign := if w.toNat / 2 ^ 63 = 1 then .negative else .positive

theorem unpackSign_word (w : UInt64) : Sign.ofBitVec (@unpackSign Format.binary64 w.toBitVec) = wordSign w := by
  have hword : (@unpackSign Format.binary64 w.toBitVec).toNat = w.toNat / 2 ^ 63 % 2 := by
    change (w.toNat >>> 63) % 2 ^ 1 = _
    rw [Nat.shiftRight_eq_div_pow]
  have hlt : w.toNat < 2 ^ 64 := w.toNat_lt
  unfold Sign.ofBitVec wordSign
  split
  · next h =>
    rw [h] at hword
    rw [if_neg fun h1 => absurd hword (by rw [h1]; decide)]
  · next h =>
    have hne : w.toNat / 2 ^ 63 % 2 ≠ 0 := fun h0 => h (BitVec.eq_of_toNat_eq (hword.trans h0))
    rw [if_pos (by omega)]

theorem unpackExponent_eq_iff {w : UInt64} :
    @unpackExponent Format.binary64 w.toBitVec = -1#_ ↔ w.toNat / 2 ^ 52 % 2 ^ 11 = 2047 := by
  rw [← unpackExponent_word]
  exact ⟨fun h => by rw [h]; rfl, fun h => BitVec.eq_of_toNat_eq h⟩

/-- The size of a number that is not of the largest exponent, from its bits. -/
theorem sized_word {w : UInt64} (h : w.toNat / 2 ^ 52 % 2 ^ 11 ≠ 2047) :
    Sized (unpack Format.binary64 w.toBitVec) (wordSign w)
      ((if w.toNat / 2 ^ 52 % 2 ^ 11 = 0 then w.toNat % 2 ^ 52 else 2 ^ 52 + w.toNat % 2 ^ 52 : Nat) *
        2 ^ ((max (w.toNat / 2 ^ 52 % 2 ^ 11) 1 : Nat) - 1075 : Int)) := by
  have hbias := exponentBias_eq
  have hfield := unpackExponent_word w
  rw [← unpackSign_word, ← unpackMantissa_word, ← hfield]
  simp only [UnpackedFloat.unpack, if_neg (mt unpackExponent_eq_iff.mp h)]
  split
  · next hzero =>
    have hexponent : ((max 0 1 : Nat) : Int) - 1075 =
        (0 : Nat) - ((Format.binary64.exponentBias : Int) + (52 : Nat)) + 1 := by omega
    rw [hzero, show (0#11).toNat = 0 from rfl, if_pos rfl, hexponent]
    split
    · next hm =>
      rw [hm, show (0#52).toNat = 0 from rfl, Nat.cast_zero, zero_mul]
      exact .zero
    · exact .finite _
  · next hnormal =>
    have h0 : (@unpackExponent Format.binary64 w.toBitVec).toNat ≠ 0 := fun h => hnormal (BitVec.eq_of_toNat_eq h)
    have hexponent : ((max (@unpackExponent Format.binary64 w.toBitVec).toNat 1 : Nat) : Int) - 1075 =
        (@unpackExponent Format.binary64 w.toBitVec).toNat - (Format.binary64.exponentBias + (52 : Nat)) := by omega
    rw [if_neg h0, hexponent, ← toNat_implicit]
    exact .finite _

/-- The float is the finite number with the sign and the size. -/
def Is (x : Float) (s : Sign) (a : ℚ) : Prop := Sized x.toModel.unpack s a

theorem unpack_ofBits (w : UInt64) : (Float.ofBits w).toModel.unpack = unpack Format.binary64 w.toBitVec := by
  change unpack Format.binary64 (pack Format.binary64 (unpack Format.binary64 w.toBitVec)) = _
  rw [pack_unpack]
  split
  · next hnan =>
    simp only [isNaNBits, decide_eq_true_eq] at hnan
    rw [unpack_packedNaN]
    simp only [UnpackedFloat.unpack, if_pos hnan.1, if_neg hnan.2]
  · rfl

/-- The largest finite number. -/
def largest : ℚ := (2 ^ 53 - 1) * 2 ^ (971 : Int)

theorem largest_lt : largest < 2 ^ (1024 : Int) := by
  rw [show (1024 : Int) = 53 + 971 from rfl, zpow_add₀ two_ne_zero]
  exact mul_lt_mul_of_pos_right (by norm_num) (by positivity)

/-- Powers of two are below the largest number up to the largest exponent. -/
theorem two_zpow_le_largest {k : Int} (hk : k ≤ 971) : (2 : ℚ) ^ k ≤ largest :=
  calc (2 : ℚ) ^ k ≤ 2 ^ (971 : Int) := zpow_le_zpow_right₀ (by norm_num) hk
    _ ≤ largest := le_mul_of_one_le_left (by positivity) (by norm_num)

namespace Is

variable {x : Float} {s : Sign} {a : ℚ}

theorem nonneg (h : Is x s a) : 0 ≤ a := Sized.nonneg h

theorem le_largest (h : Is x s a) : a ≤ largest := by
  unfold Is at h
  generalize hu : x.toModel.unpack = u at h
  cases h with
  | zero => exact mul_nonneg (by norm_num) (by positivity)
  | @finite _ m e hm =>
    obtain ⟨hbits, -, hgreatest, -⟩ : IsStored m e := isStored_of_unpack hu
    have hm : (m : ℚ) ≤ 2 ^ 53 - 1 := by
      rw [le_sub_iff_add_le]
      exact_mod_cast hbits
    have he : (2 : ℚ) ^ e ≤ 2 ^ (971 : Int) := zpow_le_zpow_right₀ (by norm_num) hgreatest
    exact mul_le_mul hm he (by positivity) (by norm_num)

theorem parts (h : Is x s a) :
    (parts x).negative = (s == .negative) ∧ ((parts x).mantissa : ℚ) * 2 ^ (parts x).exponent = a := by
  have hfinite : x.toBits.toNat / 2 ^ 52 % 2 ^ 11 ≠ 2047 := by
    intro hlargest
    unfold Is at h
    change Sized (unpack Format.binary64 x.toBits.toBitVec) s a at h
    simp only [UnpackedFloat.unpack, if_pos (unpackExponent_eq_iff.mpr hlargest)] at h
    split at h <;> cases h
  obtain ⟨rfl, rfl⟩ := Sized.unique h (sized_word hfinite)
  refine ⟨?_, rfl⟩
  simp only [Binary64.parts, isNegative, wordSign]
  split
  · next hsign => exact decide_eq_true hsign
  · next hsign => exact decide_eq_false hsign

end Is

theorem exists_is {x : Float} (h : x.isFinite = true) : ∃ s a, Is x s a := by
  change x.toModel.unpack.isFinite = true at h
  unfold Is
  generalize x.toModel.unpack = u at h
  cases u with
  | notANumber => cases h
  | infinity s => cases h
  | zero s => exact ⟨s, 0, .zero⟩
  | finite s m e hm => exact ⟨s, _, .finite hm⟩

-- ---------------------------------------------------------------------------
-- Integers near a number
-- ---------------------------------------------------------------------------

/-- A mantissa at an exponent is a quotient or a product. -/
theorem size_cases (m : Nat) (e : Int) :
    (∃ k : Nat, e = -k ∧ (m : ℚ) * 2 ^ e = m / (2 ^ k : Nat)) ∨
      ∃ k : Nat, e = k ∧ (m : ℚ) * 2 ^ e = (m * 2 ^ k : Nat) := by
  rcases Int.le_total e 0 with h | h
  · obtain ⟨k, rfl⟩ := Int.exists_eq_neg_ofNat h
    refine .inl ⟨k, rfl, ?_⟩
    rw [zpow_neg, zpow_natCast, div_eq_mul_inv]
    push_cast
    rfl
  · obtain ⟨k, rfl⟩ := Int.eq_ofNat_of_zero_le h
    refine .inr ⟨k, rfl, ?_⟩
    rw [zpow_natCast]
    push_cast
    rfl

theorem truncate_eq {x : Float} {s : Sign} {a : ℚ} (h : Is x s a) : truncate x = s.apply ⌊a⌋₊ := by
  obtain ⟨hnegative, rfl⟩ := h.parts
  have hfloor : (if (parts x).exponent < 0 then (parts x).mantissa / 2 ^ (-(parts x).exponent).toNat
      else (parts x).mantissa * 2 ^ (parts x).exponent.toNat) =
        ⌊((parts x).mantissa : ℚ) * 2 ^ (parts x).exponent⌋₊ := by
    obtain ⟨k, hk, hsize⟩ | ⟨k, hk, hsize⟩ := size_cases (parts x).mantissa (parts x).exponent
    · rw [hsize, hk, Nat.floor_div_eq_div]
      cases k with
      | zero => simp
      | succ k => rw [if_pos (by omega), neg_neg, Int.toNat_natCast]
    · rw [hsize, hk, Nat.floor_natCast, if_neg (by omega), Int.toNat_natCast]
  simp only [truncate, hnegative, hfloor]
  cases s <;> rfl

theorem roundAway_eq {x : Float} {s : Sign} {a : ℚ} (h : Is x s a) : roundAway x = s.apply ⌊a + 1 / 2⌋₊ := by
  obtain ⟨hnegative, rfl⟩ := h.parts
  have hfloor : (if (parts x).exponent < 0 then
        (2 * (parts x).mantissa + 2 ^ (-(parts x).exponent).toNat) / (2 * 2 ^ (-(parts x).exponent).toNat)
      else (parts x).mantissa * 2 ^ (parts x).exponent.toNat) =
        ⌊((parts x).mantissa : ℚ) * 2 ^ (parts x).exponent + 1 / 2⌋₊ := by
    have hhalf (n d : Nat) (hd : d ≠ 0) : (n : ℚ) / d + 1 / 2 = (2 * n + d : Nat) / (2 * d : Nat) := by
      push_cast
      field_simp
    obtain ⟨k, hk, hsize⟩ | ⟨k, hk, hsize⟩ := size_cases (parts x).mantissa (parts x).exponent
    · rw [hsize, hk, hhalf _ _ (by positivity), Nat.floor_div_eq_div]
      cases k with
      | zero => simp; omega
      | succ k => rw [if_pos (by omega), neg_neg, Int.toNat_natCast]
    · have hwhole : ⌊((((parts x).mantissa * 2 ^ k : Nat) : ℚ)) + 1 / 2⌋₊ = (parts x).mantissa * 2 ^ k :=
        (Nat.floor_eq_iff (by positivity)).mpr ⟨by norm_num, by norm_num⟩
      rw [hsize, hk, hwhole, if_neg (by omega), Int.toNat_natCast]
  simp only [roundAway, hnegative, hfloor]
  cases s <;> rfl

-- ---------------------------------------------------------------------------
-- Signs
-- ---------------------------------------------------------------------------

/-- The number has the sign, or no sign since it is not a number. -/
def Signed (s : Sign) : UnpackedFloat → Prop
  | .notANumber => True
  | .infinity s' | .zero s' | .finite s' .. => s' = s

theorem signed_unpack (b : BitVec Format.binary64.numBits) :
    Signed (Sign.ofBitVec (unpackSign b)) (unpack Format.binary64 b) := by
  simp only [UnpackedFloat.unpack]
  split
  · split <;> trivial
  · split
    · split <;> rfl
    · rfl

theorem signed_pack {s : Sign} {u : UnpackedFloat} (h : Signed s u) :
    Signed s (unpack Format.binary64 (pack Format.binary64 u)) := by
  have components (field : BitVec 11) (fraction : BitVec 52) :
      Signed s (unpack Format.binary64 (packComponents Format.binary64 s field fraction)) := by
    have h := signed_unpack (packComponents Format.binary64 s field fraction)
    rwa [unpackSign_packComponents, Sign.ofBitVec_toBitVec] at h
  cases u with
  | notANumber =>
    rw [UnpackedFloat.pack, unpack_packedNaN]
    trivial
  | infinity => cases h; exact components _ _
  | zero => cases h; exact components _ _
  | finite =>
    cases h
    simp only [UnpackedFloat.pack]
    split
    · exact components _ _
    · split <;> exact components _ _

theorem Signed.mul {s t : Sign} {u w : UnpackedFloat} (hu : Signed s u) (hw : Signed t w) :
    Signed (s * t) (UnpackedFloat.mul Format.binary64 u w) := by
  cases u <;> cases w <;> first | trivial | (cases hu; cases hw; first | rfl | skip)
  simp only [UnpackedFloat.mul, roundWithAccuracy]
  split <;> rfl

/-- A finite number with a sign has a size. -/
theorem Signed.exists_is {x : Float} {s : Sign} (h : Signed s x.toModel.unpack) (hx : x.isFinite = true) :
    ∃ a, Is x s a := by
  obtain ⟨s', a, his⟩ := Binary64.exists_is hx
  refine ⟨a, ?_⟩
  unfold Is at his ⊢
  generalize x.toModel.unpack = u at h his
  cases his with
  | zero => cases h; exact .zero
  | finite hm => cases h; exact .finite hm

/-- A converted quotient has the sign that it is given, and it is a number. -/
theorem ofRatio_unpack (negative : Bool) (n d : Nat) :
    (ofRatio negative n d).toModel.unpack ≠ .notANumber ∧
      Signed (if negative then .negative else .positive) (ofRatio negative n d).toModel.unpack := by
  obtain ⟨bits, hbits⟩ : ∃ bits, bits = if n = 0 then 0 else ratioBits n d := ⟨_, rfl⟩
  have hle : bits ≤ 0x7FF * 2 ^ 52 := by
    rw [hbits]
    split
    · exact Nat.zero_le _
    · exact Nat.min_le_right _ _
  obtain ⟨w, hw⟩ : ∃ w, w = UInt64.ofNat (bits + if negative then 2 ^ 63 else 0) := ⟨_, rfl⟩
  have hword : w.toNat = bits + if negative then 2 ^ 63 else 0 := by
    rw [hw, UInt64.toNat_ofNat', Nat.mod_eq_of_lt]
    split <;> omega
  have hunpack : (ofRatio negative n d).toModel.unpack = unpack Format.binary64 w.toBitVec := by
    rw [hw, hbits, ← unpack_ofBits]
    rfl
  have hsign : wordSign w = if negative then .negative else .positive := by
    unfold wordSign
    rw [hword]
    cases negative
    · exact if_neg (show ¬ (bits + 0) / 2 ^ 63 = 1 by omega)
    · exact if_pos (show (bits + 2 ^ 63) / 2 ^ 63 = 1 by omega)
  rw [hunpack, ← hsign, ← unpackSign_word]
  refine ⟨?_, signed_unpack _⟩
  by_cases hlargest : w.toNat / 2 ^ 52 % 2 ^ 11 = 2047
  · have hzero : @unpackMantissa Format.binary64 w.toBitVec = 0#_ := by
      refine BitVec.eq_of_toNat_eq ((unpackMantissa_word w).trans ?_)
      rw [hword] at hlargest ⊢
      cases negative <;> simp at hlargest ⊢ <;> omega
    simp only [UnpackedFloat.unpack, if_pos (unpackExponent_eq_iff.mpr hlargest), if_pos hzero]
    exact nofun
  · have hsized := sized_word hlargest
    intro h
    rw [h] at hsized
    cases hsized

-- ---------------------------------------------------------------------------
-- Order
-- ---------------------------------------------------------------------------

/-- The order of two sizes the other way. -/
theorem compare_sizes_swap (m m' : Nat) (e e' : Int) :
    (compare e' e).then (compare m' m) = ((compare e e').then (compare m m')).swap := by
  rw [Ordering.swap_then, Int.compare_swap, Nat.compare_swap]

theorem compare_swap (u w : UnpackedFloat) : w.compare u = (u.compare w).map Ordering.swap := by
  cases u with
  | notANumber => cases w <;> rfl
  | infinity s =>
    cases w with
    | notANumber => cases s <;> rfl
    | infinity t | zero t | finite t => cases s <;> cases t <;> rfl
  | zero s =>
    cases w with
    | notANumber | zero t => rfl
    | infinity t | finite t => cases t <;> rfl
  | finite s m e hm =>
    cases w with
    | notANumber => cases s <;> rfl
    | infinity t => cases s <;> cases t <;> rfl
    | zero t => cases s <;> rfl
    | finite t m' e' hm' =>
      cases s <;> cases t
      · exact congrArg (fun o => some o.swap) (compare_sizes_swap m m' e e')
      · rfl
      · rfl
      · exact congrArg some (compare_sizes_swap m m' e e')

theorem compare_eq_none {u w : UnpackedFloat} : u.compare w = none ↔ u = .notANumber ∨ w = .notANumber := by
  fun_cases UnpackedFloat.compare u w <;> simp_all

theorem lt_iff {x y : Float} : x < y ↔ x.toModel.unpack.compare y.toModel.unpack = some .lt := by
  change decide (x.toModel.unpack.lt y.toModel.unpack = true) = true ↔ _
  rw [decide_eq_true_iff]
  exact beq_iff_eq

theorem beq_iff {x y : Float} : (x == y) = true ↔ x.toModel.unpack.compare y.toModel.unpack = some .eq := by
  change (x.toModel.unpack.compare y.toModel.unpack == some .eq) = true ↔ _
  exact beq_iff_eq

theorem isNaN_iff {x : Float} : x.isNaN = true ↔ x.toModel.unpack = .notANumber := UnpackedFloat.isNaN_iff

end StructuredText.Binary64

/-- Two numbers are not ordered exactly when one of them is not a number. -/
theorem StructuredText.Value.compareReals_isOk (x y : Float) :
    (compareReals x y).isOk = true ↔ ¬ (x.isNaN = true ∨ y.isNaN = true) := by
  rw [Binary64.isNaN_iff, Binary64.isNaN_iff, ← Binary64.compare_eq_none]
  have hswap := Binary64.compare_swap x.toModel.unpack y.toModel.unpack
  simp only [compareReals, gt_iff_lt, Binary64.lt_iff, Binary64.beq_iff, hswap]
  cases x.toModel.unpack.compare y.toModel.unpack with
  | none => simp [Except.isOk, Except.toBool]
  | some o => cases o <;> simp [Except.isOk, Except.toBool]
