-- SUMMARY: Direct memory as numbered bits, and which bits reading and writing an address is about.
import Mathlib.Data.Nat.Bitwise
import StructuredText.Proofs.Located

/-!
# Bits of direct memory

The bits of an area are numbered from the lowest bit of its first byte on. An address covers as many of them in a row
as it has bits, whether it is a single bit or several bytes with the low byte first. What is read at an address is the
number with these bits, and writing a number there replaces them and no others.
-/

namespace StructuredText

-- ---------------------------------------------------------------------------
-- Bits of bytes
-- ---------------------------------------------------------------------------

theorem testBit_byte (b : UInt8) (j : Nat) : b.toNat.testBit j = b.toBitVec.getLsbD j :=
  BitVec.testBit_toNat b.toBitVec

theorem byte_ext {a b : UInt8} (h : ∀ j < 8, a.toNat.testBit j = b.toNat.testBit j) : a = b := by
  refine UInt8.eq_of_toBitVec_eq (BitVec.eq_of_getLsbD_eq fun j hj => ?_)
  simpa only [testBit_byte] using h j hj

theorem testBit_setBit (b : UInt8) {position j : Nat} (on : Bool) (hposition : position < 8) (hj : j < 8) :
    (setBit b position on).toNat.testBit j = if j = position then on else b.toNat.testBit j := by
  have hshift : position % 256 % 8 = position := by omega
  have hmask : ((1 : UInt8) <<< UInt8.ofNat position).toBitVec.getLsbD j = decide (j = position) := by
    have hone : (UInt8.toBitVec 1).getLsbD (j - position) = decide (j - position = 0) :=
      BitVec.getLsbD_one
    have hamount : (UInt8.toBitVec (UInt8.ofNat position) % 8).toNat = position := by
      simpa using hshift
    rw [UInt8.toBitVec_shiftLeft, BitVec.shiftLeft_eq', BitVec.getLsbD_shiftLeft, hamount, hone]
    by_cases h : j < position
    · simp [h, Nat.ne_of_lt h]
    · have hiff : j - position = 0 ↔ j = position := by omega
      simp [hj, h, hiff]
  unfold setBit
  rw [testBit_byte, testBit_byte]
  cases on with
  | true =>
    simp only [if_true, UInt8.toBitVec_or, BitVec.getLsbD_or, hmask]
    by_cases h : j = position <;> simp [h]
  | false =>
    simp only [Bool.false_eq_true, if_false, UInt8.toBitVec_and, BitVec.getLsbD_and, UInt8.toBitVec_not,
      BitVec.getLsbD_not, hmask]
    by_cases h : j = position <;> simp [h, hj]

theorem testBit_numberOfBytes (bs : List UInt8) (j : Nat) :
    (numberOfBytes bs).testBit j = (bs.getD (j / 8) 0).toNat.testBit (j % 8) := by
  induction bs generalizing j with
  | nil => simp [numberOfBytes]
  | cons b bs ih =>
    have hb : b.toNat < 2 ^ 8 := b.toNat_lt
    have hsplit : numberOfBytes (b :: bs) = 2 ^ 8 * numberOfBytes bs + b.toNat := by
      rw [numberOfBytes]
      omega
    rw [hsplit, Nat.testBit_two_pow_mul_add _ hb]
    split
    · next hlow =>
      rw [Nat.div_eq_of_lt hlow, Nat.mod_eq_of_lt hlow]
      rfl
    · next hhigh =>
      obtain ⟨k, rfl⟩ := Nat.exists_eq_add_of_le (Nat.not_lt.mp hhigh)
      have hdiv : (8 + k) / 8 = k / 8 + 1 := by omega
      have hmod : (8 + k) % 8 = k % 8 := by omega
      rw [Nat.add_sub_cancel_left, ih, hdiv, hmod, List.getD_cons_succ]

@[simp] theorem length_bytesOfNumber (count n : Nat) : (bytesOfNumber count n).length = count := by
  induction count generalizing n with
  | zero => rfl
  | succ count ih => simp [bytesOfNumber, ih]

theorem testBit_bytesOfNumber {count i j : Nat} (n : Nat) (hi : i < count) (hj : j < 8) :
    ((bytesOfNumber count n).getD i 0).toNat.testBit j = n.testBit (8 * i + j) := by
  induction count generalizing n i with
  | zero => cases hi
  | succ count ih =>
    cases i with
    | zero =>
      have hbyte : (UInt8.ofNat n).toNat.testBit j = n.testBit j := by
        rw [UInt8.toNat_ofNat', Nat.testBit_mod_two_pow]
        simp [hj]
      simpa [bytesOfNumber] using hbyte
    | succ i =>
      have hshift : 8 * i + j + 8 = 8 * (i + 1) + j := by omega
      rw [bytesOfNumber, List.getD_cons_succ, ih (n / 256) (Nat.lt_of_succ_lt_succ hi),
        show (256 : Nat) = 2 ^ 8 from rfl, Nat.testBit_div_two_pow, hshift]

-- ---------------------------------------------------------------------------
-- Addresses
-- ---------------------------------------------------------------------------

namespace Address

/-- The number of the lowest bit that the address covers. -/
def firstBit (a : Address) : Nat :=
  match a.size with
  | .bit position => 8 * a.byte + position.val
  | _ => 8 * a.byte

/-- The address covers the bit of the area. -/
def Covers (a : Address) (area : Area) (n : Nat) : Prop :=
  area = a.area ∧ a.firstBit ≤ n ∧ n < a.firstBit + a.size.bits

instance (a : Address) (area : Area) (n : Nat) : Decidable (a.Covers area n) :=
  inferInstanceAs (Decidable (_ ∧ _ ∧ _))

/-- No bit is covered by both addresses. -/
def Apart (a b : Address) : Prop := ∀ area n, a.Covers area n → ¬ b.Covers area n

/-- An address that is no single bit covers whole bytes. -/
theorem whole_bytes {a : Address} (h : ∀ position, a.size ≠ .bit position) :
    a.firstBit = 8 * a.byte ∧ a.size.bits = 8 * a.size.bytes := by
  unfold firstBit
  cases hsize : a.size with
  | bit position => exact absurd hsize (h position)
  | _ => exact ⟨rfl, rfl⟩

theorem bits_pos (a : Address) : 0 < a.size.bits := by
  cases a.size <;> simp [AddressSize.bits]

/-- Addresses are apart if they are in different areas, or one ends before the other one begins. -/
theorem apart_iff {a b : Address} : a.Apart b ↔
    a.area ≠ b.area ∨ a.firstBit + a.size.bits ≤ b.firstBit ∨ b.firstBit + b.size.bits ≤ a.firstBit := by
  have ha := a.bits_pos
  have hb := b.bits_pos
  constructor
  · intro h
    by_contra hoverlap
    simp only [not_or, not_le, ne_eq, not_not] at hoverlap
    obtain ⟨harea, hfirst, hsecond⟩ := hoverlap
    refine h a.area (max a.firstBit b.firstBit) ⟨rfl, ?_, ?_⟩ ⟨harea, ?_, ?_⟩ <;> omega
  · rintro h area n ⟨rfl, hlow, hhigh⟩ ⟨harea, hlow', hhigh'⟩
    obtain hne | hbefore | hafter := h
    · exact hne harea
    · omega
    · omega

instance (a b : Address) : Decidable (a.Apart b) := decidable_of_iff _ apart_iff.symm

end Address

-- ---------------------------------------------------------------------------
-- Areas
-- ---------------------------------------------------------------------------

namespace DirectMemory

variable {m m' : DirectMemory} {a : Address}

/-- The bit of an area with a number. Behind the end of the area no bit is set. -/
def bit (m : DirectMemory) (area : Area) (n : Nat) : Bool :=
  ((m.area area).getD (n / 8) 0).toNat.testBit (n % 8)

/-- Memory is known by the sizes of its areas and by their bits. -/
theorem ext_bits (hsize : ∀ area, (m.area area).size = (m'.area area).size)
    (hbit : ∀ area n, m.bit area n = m'.bit area n) : m = m' := by
  have harea (area : Area) : m.area area = m'.area area := by
    refine Array.ext (hsize area) fun i hi hi' => byte_ext fun j hj => ?_
    have h := hbit area (8 * i + j)
    have hdiv : (8 * i + j) / 8 = i := by omega
    have hmod : (8 * i + j) % 8 = j := by omega
    simpa [bit, hdiv, hmod, hi, hi'] using h
  have hinputs := harea .inputs
  have houtputs := harea .outputs
  have hmarkers := harea .markers
  cases m
  cases m'
  simp only [area] at hinputs houtputs hmarkers
  rw [hinputs, houtputs, hmarkers]

theorem area_setArea (m : DirectMemory) (a b : Area) (bytes : Array UInt8) :
    (m.setArea a bytes).area b = if b = a then bytes else m.area b := by
  cases a <;> cases b <;> rfl

theorem size_foldl_setIfInBounds (bytes : List (UInt8 × Nat)) (area : Array UInt8) :
    (bytes.foldl (fun area (b, i) => area.setIfInBounds i b) area).size = area.size := by
  induction bytes generalizing area with
  | nil => rfl
  | cons _ bytes ih => simp [ih]

theorem getD_foldl_setIfInBounds (bytes : List UInt8) (start : Nat) {area : Array UInt8} (i : Nat)
    (h : start + bytes.length ≤ area.size) :
    ((bytes.zipIdx start).foldl (fun area (b, i) => area.setIfInBounds i b) area).getD i 0 =
      if start ≤ i ∧ i < start + bytes.length then bytes.getD (i - start) 0 else area.getD i 0 := by
  induction bytes generalizing start area with
  | nil =>
    simp
  | cons b bytes ih =>
    simp only [List.length_cons] at h
    simp only [List.zipIdx_cons, List.foldl_cons]
    rw [ih (start + 1) (by simp; omega)]
    by_cases hfirst : i = start
    · subst hfirst
      have hbefore : ¬ (i + 1 ≤ i ∧ i < i + 1 + bytes.length) := by omega
      have hhere : i ≤ i ∧ i < i + (bytes.length + 1) := by omega
      have hlt : i < area.size := by omega
      simp [Array.getD_eq_getD_getElem?, hlt]
    · by_cases hlater : start + 1 ≤ i ∧ i < start + 1 + bytes.length
      · obtain ⟨k, rfl⟩ := Nat.exists_eq_add_of_le hlater.1
        have hhere : start ≤ start + 1 + k ∧ start + 1 + k < start + (b :: bytes).length := by
          simp
          omega
        have hindex : start + 1 + k - start = k + 1 := by omega
        rw [if_pos hlater, if_pos hhere, hindex, List.getD_cons_succ, Nat.add_sub_cancel_left]
      · have hhere : ¬ (start ≤ i ∧ i < start + (b :: bytes).length) := by
          simp
          omega
        rw [if_neg hlater, if_neg hhere]
        simp [Array.getD_eq_getD_getElem?, Ne.symm hfirst]

@[simp] theorem size_setBytes (m : DirectMemory) (a b : Area) (start : Nat) (bytes : List UInt8) :
    ((m.setBytes a start bytes).area b).size = (m.area b).size := by
  unfold setBytes
  rw [area_setArea]
  split
  · next h => rw [size_foldl_setIfInBounds, h]
  · rfl

/-- The bits of bytes that are replaced are those of the new bytes, and all others stay. -/
theorem bit_setBytes {b : Area} {start : Nat} {bytes : List UInt8} (area : Area) (n : Nat)
    (h : start + bytes.length ≤ (m.area b).size) :
    (m.setBytes b start bytes).bit area n =
      if area = b ∧ start ≤ n / 8 ∧ n / 8 < start + bytes.length
      then (bytes.getD (n / 8 - start) 0).toNat.testBit (n % 8) else m.bit area n := by
  unfold bit setBytes
  rw [area_setArea]
  by_cases harea : area = b
  · subst harea
    rw [if_pos rfl, getD_foldl_setIfInBounds bytes start _ h]
    by_cases hin : start ≤ n / 8 ∧ n / 8 < start + bytes.length <;> simp [hin]
  · simp [harea]

-- ---------------------------------------------------------------------------
-- Reading and writing
-- ---------------------------------------------------------------------------

theorem inArea_eq_ok {size : Nat} :
    inArea a size = .ok () ↔ a.byte + a.size.bytes ≤ size ∧ a.byte + a.size.bytes < Address.byteLimit := by
  have hlimit : 0 < Address.byteLimit := Nat.two_pow_pos 64
  unfold inArea
  split
  · simp
    omega
  · simp
    omega

/-- An address in an area has its bytes. -/
theorem bytesAt_of_inArea (h : inArea a (m.area a.area).size = .ok ()) : ∃ bytes, m.bytesAt a = .ok bytes ∧
    bytes.length = a.size.bytes ∧
      ∀ i < a.size.bytes, bytes.getD i 0 = (m.area a.area).getD (a.byte + i) 0 := by
  obtain ⟨hsize, -⟩ := inArea_eq_ok.mp h
  refine ⟨((m.area a.area).extract a.byte (a.byte + a.size.bytes)).toList, ?_, ?_, ?_⟩
  · unfold bytesAt
    simp only [h, Except.ok_bind]
    rfl
  · simp
    omega
  · intro i hi
    simp [List.getD_eq_getElem?_getD, Array.getD_eq_getD_getElem?, List.extract_eq_take_drop, hi]

/-- What is read at an address is the number with the bits that the address covers. -/
theorem read_of_inArea (h : inArea a (m.area a.area).size = .ok ()) : ∃ n, m.read a = .ok n ∧
    ∀ j, n.testBit j = (decide (j < a.size.bits) && m.bit a.area (a.firstBit + j)) := by
  obtain ⟨bytes, hbytes, hlength, hget⟩ := bytesAt_of_inArea h
  have hnumber (j : Nat) : (numberOfBytes bytes).testBit j =
      (decide (j < 8 * a.size.bytes) && m.bit a.area (8 * a.byte + j)) := by
    have hdiv : (8 * a.byte + j) / 8 = a.byte + j / 8 := by omega
    have hmod : (8 * a.byte + j) % 8 = j % 8 := by omega
    rw [testBit_numberOfBytes, bit, hdiv, hmod]
    by_cases hj : j < 8 * a.size.bytes
    · rw [hget (j / 8) (by omega)]
      simp [hj]
    · have hbeyond : bytes.length ≤ j / 8 := by omega
      simp [List.getD_eq_getElem?_getD, hbeyond, hj]
  unfold read
  simp only [hbytes, Except.ok_bind]
  cases hsize : a.size with
  | bit position =>
    refine ⟨_, rfl, fun j => ?_⟩
    have hfirst : a.firstBit = 8 * a.byte + position.val := by simp [Address.firstBit, hsize]
    have hbit : (numberOfBytes bytes).testBit position.val = m.bit a.area (8 * a.byte + position.val) := by
      have hposition := position.isLt
      rw [hnumber]
      simp [hsize, AddressSize.bytes]
    have htwo : numberOfBytes bytes / 2 ^ position.val % 2 = numberOfBytes bytes / 2 ^ position.val % 2 ^ 1 := rfl
    rw [htwo, Nat.testBit_mod_two_pow, Nat.testBit_div_two_pow, hfirst]
    by_cases hj : j = 0
    · subst hj
      simp [AddressSize.bits, hbit]
    · simp [AddressSize.bits, hj]
  | _ =>
    refine ⟨_, rfl, fun j => ?_⟩
    obtain ⟨hfirst, hbits⟩ := Address.whole_bytes (a := a) (by simp [hsize])
    rw [hnumber, ← hfirst, ← hbits, hsize]

/-- Replacing all bytes of an address replaces the bits that it covers. -/
theorem bit_setBytes_whole (hwhole : a.firstBit = 8 * a.byte ∧ a.size.bits = 8 * a.size.bytes) (n : Nat)
    (h : a.byte + a.size.bytes ≤ (m.area a.area).size) (area : Area) (k : Nat) :
    (m.setBytes a.area a.byte (bytesOfNumber a.size.bytes n)).bit area k =
      if a.Covers area k then n.testBit (k - a.firstBit) else m.bit area k := by
  obtain ⟨hfirst, hbits⟩ := hwhole
  rw [bit_setBytes area k (by simpa using h), length_bytesOfNumber]
  by_cases hcovers : a.Covers area k
  · obtain ⟨harea, hlow, hhigh⟩ := hcovers
    have hin : area = a.area ∧ a.byte ≤ k / 8 ∧ k / 8 < a.byte + a.size.bytes := ⟨harea, by omega, by omega⟩
    have hindex : 8 * (k / 8 - a.byte) + k % 8 = k - a.firstBit := by omega
    rw [if_pos hin, if_pos ⟨harea, hlow, hhigh⟩, testBit_bytesOfNumber n (by omega) (by omega), hindex]
  · have hout : ¬ (area = a.area ∧ a.byte ≤ k / 8 ∧ k / 8 < a.byte + a.size.bytes) := by
      rintro ⟨harea, hlow, hhigh⟩
      exact hcovers ⟨harea, by omega, by omega⟩
    rw [if_neg hout, if_neg hcovers]

/-- Setting or clearing a bit of the byte of an address replaces the bit that it covers. -/
theorem bit_setBytes_single {position : Fin 8} (hsize : a.size = .bit position) (on : Bool)
    (h : a.byte < (m.area a.area).size) (area : Area) (k : Nat) :
    (m.setBytes a.area a.byte [setBit ((m.area a.area).getD a.byte 0) position.val on]).bit area k =
      if a.Covers area k then on else m.bit area k := by
  have hposition := position.isLt
  have hfirst : a.firstBit = 8 * a.byte + position.val := by simp [Address.firstBit, hsize]
  have hcovers : a.Covers area k ↔ area = a.area ∧ k = a.firstBit := by
    simp only [Address.Covers, hsize, AddressSize.bits]
    exact and_congr_right fun _ => by omega
  simp only [hcovers]
  rw [bit_setBytes area k h]
  by_cases hin : area = a.area ∧ k / 8 = a.byte
  · obtain ⟨rfl, hk⟩ := hin
    have hlt : k % 8 < 8 := Nat.mod_lt k (by decide)
    have hiff : k = a.firstBit ↔ k % 8 = position.val := by omega
    simp [hk, testBit_setBit _ on hposition hlt, hiff, bit]
  · have hout : ¬ (area = a.area ∧ a.byte ≤ k / 8 ∧ k / 8 < a.byte + 1) := by
      rintro ⟨harea, hlow, hhigh⟩
      exact hin ⟨harea, by omega⟩
    have hother : ¬ (area = a.area ∧ k = a.firstBit) := by
      rintro ⟨harea, hk⟩
      exact hin ⟨harea, by omega⟩
    rw [List.length_singleton, if_neg hout, if_neg hother]

/-- Writing at an address replaces the bits that the address covers and no others. -/
theorem write_of_inArea (n : Nat) (h : inArea a (m.area a.area).size = .ok ()) : ∃ m', m.write a n = .ok m' ∧
    (∀ area, (m'.area area).size = (m.area area).size) ∧
    ∀ area k, m'.bit area k = if a.Covers area k then n.testBit (k - a.firstBit) else m.bit area k := by
  obtain ⟨hend, -⟩ := inArea_eq_ok.mp h
  obtain ⟨bytes, hbytes, hlength, hget⟩ := bytesAt_of_inArea h
  unfold write
  simp only [hbytes, Except.ok_bind]
  cases hsize : a.size with
  | bit position =>
    rw [hsize] at hend hlength hget
    obtain ⟨byte, rfl⟩ := List.length_eq_one_iff.mp hlength
    have hbyte : byte = (m.area a.area).getD a.byte 0 := hget 0 (Nat.zero_lt_one)
    refine ⟨_, rfl, fun area => size_setBytes .., fun area k => ?_⟩
    rw [List.map_singleton, hbyte, bit_setBytes_single hsize _ hend]
    by_cases hcovers : a.Covers area k
    · obtain ⟨-, hlow, hhigh⟩ := hcovers
      have hzero : k - a.firstBit = 0 := by
        rw [hsize, AddressSize.bits] at hhigh
        omega
      rw [hzero, Nat.testBit_zero]
    · rw [if_neg hcovers, if_neg hcovers]
  | _ =>
    have hwhole := Address.whole_bytes (a := a) (by simp [hsize])
    refine ⟨_, rfl, fun area => size_setBytes .., fun area k => ?_⟩
    rw [← hsize, bit_setBytes_whole hwhole n hend]

end DirectMemory

end StructuredText
