-- SUMMARY: Direct memory keeps what is stored in it, and what it holds is always a value of the type of an address.
import Mathlib.Tactic.NormNum.Pow
import Mathlib.Tactic.Positivity
import Mathlib.Tactic.Zify
import StructuredText.Proofs.Access
import StructuredText.Proofs.Coercion
import StructuredText.Proofs.MemoryBits

/-!
# Faithful memory

The values of a type that can be located at an address stand for the numbers with as many bits as the address has, one
value for each number. So a value that is stored is loaded again, whatever is loaded can be stored without a change, and
values at addresses that are apart do not get in each other's way.
-/

namespace StructuredText

-- ---------------------------------------------------------------------------
-- Values as numbers
-- ---------------------------------------------------------------------------

theorem Elementary.integer_bounds {e : Elementary} {min max : Int} (h : e.kind = .integer min max) :
    0 < e.bits ∧
      (min = -2 ^ (e.bits - 1) ∧ max = 2 ^ (e.bits - 1) - 1 ∨ min = 0 ∧ max = 2 ^ e.bits - 1) := by
  cases e <;> cases h <;> decide

theorem Elementary.bits_le (e : Elementary) : e.bits ≤ 64 := by
  cases e <;> decide

theorem BitString.ofNat_value_of_lt {width n : Nat} (hwidth : width ≤ 64) (hn : n < 2 ^ width) :
    (ofNat width n).value = n := by
  simp only [ofNat, Nat.min_eq_left hwidth, Nat.mod_eq_of_lt hn]

/-- Of an integer that is made a 64-bit word first, as many low bits are left as of the integer itself. -/
theorem BitString.ofNat_emod {width : Nat} (i : Int) (hwidth : width ≤ 64) :
    (ofNat width (i % 2 ^ 64).toNat).value = (i % 2 ^ width).toNat := by
  have hdvd : (2 : Int) ^ width ∣ 2 ^ 64 := pow_dvd_pow 2 hwidth
  have hword : 0 ≤ i % 2 ^ 64 := Int.emod_nonneg i (by decide)
  have hlow : 0 ≤ i % 2 ^ width := Int.emod_nonneg i (by positivity)
  simp only [ofNat, Nat.min_eq_left hwidth]
  zify
  rw [Int.toNat_of_nonneg hword, Int.toNat_of_nonneg hlow, Int.emod_emod_of_dvd i hdvd]

namespace DirectMemory

variable {e : Elementary} {v : Value} {n : Nat}

section

variable {min max i : Int} (hkind : e.kind = .integer min max)

include hkind

/-- The low bits of an integer within the bounds of a type, extended by its sign if the type has one, are the integer. -/
theorem decode?_emod (hmin : min ≤ i) (hmax : i ≤ max) :
    decode? e (i % 2 ^ e.bits).toNat = some (.integer i) := by
  obtain ⟨hpositive, hbounds⟩ := Elementary.integer_bounds hkind
  have hlow : 0 ≤ i % 2 ^ e.bits := Int.emod_nonneg i (by positivity)
  have hhalf : (0 : Int) < 2 ^ (e.bits - 1) := by positivity
  have hdouble : (2 : Int) ^ e.bits = 2 * 2 ^ (e.bits - 1) := by
    rw [← pow_succ', Nat.sub_add_cancel hpositive]
  simp only [decode?, hkind, Int.toNat_of_nonneg hlow]
  obtain ⟨rfl, rfl⟩ | ⟨rfl, rfl⟩ := hbounds
  · have hcast : (2 : Int) ^ e.bits = ((2 ^ e.bits : Nat) : Int) := by norm_cast
    have hmod : (i % 2 ^ e.bits).bmod (2 ^ e.bits) = i := by
      rw [hcast, Int.emod_bmod]
      refine Int.bmod_eq_of_le_mul_two ?_ ?_ <;> rw [← hcast] <;> omega
    rw [if_pos (by omega), hmod]
  · rw [if_neg (by decide), Int.emod_eq_of_lt hmin (by omega)]

/-- A number with the bits of a type stands for an integer within its bounds that has these low bits. -/
theorem decode?_integer (hn : n < 2 ^ e.bits) :
    ∃ i : Int, decode? e n = some (.integer i) ∧ min ≤ i ∧ i ≤ max ∧ i % 2 ^ e.bits = n := by
  obtain ⟨hpositive, hbounds⟩ := Elementary.integer_bounds hkind
  have hcast : ((2 ^ e.bits : Nat) : Int) = 2 ^ e.bits := by norm_cast
  have hlt : (n : Int) < 2 ^ e.bits := by
    rw [← hcast]
    exact_mod_cast hn
  have hsame : (n : Int) % 2 ^ e.bits = n := Int.emod_eq_of_lt (Int.natCast_nonneg n) hlt
  simp only [decode?, hkind, Option.some.injEq, Value.integer.injEq, exists_eq_left']
  obtain ⟨rfl, rfl⟩ | ⟨rfl, rfl⟩ := hbounds
  · have hhalf : (0 : Int) < 2 ^ (e.bits - 1) := by positivity
    have hdouble : (2 : Int) ^ e.bits = 2 * 2 ^ (e.bits - 1) := by
      rw [← pow_succ', Nat.sub_add_cancel hpositive]
    have hlow := Int.le_bmod (x := n) (Nat.two_pow_pos e.bits)
    have hhigh := Int.bmod_lt (x := n) (Nat.two_pow_pos e.bits)
    have hmod := Int.bmod_emod (x := n) (m := 2 ^ e.bits)
    rw [hcast] at hlow hhigh hmod
    rw [if_pos (by omega), hmod]
    omega
  · rw [if_neg (by decide)]
    omega

end

/-- A value of a type stands for a number with the bits of the type, which stands for the value again. -/
theorem decode?_encode? (he : Encodable e) (hv : e.Represents v) :
    ∃ n < 2 ^ e.bits, encode? e v = some n ∧ decode? e n = some v := by
  cases hkind : e.kind with
  | bool =>
    obtain ⟨b, rfl⟩ : ∃ b, v = .bool b := by
      cases v <;> simp_all [Elementary.Represents]
    have hb : b.toNat < 2 ^ e.bits := by
      rw [Elementary.bits_of_bool hkind]
      exact b.toNat_lt
    refine ⟨b.toNat, hb, rfl, ?_⟩
    cases b <;> simp [decode?, hkind]
  | integer min max =>
    obtain ⟨i, rfl, hmin, hmax⟩ : ∃ i, v = .integer i ∧ min ≤ i ∧ i ≤ max := by
      cases v <;> simp_all [Elementary.Represents]
    have hlow : 0 ≤ i % 2 ^ e.bits := Int.emod_nonneg i (by positivity)
    have hhigh : i % 2 ^ e.bits < 2 ^ e.bits := Int.emod_lt_of_pos i (by positivity)
    refine ⟨(i % 2 ^ e.bits).toNat, ?_, congrArg some (BitString.ofNat_emod i e.bits_le), decode?_emod hkind hmin hmax⟩
    zify
    rwa [Int.toNat_of_nonneg hlow]
  | bits =>
    obtain ⟨b, rfl, hwidth⟩ : ∃ b, v = .bits b ∧ b.width = e.bits := by
      cases v <;> simp_all [Elementary.Represents]
    have hfits := b.fits
    rw [hwidth, Nat.min_eq_left e.bits_le] at hfits
    have hsame := BitString.ofNat_eq_iff.mpr hwidth
    exact ⟨b.value, hfits, rfl, by simp [decode?, hkind, hsame]⟩
  | _ => simp [Encodable, hkind] at he

/-- A number with the bits of a type stands for a value of the type, which stands for the number again. -/
theorem encode?_decode? (he : Encodable e) (hn : n < 2 ^ e.bits) :
    ∃ v, decode? e n = some v ∧ e.Represents v ∧ encode? e v = some n := by
  cases hkind : e.kind with
  | bool =>
    rw [Elementary.bits_of_bool hkind] at hn
    refine ⟨.bool (n ≠ 0), by simp [decode?, hkind], by simp [Elementary.Represents, hkind], ?_⟩
    obtain rfl | rfl : n = 0 ∨ n = 1 := by omega
    · rfl
    · rfl
  | integer min max =>
    obtain ⟨i, hdecode, hmin, hmax, hlow⟩ := decode?_integer hkind hn
    refine ⟨.integer i, hdecode, ?_, ?_⟩
    · simp only [Elementary.Represents, hkind]
      exact ⟨hmin, hmax⟩
    · rw [encode?, BitString.ofNat_emod i e.bits_le, hlow, Int.toNat_natCast]
  | bits =>
    refine ⟨.bits (.ofNat e.bits n), by simp [decode?, hkind], ?_, ?_⟩
    · simp [Elementary.Represents, hkind, BitString.ofNat]
    · rw [encode?, BitString.ofNat_value_of_lt e.bits_le hn]
  | _ => simp [Encodable, hkind] at he

-- ---------------------------------------------------------------------------
-- Storing and loading
-- ---------------------------------------------------------------------------

variable {t : TypeTable} {id id' : TypeId} {a b : Address} {m m' : DirectMemory} {e' : Elementary} {w : Value}

/-- Storing a value writes the number that it stands for. -/
theorem store_eq_write (ha : addressable t id a = .ok e) (hv : e.Represents v) :
    ∃ n < 2 ^ a.size.bits, decode? e n = some v ∧ ∀ m, store t id a v m = m.write a n := by
  obtain ⟨hencodable, hbits⟩ := (addressable_eq_ok ha).2
  obtain ⟨n, hn, hencode, hdecode⟩ := decode?_encode? hencodable hv
  refine ⟨n, hbits ▸ hn, hdecode, fun m => ?_⟩
  simp only [store, ha, Except.ok_bind, hencode]

theorem load_eq_decode (ha : addressable t id a = .ok e) (hread : m.read a = .ok n)
    (hv : decode? e n = some v) : load t id a m = .ok v := by
  simp only [load, ha, Except.ok_bind, hread, hv]
  rfl

/-- Storing changes the bits that the address covers only, to ones that say nothing of what was there before. -/
theorem store_bits (ha : addressable t id a = .ok e) (hv : e.Represents v) :
    ∃ n, decode? e n = some v ∧ ∀ m, inArea a (m.area a.area).size = .ok () →
      ∃ m', store t id a v m = .ok m' ∧ m'.read a = .ok n ∧
        (∀ area, (m'.area area).size = (m.area area).size) ∧
        ∀ area k, m'.bit area k = if a.Covers area k then n.testBit (k - a.firstBit) else m.bit area k := by
  obtain ⟨n, hn, hdecode, hstore⟩ := store_eq_write ha hv
  refine ⟨n, hdecode, fun m hin => ?_⟩
  obtain ⟨m', hwrite, hsize, hbits⟩ := write_of_inArea n hin
  refine ⟨m', (hstore m).trans hwrite, ?_, hsize, hbits⟩
  obtain ⟨r, hread, hr⟩ := read_of_inArea (a := a) (m := m') (by rwa [hsize])
  have hsame : r = n := by
    refine Nat.eq_of_testBit_eq fun j => ?_
    rw [hr, hbits]
    by_cases hj : j < a.size.bits
    · have hcovers : a.Covers a.area (a.firstBit + j) := ⟨rfl, by omega, by omega⟩
      simp [hj, hcovers]
    · have hbeyond : n.testBit j = false :=
        Nat.testBit_lt_two_pow (hn.trans_le (Nat.pow_le_pow_right (by decide) (Nat.not_lt.mp hj)))
      simp [hj, hbeyond]
  rw [hread, hsame]

/-- A value that is stored is loaded again, and no bit changes but those of the address. -/
theorem load_store (ha : addressable t id a = .ok e) (hin : inArea a (m.area a.area).size = .ok ())
    (hv : e.Represents v) : ∃ m', store t id a v m = .ok m' ∧ load t id a m' = .ok v ∧
      (∀ area, (m'.area area).size = (m.area area).size) ∧
      ∀ area k, ¬ a.Covers area k → m'.bit area k = m.bit area k := by
  obtain ⟨n, hdecode, hstores⟩ := store_bits ha hv
  obtain ⟨m', hstore, hread, hsize, hbits⟩ := hstores m hin
  refine ⟨m', hstore, load_eq_decode ha hread hdecode, hsize, fun area k hcovers => ?_⟩
  rw [hbits, if_neg hcovers]

/-- What is in memory is a value of the type of the address, and storing it changes nothing. -/
theorem store_load (ha : addressable t id a = .ok e) (hin : inArea a (m.area a.area).size = .ok ()) :
    ∃ v, load t id a m = .ok v ∧ e.Represents v ∧ store t id a v m = .ok m := by
  obtain ⟨hencodable, hbits⟩ := (addressable_eq_ok ha).2
  obtain ⟨n, hread, hn⟩ := read_of_inArea hin
  have hlt : n < 2 ^ e.bits := by
    refine Nat.lt_pow_two_of_testBit n fun j hj => ?_
    rw [hn, ← hbits]
    simp [Nat.not_lt.mpr hj]
  obtain ⟨v, hdecode, hv, hencode⟩ := encode?_decode? hencodable hlt
  refine ⟨v, load_eq_decode ha hread hdecode, hv, ?_⟩
  obtain ⟨m', hwrite, hsize, hbit⟩ := write_of_inArea n hin
  have hsame : m' = m := by
    refine ext_bits hsize fun area k => ?_
    rw [hbit]
    split
    · next hcovers =>
      obtain ⟨rfl, hlow, hhigh⟩ := hcovers
      have hindex : a.firstBit + (k - a.firstBit) = k := by omega
      have hj : k - a.firstBit < a.size.bits := by omega
      simp [hn, hindex, hj]
    · rfl
  simp only [store, ha, Except.ok_bind, hencode, hwrite, hsame]

/-- Values that are stored at addresses apart can be stored in any order. -/
theorem store_comm (ha : addressable t id a = .ok e) (hb : addressable t id' b = .ok e')
    (hin : inArea a (m.area a.area).size = .ok ()) (hin' : inArea b (m.area b.area).size = .ok ())
    (hapart : a.Apart b) (hv : e.Represents v) (hw : e'.Represents w) :
    ∃ first second both, store t id a v m = .ok first ∧ store t id' b w first = .ok both ∧
      store t id' b w m = .ok second ∧ store t id a v second = .ok both := by
  obtain ⟨n, -, hstores⟩ := store_bits ha hv
  obtain ⟨n', -, hstores'⟩ := store_bits hb hw
  obtain ⟨first, hfirst, -, hsize, hbits⟩ := hstores m hin
  obtain ⟨second, hsecond, -, hsize', hbits'⟩ := hstores' m hin'
  obtain ⟨both, hboth, -, hsizeBoth, hbitsBoth⟩ := hstores' first (by rwa [hsize])
  obtain ⟨both', hboth', -, hsizeBoth', hbitsBoth'⟩ := hstores second (by rwa [hsize'])
  have hsame : both' = both := by
    refine ext_bits (fun area => ?_) fun area k => ?_
    · rw [hsizeBoth', hsizeBoth, hsize, hsize']
    · rw [hbitsBoth', hbitsBoth, hbits, hbits']
      by_cases hcovers : a.Covers area k
      · rw [if_pos hcovers, if_neg (hapart area k hcovers), if_pos hcovers]
      · rw [if_neg hcovers, if_neg hcovers]
  exact ⟨first, second, both, hfirst, hboth, hsecond, hsame ▸ hboth'⟩

end DirectMemory

-- ---------------------------------------------------------------------------
-- Reading variables
-- ---------------------------------------------------------------------------

/-- Reading a variable leaves the direct memory as it is. -/
theorem Storage.load_memory (l : Library) (p : Place) (s : Storage) : (load l p s).state.memory = s.memory := by
  obtain hsame | ⟨_, _, v, -, -, -, hstate⟩ := load_state l p s
  · rw [hsame]
  · rw [hstate, setSlot_memory]

namespace DirectMemory

variable {t : TypeTable} {id : TypeId} {a : Address} {e : Elementary} {m : DirectMemory}

/--
Direct memory is a faithful store: at an address where a type can be located, a value of the type is loaded as it was
stored, and nothing else changes; values at addresses apart are stored in any order; and what memory holds is always a
value of the type, which reading leaves there and storing again does not change.
-/
theorem faithful_store (ha : addressable t id a = .ok e) (hin : inArea a (m.area a.area).size = .ok ()) :
    (∀ v, e.Represents v → ∃ m', store t id a v m = .ok m' ∧ load t id a m' = .ok v ∧
      (∀ area, (m'.area area).size = (m.area area).size) ∧
      ∀ area k, ¬ a.Covers area k → m'.bit area k = m.bit area k) ∧
    (∀ (l : Library) (p : Place) (s : Storage), s.memory = m → (Storage.load l p s).state.memory = m) ∧
    (∀ id' b e' v w, addressable t id' b = .ok e' → inArea b (m.area b.area).size = .ok () → a.Apart b →
      e.Represents v → e'.Represents w →
        ∃ first second both, store t id a v m = .ok first ∧ store t id' b w first = .ok both ∧
          store t id' b w m = .ok second ∧ store t id a v second = .ok both) ∧
    ∃ v, load t id a m = .ok v ∧ e.Represents v ∧ store t id a v m = .ok m := by
  refine ⟨fun v hv => load_store ha hin hv, fun l p s hs => ?_, ?_, store_load ha hin⟩
  · rw [Storage.load_memory, hs]
  · intro id' b e' v w hb hin' hapart hv hw
    exact store_comm ha hb hin hin' hapart hv hw

/-- A negative number in a word, which a bit of the byte before it leaves alone. -/
theorem faithful_store_signed_word :
    let m := ofSize 8
    let word : Address := ⟨.markers, .word, 2⟩
    let flag : Address := ⟨.markers, .bit 7, 1⟩
    addressable .initial 2 word = .ok .int ∧ addressable .initial 0 flag = .ok .bool ∧ word.Apart flag ∧
    (∃ m', store .initial 2 word (.integer (-2)) m = .ok m' ∧ load .initial 2 word m' = .ok (.integer (-2)) ∧
      m'.bit .markers 15 = m.bit .markers 15) ∧
    (∃ first second both, store .initial 2 word (.integer (-2)) m = .ok first ∧
      store .initial 0 flag (.bool true) first = .ok both ∧ store .initial 0 flag (.bool true) m = .ok second ∧
        store .initial 2 word (.integer (-2)) second = .ok both) ∧
    ∃ v, load .initial 2 word m = .ok v ∧ Elementary.int.Represents v ∧ store .initial 2 word v m = .ok m := by
  intro m word flag
  have hword : addressable .initial 2 word = .ok .int := rfl
  have hflag : addressable .initial 0 flag = .ok .bool := rfl
  have hin : inArea word (m.area word.area).size = .ok () := by decide
  have hin' : inArea flag (m.area flag.area).size = .ok () := by decide
  have hapart : word.Apart flag := by decide
  have hnumber : Elementary.int.Represents (.integer (-2)) := by
    show _ ∧ _
    decide
  obtain ⟨hstore, -, hcomm, hload⟩ := faithful_store hword hin
  obtain ⟨m', hm', hloaded, -, hkept⟩ := hstore _ hnumber
  exact ⟨hword, hflag, hapart, ⟨m', hm', hloaded, hkept _ _ (by decide)⟩,
    hcomm 0 flag .bool _ (.bool true) hflag hin' hapart hnumber trivial, hload⟩

end DirectMemory

end StructuredText
