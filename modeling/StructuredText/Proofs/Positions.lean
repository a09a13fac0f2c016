-- SUMMARY: Positions of array elements: one for each list of indexes, in row-major order, computed without overflow.
import Mathlib.Algebra.Order.Ring.Int
import Mathlib.Data.List.Lex
import StructuredText.Proofs.Expansion
import StructuredText.Value.Arithmetic

/-!
# Positions of elements

The positions in an array that can be stored are the numbers below its number of elements. Every list of indexes within
the bounds has a position of its own, and positions are in the order of the indexes, of which the first one counts most.
They are sums of multiples: an index counts as many elements as the dimensions after its own have together. None of
these numbers is larger than the number of elements, so nothing overflows on the way.
-/

namespace StructuredText.Dimension

-- ---------------------------------------------------------------------------
-- Arrays that can be stored
-- ---------------------------------------------------------------------------

/-- The number of elements that the bounds allow for, without a limit. -/
def size (ds : List Dimension) : Int := (ds.map fun d => d.max - d.min + 1).prod

/-- No dimension is empty, and there are no more elements than can be stored. -/
structure Storable (ds : List Dimension) : Prop where
  nonempty : ∀ d ∈ ds, d.min ≤ d.max
  fits : size ds ≤ maxElements

variable {d : Dimension} {ds : List Dimension} {index : Int} {indexes indexes' : List Int} {p p' : Nat}

theorem size_cons (d : Dimension) (ds : List Dimension) : size (d :: ds) = (d.max - d.min + 1) * size ds :=
  List.prod_cons

theorem one_le_size (h : ∀ d ∈ ds, d.min ≤ d.max) : 1 ≤ size ds := by
  induction ds with
  | nil => rfl
  | cons d ds ih =>
    obtain ⟨hd, hds⟩ := List.forall_mem_cons.mp h
    rw [size_cons]
    exact one_le_mul_of_one_le_of_one_le (by omega) (ih hds)

theorem Storable.tail (h : Storable (d :: ds)) : Storable ds := by
  obtain ⟨hd, hds⟩ := List.forall_mem_cons.mp h.nonempty
  have hpos := one_le_size hds
  have hle : size ds ≤ size (d :: ds) := by
    rw [size_cons]
    exact le_mul_of_one_le_left (by omega) (by omega)
  exact ⟨hds, hle.trans h.fits⟩

/-- The limit of counts makes no difference to a dimension of an array that can be stored. -/
theorem Storable.entries_eq (h : Storable (d :: ds)) : (d.entries : Int) = d.max - d.min + 1 := by
  obtain ⟨hd, hds⟩ := List.forall_mem_cons.mp h.nonempty
  have hle : d.max - d.min + 1 ≤ maxElements := by
    refine le_trans ?_ (size_cons d ds ▸ h.fits)
    exact le_mul_of_one_le_right (by omega) (one_le_size hds)
  have hcap : maxElements < maxCount := by decide
  have hmin : d.entries = Min.min (d.max - d.min + 1).toNat maxCount := rfl
  omega

/-- Nor does it make a difference to the number of all elements. -/
theorem Storable.totalEntries_eq (h : Storable ds) : (totalEntries ds : Int) = size ds := by
  induction ds with
  | nil => rfl
  | cons d ds ih =>
    have hfits := h.fits
    rw [size_cons, ← h.entries_eq, ← ih h.tail, ← Nat.cast_mul] at hfits ⊢
    have hcap : maxElements < maxCount := by decide
    have hmin := totalEntries_cons_eq_min d ds
    omega

theorem Storable.totalEntries_le (h : Storable ds) : totalEntries ds ≤ maxElements := by
  have hfits := h.fits
  rw [← h.totalEntries_eq] at hfits
  omega

theorem Storable.totalEntries_pos (h : Storable ds) : 0 < totalEntries ds := by
  have hpos := one_le_size h.nonempty
  rw [← h.totalEntries_eq] at hpos
  omega

theorem Storable.totalEntries_cons (h : Storable (d :: ds)) :
    totalEntries (d :: ds) = d.entries * totalEntries ds := by
  have hsize := h.totalEntries_eq
  rw [size_cons, ← h.entries_eq, ← h.tail.totalEntries_eq, ← Nat.cast_mul] at hsize
  exact Int.ofNat.inj hsize

/-- Dimensions that are not empty and whose limited number of elements can be stored have no more elements than that. -/
theorem storable_of_totalEntries (hnonempty : ∀ d ∈ ds, d.min ≤ d.max) (h : totalEntries ds ≤ maxElements) :
    Storable ds := by
  induction ds with
  | nil => exact ⟨hnonempty, by decide⟩
  | cons d ds ih =>
    obtain ⟨hd, hds⟩ := List.forall_mem_cons.mp hnonempty
    have hcap : maxElements < maxCount := by decide
    have hmin : d.entries = Min.min (d.max - d.min + 1).toNat maxCount := rfl
    have htotal := totalEntries_cons_eq_min d ds
    have hpos : 0 < d.entries := by omega
    have hle : totalEntries ds ≤ d.entries * totalEntries ds := Nat.le_mul_of_pos_left _ hpos
    have hstorable : Storable ds := ih hds (by omega)
    have hle' : d.entries ≤ d.entries * totalEntries ds := Nat.le_mul_of_pos_right _ hstorable.totalEntries_pos
    have hentries : (d.entries : Int) = d.max - d.min + 1 := by omega
    refine ⟨hnonempty, ?_⟩
    rw [size_cons, ← hentries, ← hstorable.totalEntries_eq, ← Nat.cast_mul]
    omega

-- ---------------------------------------------------------------------------
-- Positions
-- ---------------------------------------------------------------------------

/-- There is an index for every dimension, and it is within the bounds. -/
def InBounds (ds : List Dimension) (indexes : List Int) : Prop :=
  List.Forall₂ (fun d index => d.min ≤ index ∧ index ≤ d.max) ds indexes

/-- A step of an index passes over the elements of all dimensions after it, and never leaves the array. -/
theorem Storable.step_lt (h : Storable (d :: ds)) (hmin : d.min ≤ index) (hmax : index ≤ d.max)
    (hp : p < totalEntries ds) : (index - d.min).toNat * totalEntries ds + p < totalEntries (d :: ds) := by
  have hentries := h.entries_eq
  calc (index - d.min).toNat * totalEntries ds + p
      < ((index - d.min).toNat + 1) * totalEntries ds := by
        rw [Nat.add_mul]
        omega
    _ ≤ d.entries * totalEntries ds := Nat.mul_le_mul_right _ (by omega)
    _ = totalEntries (d :: ds) := h.totalEntries_cons.symm

theorem flatIndex_cons (h : Storable (d :: ds)) {rest : List Int} (hlength : ds.length = rest.length) :
    flatIndex (d :: ds) (index :: rest) =
      if index < d.min ∨ d.max < index then .error (.indexOutOfRange index d.min d.max)
      else (flatIndex ds rest).map ((index - d.min).toNat * totalEntries ds + ·) := by
  have hrest : flatIndex ds rest = offset (ds.zip (rest.zip (strides ds))) := if_neg (not_not.mpr hlength)
  rw [flatIndex, if_neg (by simp [hlength]), strides_cons, List.zip_cons_cons, List.zip_cons_cons, offset, hrest]
  split
  · rfl
  · next hindex =>
    obtain ⟨hmin, hmax⟩ := not_or.mp hindex
    cases hinner : offset (ds.zip (rest.zip (strides ds))) with
    | error e => rfl
    | ok inner =>
      have hlt := h.step_lt (Int.not_lt.mp hmin) (Int.not_lt.mp hmax)
        (offset_lt h.tail.totalEntries_le hlength hinner)
      have hcap : maxElements < 2 ^ 64 := by decide
      have hexact := Nat.mod_eq_of_lt (hlt.trans_le (h.totalEntries_le.trans hcap.le))
      exact congrArg Except.ok hexact

theorem flatIndex_nil_eq_ok : flatIndex [] indexes = .ok p ↔ indexes = [] ∧ p = 0 := by
  cases indexes <;> simp [flatIndex, offset, eq_comm]

theorem flatIndex_cons_eq_ok (h : Storable (d :: ds)) :
    flatIndex (d :: ds) indexes = .ok p ↔ ∃ index rest inner, indexes = index :: rest ∧
      d.min ≤ index ∧ index ≤ d.max ∧ flatIndex ds rest = .ok inner ∧
        (index - d.min).toNat * totalEntries ds + inner = p := by
  cases indexes with
  | nil => simp [flatIndex]
  | cons index rest =>
    by_cases hlength : ds.length = rest.length
    · rw [flatIndex_cons h hlength]
      split
      · next hindex =>
        simp only [reduceCtorEq, List.cons.injEq, false_iff, not_exists, not_and]
        rintro _ _ _ ⟨rfl, rfl⟩
        omega
      · next hindex =>
        rw [not_or, Int.not_lt, Int.not_lt] at hindex
        cases hinner : flatIndex ds rest <;> simp [Except.map, hindex, hinner]
    · simp [flatIndex, hlength]

-- ---------------------------------------------------------------------------
-- One position for each list of indexes
-- ---------------------------------------------------------------------------

/-- Exactly the indexes within the bounds have a position. -/
theorem exists_flatIndex_iff (h : Storable ds) : (∃ p, flatIndex ds indexes = .ok p) ↔ InBounds ds indexes := by
  induction ds generalizing indexes with
  | nil => simp [flatIndex_nil_eq_ok, InBounds]
  | cons d ds ih =>
    simp only [flatIndex_cons_eq_ok h, InBounds, List.forall₂_cons_left_iff]
    constructor
    · rintro ⟨_, index, rest, inner, rfl, hmin, hmax, hinner, -⟩
      exact ⟨index, rest, ⟨hmin, hmax⟩, (ih h.tail).mp ⟨inner, hinner⟩, rfl⟩
    · rintro ⟨index, rest, ⟨hmin, hmax⟩, hrest, rfl⟩
      obtain ⟨inner, hinner⟩ := (ih h.tail).mpr hrest
      exact ⟨_, index, rest, inner, rfl, hmin, hmax, hinner, rfl⟩

theorem mul_add_lt_mul_add_iff {k k' n r r' : Nat} (hr : r < n) (hr' : r' < n) :
    k * n + r < k' * n + r' ↔ k < k' ∨ k = k' ∧ r < r' := by
  rcases Nat.lt_trichotomy k k' with hk | rfl | hk
  · have hstep : (k + 1) * n ≤ k' * n := Nat.mul_le_mul_right n hk
    rw [Nat.succ_mul] at hstep
    omega
  · omega
  · have hstep : (k' + 1) * n ≤ k * n := Nat.mul_le_mul_right n hk
    rw [Nat.succ_mul] at hstep
    omega

/-- Positions are in the order of the indexes, of which the first one counts most. -/
theorem flatIndex_lt_iff (h : Storable ds) (hp : flatIndex ds indexes = .ok p)
    (hp' : flatIndex ds indexes' = .ok p') : p < p' ↔ indexes < indexes' := by
  induction ds generalizing indexes indexes' p p' with
  | nil =>
    obtain ⟨rfl, rfl⟩ := flatIndex_nil_eq_ok.mp hp
    obtain ⟨rfl, rfl⟩ := flatIndex_nil_eq_ok.mp hp'
    simp
  | cons d ds ih =>
    obtain ⟨index, rest, inner, rfl, hmin, hmax, hinner, rfl⟩ := (flatIndex_cons_eq_ok h).mp hp
    obtain ⟨index', rest', inner', rfl, hmin', hmax', hinner', rfl⟩ := (flatIndex_cons_eq_ok h).mp hp'
    have hlt := flatIndex_lt h.tail.totalEntries_le hinner
    have hlt' := flatIndex_lt h.tail.totalEntries_le hinner'
    rw [mul_add_lt_mul_add_iff hlt hlt', List.cons_lt_cons_iff, ih h.tail hinner hinner']
    exact or_congr (by omega) (and_congr_left' (by omega))

/-- Different indexes have different positions. -/
theorem eq_of_flatIndex (h : Storable ds) (hp : flatIndex ds indexes = .ok p)
    (hp' : flatIndex ds indexes' = .ok p) : indexes = indexes' := by
  rcases lt_trichotomy indexes indexes' with hlt | heq | hgt
  · exact absurd ((flatIndex_lt_iff h hp hp').mpr hlt) (Nat.lt_irrefl p)
  · exact heq
  · exact absurd ((flatIndex_lt_iff h hp' hp).mpr hgt) (Nat.lt_irrefl p)

/-- Every number below the number of elements is a position. -/
theorem exists_flatIndex_eq (h : Storable ds) (hp : p < totalEntries ds) :
    ∃ indexes, flatIndex ds indexes = .ok p := by
  induction ds generalizing p with
  | nil => exact ⟨[], flatIndex_nil_eq_ok.mpr ⟨rfl, Nat.lt_one_iff.mp hp⟩⟩
  | cons d ds ih =>
    have hpos := h.tail.totalEntries_pos
    obtain ⟨rest, hrest⟩ := ih h.tail (Nat.mod_lt p hpos)
    have hquotient : p / totalEntries ds < d.entries := by
      rw [Nat.div_lt_iff_lt_mul hpos, ← h.totalEntries_cons]
      exact hp
    have hsum := Nat.div_add_mod' p (totalEntries ds)
    generalize p / totalEntries ds = k at hquotient hsum
    have hentries := h.entries_eq
    refine ⟨(d.min + k) :: rest, (flatIndex_cons_eq_ok h).mpr ⟨_, rest, _, rfl, by omega, by omega, hrest, ?_⟩⟩
    rw [add_sub_cancel_left, Int.toNat_natCast, hsum]

/-- The index is not within the bounds of its dimension. -/
def outside : Dimension × Int → Bool := fun (d, index) => index < d.min || d.max < index

/-- The first index that is not within its bounds is refused. -/
theorem flatIndex_of_outside (h : Storable ds) (hlength : ds.length = indexes.length)
    (hfirst : (ds.zip indexes).find? outside = some (d, index)) :
    flatIndex ds indexes = .error (.indexOutOfRange index d.min d.max) := by
  induction ds generalizing indexes with
  | nil => cases hfirst
  | cons d' ds ih =>
    obtain ⟨index', rest, rfl⟩ := List.exists_cons_of_length_eq_add_one hlength.symm
    have hlength := Nat.succ.inj hlength
    rw [flatIndex_cons h hlength]
    rw [List.zip_cons_cons, List.find?_cons] at hfirst
    split at hfirst
    · next houtside =>
      cases hfirst
      exact if_pos (by simpa [outside] using houtside)
    · next hinside =>
      rw [if_neg (by simpa [outside] using hinside), ih h.tail hlength hfirst]
      rfl

-- ---------------------------------------------------------------------------
-- Numbers of limited size
-- ---------------------------------------------------------------------------

/-- An integer of 128 bits, unless it overflows. -/
def fit128 (i : Int) : Option Int := if FitsInteger i then some i else none

/-- A count of 64 bits, unless it overflows. -/
def fit64 (n : Nat) : Option Nat := if n ≤ maxCount then some n else none

/-- The number of indexes, unless a step of its computation overflows. -/
def entries? (d : Dimension) : Option Nat := do
  let distance ← fit128 (d.max - d.min)
  let n ← fit128 (distance + 1)
  fit64 n.toNat

/-- The number of elements, unless a step of its computation overflows. -/
def totalEntries? (ds : List Dimension) : Option Nat :=
  ds.foldlM (fun n d => do fit64 (n * (← d.entries?))) 1

/-- The elements that one step of each index passes over, from the last index to the first, unless one overflows. -/
def strides? : List Dimension → Option (List Nat)
  | [] => some []
  | [_] => some [1]
  | _ :: d :: ds => do
    match ← strides? (d :: ds) with
    | [] => some []
    | s :: ss => do pure ((← fit64 (s * (← d.entries?))) :: s :: ss)

/-- The position that is reached from another one, index by index, unless a step overflows. -/
def offset? (flat : Nat) : List (Dimension × Int × Nat) → Option (Except ValueError Nat)
  | [] => some (.ok flat)
  | (d, index, stride) :: rest =>
    if index < d.min ∨ d.max < index then some (.error (.indexOutOfRange index d.min d.max))
    else do
      let distance ← fit128 (index - d.min)
      let steps ← fit64 distance.toNat
      let passed ← fit64 (steps * stride)
      offset? (← fit64 (flat + passed)) rest

/-- The position of the element at the indexes, unless a step of its computation overflows. -/
def flatIndex? (ds : List Dimension) (indexes : List Int) : Option (Except ValueError Nat) :=
  if ds.length ≠ indexes.length then some (.error (.indexCount ds.length indexes.length))
  else do offset? 0 (ds.zip (indexes.zip (← strides? ds)))

theorem fit128_of_le {i : Int} (hpos : 0 ≤ i) (hle : i ≤ maxElements) : fit128 i = some i := by
  have hcap : maxElements = 16777216 := rfl
  exact if_pos ⟨by omega, by omega⟩

theorem fit64_of_le {n : Nat} (h : n ≤ maxElements) : fit64 n = some n :=
  if_pos (h.trans (by decide))

section

variable (h : Storable (d :: ds))

include h

theorem Storable.entries_le : d.entries ≤ maxElements := by
  have hle := h.totalEntries_le
  rw [h.totalEntries_cons] at hle
  exact (Nat.le_mul_of_pos_right _ h.tail.totalEntries_pos).trans hle

theorem Storable.entries?_eq : d.entries? = some d.entries := by
  have hentries := h.entries_eq
  have hle := h.entries_le
  have hpos := h.nonempty d List.mem_cons_self
  have hcount : (d.max - d.min + 1).toNat = d.entries := by omega
  rw [entries?, fit128_of_le (by omega) (by omega), Option.bind_eq_bind, Option.bind_some,
    fit128_of_le (by omega) (by omega), Option.bind_some, hcount, fit64_of_le hle]

end

theorem Storable.totalEntries?_eq (h : Storable ds) : totalEntries? ds = some (totalEntries ds) := by
  have fold (n : Nat) (hn : n * totalEntries ds ≤ maxElements) :
      ds.foldlM (fun n d => do fit64 (n * (← d.entries?))) n = some (n * totalEntries ds) := by
    induction ds generalizing n with
    | nil => simp [totalEntries]
    | cons d ds ih =>
      rw [h.totalEntries_cons, ← Nat.mul_assoc] at hn ⊢
      have hle : n * d.entries ≤ maxElements := (Nat.le_mul_of_pos_right _ h.tail.totalEntries_pos).trans hn
      simp only [List.foldlM_cons, h.entries?_eq, Option.bind_eq_bind, Option.bind_some, fit64_of_le hle]
      exact ih h.tail _ hn
  have htotal := fold 1 (by rw [Nat.one_mul]; exact h.totalEntries_le)
  rwa [Nat.one_mul] at htotal

theorem Storable.strides?_eq (h : Storable ds) : strides? ds = some (strides ds) := by
  induction ds with
  | nil => rfl
  | cons d ds ih =>
    cases ds with
    | nil => rfl
    | cons d' ds =>
      have hrest := h.tail
      have htotal := hrest.totalEntries_cons
      rw [strides?, ih hrest, strides_cons d, strides_cons d', htotal, Nat.mul_comm]
      simp only [Option.bind_eq_bind, Option.bind_some, hrest.entries?_eq]
      rw [fit64_of_le (by rw [Nat.mul_comm, ← htotal]; exact hrest.totalEntries_le)]
      rfl

theorem Storable.offset?_eq (h : Storable ds) (hlength : ds.length = indexes.length) {flat : Nat}
    (hflat : flat + totalEntries ds ≤ maxElements) :
    offset? flat (ds.zip (indexes.zip (strides ds))) = some ((flatIndex ds indexes).map (flat + ·)) := by
  induction ds generalizing indexes flat with
  | nil =>
    cases List.length_eq_zero_iff.mp hlength.symm
    rfl
  | cons d ds ih =>
    obtain ⟨index, rest, rfl⟩ := List.exists_cons_of_length_eq_add_one hlength.symm
    have hlength := Nat.succ.inj hlength
    rw [flatIndex_cons h hlength, strides_cons, List.zip_cons_cons, List.zip_cons_cons, offset?]
    split
    · rfl
    · next hindex =>
      rw [not_or, Int.not_lt, Int.not_lt] at hindex
      have hpos := h.tail.totalEntries_pos
      -- every number of this step is at most the position it reaches, which is within the array
      have hpassed := h.step_lt (p := totalEntries ds - 1) hindex.1 hindex.2 (by omega)
      have hsteps : (index - d.min).toNat ≤ (index - d.min).toNat * totalEntries ds := Nat.le_mul_of_pos_right _ hpos
      generalize hstride : (index - d.min).toNat * totalEntries ds = passed at hpassed hsteps ⊢
      simp only [Option.bind_eq_bind, Option.bind_some, fit128_of_le (show 0 ≤ index - d.min by omega) (by omega),
        fit64_of_le (show (index - d.min).toNat ≤ maxElements by omega), hstride,
        fit64_of_le (show passed ≤ maxElements by omega), fit64_of_le (show flat + passed ≤ maxElements by omega)]
      rw [ih h.tail hlength (by omega)]
      cases flatIndex ds rest with
      | error e => rfl
      | ok inner => exact congrArg (some ∘ Except.ok) (Nat.add_assoc flat passed inner)

/-- Positions are computed without overflow. -/
theorem Storable.flatIndex?_eq (h : Storable ds) (indexes : List Int) :
    flatIndex? ds indexes = some (flatIndex ds indexes) := by
  unfold flatIndex?
  split
  · next hlength => exact congrArg some (if_pos hlength).symm
  · next hlength =>
    have hle := h.totalEntries_le
    rw [h.strides?_eq, Option.bind_eq_bind, Option.bind_some, h.offset?_eq (not_not.mp hlength) (by omega)]
    cases flatIndex ds indexes <;> simp [Except.map]

-- ---------------------------------------------------------------------------
-- Addresses
-- ---------------------------------------------------------------------------

/--
The lists of indexes within the bounds and the numbers below the number of elements correspond to each other, in the
same order. What is refused is a list of another length, and then the first index outside its bounds. No step of these
computations overflows.
-/
theorem flatIndex_rowMajor (h : Storable ds) :
    (totalEntries ds : Int) = size ds ∧
    (∀ indexes, (∃ p, flatIndex ds indexes = .ok p) ↔ InBounds ds indexes) ∧
    (∀ p, (∃! indexes, flatIndex ds indexes = .ok p) ↔ p < totalEntries ds) ∧
    (∀ indexes indexes' p p', flatIndex ds indexes = .ok p → flatIndex ds indexes' = .ok p' →
      (p = p' ↔ indexes = indexes') ∧ (p < p' ↔ indexes < indexes')) ∧
    (∀ indexes, ds.length ≠ indexes.length →
      flatIndex ds indexes = .error (.indexCount ds.length indexes.length)) ∧
    (∀ indexes d index, ds.length = indexes.length → (ds.zip indexes).find? outside = some (d, index) →
      flatIndex ds indexes = .error (.indexOutOfRange index d.min d.max)) ∧
    totalEntries? ds = some (totalEntries ds) ∧
    ∀ indexes, flatIndex? ds indexes = some (flatIndex ds indexes) := by
  refine ⟨h.totalEntries_eq, fun _ => exists_flatIndex_iff h, fun p => ⟨?_, fun hp => ?_⟩,
    fun _ _ p p' hp hp' => ⟨⟨?_, ?_⟩, flatIndex_lt_iff h hp hp'⟩, fun _ hlength => if_pos hlength,
    fun _ _ _ hlength hfirst => flatIndex_of_outside h hlength hfirst, h.totalEntries?_eq, h.flatIndex?_eq⟩
  · rintro ⟨indexes, hindexes, -⟩
    exact flatIndex_lt h.totalEntries_le hindexes
  · obtain ⟨indexes, hindexes⟩ := exists_flatIndex_eq h hp
    exact ⟨indexes, hindexes, fun _ hother => eq_of_flatIndex h hother hindexes⟩
  · rintro rfl
    exact eq_of_flatIndex h hp hp'
  · rintro rfl
    exact Except.ok.inj (hp.symm.trans hp')

/-- The lowest of the bounds of the first dimension is the lowest integer there is. -/
theorem flatIndex_rowMajor_lowest :
    Storable [⟨-2 ^ 127, 2 - 2 ^ 127⟩, ⟨-1, 1⟩, ⟨3, 4⟩] ∧
    (∃! indexes, flatIndex [⟨-2 ^ 127, 2 - 2 ^ 127⟩, ⟨-1, 1⟩, ⟨3, 4⟩] indexes = .ok 17) ∧
    flatIndex? [⟨-2 ^ 127, 2 - 2 ^ 127⟩, ⟨-1, 1⟩, ⟨3, 4⟩] [2 - 2 ^ 127, 1, 4] = some (.ok 17) ∧
    flatIndex [⟨-2 ^ 127, 2 - 2 ^ 127⟩, ⟨-1, 1⟩, ⟨3, 4⟩] [0, 2, 4] =
      .error (.indexOutOfRange 0 (-2 ^ 127) (2 - 2 ^ 127)) := by
  have h : Storable [⟨-2 ^ 127, 2 - 2 ^ 127⟩, ⟨-1, 1⟩, ⟨3, 4⟩] := ⟨by decide, by decide⟩
  obtain ⟨-, -, honto, -, -, hfirst, -, hexact⟩ := flatIndex_rowMajor h
  refine ⟨h, (honto 17).mpr (by decide), ?_, hfirst _ ⟨-2 ^ 127, 2 - 2 ^ 127⟩ _ rfl (by decide)⟩
  rw [hexact]
  decide

end StructuredText.Dimension
