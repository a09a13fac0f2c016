-- SUMMARY: How many values array initializers stand for, and that positions of elements are within the array.
import Mathlib.Algebra.BigOperators.Group.List.Basic
import Mathlib.Algebra.GroupWithZero.Nat
import StructuredText.Proofs.Computation
import StructuredText.TypeTable.Create

/-!
# Array initializers

Counts stay at the largest number when they do not fit. Below the size of an array that can be stored
they are exact, so an initializer that is accepted for such an array lists one value for every element.
-/

namespace StructuredText

theorem min_min_mul {a b cap : Nat} : min (min a cap * b) cap = min (a * b) cap := by
  rcases Nat.le_total a cap with h | h
  · rw [Nat.min_eq_left h]
  · rw [Nat.min_eq_right h]
    rcases Nat.eq_zero_or_pos b with rfl | hb
    · rfl
    · have hle : cap * b ≤ a * b := Nat.mul_le_mul_right b h
      have hcap : cap ≤ cap * b := Nat.le_mul_of_pos_right cap hb
      omega

namespace Dimension

/-- The number of elements before it is limited. -/
def product (ds : List Dimension) : Nat := (ds.map entries).prod

theorem totalEntries_eq_min (ds : List Dimension) :
    totalEntries ds = Min.min (product ds) maxCount := by
  have fold (n : Nat) (hn : n ≤ maxCount) :
      ds.foldl (fun n d => Nat.min (n * d.entries) maxCount) n =
        Min.min (n * product ds) maxCount := by
    induction ds generalizing n with
    | nil => simp [product, hn]
    | cons d ds ih =>
      have h := @min_min_mul (n * d.entries) (product ds) maxCount
      rw [Nat.mul_assoc] at h
      rw [List.foldl_cons, ih _ (Nat.min_le_right _ _)]
      exact h
  have h := fold 1 (by decide)
  rw [Nat.one_mul] at h
  exact h

/-- The number of values that the items stand for before it is limited. -/
def count (items : List (Nat × Value)) : Nat := (items.map (·.1)).sum

theorem suppliedCount_eq_min (items : List (Nat × Value)) :
    suppliedCount items = Min.min (count items) maxCount := by
  unfold suppliedCount count
  rw [List.sum_eq_foldl_nat]

theorem length_flatMap_replicate (items : List (Nat × Value)) :
    (items.flatMap fun (count, value) => List.replicate count value).length = count items := by
  induction items with
  | nil => rfl
  | cons item items ih => simp_all [count]

/-- Items that each add a number of values for every value they stand for. -/
theorem length_of_foldlM {f : List Value → Nat × Value → Except ValueError (List Value)} {k : Nat}
    {items : List (Nat × Value)} {start out : List Value}
    (hf : ∀ item ∈ items, ∀ out out', f out item = .ok out' →
      out'.length = out.length + item.1 * k)
    (h : items.foldlM f start = .ok out) : out.length = start.length + count items * k := by
  induction items generalizing start with
  | nil =>
    cases h
    simp [count]
  | cons item items ih =>
    rw [List.foldlM_cons] at h
    obtain ⟨next, hnext, h⟩ := Except.bind_eq_ok.mp h
    have hlength := ih (fun item hitem => hf item (List.mem_cons_of_mem _ hitem)) h
    have hfirst := hf item List.mem_cons_self _ _ hnext
    simp only [count, List.map_cons, List.sum_cons, Nat.add_mul] at hlength ⊢
    omega

/-- Items whose number is that of storable elements. -/
theorem count_eq_of_supplied {items : List (Nat × Value)} {n : Nat} (hn : n ≤ maxElements)
    (h : suppliedCount items = n) : count items = n := by
  have hcap : maxElements < maxCount := by decide
  have hsupplied := suppliedCount_eq_min items
  omega

theorem totalEntries_cons_eq_min (d : Dimension) (rest : List Dimension) :
    totalEntries (d :: rest) = Min.min (d.entries * totalEntries rest) maxCount := by
  have h := @min_min_mul (product rest) d.entries maxCount
  rw [totalEntries_eq_min, totalEntries_eq_min, Nat.mul_comm d.entries, h, Nat.mul_comm]
  rfl

/-- Rows that are as many as the outermost dimension has indexes. -/
theorem count_mul_of_supplied {d : Dimension} {rest : List Dimension} {items : List (Nat × Value)}
    (hsize : totalEntries (d :: rest) ≤ maxElements) (h : suppliedCount items = d.entries) :
    count items * totalEntries rest = totalEntries (d :: rest) := by
  have hcap : maxElements < maxCount := by decide
  have htotal := totalEntries_cons_eq_min d rest
  have hsupplied := suppliedCount_eq_min items
  rcases Nat.eq_zero_or_pos (totalEntries rest) with hzero | hpos
  · rw [hzero] at htotal ⊢
    omega
  · have hle : d.entries ≤ d.entries * totalEntries rest := Nat.le_mul_of_pos_right _ hpos
    have hcount : count items = d.entries := by omega
    rw [hcount]
    omega

theorem expand_flat {ds : List Dimension} {items : List (Nat × Value)} {vs : List Value}
    (hflat : isNested ds items = false) (h : expand ds items = .ok vs) :
    suppliedCount items = totalEntries ds ∧ vs.length = count items := by
  rw [expand.eq_def] at h
  simp only [hflat, Bool.false_eq_true, if_false] at h
  split at h
  · cases h
  · next hcount =>
    refine ⟨Decidable.not_not.mp hcount, ?_⟩
    split at h
    · have hlength := length_of_foldlM (k := 1) (fun item _ out out' hout => ?_) h
      · simpa using hlength
      · cases hout
        simp
    · cases h
      exact length_flatMap_replicate items

theorem expand_nested {d d' : Dimension} {rest : List Dimension} {items : List (Nat × Value)}
    {vs : List Value} (hnested : isNested (d :: d' :: rest) items = true)
    (h : expand (d :: d' :: rest) items = .ok vs) :
    suppliedCount items = d.entries ∧
      ∀ k, (∀ inner row, expand (d' :: rest) inner = .ok row → row.length = k) →
        vs.length = count items * k := by
  rw [expand.eq_def] at h
  simp only [hnested, if_true] at h
  split at h
  · cases h
  · next hcount =>
    refine ⟨Decidable.not_not.mp hcount, fun k hrow => ?_⟩
    have hlength := length_of_foldlM (k := k) (fun item hitem out out' hout => ?_) h
    · simpa using hlength
    · obtain ⟨n, v⟩ := item
      split at hout
      · split at hout
        · next hzero =>
          cases hout
          simp_all
        · obtain ⟨row, hrow', hout⟩ := Except.bind_eq_ok.mp hout
          cases hout
          simp [hrow _ _ hrow']
      · next hv =>
        cases hout
        have hzero : n = 0 := by
          simp only [isNested, Bool.and_eq_true, List.all_eq_true, List.mem_filter] at hnested
          rcases Nat.eq_zero_or_pos n with h | hpos
          · exact h
          · have hinit := hnested.2 (n, v) ⟨hitem, decide_eq_true hpos⟩
            cases v <;> simp_all [isInitializer]
        simp [hzero]

/-- An initializer that fits an array of storable size has a value for every element. -/
theorem length_of_expand {ds : List Dimension} {items : List (Nat × Value)} {vs : List Value}
    (hsize : totalEntries ds ≤ maxElements) (h : expand ds items = .ok vs) :
    vs.length = totalEntries ds := by
  induction ds generalizing items vs with
  | nil =>
    obtain ⟨hcount, hlength⟩ := expand_flat (by simp [isNested]) h
    rw [hlength, count_eq_of_supplied hsize hcount]
  | cons d rest ih =>
    cases hnested : isNested (d :: rest) items with
    | false =>
      obtain ⟨hcount, hlength⟩ := expand_flat hnested h
      rw [hlength, count_eq_of_supplied hsize hcount]
    | true =>
      cases rest with
      | nil => simp [isNested] at hnested
      | cons d' rest =>
        obtain ⟨hcount, hlength⟩ := expand_nested hnested h
        have hpos : 0 < d.entries := by
          simp only [isNested, Bool.and_eq_true, decide_eq_true_eq] at hnested
          omega
        have htotal := totalEntries_cons_eq_min d (d' :: rest)
        have hcap : maxElements < maxCount := by decide
        have hle : totalEntries (d' :: rest) ≤ d.entries * totalEntries (d' :: rest) :=
          Nat.le_mul_of_pos_left _ hpos
        have hrest : totalEntries (d' :: rest) ≤ maxElements := by omega
        rw [hlength _ fun inner row => ih hrest, count_mul_of_supplied hsize hcount]

-- ---------------------------------------------------------------------------
-- Positions
-- ---------------------------------------------------------------------------

theorem strides_cons (d : Dimension) (rest : List Dimension) :
    strides (d :: rest) = totalEntries rest :: strides rest := by
  induction rest generalizing d with
  | nil => rfl
  | cons d' rest ih =>
    rw [strides, ih d', totalEntries_cons_eq_min, Nat.mul_comm]

/-- An index within the bounds is less than the number of indexes away from the lowest one. -/
theorem toNat_sub_lt {d : Dimension} {index : Int} (h : ¬ (index < d.min ∨ d.max < index))
    (hentries : d.entries < maxCount) : (index - d.min).toNat < d.entries := by
  have hmin : d.entries = Min.min (d.max - d.min + 1).toNat maxCount := rfl
  omega

theorem offset_lt {ds : List Dimension} {indexes : List Int} {position : Nat}
    (hsize : totalEntries ds ≤ maxElements) (hlength : ds.length = indexes.length)
    (h : offset (ds.zip (indexes.zip (strides ds))) = .ok position) :
    position < totalEntries ds := by
  induction ds generalizing indexes position with
  | nil =>
    cases h
    decide
  | cons d rest ih =>
    obtain ⟨index, indexes, rfl⟩ := List.exists_cons_of_length_eq_add_one hlength.symm
    rw [strides_cons, List.zip_cons_cons, List.zip_cons_cons, offset] at h
    split at h
    · cases h
    · next hindex =>
      obtain ⟨inner, hinner, h⟩ := Except.bind_eq_ok.mp h
      cases h
      have hpos : 0 < d.entries := by
        have hmin : d.entries = Min.min (d.max - d.min + 1).toNat maxCount := rfl
        have hcap : 0 < maxCount := by decide
        omega
      have htotal := totalEntries_cons_eq_min d rest
      have hcap : maxElements < maxCount := by decide
      have hle : totalEntries rest ≤ d.entries * totalEntries rest := Nat.le_mul_of_pos_left _ hpos
      have hinner : inner < totalEntries rest :=
        ih (by omega) (by simpa using hlength) hinner
      have hentries : d.entries ≤ d.entries * totalEntries rest :=
        Nat.le_mul_of_pos_right _ (by omega)
      have hdistance := toNat_sub_lt hindex (by omega)
      have hproduct : ((index - d.min).toNat + 1) * totalEntries rest ≤ d.entries * totalEntries rest :=
        Nat.mul_le_mul_right _ hdistance
      rw [Nat.add_mul, Nat.one_mul] at hproduct
      have hlt := Nat.mod_le ((index - d.min).toNat * totalEntries rest + inner) (2 ^ 64)
      omega

/-- The position of an element is less than the number of elements. -/
theorem flatIndex_lt {ds : List Dimension} {indexes : List Int} {position : Nat}
    (hsize : totalEntries ds ≤ maxElements) (h : flatIndex ds indexes = .ok position) :
    position < totalEntries ds := by
  unfold flatIndex at h
  split at h
  · cases h
  · next hlength => exact offset_lt hsize (Decidable.not_not.mp hlength) h

end Dimension
end StructuredText
