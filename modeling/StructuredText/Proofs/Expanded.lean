-- SUMMARY: Which initializers fill an array, which value each element gets, and how the others are refused.
import StructuredText.Proofs.Positions

/-!
# Filled arrays

An initializer stands for the sequence of its values, each as often as it is repeated. A flat initializer is accepted
when there is one value for every element. A nested one has its rows joined: it is accepted when there is one for every
index of the dimension and they are accepted themselves. All rows have the same length, so joining them puts the values
where the positions of the elements are. Counts are compared from the outside in, before any of the values is looked at.
-/

/-- An item of lists of equal length that are joined. -/
theorem List.getElem?_flatten {α : Type} {rows : List (List α)} {n k j : Nat}
    (hrows : ∀ row ∈ rows, row.length = n) (hj : j < n) :
    rows.flatten[k * n + j]? = rows[k]?.bind fun row => row[j]? := by
  induction rows generalizing k with
  | nil => rfl
  | cons row rows ih =>
    obtain ⟨hrow, hrows⟩ := List.forall_mem_cons.mp hrows
    rw [List.flatten_cons]
    cases k with
    | zero => rw [Nat.zero_mul, Nat.zero_add, List.getElem?_append_left (by omega), List.getElem?_cons_zero,
        Option.bind_some]
    | succ k =>
      rw [List.getElem?_append_right (by rw [Nat.succ_mul]; omega), List.getElem?_cons_succ, ← ih hrows, hrow]
      congr 1
      rw [Nat.succ_mul]
      omega

namespace StructuredText.Dimension

variable {d d' : Dimension} {ds : List Dimension} {items : List (Nat × Value)} {vs : List Value} {e : ValueError}

-- ---------------------------------------------------------------------------
-- Repeated values
-- ---------------------------------------------------------------------------

/-- The values that the items stand for, each as often as it is repeated. -/
def repeated (items : List (Nat × Value)) : List Value :=
  items.flatMap fun (count, value) => List.replicate count value

theorem repeated_cons (item : Nat × Value) (items : List (Nat × Value)) :
    repeated (item :: items) = List.replicate item.1 item.2 ++ repeated items := List.flatMap_cons

theorem length_repeated (items : List (Nat × Value)) : (repeated items).length = count items :=
  length_flatMap_replicate items

theorem mem_repeated {v : Value} : v ∈ repeated items ↔ ∃ item ∈ items, 0 < item.1 ∧ item.2 = v := by
  simp only [repeated, List.mem_flatMap, List.mem_replicate, Nat.pos_iff_ne_zero, eq_comm]

/-- What each value adds to the output, as often as it is repeated. -/
theorem foldlM_eq_mapM {f : List Value → Nat × Value → Except ValueError (List Value)}
    {g : Value → Except ValueError (List Value)}
    (hf : ∀ out item, f out item =
      if item.1 = 0 then .ok out else (g item.2).map fun row => out ++ (List.replicate item.1 row).flatten)
    (items : List (Nat × Value)) (out : List Value) :
    items.foldlM f out = ((repeated items).mapM g).map (out ++ ·.flatten) := by
  induction items generalizing out with
  | nil => exact congrArg Except.ok (List.append_nil out).symm
  | cons item items ih =>
    rw [List.foldlM_cons, hf, repeated_cons, List.mapM_append]
    split
    · next hzero =>
      rw [hzero, Except.ok_bind, ih, List.replicate_zero, List.mapM_nil]
      cases (repeated items).mapM g <;> rfl
    · next hcount =>
      rw [List.mapM_replicate (Nat.pos_of_ne_zero hcount)]
      cases g item.2 with
      | error => rfl
      | ok row =>
        refine (ih _).trans ?_
        cases (repeated items).mapM g with
        | error => rfl
        | ok rows => simp [Except.map, bind, Except.bind, pure, Except.pure]

-- ---------------------------------------------------------------------------
-- Rows
-- ---------------------------------------------------------------------------

/-- How many values an initializer has to list: rows, or else elements. -/
def expected (ds : List Dimension) (items : List (Nat × Value)) : Nat :=
  if isNested ds items then (ds.head?.map entries).getD 0 else totalEntries ds

theorem expected_of_nested (h : isNested (d :: ds) items = true) : expected (d :: ds) items = d.entries := if_pos h

theorem expected_of_flat (h : isNested ds items = false) : expected ds items = totalEntries ds :=
  if_neg (Bool.eq_false_iff.mp h)

/-- The elements of a row. -/
def row (ds : List Dimension) : Value → Except ValueError (List Value)
  | .arrayInit items => expand ds items
  | v => .ok [v]

theorem mapM_singleton (vs : List Value) :
    vs.mapM (fun v => (.ok [v] : Except ValueError (List Value))) = .ok (vs.map ([·])) := by
  rw [List.mapM_eq_ok, List.forall₂_map_right_iff]
  exact List.forall₂_same.mpr fun _ _ => rfl

/-- Counts are compared, and then the values are listed, or the rows are joined. -/
theorem expand_eq (ds : List Dimension) (items : List (Nat × Value)) :
    expand ds items =
      if suppliedCount items ≠ expected ds items then
        .error (.initializerCount (expected ds items) (suppliedCount items))
      else if isNested ds items then ((repeated items).mapM (row ds.tail)).map List.flatten
      else .ok (repeated items) := by
  rw [expand.eq_def, expected]
  refine ite_congr rfl (fun _ => rfl) fun _ => ?_
  rcases ds with _ | ⟨d, _ | ⟨d', rest⟩⟩
  · rfl
  · rfl
  · cases hnested : isNested (d :: d' :: rest) items with
    | true =>
      refine foldlM_eq_mapM (g := row (d' :: rest)) (fun out (n, v) => ?_) items []
      cases v with
      | arrayInit inner => cases n <;> cases hrow : expand (d' :: rest) inner <;> simp [row, hrow, Except.map, pure,
          Except.pure]
      | _ => cases n <;> simp [row, Except.map, pure, Except.pure]
    | false =>
      refine (foldlM_eq_mapM (g := fun v => .ok [v]) (fun out (n, v) => ?_) items []).trans ?_
      · cases n <;> simp [Except.map, pure, Except.pure]
      · rw [mapM_singleton]
        exact congrArg Except.ok (List.flatMap_singleton' (repeated items))

theorem mem_repeated_isNested : isNested (d :: d' :: ds) items = true ↔
    0 < count items ∧ ∀ v ∈ repeated items, ∃ inner, v = .arrayInit inner := by
  have hcap : 0 < maxCount := by decide
  have hsupplied := suppliedCount_eq_min items
  have hinit (v : Value) : isInitializer v = true ↔ ∃ inner, v = .arrayInit inner := by
    cases v <;> simp [isInitializer]
  simp only [isNested, List.length_cons, Bool.and_eq_true, decide_eq_true_eq, List.all_eq_true, List.mem_filter,
    mem_repeated, hinit]
  constructor
  · rintro ⟨⟨-, hpos⟩, hitems⟩
    refine ⟨by omega, ?_⟩
    rintro v ⟨item, hmem, hcount, rfl⟩
    exact hitems item ⟨hmem, hcount⟩
  · rintro ⟨hpos, hitems⟩
    exact ⟨⟨by omega, by omega⟩, fun item hitem => hitems item.2 ⟨item, hitem.1, hitem.2, rfl⟩⟩

section

variable (h : Storable ds)

include h

theorem expected_le : expected ds items ≤ maxElements := by
  unfold expected
  split
  · cases ds with
    | nil => exact Nat.zero_le _
    | cons d ds => exact h.entries_le
  · exact h.totalEntries_le

/-- The limit of counts does not hide a wrong one. -/
theorem suppliedCount_eq_expected : suppliedCount items = expected ds items ↔ count items = expected ds items := by
  have hcap : maxElements < maxCount := by decide
  have hle : expected ds items ≤ maxElements := expected_le h
  have hsupplied := suppliedCount_eq_min items
  omega

theorem expand_eq_ok : expand ds items = .ok vs ↔ count items = expected ds items ∧
    if isNested ds items then ∃ rows, List.Forall₂ (row ds.tail · = .ok ·) (repeated items) rows ∧ rows.flatten = vs
    else repeated items = vs := by
  rw [expand_eq, ← suppliedCount_eq_expected h]
  by_cases hcount : suppliedCount items = expected ds items
  · rw [if_neg (not_not.mpr hcount), eq_true hcount, true_and]
    split
    · simp only [← List.mapM_eq_ok]
      exact Except.map_eq_ok
    · rw [Except.ok.injEq]
  · simp [hcount]

theorem exists_expand_eq_ok : (∃ vs, expand ds items = .ok vs) ↔ count items = expected ds items ∧
    (isNested ds items = true → ∀ v ∈ repeated items, ∃ vs, row ds.tail v = .ok vs) := by
  simp only [expand_eq_ok h, exists_and_left, ← List.exists_mapM_eq_ok]
  refine and_congr_right fun _ => ?_
  cases isNested ds items <;> simp [List.mapM_eq_ok]

end

-- ---------------------------------------------------------------------------
-- Nested initializers
-- ---------------------------------------------------------------------------

/-- In all dimensions but the last one, the values are initializers themselves. -/
def FullyNested : List Dimension → List (Nat × Value) → Prop
  | _ :: d :: ds, items => ∀ v ∈ repeated items, ∃ inner, v = .arrayInit inner ∧ FullyNested (d :: ds) inner
  | _, _ => True

/-- There are as many values as indexes, in every dimension. -/
def Fills : List Dimension → List (Nat × Value) → Prop
  | [], items => count items = 1
  | [d], items => count items = d.max - d.min + 1
  | d :: d' :: ds, items => count items = d.max - d.min + 1 ∧
      ∀ v ∈ repeated items, ∃ inner, v = .arrayInit inner ∧ Fills (d' :: ds) inner

/-- The value of the item that covers a position, where an item covers as many positions as it is repeated. -/
def itemAt? : List (Nat × Value) → Nat → Option Value
  | [], _ => none
  | (count, value) :: items, k => if k < count then some value else itemAt? items (k - count)

/-- The value that is found in an initializer along the indexes, from the outermost dimension on. -/
def valueAt? : List Dimension → List (Nat × Value) → List Int → Option Value
  | [], items, _ => itemAt? items 0
  | [d], items, [index] => itemAt? items (index - d.min).toNat
  | d :: d' :: ds, items, index :: indexes =>
    match itemAt? items (index - d.min).toNat with
    | some (.arrayInit inner) => valueAt? (d' :: ds) inner indexes
    | _ => none
  | _, _, _ => none

theorem itemAt?_eq (items : List (Nat × Value)) (k : Nat) : itemAt? items k = (repeated items)[k]? := by
  induction items generalizing k with
  | nil => rfl
  | cons item items ih =>
    rw [repeated_cons, List.getElem?_append, List.length_replicate, itemAt?, List.getElem?_replicate]
    split
    · rfl
    · exact ih _

/-- Only an initializer without values is not nested in spite of its values. -/
theorem FullyNested.count_eq_zero (hnested : FullyNested (d :: d' :: ds) items)
    (h : isNested (d :: d' :: ds) items = false) : count items = 0 := by
  rcases Nat.eq_zero_or_pos (count items) with hzero | hpos
  · exact hzero
  · have hrows : isNested (d :: d' :: ds) items = true :=
      mem_repeated_isNested.mpr ⟨hpos, fun v hv => (hnested v hv).imp fun _ => And.left⟩
    cases h.symm.trans hrows

/-- A nested initializer is accepted when every level supplies what its dimension takes. -/
theorem exists_expand_iff_fills (h : Storable ds) (hnested : FullyNested ds items) :
    (∃ vs, expand ds items = .ok vs) ↔ Fills ds items := by
  induction ds generalizing items with
  | nil => simp [exists_expand_eq_ok h, expected, isNested, Fills, totalEntries]
  | cons d rest ih =>
    have hentries := h.entries_eq
    have hsize := h.entries_le
    have hpos := h.totalEntries_pos
    rw [exists_expand_eq_ok h]
    cases rest with
    | nil =>
      have htotal : totalEntries [d] = d.entries := h.totalEntries_cons.trans (Nat.mul_one _)
      have hflat : isNested [d] items = false := rfl
      rw [expected_of_flat hflat, hflat, htotal, Fills]
      simp only [Bool.false_eq_true, false_implies, and_true]
      omega
    | cons d' rest =>
      rw [Fills]
      cases hrows : isNested (d :: d' :: rest) items with
      | true =>
        refine and_congr ?_ ?_
        · rw [expected_of_nested hrows]
          omega
        · rw [forall_prop_of_true rfl]
          refine forall₂_congr fun v hv => ?_
          obtain ⟨inner, rfl, hinner⟩ := hnested v hv
          simp only [Value.arrayInit.injEq, exists_eq_left']
          exact ih h.tail hinner
      | false =>
        have hmin := h.nonempty d List.mem_cons_self
        rw [expected_of_flat hrows, hnested.count_eq_zero hrows]
        omega

/-- A nested initializer with all the values it needs is not taken for a flat one. -/
theorem FullyNested.isNested_of_expand (hnested : FullyNested (d :: d' :: ds) items) (h : Storable (d :: d' :: ds))
    (hvs : expand (d :: d' :: ds) items = .ok vs) : isNested (d :: d' :: ds) items = true := by
  by_contra hflat
  have hflat := Bool.eq_false_iff.mpr hflat
  have hcount := ((expand_eq_ok h).mp hvs).1
  rw [expected_of_flat hflat, hnested.count_eq_zero hflat] at hcount
  have hpos := h.totalEntries_pos
  omega

/-- What a nested initializer is expanded to consists of rows of equal length, one for every index. -/
theorem exists_rows_of_expand (h : Storable (d :: d' :: ds)) (hnested : FullyNested (d :: d' :: ds) items)
    (hvs : expand (d :: d' :: ds) items = .ok vs) :
    ∃ rows : List (List Value), rows.flatten = vs ∧ rows.length = d.entries ∧
      (∀ row ∈ rows, row.length = totalEntries (d' :: ds)) ∧
      ∀ (k : Nat) (hk : k < rows.length), ∃ inner, (repeated items)[k]? = some (.arrayInit inner) ∧
        FullyNested (d' :: ds) inner ∧ expand (d' :: ds) inner = .ok rows[k] := by
  have hrows := hnested.isNested_of_expand h hvs
  obtain ⟨hcount, hparts⟩ := (expand_eq_ok h).mp hvs
  rw [expected_of_nested hrows] at hcount
  rw [if_pos hrows] at hparts
  obtain ⟨rows, hparts, hflatten⟩ := hparts
  obtain ⟨hsame, hparts⟩ := List.forall₂_iff_get.mp hparts
  have hrow (k : Nat) (hk : k < rows.length) : ∃ inner, (repeated items)[k]? = some (.arrayInit inner) ∧
      FullyNested (d' :: ds) inner ∧ expand (d' :: ds) inner = .ok rows[k] := by
    have hk' : k < (repeated items).length := hsame ▸ hk
    obtain ⟨inner, hv, hinner⟩ := hnested _ (List.getElem_mem hk')
    have hexpand := hparts k hk' hk
    rw [List.get_eq_getElem, hv] at hexpand
    exact ⟨inner, hv ▸ List.getElem?_eq_getElem hk', hinner, hexpand⟩
  refine ⟨rows, hflatten, by rw [← hsame, length_repeated, hcount], fun row hmem => ?_, hrow⟩
  obtain ⟨k, hk, rfl⟩ := List.getElem_of_mem hmem
  obtain ⟨_, -, -, hexpand⟩ := hrow k hk
  exact length_of_expand h.tail.totalEntries_le hexpand

/-- The elements of an array are the values that the indexes lead to in the initializer. -/
theorem valueAt?_eq (h : Storable ds) (hnested : FullyNested ds items) {indexes : List Int} {p : Nat}
    (hvs : expand ds items = .ok vs) (hp : flatIndex ds indexes = .ok p) : valueAt? ds items indexes = vs[p]? := by
  induction ds generalizing items vs indexes p with
  | nil =>
    obtain ⟨rfl, rfl⟩ := flatIndex_nil_eq_ok.mp hp
    obtain ⟨-, rfl⟩ := (expand_eq_ok h).mp hvs
    rw [valueAt?, itemAt?_eq]
  | cons d rest ih =>
    obtain ⟨index, indexes, inner, rfl, hmin, hmax, hinner, rfl⟩ := (flatIndex_cons_eq_ok h).mp hp
    cases rest with
    | nil =>
      obtain ⟨rfl, rfl⟩ := flatIndex_nil_eq_ok.mp hinner
      obtain rfl : repeated items = vs := ((expand_eq_ok h).mp hvs).2
      rw [valueAt?, itemAt?_eq]
      exact congrArg _ (Nat.mul_one _).symm
    | cons d' rest =>
      -- the index of this dimension chooses a row, and the others a position in it
      obtain ⟨rows, rfl, hcount, hlength, hrows⟩ := exists_rows_of_expand h hnested hvs
      have hk : (index - d.min).toNat < rows.length := by
        have hentries := h.entries_eq
        omega
      obtain ⟨inits, hinits, hinitsNested, hexpand⟩ := hrows _ hk
      rw [List.getElem?_flatten hlength (flatIndex_lt h.tail.totalEntries_le hinner), List.getElem?_eq_getElem hk,
        Option.bind_some, valueAt?, itemAt?_eq, hinits]
      exact ih h.tail hinitsNested hexpand hinner

-- ---------------------------------------------------------------------------
-- Flat initializers
-- ---------------------------------------------------------------------------

/-- There is one dimension only, or a value that is not an initializer. -/
def Flat (ds : List Dimension) (items : List (Nat × Value)) : Prop :=
  ds.length ≤ 1 ∨ ∃ v ∈ repeated items, isInitializer v = false

theorem Flat.isNested_eq_false (h : Flat ds items) : isNested ds items = false := by
  rcases h with hlength | ⟨v, hv, hinit⟩
  · simp [isNested, hlength]
  · rcases ds with _ | ⟨d, _ | ⟨d', rest⟩⟩
    · rfl
    · rfl
    · refine Bool.eq_false_iff.mpr fun hnested => ?_
      obtain ⟨inner, rfl⟩ := (mem_repeated_isNested.mp hnested).2 v hv
      cases hinit

/-- A flat initializer is accepted when it lists every element, in order. -/
theorem expand_eq_ok_of_flat (h : Storable ds) (hflat : Flat ds items) :
    expand ds items = .ok vs ↔ count items = totalEntries ds ∧ repeated items = vs := by
  have hrows := hflat.isNested_eq_false
  rw [expand_eq_ok h, expected_of_flat hrows, hrows]
  exact Iff.rfl

-- ---------------------------------------------------------------------------
-- Refused initializers
-- ---------------------------------------------------------------------------

/--
How an initializer is refused: for its own count, whatever its values are, or for its first row that is refused.
-/
inductive Refused : List Dimension → List (Nat × Value) → ValueError → Prop
  | count {ds : List Dimension} {items : List (Nat × Value)} (h : Dimension.count items ≠ expected ds items) :
    Refused ds items (.initializerCount (expected ds items) (suppliedCount items))
  | row {d : Dimension} {ds : List Dimension} {items inner : List (Nat × Value)} {before after : List Value}
    {e : ValueError} (hcount : Dimension.count items = d.entries) (hnested : isNested (d :: ds) items = true)
    (hrows : repeated items = before ++ .arrayInit inner :: after)
    (hbefore : ∀ v ∈ before, ∃ vs, Dimension.row ds v = .ok vs) (h : Refused ds inner e) : Refused (d :: ds) items e

theorem Refused.exists_initializerCount (h : Refused ds items e) :
    ∃ expected supplied, e = .initializerCount expected supplied := by
  induction h with
  | count => exact ⟨_, _, rfl⟩
  | row _ _ _ _ _ ih => exact ih

theorem map_eq_error {α β : Type} {x : Except ValueError α} {f : α → β} : x.map f = .error e ↔ x = .error e := by
  cases x <;> simp [Except.map]

/-- A count that is right leaves the rows to be refused. -/
theorem expand_eq_error_of_count (h : Storable ds) (hcount : count items = expected ds items) :
    expand ds items = .error e ↔ isNested ds items = true ∧ (repeated items).mapM (row ds.tail) = .error e := by
  rw [expand_eq, if_neg (not_not.mpr ((suppliedCount_eq_expected h).mpr hcount))]
  split
  · next hnested => rw [map_eq_error, eq_true hnested, true_and]
  · next hnested => simp [hnested]

/-- A wrong count is reported before anything else is looked at. -/
theorem expand_of_count_ne (h : Storable ds) (hcount : count items ≠ expected ds items) :
    expand ds items = .error (.initializerCount (expected ds items) (suppliedCount items)) := by
  rw [expand_eq, if_pos (mt (suppliedCount_eq_expected h).mp hcount)]

theorem refused_iff_of_count_ne (hcount : count items ≠ expected ds items) :
    Refused ds items e ↔ .initializerCount (expected ds items) (suppliedCount items) = e := by
  constructor
  · rintro (- | ⟨hright, hnested, -⟩)
    · rfl
    · exact absurd (hright.trans (expected_of_nested hnested).symm) hcount
  · rintro rfl
    exact .count hcount

/-- The error is that of the first initializer whose count is wrong, from the outside in. -/
theorem expand_eq_error (h : Storable ds) : expand ds items = .error e ↔ Refused ds items e := by
  induction ds generalizing items with
  | nil =>
    by_cases hcount : count items = expected [] items
    · rw [expand_eq_error_of_count h hcount]
      constructor
      · rintro ⟨⟨⟩, -⟩
      · rintro ⟨hwrong⟩
        exact absurd hcount hwrong
    · rw [expand_of_count_ne h hcount, refused_iff_of_count_ne hcount, Except.error.injEq]
  | cons d ds ih =>
    by_cases hcount : count items = expected (d :: ds) items
    · rw [expand_eq_error_of_count h hcount, List.mapM_eq_error]
      constructor
      · rintro ⟨hnested, before, v, after, hrows, hbefore, hv⟩
        rw [expected_of_nested hnested] at hcount
        cases ds with
        | nil => cases hnested
        | cons d' ds =>
          obtain ⟨inner, rfl⟩ := (mem_repeated_isNested.mp hnested).2 v (by simp [hrows])
          exact .row hcount hnested hrows hbefore ((ih h.tail).mp hv)
      · rintro (hwrong | ⟨-, hnested, hrows, hbefore, hinner⟩)
        · exact absurd hcount hwrong
        · exact ⟨hnested, _, _, _, hrows, hbefore, (ih h.tail).mpr hinner⟩
    · rw [expand_of_count_ne h hcount, refused_iff_of_count_ne hcount, Except.error.injEq]

-- ---------------------------------------------------------------------------
-- Initializers and positions
-- ---------------------------------------------------------------------------

/--
What an initializer fills an array with. A nested one has to supply every level of it, and then the elements are where
the indexes lead to. A flat one has to supply the elements, in their order. Everything else is refused for a count.
-/
theorem expand_rowMajor (hnonempty : ∀ d ∈ ds, d.min ≤ d.max) (htotal : totalEntries ds ≤ maxElements)
    (items : List (Nat × Value)) :
    (∀ vs, expand ds items = .ok vs → vs.length = totalEntries ds) ∧
    (FullyNested ds items →
      ((∃ vs, expand ds items = .ok vs) ↔ Fills ds items) ∧
      ∀ vs indexes p, expand ds items = .ok vs → flatIndex ds indexes = .ok p →
        ∃ v, vs[p]? = some v ∧ valueAt? ds items indexes = some v) ∧
    (Flat ds items → ∀ vs, expand ds items = .ok vs ↔ count items = totalEntries ds ∧ repeated items = vs) ∧
    (count items ≠ expected ds items →
      expand ds items = .error (.initializerCount (expected ds items) (suppliedCount items))) ∧
    ∀ e, expand ds items = .error e ↔ Refused ds items e := by
  have h : Storable ds := storable_of_totalEntries hnonempty htotal
  refine ⟨fun _ => length_of_expand htotal, fun hnested => ⟨exists_expand_iff_fills h hnested, ?_⟩,
    fun hflat _ => expand_eq_ok_of_flat h hflat, expand_of_count_ne h, fun _ => expand_eq_error h⟩
  intro vs indexes p hvs hp
  have hlt : p < vs.length := by
    rw [length_of_expand htotal hvs]
    exact flatIndex_lt htotal hp
  have hsome : vs[p]? = some vs[p] := List.getElem?_eq_getElem hlt
  exact ⟨vs[p], hsome, hsome ▸ valueAt?_eq h hnested hvs hp⟩

/-- Two equal rows and a row with an item that is not used, and a count that does not fit a number of 64 bits. -/
theorem expand_rowMajor_repeated :
    (∀ d ∈ [(⟨-1, 1⟩ : Dimension), ⟨5, 6⟩], d.min ≤ d.max) ∧
    totalEntries [⟨-1, 1⟩, ⟨5, 6⟩] ≤ maxElements ∧
    (∃ vs, expand [⟨-1, 1⟩, ⟨5, 6⟩] [(2, .arrayInit [(2, .integer 7)]),
      (1, .arrayInit [(1, .integer 8), (0, .bool true), (1, .integer 9)])] = .ok vs ∧ vs[5]? = some (.integer 9)) ∧
    expand [⟨-1, 1⟩, ⟨5, 6⟩] [(2 ^ 63, .arrayInit []), (2 ^ 63, .arrayInit [])] =
      .error (.initializerCount 3 (2 ^ 64 - 1)) := by
  have hnonempty : ∀ d ∈ [(⟨-1, 1⟩ : Dimension), ⟨5, 6⟩], d.min ≤ d.max := by decide
  have htotal : totalEntries [⟨-1, 1⟩, ⟨5, 6⟩] ≤ maxElements := by decide
  refine ⟨hnonempty, htotal, ?_, (expand_rowMajor hnonempty htotal _).2.2.2.1 (by decide)⟩
  obtain ⟨-, hnested, -⟩ := expand_rowMajor hnonempty htotal [(2, .arrayInit [(2, .integer 7)]),
    (1, .arrayInit [(1, .integer 8), (0, .bool true), (1, .integer 9)])]
  obtain ⟨hfills, helement⟩ := hnested (by simp [FullyNested, repeated])
  obtain ⟨vs, hvs⟩ := hfills.mpr (by simp [Fills, repeated, count])
  obtain ⟨v, hv, hfound⟩ := helement vs [1, 6] 5 hvs (by decide)
  obtain rfl : .integer 9 = v := Option.some.inj hfound
  exact ⟨vs, hvs, hv⟩

end StructuredText.Dimension
