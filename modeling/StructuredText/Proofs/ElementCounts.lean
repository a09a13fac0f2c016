-- SUMMARY: How many array elements a value holds: its type decides, and only the size of each single array is limited.
import StructuredText.Proofs.Coercion
import StructuredText.Proofs.Parts

/-!
# Element counts

All values of a type hold the same number of array elements, counted over all nesting, so the storage that a variable
takes never changes. Creating a value limits the number of elements of each array by its own dimensions. What each of
the elements holds in turn is not counted, so an array of arrays may hold more elements than any single array.
-/

namespace StructuredText

-- ---------------------------------------------------------------------------
-- Counting
-- ---------------------------------------------------------------------------

namespace Value

mutual

/-- The array elements in the value, among them those in its elements and members. -/
def elementCount : Value → Nat
  | .array elements => elements.length + elementCounts elements
  | .struct members => memberCounts members
  | _ => 0

def elementCounts : List Value → Nat
  | [] => 0
  | v :: vs => v.elementCount + elementCounts vs

def memberCounts : List (Ident × Value) → Nat
  | [] => 0
  | (_, v) :: rest => v.elementCount + memberCounts rest

end

theorem elementCounts_eq_sum (vs : List Value) : elementCounts vs = (vs.map elementCount).sum := by
  induction vs with
  | nil => rfl
  | cons v vs ih => rw [elementCounts, ih, List.map_cons, List.sum_cons]

theorem memberCounts_eq_sum (ms : List (Ident × Value)) : memberCounts ms = (ms.map (·.2.elementCount)).sum := by
  induction ms with
  | nil => rfl
  | cons m ms ih => rw [memberCounts, ih, List.map_cons, List.sum_cons]

/-- What is neither an array nor a structure holds no elements. -/
theorem elementCount_eq_zero {v : Value} (harray : v.kind ≠ .array) (hstruct : v.kind ≠ .struct) :
    v.elementCount = 0 := by
  cases v with
  | array _ => exact absurd rfl harray
  | struct _ => exact absurd rfl hstruct
  | _ => rfl

/-- Arrays of the same length hold the same number of elements if their elements do. -/
theorem elementCount_array_congr {vs ws : List Value} (hlength : vs.length = ws.length)
    (h : ∀ v ∈ vs, ∀ w ∈ ws, v.elementCount = w.elementCount) :
    (Value.array vs).elementCount = (Value.array ws).elementCount := by
  have hcounts : vs.map elementCount = ws.map elementCount := by
    refine List.ext_getElem (by simpa using hlength) fun i hi hi' => ?_
    rw [List.getElem_map, List.getElem_map]
    exact h _ (List.getElem_mem _) _ (List.getElem_mem _)
  rw [elementCount, elementCount, elementCounts_eq_sum, elementCounts_eq_sum, hlength, hcounts]

/-- Structures with as many members hold the same number of elements if their members do. -/
theorem elementCount_struct_congr {ms ns : List (Ident × Value)} (hlength : ms.length = ns.length)
    (h : ∀ (i : Nat) m n, ms[i]? = some m → ns[i]? = some n → m.2.elementCount = n.2.elementCount) :
    (Value.struct ms).elementCount = (Value.struct ns).elementCount := by
  have hcounts : ms.map (·.2.elementCount) = ns.map (·.2.elementCount) := by
    refine List.ext_getElem (by simpa using hlength) fun i hi hi' => ?_
    rw [List.length_map] at hi hi'
    rw [List.getElem_map, List.getElem_map]
    exact h i _ _ (List.getElem?_eq_getElem hi) (List.getElem?_eq_getElem hi')
  rw [elementCount, elementCount, memberCounts_eq_sum, memberCounts_eq_sum, hcounts]

/-- Each element of an array counts, and what it holds. -/
theorem elementCount_array {vs : List Value} {n : Nat} (h : ∀ v ∈ vs, v.elementCount = n) :
    (Value.array vs).elementCount = vs.length * (1 + n) := by
  rw [elementCount, elementCounts_eq_sum, List.map_congr_left h, List.map_const', List.sum_replicate_nat,
    Nat.mul_add, Nat.mul_one]

end Value

theorem ElementaryKind.valueKind_simple (kind : ElementaryKind) :
    kind.valueKind ≠ .array ∧ kind.valueKind ≠ .struct := by
  cases kind <;> exact ⟨nofun, nofun⟩

/-- An elementary type stores values without elements. -/
theorem Elementary.Stores.elementCount_eq_zero {ranged : Prop} {e : Elementary} {v : Value} (h : e.Stores ranged v) :
    v.elementCount = 0 :=
  have hsimple := e.kind.valueKind_simple
  Value.elementCount_eq_zero (h.kind ▸ hsimple.1) (h.kind ▸ hsimple.2)

namespace TypeTable

variable {t : TypeTable} {ranged ranged' : Prop} {id : TypeId} {v w : Value}

-- ---------------------------------------------------------------------------
-- Values of one type
-- ---------------------------------------------------------------------------

/-- Every member of a value has a type in the declaration of the structure. -/
theorem exists_member_type {members : List StructMember} {ms : List (Ident × Value)}
    (hnames : ms.map (·.1) = members.map (·.name)) (htypes : ∀ m ∈ members, m.type.id?.isSome) {position : Nat}
    {nv : Ident × Value} (hmem : ms[position]? = some nv) :
    ∃ m e, members[position]? = some m ∧ m.type.id? = some e := by
  have hlength : ms.length = members.length := by simpa using congrArg List.length hnames
  obtain ⟨hlt, -⟩ := List.getElem?_eq_some_iff.mp hmem
  have hmember : members[position]? = some members[position] := List.getElem?_eq_getElem (hlength ▸ hlt)
  obtain ⟨e, he⟩ := Option.isSome_iff_exists.mp (htypes _ (List.mem_of_getElem? hmember))
  exact ⟨_, e, hmember, he⟩

/-- Values of one type hold the same number of elements. -/
theorem Inhabits.elementCount_eq (h : t.Inhabits ranged id v) (h' : t.Inhabits ranged' id w) :
    v.elementCount = w.elementCount := by
  induction h generalizing w with
  | elementary hd hkind hv =>
    cases h' with
    | elementary _ _ hv' => rw [hv.elementCount_eq_zero, hv'.elementCount_eq_zero]
    | _ => simp_all
  | «alias» hd hkind hparent _ ih =>
    cases h' with
    | «alias» hd' hkind' hparent' hw =>
      cases hd.symm.trans hd'
      cases hkind.symm.trans hkind'
      cases hparent.symm.trans hparent'
      exact ih hw
    | _ => simp_all
  | subrange hd hkind hbase _ _ ih =>
    cases h' with
    | subrange hd' hkind' hbase' hw =>
      cases hd.symm.trans hd'
      cases hkind.symm.trans hkind'
      cases hbase.symm.trans hbase'
      exact ih hw
    | _ => simp_all
  | enumeration hd hkind _ =>
    cases h' with
    | enumeration => rfl
    | _ => simp_all
  | array hd hkind helement hlength _ _ ih =>
    cases h' with
    | array hd' hkind' helement' hlength' _ hws =>
      cases hd.symm.trans hd'
      cases hkind.symm.trans hkind'
      cases helement.symm.trans helement'
      exact Value.elementCount_array_congr (hlength.trans hlength'.symm) fun v hv w hw => ih v hv (hws w hw)
    | _ => simp_all
  | @struct _ _ _ ms hd hkind hnames htypes _ ih =>
    cases h' with
    | @struct _ _ _ ns hd' hkind' hnames' _ hns =>
      cases hd.symm.trans hd'
      cases hkind.symm.trans hkind'
      have hlength : ms.length = ns.length := by simpa using congrArg List.length (hnames.trans hnames'.symm)
      refine Value.elementCount_struct_congr hlength fun i m n hm hn => ?_
      obtain ⟨member, e, hmember, he⟩ := exists_member_type hnames htypes hm
      exact ih i member m e hmember hm he (hns i member n e hmember hn he)
    | _ => simp_all
  | block hd hkind _ =>
    cases h' with
    | block => rfl
    | _ => simp_all

-- ---------------------------------------------------------------------------
-- Arrays in a value
-- ---------------------------------------------------------------------------

/-- The elements and members of an inhabitant inhabit types of the table. -/
theorem Inhabits.exists_of_child (h : t.Inhabits ranged id v) {position : Nat} {x : Value}
    (hx : v.child position = .ok x) : ∃ part, t.Inhabits ranged part x := by
  induction h with
  | @elementary _ _ e v _ _ hv =>
    have hsimple := e.kind.valueKind_simple
    rw [← hv.kind] at hsimple
    cases v with
    | array _ => exact absurd rfl hsimple.1
    | struct _ => exact absurd rfl hsimple.2
    | _ => cases hx
  | «alias» _ _ _ _ ih => exact ih hx
  | subrange _ _ _ _ _ ih => exact ih hx
  | enumeration => cases hx
  | array _ _ _ _ _ h =>
    exact ⟨_, h _ (List.mem_of_getElem? (Value.child_array_eq_ok.mp hx))⟩
  | struct _ _ hnames htypes h =>
    obtain ⟨name, hmem⟩ := Value.child_struct_eq_ok.mp hx
    obtain ⟨m, e, hmember, he⟩ := exists_member_type hnames htypes hmem
    exact ⟨e, h position m _ e hmember hmem he⟩
  | block => cases hx

theorem Inhabits.exists_of_descend (h : t.Inhabits ranged id v) {path : List Nat} {x : Value}
    (hx : v.descend path = .ok x) : ∃ part, t.Inhabits ranged part x := by
  induction path generalizing id v with
  | nil =>
    cases hx
    exact ⟨id, h⟩
  | cons position path ih =>
    obtain ⟨y, hy, hx⟩ := Except.bind_eq_ok.mp hx
    obtain ⟨part, hpart⟩ := h.exists_of_child hy
    exact ih hpart hx

/-- No array has more elements than can be stored. -/
theorem Inhabits.length_le {vs : List Value} (h : t.Inhabits ranged id (.array vs)) : vs.length ≤ maxElements := by
  generalize hv : Value.array vs = v at h
  induction h with
  | @elementary _ _ e _ _ _ hstores =>
    subst hv
    exact absurd hstores.kind.symm e.kind.valueKind_simple.1
  | «alias» _ _ _ _ ih => exact ih hv
  | subrange _ _ _ _ _ ih => exact ih hv
  | array _ _ _ hlength hsize =>
    cases hv
    exact hlength ▸ hsize
  | enumeration | struct | block => cases hv

/-- An array holds its elements, and each of them what values of the element type hold. -/
theorem Inhabits.elementCount_array {element : TypeRef} {dimensions : List Dimension} {initial : Option Value}
    {e : TypeId} (hkind : t.kindOf id = .ok (.array element dimensions initial)) (helement : element.id? = some e)
    (h : t.Inhabits ranged id v) (hw : t.Inhabits ranged' e w) :
    v.elementCount = Dimension.totalEntries dimensions * (1 + w.elementCount) := by
  obtain ⟨_, vs, he, rfl, hlength, -, hvs⟩ := inhabits_array hkind h
  cases helement.symm.trans he
  rw [← hlength]
  exact Value.elementCount_array fun x hx => (hvs x hx).elementCount_eq hw

end TypeTable

-- ---------------------------------------------------------------------------
-- Linked types
-- ---------------------------------------------------------------------------

/--
What the values of a linked type hold: no array in them is larger than can be stored, all of them hold the same number
of elements, and a value of an array type has as many as its dimensions say, times one more than each of them holds.
-/
theorem elementCount_of_parsed {units : List CompilationUnit} {options : Options} {l : Library}
    (hparsed : ∀ unit ∈ units, ∃ source file, parseUnit source file = .ok unit) (h : link units options = .ok l)
    {id : TypeId} {v : Value} (hv : l.types.WellFormed id v) :
    (∀ path vs, v.descend path = .ok (.array vs) → vs.length ≤ maxElements) ∧
    (∀ w, l.types.WellFormed id w → w.elementCount = v.elementCount) ∧
    ∀ element dimensions initial e w, l.types.kindOf id = .ok (.array element dimensions initial) →
      element.id? = some e → l.types.WellFormed e w →
        (v.elementCount : Int) = Dimension.size dimensions * (1 + w.elementCount) := by
  obtain ⟨hchecked, -⟩ := checked_of_parsed hparsed h
  have hinhabits {id v} : l.types.WellFormed id v → l.types.Inhabits True id v :=
    (TypeTable.wellFormed_iff hchecked).mp
  refine ⟨fun path vs hvs => ?_, fun w hw => (hinhabits hw).elementCount_eq (hinhabits hv),
    fun element dimensions initial e w hkind he hw => ?_⟩
  · obtain ⟨part, hpart⟩ := (hinhabits hv).exists_of_descend hvs
    exact hpart.length_le
  · obtain ⟨root, d, -, hd, hdkind⟩ := TypeTable.kindOf_eq_ok.mp hkind
    rw [(hinhabits hv).elementCount_array hkind he (hinhabits hw), ← (hchecked.storable hd hdkind).totalEntries_eq]
    push_cast
    rfl

/-- Declares an array of arrays, each of which could be stored. -/
def nestedSource : String := "TYPE A : ARRAY[1..4096] OF ARRAY[1..4097] OF BOOL; END_TYPE"

/-- The default value of the array of arrays holds more elements than a single array can. -/
example : (linkSource nestedSource).toOption.any (fun l =>
    (l.types.create 22 none).toOption.any fun v => decide (maxElements < v.elementCount)) = true := by
  decide +kernel

end StructuredText
