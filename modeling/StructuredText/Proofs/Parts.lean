-- SUMMARY: Parts of values and of types: reading and replacing a part keeps a value in its type.
import StructuredText.Proofs.Inhabits
import StructuredText.Proofs.Regular

/-!
# Parts

The elements of an array and the members of a structure have types of their own. An inhabitant has the parts
of its type, each of which inhabits the type of the part, and an inhabitant whose part is replaced by another
inhabitant of the type of the part still inhabits its own type.
-/

namespace StructuredText

-- ---------------------------------------------------------------------------
-- Parts of values
-- ---------------------------------------------------------------------------

namespace Value

variable {position : Nat} {part : Value}

theorem child_array_eq_ok {elements : List Value} :
    (array elements).child position = .ok part ↔ elements[position]? = some part := by
  rw [child]
  split <;> simp_all

theorem child_struct_eq_ok {members : List (Ident × Value)} :
    (struct members).child position = .ok part ↔ ∃ name, members[position]? = some (name, part) := by
  rw [child]
  split <;> simp_all

end Value

namespace TypeTable

variable {t : TypeTable} {id root : TypeId} {ranged : Prop} {bound : BlockRef → Prop} {v : Value}

-- ---------------------------------------------------------------------------
-- Roots
-- ---------------------------------------------------------------------------

theorem rootWithin_succ {start : TypeId} {steps : Nat}
    (h : t.rootWithin start (steps + 1) id = .ok root) :
    ∃ d, t.get? id = some d ∧
      ((∃ parent initial p, d.kind = .alias parent initial ∧ parent.id? = some p ∧
          t.rootWithin start steps p = .ok root) ∨
        ((∀ parent initial, d.kind ≠ .alias parent initial) ∧ root = id)) := by
  rw [rootWithin] at h
  obtain ⟨d, hd, h⟩ := Except.bind_eq_ok.mp h
  refine ⟨d, get_eq_ok.mp hd, ?_⟩
  split at h
  · next parent initial hkind =>
    obtain ⟨p, hp, h⟩ := Except.bind_eq_ok.mp h
    exact .inl ⟨parent, initial, p, hkind, ref_id_eq_ok.mp hp, h⟩
  · next hkind =>
    cases h
    exact .inr ⟨hkind, rfl⟩

/-- A value inhabits an alias when it inhabits the type at the end of the chain. -/
theorem inhabits_rootWithin {start : TypeId} {steps : Nat}
    (h : t.rootWithin start steps id = .ok root) :
    t.Inhabits ranged id v ↔ t.Inhabits ranged root v := by
  induction steps generalizing id with
  | zero => cases h
  | succ steps ih =>
    obtain ⟨d, hd, ⟨parent, initial, p, hkind, hp, h⟩ | ⟨-, rfl⟩⟩ := rootWithin_succ h
    · rw [← ih h]
      constructor
      · intro hv
        cases hv with
        | «alias» hd' hkind' hparent hv =>
          cases hd.symm.trans hd'
          cases hkind.symm.trans hkind'
          cases hp.symm.trans hparent
          exact hv
        | _ => simp_all
      · exact .alias hd hkind hp
    · rfl

theorem kindOf_eq_ok {k : TypeKind} :
    t.kindOf id = .ok k ↔ ∃ root d, t.rootOf id = .ok root ∧ t.get? root = some d ∧ d.kind = k := by
  unfold kindOf
  constructor
  · intro h
    obtain ⟨root, hroot, h⟩ := Except.bind_eq_ok.mp h
    obtain ⟨d, hd, h⟩ := Except.bind_eq_ok.mp h
    cases h
    exact ⟨root, d, hroot, get_eq_ok.mp hd, rfl⟩
  · rintro ⟨root, d, hroot, hd, rfl⟩
    rw [hroot]
    simp only [Except.ok_bind, get_eq_ok.mpr hd]
    rfl

theorem inhabits_array {element : TypeRef} {dimensions : List Dimension} {initial : Option Value}
    (hkind : t.kindOf id = .ok (.array element dimensions initial)) (h : t.Inhabits ranged id v) :
    ∃ e vs, element.id? = some e ∧ v = .array vs ∧ vs.length = Dimension.totalEntries dimensions ∧
      Dimension.totalEntries dimensions ≤ maxElements ∧ ∀ x ∈ vs, t.Inhabits ranged e x := by
  obtain ⟨root, d, hroot, hd, hkind⟩ := kindOf_eq_ok.mp hkind
  cases (inhabits_rootWithin hroot).mp h with
  | array hd' hkind' helement hlength hsize hvs =>
    cases hd.symm.trans hd'
    cases hkind.symm.trans hkind'
    exact ⟨_, _, helement, rfl, hlength, hsize, hvs⟩
  | _ => simp_all

theorem inhabits_struct_iff {members : List StructMember}
    (hkind : t.kindOf id = .ok (.struct members)) :
    t.Inhabits ranged id v ↔ ∃ ms, v = .struct ms ∧ ms.map (·.1) = members.map (·.name) ∧
      (∀ m ∈ members, m.type.id?.isSome) ∧
      ∀ (i : Nat) m x e, members[i]? = some m → ms[i]? = some x → m.type.id? = some e →
        t.Inhabits ranged e x.2 := by
  obtain ⟨root, d, hroot, hd, hkind⟩ := kindOf_eq_ok.mp hkind
  rw [inhabits_rootWithin hroot]
  constructor
  · intro h
    cases h with
    | struct hd' hkind' hnames htypes h =>
      cases hd.symm.trans hd'
      cases hkind.symm.trans hkind'
      exact ⟨_, rfl, hnames, htypes, h⟩
    | _ => simp_all
  · rintro ⟨ms, rfl, hnames, htypes, h⟩
    exact .struct hd hkind hnames htypes h

theorem inhabits_block {pou : Nat} (hkind : t.kindOf id = .ok (.block pou))
    (h : t.Inhabits ranged id v) : ∃ ref, v = .block ref ∧ ref.block = pou := by
  obtain ⟨root, d, hroot, hd, hkind⟩ := kindOf_eq_ok.mp hkind
  cases (inhabits_rootWithin hroot).mp h with
  | block hd' hkind' href =>
    cases hd.symm.trans hd'
    cases hkind.symm.trans hkind'
    exact ⟨_, rfl, href⟩
  | _ => simp_all

-- ---------------------------------------------------------------------------
-- Types of parts
-- ---------------------------------------------------------------------------

/-- Values of the type have a part at the position, which has the other type. -/
inductive HasPart (t : TypeTable) (id : TypeId) : Nat → TypeId → Prop
  | element {element dimensions initial position e}
    (hkind : t.kindOf id = .ok (.array element dimensions initial)) (he : element.id? = some e)
    (hposition : position < Dimension.totalEntries dimensions) : HasPart t id position e
  | member {members position m e} (hkind : t.kindOf id = .ok (.struct members))
    (hm : members[position]? = some m) (he : m.type.id? = some e) : HasPart t id position e

/-- A path leads from values of the type to parts of the other type. -/
inductive PartAt (t : TypeTable) : TypeId → List Nat → TypeId → Prop
  | here {id : TypeId} : PartAt t id [] id
  | step {id : TypeId} {position part path inner} (h : HasPart t id position part)
    (hrest : PartAt t part path inner) : PartAt t id (position :: path) inner

theorem PartAt.snoc {path : List Nat} {part inner : TypeId} {position : Nat}
    (h : t.PartAt id path part) (h' : t.HasPart part position inner) :
    t.PartAt id (path ++ [position]) inner := by
  induction h with
  | here => exact .step h' .here
  | step hpart _ ih => exact .step hpart (ih h')

/-- An inhabitant has the parts of its type. -/
theorem exists_child {position : Nat} {part : TypeId} (hpart : t.HasPart id position part)
    (h : t.Inhabits ranged id v) : ∃ x, v.child position = .ok x ∧ t.Inhabits ranged part x := by
  cases hpart with
  | element hkind he hposition =>
    obtain ⟨e, vs, he', rfl, hlength, -, hvs⟩ := inhabits_array hkind h
    cases he.symm.trans he'
    have hx : vs[position]? = some vs[position] := List.getElem?_eq_getElem (hlength ▸ hposition)
    exact ⟨vs[position], Value.child_array_eq_ok.mpr hx, hvs _ (List.getElem_mem _)⟩
  | @member members _ m _ hkind hm he =>
    obtain ⟨ms, rfl, hnames, -, hms⟩ := (inhabits_struct_iff hkind).mp h
    obtain ⟨hlt, -⟩ := List.getElem?_eq_some_iff.mp hm
    have hlength : ms.length = members.length := by simpa using congrArg List.length hnames
    have hx : ms[position]? = some ms[position] := List.getElem?_eq_getElem (hlength ▸ hlt)
    exact ⟨ms[position].2, Value.child_struct_eq_ok.mpr ⟨_, hx⟩, hms position _ _ _ hm hx he⟩

theorem child_proper {position : Nat} {x : Value} (h : v.Proper bound)
    (hx : v.child position = .ok x) : x.Proper bound := by
  cases v with
  | array vs => exact Value.allProper_iff.mp h _ (List.mem_of_getElem? (Value.child_array_eq_ok.mp hx))
  | struct ms =>
    obtain ⟨name, hmem⟩ := Value.child_struct_eq_ok.mp hx
    exact Value.membersProper_iff.mp h _ (List.mem_of_getElem? hmem)
  | _ => cases hx

/-- An inhabitant has a part at the end of a path of its type. -/
theorem exists_descend {path : List Nat} {part : TypeId} (hpart : t.PartAt id path part)
    (hproper : v.Proper bound) (h : t.Inhabits ranged id v) :
    ∃ x, v.descend path = .ok x ∧ x.Proper bound ∧ t.Inhabits ranged part x := by
  induction hpart generalizing v with
  | here => exact ⟨v, rfl, hproper, h⟩
  | step hpart _ ih =>
    obtain ⟨y, hy, hinhabits⟩ := exists_child hpart h
    rw [Value.descend, hy, Except.ok_bind]
    exact ih (child_proper hproper hy) hinhabits

-- ---------------------------------------------------------------------------
-- Replacing a part
-- ---------------------------------------------------------------------------

theorem map_fst_modify (ms : List (Ident × Value)) (position : Nat) (y : Value) :
    (ms.modify position fun (name, _) => (name, y)).map (·.1) = ms.map (·.1) := by
  induction ms generalizing position with
  | nil => simp
  | cons m ms ih =>
    cases position with
    | zero => rfl
    | succ position => simp [ih]

theorem set_proper {vs : List Value} {position : Nat} {y : Value} (h : Value.AllProper bound vs)
    (hy : y.Proper bound) : Value.AllProper bound (vs.set position y) := by
  refine Value.allProper_iff.mpr fun z hz => ?_
  obtain hz | rfl := List.mem_or_eq_of_mem_set hz
  · exact Value.allProper_iff.mp h z hz
  · exact hy

theorem modify_proper {ms : List (Ident × Value)} {position : Nat} {y : Value}
    (h : Value.MembersProper bound ms) (hy : y.Proper bound) :
    Value.MembersProper bound (ms.modify position fun (name, _) => (name, y)) := by
  refine Value.membersProper_iff.mpr fun z hz => ?_
  obtain ⟨i, hz⟩ := List.mem_iff_getElem?.mp hz
  rw [List.getElem?_modify] at hz
  obtain ⟨z', hz', rfl⟩ := Option.map_eq_some_iff.mp hz
  split
  · exact hy
  · exact Value.membersProper_iff.mp h z' (List.mem_of_getElem? hz')

/-- An array stays in its type when an element is replaced by an inhabitant of the type of elements. -/
theorem inhabits_set {element : TypeRef} {dimensions : List Dimension} {initial : Option Value}
    {e : TypeId} {vs : List Value} {position : Nat} {y : Value}
    (hkind : t.kindOf id = .ok (.array element dimensions initial)) (he : element.id? = some e)
    (h : t.Inhabits ranged id (.array vs)) (hy : t.Inhabits ranged e y) :
    t.Inhabits ranged id (.array (vs.set position y)) := by
  obtain ⟨root, d, hroot, hd, hkind'⟩ := kindOf_eq_ok.mp hkind
  obtain ⟨e', _, he', heq, hlength, hsize, hvs⟩ := inhabits_array hkind h
  cases heq
  cases he.symm.trans he'
  refine (inhabits_rootWithin hroot).mpr
    (.array hd hkind' he (by rw [List.length_set, hlength]) hsize fun z hz => ?_)
  obtain hz | rfl := List.mem_or_eq_of_mem_set hz
  · exact hvs z hz
  · exact hy

/-- A structure stays in its type when a member is replaced by an inhabitant of the type of the member. -/
theorem inhabits_modify {members : List StructMember} {m : StructMember} {e : TypeId}
    {ms : List (Ident × Value)} {position : Nat} {y : Value}
    (hkind : t.kindOf id = .ok (.struct members)) (hm : members[position]? = some m)
    (he : m.type.id? = some e) (h : t.Inhabits ranged id (.struct ms)) (hy : t.Inhabits ranged e y) :
    t.Inhabits ranged id (.struct (ms.modify position fun (name, _) => (name, y))) := by
  obtain ⟨_, heq, hnames, htypes, hms⟩ := (inhabits_struct_iff hkind).mp h
  cases heq
  refine (inhabits_struct_iff hkind).mpr
    ⟨_, rfl, (map_fst_modify ms position y).trans hnames, htypes, fun i m' z e hm' hz he' => ?_⟩
  rw [List.getElem?_modify] at hz
  obtain ⟨z', hz', rfl⟩ := Option.map_eq_some_iff.mp hz
  split
  · next heq =>
    cases heq
    cases hm.symm.trans hm'
    cases he.symm.trans he'
    exact hy
  · exact hms i m' z' e hm' hz' he'

/-- A part that is replaced by an inhabitant of its type keeps the whole in its type. -/
theorem modifyAt_regular {path : List Nat} {part : TypeId} {f : Value → Except ValueError Value}
    (hpart : t.PartAt id path part) (hproper : v.Proper bound) (hv : t.Inhabits ranged id v)
    (hf : ∀ x, x.Proper bound → t.Inhabits ranged part x →
      Regular (f x) fun y => y.Proper bound ∧ t.Inhabits ranged part y) :
    Regular (v.modifyAt f path) fun w => w.Proper bound ∧ t.Inhabits ranged id w := by
  induction hpart generalizing v with
  | here => exact hf v hproper hv
  | @step id position part path inner hpart _ ih =>
    obtain ⟨x, hx, hinhabits⟩ := exists_child hpart hv
    rw [Value.modifyAt, hx, Except.ok_bind]
    refine .bind (ih (child_proper hproper hx) hinhabits hf) fun y ⟨hyproper, hy⟩ => ?_
    cases hpart with
    | element hkind he =>
      obtain ⟨e, vs, -, rfl, -⟩ := inhabits_array hkind hv
      exact .pure ⟨set_proper hproper hyproper, inhabits_set hkind he hv hy⟩
    | member hkind hm he =>
      obtain ⟨ms, rfl, -⟩ := (inhabits_struct_iff hkind).mp hv
      exact .pure ⟨modify_proper hproper hyproper, inhabits_modify hkind hm he hv hy⟩

-- ---------------------------------------------------------------------------
-- Keeping instances
-- ---------------------------------------------------------------------------

theorem anyHoldsBlock_eq_false {vs : List Value} :
    Value.anyHoldsBlock vs = false ↔ ∀ v ∈ vs, v.holdsBlock = false := by
  induction vs with
  | nil => simp [Value.anyHoldsBlock]
  | cons v vs ih => simp [Value.anyHoldsBlock, ih]

theorem anyMemberHoldsBlock_eq_false {ms : List (Ident × Value)} :
    Value.anyMemberHoldsBlock ms = false ↔ ∀ m ∈ ms, m.2.holdsBlock = false := by
  induction ms with
  | nil => simp [Value.anyMemberHoldsBlock]
  | cons m ms ih => simp [Value.anyMemberHoldsBlock, ih]

theorem length_keepAll (olds vs : List Value) : (keepAll olds vs).length = vs.length := by
  induction olds generalizing vs with
  | nil => cases vs <;> simp [keepAll]
  | cons old olds ih => cases vs <;> simp [keepAll, ih]

/-- An element keeps the instances of the old element at its position, if there is one. -/
theorem getElem?_keepAll {olds vs : List Value} {i : Nat} {w : Value}
    (hw : (keepAll olds vs)[i]? = some w) : ∃ v, vs[i]? = some v ∧
      (w = v ∧ olds[i]? = none ∨ ∃ old, olds[i]? = some old ∧ w = keepInstances old v) := by
  induction olds generalizing vs i with
  | nil => exact ⟨w, by cases vs <;> simp_all [keepAll], .inl ⟨rfl, rfl⟩⟩
  | cons old olds ih =>
    cases vs with
    | nil => simp [keepAll] at hw
    | cons v vs =>
      rw [keepAll] at hw
      cases i with
      | zero =>
        cases hw
        exact ⟨v, rfl, .inr ⟨old, rfl, rfl⟩⟩
      | succ i => exact ih hw

theorem map_fst_keepMembers (olds ms : List (Ident × Value)) :
    (keepMembers olds ms).map (·.1) = ms.map (·.1) := by
  induction olds generalizing ms with
  | nil => cases ms <;> simp [keepMembers]
  | cons old olds ih =>
    obtain ⟨name, old⟩ := old
    cases ms <;> simp [keepMembers, ih]

/-- A member keeps the instances of the old member at its position, if there is one. -/
theorem getElem?_keepMembers {olds ms : List (Ident × Value)} {i : Nat} {w : Ident × Value}
    (hw : (keepMembers olds ms)[i]? = some w) : ∃ m, ms[i]? = some m ∧
      (w.2 = m.2 ∧ olds[i]? = none ∨ ∃ old, olds[i]? = some old ∧ w.2 = keepInstances old.2 m.2) := by
  induction olds generalizing ms i with
  | nil => exact ⟨w, by cases ms <;> simp_all [keepMembers], .inl ⟨rfl, rfl⟩⟩
  | cons old olds ih =>
    obtain ⟨name, old⟩ := old
    cases ms with
    | nil => simp [keepMembers] at hw
    | cons m ms =>
      rw [keepMembers] at hw
      cases i with
      | zero =>
        cases hw
        exact ⟨m, rfl, .inr ⟨(name, old), rfl, rfl⟩⟩
      | succ i => exact ih hw

theorem keepInstances_array (old : Value) (fresh : List Value) :
    keepInstances old (.array fresh) = match old with
      | .array elements => .array (keepAll elements fresh)
      | _ => .array fresh := by
  exact keepInstances.eq_def old (.array fresh)

theorem keepInstances_struct (old : Value) (fresh : List (Ident × Value)) :
    keepInstances old (.struct fresh) = match old with
      | .struct members => .struct (keepMembers members fresh)
      | _ => .struct fresh := by
  exact keepInstances.eq_def old (.struct fresh)

theorem keepInstances_block (old : Value) (fresh : BlockRef) :
    keepInstances old (.block fresh) = match old with
      | .block ref => .block (if ref.block = fresh.block then ref else fresh)
      | _ => .block fresh := by
  exact keepInstances.eq_def old (.block fresh)

/-- A fresh value that keeps the instances of another one inhabits the same type. -/
theorem keepInstances_inhabits (h : t.Inhabits ranged id v) (old : Value) :
    t.Inhabits ranged id (keepInstances old v) := by
  induction h generalizing old with
  | @elementary id d e v hd hkind hv =>
    have hsame : keepInstances old v = v := by
      have hv := hv.kind
      cases v <;> simp_all [keepInstances, Value.kind] <;> cases e <;> simp_all [Elementary.kind, ElementaryKind.valueKind]
    rw [hsame]
    exact .elementary hd hkind hv
  | «alias» hd hkind hparent _ ih => exact .alias hd hkind hparent (ih old)
  | @subrange id d base min max initial b v hd hkind hbase _ hrange ih =>
    refine .subrange hd hkind hbase (ih old) fun hr => ?_
    obtain ⟨i, hi, hlimits⟩ := hrange hr
    have hsame : keepInstances old v = v := by
      cases v <;> simp_all [keepInstances, Value.toInteger]
    rw [hsame]
    exact ⟨i, hi, hlimits⟩
  | enumeration hd hkind hname =>
    rw [keepInstances]
    · exact .enumeration hd hkind hname
    all_goals simp
  | array hd hkind helement hlength hsize hvs ih =>
    rw [keepInstances_array]
    split
    · refine .array hd hkind helement (by rw [length_keepAll, hlength]) hsize fun w hw => ?_
      obtain ⟨i, hw⟩ := List.mem_iff_getElem?.mp hw
      obtain ⟨v, hv, ⟨rfl, -⟩ | ⟨old, -, rfl⟩⟩ := getElem?_keepAll hw
      · exact hvs w (List.mem_of_getElem? hv)
      · exact ih v (List.mem_of_getElem? hv) old
    · exact .array hd hkind helement hlength hsize hvs
  | struct hd hkind hnames htypes hms ih =>
    rw [keepInstances_struct]
    split
    · refine .struct hd hkind (by rw [map_fst_keepMembers, hnames]) htypes fun i m w e hm hw he => ?_
      obtain ⟨m', hm', ⟨hw, -⟩ | ⟨old, -, hw⟩⟩ := getElem?_keepMembers hw
      · rw [hw]
        exact hms i m m' e hm hm' he
      · rw [hw]
        exact ih i m m' e hm hm' he old.2
    · exact .struct hd hkind hnames htypes hms
  | @block id d pou ref hd hkind href =>
    rw [keepInstances_block]
    split
    · refine .block hd hkind ?_
      split
      · next h => rw [h, href]
      · exact href
    · exact .block hd hkind href

/-- Where both values inhabit a type, every function block of the fresh one keeps an instance of the old one. -/
theorem keepInstances_proper {bound' : BlockRef → Prop} {old : Value} (h : t.Inhabits ranged id v)
    (hold : t.Inhabits ranged id old) (hv : v.Proper bound') (hproper : old.Proper bound) :
    (keepInstances old v).Proper bound := by
  induction h generalizing old with
  | @elementary id d e v hd hkind hstores =>
    have hkindv := hstores.kind
    cases v <;> simp_all [keepInstances, Value.Proper] <;>
      cases e <;> simp_all [Elementary.kind, ElementaryKind.valueKind, Value.kind]
  | «alias» hd hkind hparent _ ih =>
    cases hold with
    | «alias» hd' hkind' hparent' hold =>
      cases hd.symm.trans hd'
      cases hkind.symm.trans hkind'
      cases hparent.symm.trans hparent'
      exact ih hold hv hproper
    | _ => simp_all
  | subrange hd hkind hbase _ _ ih =>
    cases hold with
    | subrange hd' hkind' hbase' hold _ =>
      cases hd.symm.trans hd'
      cases hkind.symm.trans hkind'
      cases hbase.symm.trans hbase'
      exact ih hold hv hproper
    | _ => simp_all
  | enumeration hd hkind hname =>
    rw [keepInstances.eq_def]
    trivial
  | array hd hkind helement hlength hsize hvs ih =>
    cases hold with
    | array hd' hkind' helement' hlength' _ holds =>
      cases hd.symm.trans hd'
      cases hkind.symm.trans hkind'
      cases helement.symm.trans helement'
      rw [keepInstances_array]
      refine Value.allProper_iff.mpr fun w hw => ?_
      obtain ⟨i, hw⟩ := List.mem_iff_getElem?.mp hw
      obtain ⟨v, hv', ⟨-, hnone⟩ | ⟨old, hold, rfl⟩⟩ := getElem?_keepAll hw
      · have hlt := (List.getElem?_eq_some_iff.mp hv').1
        have hge := List.getElem?_eq_none_iff.mp hnone
        omega
      · have hmem := List.mem_of_getElem? hold
        have hmem' := List.mem_of_getElem? hv'
        exact ih v hmem' (holds old hmem) (Value.allProper_iff.mp hv v hmem')
          (Value.allProper_iff.mp hproper old hmem)
    | _ => simp_all
  | @struct id d members ms hd hkind hnames htypes hms ih =>
    cases hold with
    | @struct _ _ _ olds hd' hkind' hnames' _ holds =>
      cases hd.symm.trans hd'
      cases hkind.symm.trans hkind'
      rw [keepInstances_struct]
      refine Value.membersProper_iff.mpr fun w hw => ?_
      obtain ⟨i, hw⟩ := List.mem_iff_getElem?.mp hw
      obtain ⟨m, hm, hcases⟩ := getElem?_keepMembers hw
      have hlength : ms.length = members.length := by simpa using congrArg List.length hnames
      have hlength' : olds.length = members.length := by simpa using congrArg List.length hnames'
      have hlt := (List.getElem?_eq_some_iff.mp hm).1
      obtain ⟨-, hnone⟩ | ⟨old, hold, hw⟩ := hcases
      · have hge := List.getElem?_eq_none_iff.mp hnone
        omega
      · have hdecl : members[i]? = some members[i] := List.getElem?_eq_getElem (hlength ▸ hlt)
        obtain ⟨e, he⟩ := Option.isSome_iff_exists.mp (htypes _ (List.mem_of_getElem? hdecl))
        rw [hw]
        exact ih i _ m e hdecl hm he (holds i _ old e hdecl hold he)
          (Value.membersProper_iff.mp hv m (List.mem_of_getElem? hm))
          (Value.membersProper_iff.mp hproper old (List.mem_of_getElem? hold))
    | _ => simp_all
  | block hd hkind href =>
    cases hold with
    | block hd' hkind' href' =>
      cases hd.symm.trans hd'
      cases hkind.symm.trans hkind'
      rw [keepInstances_block]
      dsimp only
      rwa [if_pos (href'.trans href.symm)]
    | _ => simp_all

/-- What of a value without function blocks holds of it whatever is said of function blocks. -/
theorem proper_of_inhabits {bound' : BlockRef → Prop} (h : t.Inhabits ranged id v)
    (hv : v.Proper bound') (hblocks : v.holdsBlock = false) : v.Proper bound := by
  induction h with
  | @elementary id d e v hd hkind hstores =>
    have hkindv := hstores.kind
    cases v <;> simp_all [Value.Proper, Value.holdsBlock] <;>
      cases e <;> simp_all [Elementary.kind, ElementaryKind.valueKind, Value.kind]
  | «alias» _ _ _ _ ih => exact ih hv hblocks
  | subrange _ _ _ _ _ ih => exact ih hv hblocks
  | enumeration => trivial
  | array _ _ _ _ _ _ ih =>
    rw [Value.holdsBlock, anyHoldsBlock_eq_false] at hblocks
    exact Value.allProper_iff.mpr fun v hmem =>
      ih v hmem (Value.allProper_iff.mp hv v hmem) (hblocks v hmem)
  | @struct id d members ms _ _ hnames htypes _ ih =>
    rw [Value.holdsBlock, anyMemberHoldsBlock_eq_false] at hblocks
    refine Value.membersProper_iff.mpr fun m hmem => ?_
    obtain ⟨i, hm⟩ := List.mem_iff_getElem?.mp hmem
    have hlength : ms.length = members.length := by simpa using congrArg List.length hnames
    have hlt := (List.getElem?_eq_some_iff.mp hm).1
    have hdecl : members[i]? = some members[i] := List.getElem?_eq_getElem (hlength ▸ hlt)
    obtain ⟨e, he⟩ := Option.isSome_iff_exists.mp (htypes _ (List.mem_of_getElem? hdecl))
    exact ih i _ m e hdecl hm he (Value.membersProper_iff.mp hv m hmem) (hblocks m hmem)
  | block => cases hblocks

end TypeTable

end StructuredText
