-- SUMMARY: What it means for a value to inhabit a type, and that what is created for a type inhabits it.
import Mathlib.Data.List.Forall2
import StructuredText.Proofs.Expansion
import StructuredText.Proofs.Magnitude
import StructuredText.Proofs.Replaced

/-!
# Inhabitants of types

A value inhabits a type when it is in the form in which variables of the type store it: within the range of the
type, with every element and every member in its place. Whatever is created for a type inhabits it, and an
inhabitant is created again from itself.
-/

namespace StructuredText

-- ---------------------------------------------------------------------------
-- Proper values
-- ---------------------------------------------------------------------------

mutual

/-- The integers in the value fit 128 bits, and its function blocks have the property. -/
def Value.Proper (bound : BlockRef → Prop) : Value → Prop
  | .integer i => FitsInteger i
  | .block ref => bound ref
  | .array elements => AllProper bound elements
  | .struct members => MembersProper bound members
  | .arrayInit items => ItemsProper bound items
  | _ => True

def Value.AllProper (bound : BlockRef → Prop) : List Value → Prop
  | [] => True
  | v :: vs => v.Proper bound ∧ AllProper bound vs

def Value.MembersProper (bound : BlockRef → Prop) : List (Ident × Value) → Prop
  | [] => True
  | (_, v) :: rest => v.Proper bound ∧ MembersProper bound rest

def Value.ItemsProper (bound : BlockRef → Prop) : List (Nat × Value) → Prop
  | [] => True
  | (_, v) :: rest => v.Proper bound ∧ ItemsProper bound rest

end

namespace Value

variable {bound : BlockRef → Prop}

theorem allProper_iff {vs : List Value} : AllProper bound vs ↔ ∀ v ∈ vs, v.Proper bound := by
  induction vs with
  | nil => simp [AllProper]
  | cons v vs ih => simp [AllProper, ih]

theorem membersProper_iff {ms : List (Ident × Value)} :
    MembersProper bound ms ↔ ∀ m ∈ ms, m.2.Proper bound := by
  induction ms with
  | nil => simp [MembersProper]
  | cons m ms ih => simp [MembersProper, ih]

theorem itemsProper_iff {items : List (Nat × Value)} :
    ItemsProper bound items ↔ ∀ item ∈ items, item.2.Proper bound := by
  induction items with
  | nil => simp [ItemsProper]
  | cons item items ih => simp [ItemsProper, ih]

end Value

/-- The values that the declaration of a type mentions. -/
def TypeKind.initials : TypeKind → List Value
  | .alias _ initial | .array _ _ initial => initial.toList
  | .subrange _ min _ initial => .integer min :: initial.toList
  | .struct members => members.filterMap (·.initial)
  | .elementary _ | .enumeration .. | .block _ => []

/-- The kind of the values that an elementary type stores. -/
def ElementaryKind.valueKind : ElementaryKind → ValueKind
  | .bool => .bool
  | .integer .. => .integer
  | .bits => .bits
  | .real => .real
  | .string => .string
  | .duration => .duration
  | .date => .date
  | .timeOfDay => .timeOfDay
  | .dateAndTime => .dateAndTime

/-- The value is in the form that the type stores and, if ranges count, one that it can hold. -/
structure Elementary.Stores (ranged : Prop) (e : Elementary) (v : Value) : Prop where
  kind : v.kind = e.kind.valueKind
  range : ranged → e.canHold v = .ok () ∧ e.coerce v = v

theorem Elementary.Stores.mono {ranged ranged' : Prop} (hr : ranged' → ranged) {e : Elementary}
    {v : Value} (h : e.Stores ranged v) : e.Stores ranged' v := ⟨h.kind, fun h' => h.range (hr h')⟩

namespace TypeTable

/-- The initial values of all types are proper. -/
def Proper (t : TypeTable) (bound : BlockRef → Prop) : Prop :=
  ∀ id d, t.get? id = some d → ∀ v ∈ d.kind.initials, v.Proper bound

/-- The members of every structure have names of their own. -/
def DistinctMembers (t : TypeTable) : Prop :=
  ∀ id d members, t.get? id = some d → d.kind = .struct members →
    members.Pairwise fun a b => a.name.key ≠ b.name.key

-- ---------------------------------------------------------------------------
-- Inhabitants
-- ---------------------------------------------------------------------------

/--
The value is in the form in which variables of the type store it. Whether it is also within the ranges of the
types is counted only if they are.
-/
inductive Inhabits (t : TypeTable) (ranged : Prop) : TypeId → Value → Prop
  | elementary {id d e v} (hd : t.get? id = some d) (hkind : d.kind = .elementary e)
    (hv : e.Stores ranged v) : Inhabits t ranged id v
  | alias {id d parent initial p v} (hd : t.get? id = some d)
    (hkind : d.kind = .alias parent initial) (hparent : parent.id? = some p)
    (h : Inhabits t ranged p v) : Inhabits t ranged id v
  | subrange {id d base min max initial b v} (hd : t.get? id = some d)
    (hkind : d.kind = .subrange base min max initial) (hbase : base.id? = some b)
    (h : Inhabits t ranged b v)
    (hrange : ranged → ∃ i, v.toInteger = .ok i ∧ min ≤ i ∧ i ≤ max) : Inhabits t ranged id v
  | enumeration {id d values initial name} (hd : t.get? id = some d)
    (hkind : d.kind = .enumeration values initial)
    (hname : values.find? (· == name) = some name) : Inhabits t ranged id (.enumeration name)
  | array {id d element dimensions initial e vs} (hd : t.get? id = some d)
    (hkind : d.kind = .array element dimensions initial) (helement : element.id? = some e)
    (hlength : vs.length = Dimension.totalEntries dimensions)
    (hsize : Dimension.totalEntries dimensions ≤ maxElements)
    (h : ∀ v ∈ vs, Inhabits t ranged e v) : Inhabits t ranged id (.array vs)
  | struct {id d members ms} (hd : t.get? id = some d) (hkind : d.kind = .struct members)
    (hnames : ms.map (·.1) = members.map (·.name))
    (htypes : ∀ m ∈ members, m.type.id?.isSome)
    (h : ∀ (i : Nat) m v e, members[i]? = some m → ms[i]? = some v → m.type.id? = some e →
      Inhabits t ranged e v.2) : Inhabits t ranged id (.struct ms)
  | block {id d pou ref} (hd : t.get? id = some d) (hkind : d.kind = .block pou)
    (href : ref.block = pou) : Inhabits t ranged id (.block ref)

theorem Inhabits.mono {t : TypeTable} {ranged ranged' : Prop} (hr : ranged' → ranged) {id : TypeId}
    {v : Value} (h : t.Inhabits ranged id v) : t.Inhabits ranged' id v := by
  induction h with
  | elementary hd hkind hv => exact .elementary hd hkind (hv.mono hr)
  | «alias» hd hkind hparent _ ih => exact .alias hd hkind hparent ih
  | subrange hd hkind hbase _ hrange ih => exact .subrange hd hkind hbase ih fun h => hrange (hr h)
  | enumeration hd hkind hname => exact .enumeration hd hkind hname
  | array hd hkind helement hlength hsize _ ih => exact .array hd hkind helement hlength hsize ih
  | struct hd hkind hnames htypes _ ih => exact .struct hd hkind hnames htypes ih
  | block hd hkind href => exact .block hd hkind href

-- ---------------------------------------------------------------------------
-- Creating values of one kind of type
-- ---------------------------------------------------------------------------

theorem get_eq_ok {t : TypeTable} {id : TypeId} {d : TypeDecl} :
    t.get id = .ok d ↔ t.get? id = some d := by
  unfold get
  cases t.get? id <;> simp

theorem ref_id_eq_ok {r : TypeRef} {id : TypeId} : r.id = .ok id ↔ r.id? = some id := by
  unfold TypeRef.id
  cases r.id? <;> simp

variable {t : TypeTable} {id : TypeId} {d : TypeDecl} {depth : Nat} {init : Option Value}

section

variable (hd : t.get? id = some d)

include hd

theorem createWithin_elementary {e : Elementary} (hkind : d.kind = .elementary e) :
    t.createWithin (depth + 1) id init = match init with
      | some v => do
        e.canHold v
        pure (e.coerce v)
      | none => .ok e.defaultValue := by
  rw [createWithin]
  simp only [get_eq_ok.mpr hd, Except.ok_bind, hkind]
  rfl

theorem createWithin_alias {parent : TypeRef} {initial : Option Value} {p : TypeId}
    (hkind : d.kind = .alias parent initial) (hparent : parent.id? = some p) :
    t.createWithin (depth + 1) id init = t.createWithin depth p (init <|> initial) := by
  rw [createWithin]
  simp only [get_eq_ok.mpr hd, Except.ok_bind, hkind, ref_id_eq_ok.mpr hparent]

theorem createWithin_subrange {base : TypeRef} {min max : Int} {initial : Option Value} {b : TypeId}
    {v : Value} (hkind : d.kind = .subrange base min max initial) (hbase : base.id? = some b) :
    t.createWithin (depth + 1) id init = .ok v ↔
      t.createWithin depth b (some ((init <|> initial).getD (.integer min))) = .ok v ∧
        ∃ i, v.toInteger = .ok i ∧ min ≤ i ∧ i ≤ max := by
  rw [createWithin]
  simp only [get_eq_ok.mpr hd, Except.ok_bind, hkind, ref_id_eq_ok.mpr hbase]
  constructor
  · intro h
    obtain ⟨w, hw, h⟩ := Except.bind_eq_ok.mp h
    obtain ⟨i, hi, h⟩ := Except.bind_eq_ok.mp h
    split at h
    · cases h
    · next hrange =>
      cases h
      simp only [Bool.or_eq_true, decide_eq_true_eq, not_or, Int.not_lt] at hrange
      exact ⟨hw, i, hi, hrange.1, hrange.2⟩
  · rintro ⟨hv, i, hi, hmin, hmax⟩
    simp only [hv, Except.ok_bind, hi]
    rw [if_neg (by simp [hmin, hmax])]
    rfl

theorem createWithin_enumeration {values : List Ident} {initial : Option Ident} {v : Value}
    (hkind : d.kind = .enumeration values initial) (h : t.createWithin (depth + 1) id init = .ok v) :
    ∃ chosen, chooseValue d.name values chosen = .ok v := by
  rw [createWithin] at h
  simp only [get_eq_ok.mpr hd, Except.ok_bind, hkind] at h
  split at h
  · exact ⟨_, h⟩
  · cases h
  · exact ⟨_, h⟩
  · split at h
    · exact ⟨_, h⟩
    · cases h

theorem createWithin_some_enumeration {values : List Ident} {initial : Option Ident} {name : Ident}
    (hkind : d.kind = .enumeration values initial) :
    t.createWithin (depth + 1) id (some (.enumeration name)) = chooseValue d.name values name := by
  rw [createWithin]
  simp only [get_eq_ok.mpr hd, Except.ok_bind, hkind]

theorem createWithin_block {pou : Nat} {v : Value} (hkind : d.kind = .block pou)
    (h : t.createWithin (depth + 1) id init = .ok v) :
    ∃ ref, v = .block ref ∧ ref.block = pou ∧ (init = none ∧ ref = ⟨pou, none⟩ ∨ init = some (.block ref)) := by
  rw [createWithin] at h
  simp only [get_eq_ok.mpr hd, Except.ok_bind, hkind] at h
  split at h
  · cases h
    exact ⟨_, rfl, rfl, .inl ⟨rfl, rfl⟩⟩
  · next ref =>
    split at h
    · next href =>
      cases h
      exact ⟨ref, rfl, href, .inr rfl⟩
    · cases h
  · cases h

theorem createWithin_some_block {pou : Nat} {ref : BlockRef} (hkind : d.kind = .block pou)
    (href : ref.block = pou) :
    t.createWithin (depth + 1) id (some (.block ref)) = .ok (.block ref) := by
  rw [createWithin]
  simp only [get_eq_ok.mpr hd, Except.ok_bind, hkind, href, if_true]
  rfl

theorem createWithin_some_array {element : TypeRef} {dimensions : List Dimension}
    {initial : Option Value} {e : TypeId} {vs : List Value}
    (hkind : d.kind = .array element dimensions initial) (helement : element.id? = some e)
    (hsize : Dimension.totalEntries dimensions ≤ maxElements)
    (hlength : vs.length = Dimension.totalEntries dimensions) :
    t.createWithin (depth + 1) id (some (.array vs)) =
      (do pure (.array (← vs.mapM fun v => t.createWithin depth e (some v)))) := by
  rw [createWithin]
  simp only [get_eq_ok.mpr hd, Except.ok_bind, hkind, ref_id_eq_ok.mpr helement]
  have hinit : (some (Value.array vs) <|> initial) = some (.array vs) := rfl
  rw [if_neg (Nat.not_lt.mpr hsize)]
  simp only [hinit, hlength, ne_eq, not_true_eq_false, if_false]

/-- The elements that an array is created with are created from initial values of their own. -/
theorem createWithin_array {element : TypeRef} {dimensions : List Dimension} {initial : Option Value}
    {v : Value} (hkind : d.kind = .array element dimensions initial)
    (h : t.createWithin (depth + 1) id init = .ok v) :
    ∃ e vs, element.id? = some e ∧ v = .array vs ∧
      Dimension.totalEntries dimensions ≤ maxElements ∧
      vs.length = Dimension.totalEntries dimensions ∧
      ((∃ w, (init <|> initial) = none ∧ t.createWithin depth e none = .ok w ∧ ∀ v ∈ vs, v = w) ∨
        ∃ inits, List.Forall₂ (fun i v => t.createWithin depth e (some i) = .ok v) inits vs ∧
          ((init <|> initial) = some (.array inits) ∨
            ∃ items, (init <|> initial) = some (.arrayInit items) ∧
              Dimension.expand dimensions items = .ok inits)) := by
  rw [createWithin] at h
  simp only [get_eq_ok.mpr hd, Except.ok_bind, hkind] at h
  obtain ⟨e, he, h⟩ := Except.bind_eq_ok.mp h
  refine ⟨e, ?_⟩
  rw [ref_id_eq_ok.mp he]
  split at h
  · cases h
  · next hsize =>
    have hsize := Nat.not_lt.mp hsize
    split at h
    · next hnone =>
      obtain ⟨w, hw, h⟩ := Except.bind_eq_ok.mp h
      cases h
      exact ⟨_, rfl, rfl, hsize, List.length_replicate,
        .inl ⟨w, hnone, hw, fun v hv => List.eq_of_mem_replicate hv⟩⟩
    · next items hitems =>
      obtain ⟨inits, hinits, h⟩ := Except.bind_eq_ok.mp h
      obtain ⟨vs, hvs, h⟩ := Except.bind_eq_ok.mp h
      cases h
      have hall := List.mapM_eq_ok.mp hvs
      refine ⟨vs, rfl, rfl, hsize, ?_, .inr ⟨inits, hall, .inr ⟨items, hitems, hinits⟩⟩⟩
      rw [← hall.length_eq, Dimension.length_of_expand hsize hinits]
    · next inits hinits =>
      split at h
      · cases h
      · next hlength =>
        obtain ⟨vs, hvs, h⟩ := Except.bind_eq_ok.mp h
        cases h
        have hall := List.mapM_eq_ok.mp hvs
        refine ⟨vs, rfl, rfl, hsize, ?_, .inr ⟨inits, hall, .inl hinits⟩⟩
        rw [← hall.length_eq, not_not.mp hlength]
    · cases h

/-- The members that a structure is created with are created from initial values of their own. -/
theorem createWithin_struct {members : List StructMember} {v : Value}
    (hkind : d.kind = .struct members) (h : t.createWithin (depth + 1) id init = .ok v) :
    ∃ ms, v = .struct ms ∧ List.Forall₂ (fun m nv => nv.1 = m.name ∧
      ∃ e i, m.type.id? = some e ∧ t.createWithin depth e i = .ok nv.2 ∧
        (init = none ∧ i = m.initial ∨
          ∃ supplied named x, init = some (.struct supplied) ∧ (named, x) ∈ supplied ∧ i = some x))
      members ms := by
  rw [createWithin] at h
  simp only [get_eq_ok.mpr hd, Except.ok_bind, hkind] at h
  split at h
  · obtain ⟨ms, hms, h⟩ := Except.bind_eq_ok.mp h
    cases h
    refine ⟨ms, rfl, (List.mapM_eq_ok.mp hms).imp fun m nv hm => ?_⟩
    obtain ⟨e, he, hm⟩ := Except.bind_eq_ok.mp hm
    obtain ⟨w, hw, hm⟩ := Except.bind_eq_ok.mp hm
    cases hm
    exact ⟨rfl, e, _, ref_id_eq_ok.mp he, hw, .inl ⟨rfl, rfl⟩⟩
  · next supplied =>
    split at h
    · cases h
    · obtain ⟨ms, hms, h⟩ := Except.bind_eq_ok.mp h
      cases h
      refine ⟨ms, rfl, (List.mapM_eq_ok.mp hms).imp fun m nv hm => ?_⟩
      split at hm
      · next named x hfind =>
        obtain ⟨e, he, hm⟩ := Except.bind_eq_ok.mp hm
        obtain ⟨w, hw, hm⟩ := Except.bind_eq_ok.mp hm
        cases hm
        have hmem := List.mem_of_find?_eq_some hfind
        exact ⟨rfl, e, _, ref_id_eq_ok.mp he, hw, .inr ⟨supplied, named, x, rfl, hmem, rfl⟩⟩
      · cases hm
  · cases h

end
end TypeTable

-- ---------------------------------------------------------------------------
-- Elementary types
-- ---------------------------------------------------------------------------

namespace BitString

theorem ofNat_value (width value : Nat) :
    ofNat width (ofNat width value).value = ofNat width value := by
  simp [ofNat]

theorem value_le_maxValue {b : BitString} {width : Nat} (h : b.width = width) :
    b.value ≤ maxValue width := by
  have hfits := b.fits
  subst h
  unfold maxValue
  omega

end BitString

namespace Elementary

/-- What an elementary type makes of a value that it can hold is what it stores. -/
theorem stores_coerce {e : Elementary} {v : Value} {bound : BlockRef → Prop} (hv : v.Proper bound)
    (h : e.canHold v = .ok ()) : e.Stores True (e.coerce v) := by
  have hwidth (n : Nat) : (BitString.ofNat e.bits n).value ≤ BitString.maxValue e.bits :=
    BitString.value_le_maxValue rfl
  cases hkind : e.kind with
  | real =>
    cases v with
    | integer i =>
      have hreal : e.coerce (.integer i) = .real (Binary64.ofInt i) := by simp [coerce, hkind]
      rw [hreal]
      exact ⟨by rw [hkind]; rfl, fun _ => ⟨canHold_ofInt e hv hkind, by simp [coerce, hkind]⟩⟩
    | real x => exact ⟨by simp [coerce, hkind]; rfl, fun _ => ⟨by simp_all [coerce], by simp [coerce, hkind]⟩⟩
    | _ => simp [canHold, hkind] at h
  | bits =>
    cases v with
    | integer i =>
      refine ⟨by simp [coerce, hkind]; rfl, fun _ => ?_⟩
      simp [canHold, coerce, hkind, hwidth, BitString.ofNat_value]
    | bits b =>
      refine ⟨by simp [coerce, hkind]; rfl, fun _ => ?_⟩
      simp [canHold, coerce, hkind, hwidth, BitString.ofNat_value]
    | _ => simp [canHold, hkind] at h
  | _ =>
    have hform : e.coerce v = v := by simp [coerce, hkind]
    rw [hform]
    refine ⟨?_, fun _ => ⟨h, hform⟩⟩
    cases v <;> simp_all [canHold, Value.kind, ElementaryKind.valueKind]

theorem stores_defaultValue (e : Elementary) : e.Stores True e.defaultValue := by
  have hzero : ¬ (0 : Float).abs > largestReal := by decide +kernel
  refine ⟨by cases e <;> rfl, fun _ => ?_⟩
  cases e <;> simp [defaultValue, kind, canHold, coerce, hzero, BitString.ofNat] <;> decide

theorem coerce_proper {e : Elementary} {v : Value} {bound : BlockRef → Prop} (hv : v.Proper bound) :
    (e.coerce v).Proper bound := by
  unfold coerce
  split
  · trivial
  · trivial
  · trivial
  · exact hv

theorem defaultValue_proper (e : Elementary) (bound : BlockRef → Prop) :
    e.defaultValue.Proper bound := by
  have hfits : FitsInteger 0 := by decide
  cases e <;> simp [defaultValue, kind, Value.Proper, hfits]

end Elementary

namespace TypeTable

variable {t : TypeTable} {id : TypeId} {d : TypeDecl} {depth : Nat} {init : Option Value}
  {bound : BlockRef → Prop}

-- ---------------------------------------------------------------------------
-- What is created inhabits its type
-- ---------------------------------------------------------------------------

theorem get?_of_createWithin {v : Value} (h : t.createWithin (depth + 1) id init = .ok v) :
    ∃ d, t.get? id = some d := by
  rw [createWithin] at h
  obtain ⟨d, hd, -⟩ := Except.bind_eq_ok.mp h
  exact ⟨d, get_eq_ok.mp hd⟩

theorem find?_of_chooseValue {type chosen : Ident} {values : List Ident} {v : Value}
    (h : chooseValue type values chosen = .ok v) :
    ∃ name, v = .enumeration name ∧ values.find? (· == name) = some name := by
  unfold chooseValue at h
  split at h
  · next name hname =>
    cases h
    refine ⟨name, rfl, ?_⟩
    have hsome := List.find?_some hname
    have hkey : name.key = chosen.key := Ident.beq_iff.mp hsome
    have hsame : (fun i : Ident => i == name) = fun i => i == chosen := by
      funext i
      simp only [BEq.beq, hkey]
    rw [hsame]
    exact hname
  · cases h

/-- What an initial value or else the initial value of the type is. -/
theorem orElse_proper {initial : Option Value} (hinit : ∀ x, init = some x → x.Proper bound)
    (hinitial : ∀ x, initial = some x → x.Proper bound) :
    ∀ x, (init <|> initial) = some x → x.Proper bound := by
  cases init with
  | none => exact hinitial
  | some x => exact hinit

theorem parent_of_createWithin (hd : t.get? id = some d) {parent : TypeRef} {initial : Option Value}
    {v : Value} (hkind : d.kind = .alias parent initial)
    (h : t.createWithin (depth + 1) id init = .ok v) : ∃ p, parent.id? = some p := by
  rw [createWithin] at h
  simp only [get_eq_ok.mpr hd, Except.ok_bind, hkind] at h
  obtain ⟨p, hp, -⟩ := Except.bind_eq_ok.mp h
  exact ⟨p, ref_id_eq_ok.mp hp⟩

theorem base_of_createWithin (hd : t.get? id = some d) {base : TypeRef} {min max : Int}
    {initial : Option Value} {v : Value} (hkind : d.kind = .subrange base min max initial)
    (h : t.createWithin (depth + 1) id init = .ok v) : ∃ b, base.id? = some b := by
  rw [createWithin] at h
  simp only [get_eq_ok.mpr hd, Except.ok_bind, hkind] at h
  obtain ⟨b, hb, -⟩ := Except.bind_eq_ok.mp h
  exact ⟨b, ref_id_eq_ok.mp hb⟩

/-- What every step of a fold keeps, the fold keeps. -/
theorem foldlM_keeps {α β : Type} {f : β → α → Except ValueError β} {P : β → Prop} {items : List α}
    {start out : β} (hstart : P start)
    (hf : ∀ item ∈ items, ∀ out out', P out → f out item = .ok out' → P out')
    (h : items.foldlM f start = .ok out) : P out := by
  induction items generalizing start with
  | nil =>
    cases h
    exact hstart
  | cons item items ih =>
    rw [List.foldlM_cons] at h
    obtain ⟨next, hnext, h⟩ := Except.bind_eq_ok.mp h
    have hP := hf item List.mem_cons_self start next hstart hnext
    exact ih hP (fun item hitem => hf item (List.mem_cons_of_mem _ hitem)) h

theorem expand_proper {dimensions : List Dimension} {items : List (Nat × Value)} {vs : List Value}
    (hitems : ∀ item ∈ items, item.2.Proper bound)
    (h : Dimension.expand dimensions items = .ok vs) : ∀ v ∈ vs, v.Proper bound := by
  induction dimensions generalizing items vs with
  | nil =>
    rw [Dimension.expand.eq_def] at h
    simp only at h
    obtain ⟨-, h⟩ := Except.ite_error_eq_ok.mp h
    cases h
    intro v hv
    obtain ⟨item, hitem, hv⟩ := List.mem_flatMap.mp hv
    rw [List.eq_of_mem_replicate hv]
    exact hitems item hitem
  | cons d rest ih =>
    rw [Dimension.expand.eq_def] at h
    simp only at h
    obtain ⟨-, h⟩ := Except.ite_error_eq_ok.mp h
    split at h
    · next heq =>
      cases heq
      refine foldlM_keeps (P := fun out => ∀ v ∈ out, v.Proper bound) (by simp) ?_ h
      intro item hitem out out' hout hf v hv
      have hproper := hitems item hitem
      split at hf
      · next inner hinner =>
        split at hf
        · cases hf
          exact hout v hv
        · obtain ⟨row, hrow, hf⟩ := Except.bind_eq_ok.mp hf
          cases hf
          rcases List.mem_append.mp hv with hv | hv
          · exact hout v hv
          · obtain ⟨vs, hvs, hv⟩ := List.mem_flatten.mp hv
            rw [List.eq_of_mem_replicate hvs] at hv
            rw [hinner] at hproper
            exact ih (Value.itemsProper_iff.mp hproper) hrow v hv
      · cases hf
        rcases List.mem_append.mp hv with hv | hv
        · exact hout v hv
        · rw [List.eq_of_mem_replicate hv]
          exact hproper
    · cases h
      intro v hv
      obtain ⟨item, hitem, hv⟩ := List.mem_flatMap.mp hv
      rw [List.eq_of_mem_replicate hv]
      exact hitems item hitem

theorem exists_of_mem_right {α β : Type} {R : α → β → Prop} {as : List α} {bs : List β} {b : β}
    (h : List.Forall₂ R as bs) (hb : b ∈ bs) : ∃ a ∈ as, R a b := by
  induction h with
  | nil => cases hb
  | cons hab _ ih =>
    rcases List.mem_cons.mp hb with rfl | hb
    · exact ⟨_, List.mem_cons_self, hab⟩
    · obtain ⟨a, ha, hab⟩ := ih hb
      exact ⟨a, List.mem_cons_of_mem _ ha, hab⟩

theorem exists_of_mem_left {α β : Type} {R : α → β → Prop} {as : List α} {bs : List β} {a : α}
    (h : List.Forall₂ R as bs) (ha : a ∈ as) : ∃ b ∈ bs, R a b := by
  induction h with
  | nil => cases ha
  | cons hab _ ih =>
    rcases List.mem_cons.mp ha with rfl | ha
    · exact ⟨_, List.mem_cons_self, hab⟩
    · obtain ⟨b, hb, hab⟩ := ih ha
      exact ⟨b, List.mem_cons_of_mem _ hb, hab⟩

theorem forall₂_and_mem {α β : Type} {R : α → β → Prop} {as : List α} {bs : List β}
    (h : List.Forall₂ R as bs) : List.Forall₂ (fun a b => a ∈ as ∧ R a b) as bs := by
  induction h with
  | nil => exact .nil
  | cons hab _ ih =>
    refine .cons ⟨List.mem_cons_self, hab⟩ (ih.imp fun a b h => ?_)
    exact ⟨List.mem_cons_of_mem _ h.1, h.2⟩

theorem forall₂_getElem? {α β : Type} {R : α → β → Prop} {as : List α} {bs : List β}
    (h : List.Forall₂ R as bs) {i : Nat} {a : α} {b : β} (ha : as[i]? = some a)
    (hb : bs[i]? = some b) : R a b := by
  induction h generalizing i with
  | nil => cases ha
  | cons hab _ ih =>
    cases i with
    | zero =>
      cases ha
      cases hb
      exact hab
    | succ i => exact ih ha hb

theorem exists_getElem?_of_forall₂ {α β : Type} {R : α → β → Prop} {as : List α} {bs : List β}
    (h : List.Forall₂ R as bs) {i : Nat} {a : α} (ha : as[i]? = some a) : ∃ b, bs[i]? = some b ∧ R a b := by
  obtain ⟨hlt, -⟩ := List.getElem?_eq_some_iff.mp ha
  have hb := List.getElem?_eq_getElem (h.length_eq ▸ hlt)
  exact ⟨_, hb, forall₂_getElem? h ha hb⟩

/-- What related items have in common, the lists of them have, too. -/
theorem map_eq_of_forall₂ {α β γ : Type} {R : α → β → Prop} {f : α → γ} {g : β → γ} (hR : ∀ a b, R a b → g b = f a)
    {as : List α} {bs : List β} (h : List.Forall₂ R as bs) : bs.map g = as.map f := by
  rw [← List.forall₂_eq_eq_eq, List.forall₂_map_left_iff, List.forall₂_map_right_iff]
  exact h.flip.imp fun b a => hR a b

/-- Inhabitants of the members, in order and under their names, make up a structure. -/
theorem inhabits_struct {ranged : Prop} (hd : t.get? id = some d) {members : List StructMember}
    {ms : List (Ident × Value)} (hkind : d.kind = .struct members)
    (h : List.Forall₂ (fun m nv => nv.1 = m.name ∧
      ∃ e, m.type.id? = some e ∧ t.Inhabits ranged e nv.2) members ms) :
    t.Inhabits ranged id (.struct ms) := by
  refine .struct hd hkind ?_ ?_ ?_
  · clear hkind
    induction h with
    | nil => rfl
    | cons hm _ ih => simp [hm.1, ih]
  · intro m hm
    clear hkind
    induction h with
    | nil => cases hm
    | cons hfirst _ ih =>
      rcases List.mem_cons.mp hm with rfl | hm
      · obtain ⟨-, e, he, -⟩ := hfirst
        simp [he]
      · exact ih hm
  · intro i m nv e hm hnv he
    obtain ⟨-, e', he', hv⟩ := forall₂_getElem? h hm hnv
    rw [he] at he'
    cases he'
    exact hv

/-- What is created for a type inhabits it. -/
theorem inhabits_of_createWithin (ht : t.Proper bound) (hfresh : ∀ pou, bound ⟨pou, none⟩) {v : Value}
    (hinit : ∀ x, init = some x → x.Proper bound) (h : t.createWithin depth id init = .ok v) :
    t.Inhabits True id v ∧ v.Proper bound := by
  induction depth generalizing id init v with
  | zero => cases h
  | succ depth ih =>
    obtain ⟨d, hd⟩ := get?_of_createWithin h
    have hinitials := ht id d hd
    cases hkind : d.kind with
    | elementary e =>
      rw [createWithin_elementary hd hkind] at h
      cases init with
      | none =>
        cases h
        exact ⟨.elementary hd hkind e.stores_defaultValue, e.defaultValue_proper bound⟩
      | some x =>
        obtain ⟨_, hhold, h⟩ := Except.bind_eq_ok.mp h
        cases h
        have hx := hinit x rfl
        exact ⟨.elementary hd hkind (Elementary.stores_coerce hx hhold), Elementary.coerce_proper hx⟩
    | «alias» parent initial =>
      have hinitial : ∀ x, initial = some x → x.Proper bound := by
        intro x hx
        exact hinitials x (by simp [hkind, TypeKind.initials, hx])
      obtain ⟨p, hp⟩ := parent_of_createWithin hd hkind h
      rw [createWithin_alias hd hkind hp] at h
      obtain ⟨hv, hproper⟩ := ih (orElse_proper hinit hinitial) h
      exact ⟨.alias hd hkind hp hv, hproper⟩
    | subrange base min max initial =>
      have hinitial : ∀ x, initial = some x → x.Proper bound := by
        intro x hx
        exact hinitials x (by simp [hkind, TypeKind.initials, hx])
      obtain ⟨b, hb⟩ := base_of_createWithin hd hkind h
      obtain ⟨h, i, hi, hmin, hmax⟩ := (createWithin_subrange hd hkind hb).mp h
      have hor := orElse_proper hinit hinitial
      have hstart : ((init <|> initial).getD (.integer min)).Proper bound := by
        cases hstart : (init <|> initial) with
        | none => exact hinitials (.integer min) (by simp [hkind, TypeKind.initials])
        | some x => exact hor x hstart
      obtain ⟨hv, hproper⟩ := ih (fun x hx => by cases hx; exact hstart) h
      exact ⟨.subrange hd hkind hb hv fun _ => ⟨i, hi, hmin, hmax⟩, hproper⟩
    | enumeration values initial =>
      obtain ⟨chosen, h⟩ := createWithin_enumeration hd hkind h
      obtain ⟨name, rfl, hname⟩ := find?_of_chooseValue h
      exact ⟨.enumeration hd hkind hname, trivial⟩
    | array element dimensions initial =>
      have hinitial : ∀ x, initial = some x → x.Proper bound := by
        intro x hx
        exact hinitials x (by simp [hkind, TypeKind.initials, hx])
      have hor := orElse_proper hinit hinitial
      obtain ⟨e, vs, he, rfl, hsize, hlength, hvs⟩ := createWithin_array hd hkind h
      have hall : ∀ v ∈ vs, t.Inhabits True e v ∧ v.Proper bound := by
        intro v hv
        rcases hvs with ⟨w, -, hw, hvs⟩ | ⟨inits, hinits, hfrom⟩
        · rw [hvs v hv]
          exact ih (by simp) hw
        · have hproper : ∀ x ∈ inits, x.Proper bound := by
            rcases hfrom with hfrom | ⟨items, hitems, hexpand⟩
            · exact Value.allProper_iff.mp (hor _ hfrom)
            · exact expand_proper (Value.itemsProper_iff.mp (hor _ hitems)) hexpand
          obtain ⟨x, hx, hv⟩ := exists_of_mem_right hinits hv
          exact ih (fun y hy => by cases hy; exact hproper x hx) hv
      exact ⟨.array hd hkind he hlength hsize fun v hv => (hall v hv).1,
        Value.allProper_iff.mpr fun v hv => (hall v hv).2⟩
    | struct members =>
      obtain ⟨ms, rfl, hms⟩ := createWithin_struct hd hkind h
      have hmember : List.Forall₂ (fun m nv => nv.1 = m.name ∧
          ∃ e, m.type.id? = some e ∧ t.Inhabits True e nv.2 ∧ nv.2.Proper bound) members ms := by
        refine (forall₂_and_mem hms).imp fun m nv ⟨hm, hname, e, i, he, hv, hfrom⟩ => ?_
        have hi : ∀ x, i = some x → x.Proper bound := by
          rintro x rfl
          rcases hfrom with ⟨-, hi⟩ | ⟨supplied, named, y, rfl, hmem, hi⟩
          · exact hinitials x (by simpa [hkind, TypeKind.initials] using ⟨m, hm, hi.symm⟩)
          · cases hi
            exact Value.membersProper_iff.mp (hinit _ rfl) _ hmem
        exact ⟨hname, e, he, ih hi hv⟩
      refine ⟨inhabits_struct hd hkind ?_, ?_⟩
      · exact hmember.imp fun m nv ⟨hname, e, he, hv, _⟩ => ⟨hname, e, he, hv⟩
      · refine Value.membersProper_iff.mpr fun nv hnv => ?_
        obtain ⟨m, -, -, e, -, -, hproper⟩ := exists_of_mem_right hmember hnv
        exact hproper
    | block pou =>
      obtain ⟨ref, rfl, href, hor⟩ := createWithin_block hd hkind h
      refine ⟨.block hd hkind href, ?_⟩
      rcases hor with ⟨-, rfl⟩ | rfl
      · exact hfresh pou
      · exact hinit _ rfl

/-- What is created from a value holds no other function blocks than the value does. -/
theorem proper_of_createWithin_some {v w : Value} (hv : v.Proper bound)
    (h : t.createWithin depth id (some v) = .ok w) : w.Proper bound := by
  induction depth generalizing id v w with
  | zero => cases h
  | succ depth ih =>
    obtain ⟨d, hd⟩ := get?_of_createWithin h
    cases hkind : d.kind with
    | elementary e =>
      rw [createWithin_elementary hd hkind] at h
      obtain ⟨_, -, h⟩ := Except.bind_eq_ok.mp h
      cases h
      exact Elementary.coerce_proper hv
    | «alias» parent initial =>
      obtain ⟨p, hp⟩ := parent_of_createWithin hd hkind h
      rw [createWithin_alias hd hkind hp] at h
      exact ih hv h
    | subrange base min max initial =>
      obtain ⟨b, hb⟩ := base_of_createWithin hd hkind h
      exact ih hv ((createWithin_subrange hd hkind hb).mp h).1
    | enumeration values initial =>
      obtain ⟨chosen, h⟩ := createWithin_enumeration hd hkind h
      obtain ⟨name, rfl, -⟩ := find?_of_chooseValue h
      trivial
    | array element dimensions initial =>
      obtain ⟨e, vs, -, rfl, -, -, hvs⟩ := createWithin_array hd hkind h
      rcases hvs with ⟨_, hnone, -⟩ | ⟨inits, hinits, hfrom⟩
      · cases hnone
      · have hproper : ∀ x ∈ inits, x.Proper bound := by
          rcases hfrom with hfrom | ⟨items, hitems, hexpand⟩
          · cases hfrom
            exact Value.allProper_iff.mp hv
          · cases hitems
            exact expand_proper (Value.itemsProper_iff.mp hv) hexpand
        refine Value.allProper_iff.mpr fun y hy => ?_
        obtain ⟨x, hx, hy⟩ := exists_of_mem_right hinits hy
        exact ih (hproper x hx) hy
    | struct members =>
      obtain ⟨ms, rfl, hms⟩ := createWithin_struct hd hkind h
      refine Value.membersProper_iff.mpr fun nv hnv => ?_
      obtain ⟨m, -, -, e, i, -, hnv, ⟨hnone, -⟩ | ⟨supplied, named, x, hinit, hmem, rfl⟩⟩ :=
        exists_of_mem_right hms hnv
      · cases hnone
      · cases hinit
        exact ih (Value.membersProper_iff.mp hv _ hmem) hnv
    | block pou =>
      obtain ⟨ref, rfl, -, hor⟩ := createWithin_block hd hkind h
      rcases hor with ⟨hnone, -⟩ | hinit
      · cases hnone
      · cases hinit
        exact hv

end TypeTable

end StructuredText
