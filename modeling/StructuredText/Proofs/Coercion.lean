-- SUMMARY: What is created for a type is well formed, and a well-formed value is left as it is when it is converted.
import StructuredText.Proofs.Compatible
import StructuredText.Proofs.LinkedTables
import StructuredText.Proofs.Parsed
import StructuredText.Proofs.Positions
import StructuredText.Proofs.Stable

/-!
# Well-formed values

What the declaration of a type says about its values: their kinds and ranges, the spelling of enumerated values, how
many elements there are, and which members. For types that have passed their checks these are the inhabitants of the
type. So everything that is created is well formed, and what is well formed is created from itself.
-/

namespace StructuredText

-- ---------------------------------------------------------------------------
-- Elementary types
-- ---------------------------------------------------------------------------

theorem Category.valueKind_of_isInteger {c : Category} (h : c.isInteger = true) :
    c.isNominal = false ∧ c.valueKind = .integer := by
  cases c <;> first | exact ⟨rfl, rfl⟩ | cases h

theorem BitString.ofNat_eq_iff {width : Nat} {b : BitString} : ofNat width b.value = b ↔ b.width = width := by
  constructor
  · exact fun h => (congrArg BitString.width h).symm
  · rintro rfl
    unfold ofNat
    congr
    exact Nat.mod_eq_of_lt b.fits

/-- The value is of the kind of the type, and as wide and within the range as the type says. -/
def Elementary.Represents (e : Elementary) (v : Value) : Prop :=
  match e.kind, v with
  | .integer min max, .integer i => min ≤ i ∧ i ≤ max
  | .bits, .bits b => b.width = e.bits
  | .real, .real x => ¬ (e.bits = 32 ∧ x.isFinite = true ∧ x.abs > largestReal)
  | .bool, .bool _ | .string, .string _ | .duration, .duration _ | .date, .date _ | .timeOfDay, .timeOfDay _
  | .dateAndTime, .dateAndTime _ => True
  | _, _ => False

theorem Elementary.represents_iff {e : Elementary} {v : Value} : e.Represents v ↔ e.Stores True v := by
  have hstores : e.Stores True v ↔ v.kind = e.kind.valueKind ∧ e.canHold v = .ok () ∧ e.coerce v = v :=
    ⟨fun h => ⟨h.kind, h.range trivial⟩, fun h => ⟨h.1, fun _ => h.2⟩⟩
  rw [hstores]
  cases hkind : e.kind with
  | bits =>
    cases v with
    | bits b =>
      have hle : b.width = e.bits → b.value ≤ BitString.maxValue e.bits := BitString.value_le_maxValue
      simp only [Represents, hkind, canHold, coerce, Value.bits.injEq, BitString.ofNat_eq_iff, Value.kind,
        ElementaryKind.valueKind]
      simpa using hle
    | _ => simp [Represents, hkind, Value.kind, ElementaryKind.valueKind]
  | _ => cases v <;> simp [Represents, hkind, canHold, coerce, Value.kind, ElementaryKind.valueKind]

namespace TypeTable

variable {t : TypeTable} {id : TypeId} {d : TypeDecl} {v : Value}

-- ---------------------------------------------------------------------------
-- Declared types
-- ---------------------------------------------------------------------------

/--
The value is one that the declaration of the type describes. Of enumerated values that are declared more than once under
the same name, the first declaration counts.
-/
inductive WellFormed (t : TypeTable) : TypeId → Value → Prop
  | elementary {id d e v} (hd : t.get? id = some d) (hkind : d.kind = .elementary e) (hv : e.Represents v) :
    WellFormed t id v
  | alias {id d parent initial p v} (hd : t.get? id = some d) (hkind : d.kind = .alias parent initial)
    (hparent : parent.id? = some p) (h : WellFormed t p v) : WellFormed t id v
  | subrange {id d base min max initial b i} (hd : t.get? id = some d)
    (hkind : d.kind = .subrange base min max initial) (hbase : base.id? = some b) (h : WellFormed t b (.integer i))
    (hmin : min ≤ i) (hmax : i ≤ max) : WellFormed t id (.integer i)
  | enumeration {id d values initial name} (hd : t.get? id = some d) (hkind : d.kind = .enumeration values initial)
    (hname : values.find? (· == name) = some name) : WellFormed t id (.enumeration name)
  | array {id d element dimensions initial e vs} (hd : t.get? id = some d)
    (hkind : d.kind = .array element dimensions initial) (helement : element.id? = some e)
    (hlength : (vs.length : Int) = Dimension.size dimensions) (h : ∀ v ∈ vs, WellFormed t e v) :
    WellFormed t id (.array vs)
  | struct {id d members ms} (hd : t.get? id = some d) (hkind : d.kind = .struct members)
    (hnames : ms.map (·.1) = members.map (·.name))
    (h : ∀ (i : Nat) m nv e, members[i]? = some m → ms[i]? = some nv → m.type.id? = some e → WellFormed t e nv.2) :
    WellFormed t id (.struct ms)
  | block {id d pou ref} (hd : t.get? id = some d) (hkind : d.kind = .block pou) (href : ref.block = pou) :
    WellFormed t id (.block ref)

namespace Checked

variable (ht : t.Checked) (hd : t.get? id = some d)

include ht hd

theorem storable {element : TypeRef} {dimensions : List Dimension} {initial : Option Value}
    (hkind : d.kind = .array element dimensions initial) : Dimension.Storable dimensions := by
  obtain ⟨v, hv⟩ := ht.created id ⟨d, hd⟩
  obtain ⟨_, _, -, -, hsize, -⟩ := createWithin_array hd hkind hv
  exact Dimension.storable_of_totalEntries (ht.bounds id d element dimensions initial hd hkind) hsize

theorem member_isSome {members : List StructMember} (hkind : d.kind = .struct members) :
    ∀ m ∈ members, m.type.id?.isSome := by
  intro m hm
  obtain ⟨v, hv⟩ := ht.created id ⟨d, hd⟩
  obtain ⟨ms, -, hms⟩ := createWithin_struct hd hkind hv
  obtain ⟨_, -, -, e, _, he, -⟩ := exists_of_mem_left hms hm
  rw [he]
  rfl

/-- The values of the base of a subrange are integers. -/
theorem integer_of_base {base : TypeRef} {min max : Int} {initial : Option Value} {b : TypeId}
    (hkind : d.kind = .subrange base min max initial) (hbase : base.id? = some b) {ranged : Prop}
    (hv : t.Inhabits ranged b v) : ∃ i, v = .integer i := by
  obtain ⟨b', c, hb', hc, hinteger⟩ := ht.bases id d base min max initial hd hkind
  cases hbase.symm.trans hb'
  obtain ⟨hnominal, hkind⟩ := Category.valueKind_of_isInteger hinteger
  have hv : v.kind = .integer := hkind ▸ (inhabits_of_category hc hnominal).mp (hv.mono False.elim)
  cases v with
  | integer i => exact ⟨i, rfl⟩
  | _ => cases hv

end Checked

/-- The well-formed values of a type that has passed its checks are its inhabitants. -/
theorem wellFormed_iff (ht : t.Checked) : t.WellFormed id v ↔ t.Inhabits True id v := by
  constructor
  · intro h
    induction h with
    | elementary hd hkind hv => exact .elementary hd hkind (Elementary.represents_iff.mp hv)
    | «alias» hd hkind hparent _ ih => exact .alias hd hkind hparent ih
    | subrange hd hkind hbase _ hmin hmax ih => exact .subrange hd hkind hbase ih fun _ => ⟨_, rfl, hmin, hmax⟩
    | enumeration hd hkind hname => exact .enumeration hd hkind hname
    | array hd hkind helement hlength _ ih =>
      have hstorable := ht.storable hd hkind
      rw [← hstorable.totalEntries_eq] at hlength
      exact .array hd hkind helement (Int.ofNat.inj hlength) hstorable.totalEntries_le ih
    | struct hd hkind hnames _ ih => exact .struct hd hkind hnames (ht.member_isSome hd hkind) ih
    | block hd hkind href => exact .block hd hkind href
  · intro h
    induction h with
    | elementary hd hkind hv => exact .elementary hd hkind (Elementary.represents_iff.mpr hv)
    | «alias» hd hkind hparent _ ih => exact .alias hd hkind hparent ih
    | subrange hd hkind hbase h hrange ih =>
      obtain ⟨i, rfl⟩ := ht.integer_of_base hd hkind hbase h
      obtain ⟨_, ⟨⟩, hmin, hmax⟩ := hrange trivial
      exact .subrange hd hkind hbase ih hmin hmax
    | enumeration hd hkind hname => exact .enumeration hd hkind hname
    | array hd hkind helement hlength _ _ ih =>
      refine .array hd hkind helement ?_ ih
      rw [hlength, (ht.storable hd hkind).totalEntries_eq]
    | struct hd hkind hnames _ _ ih => exact .struct hd hkind hnames ih
    | block hd hkind href => exact .block hd hkind href

theorem WellFormed.declares (h : t.WellFormed id v) : t.Declares id := by
  cases h <;> exact ⟨_, ‹_›⟩

/-- What is created is well formed. -/
theorem wellFormed_of_create (ht : t.Checked) (hproper : t.Proper fun _ => True) {init : Option Value}
    (hinit : ∀ x, init = some x → x.Proper fun _ => True) (h : t.create id init = .ok v) : t.WellFormed id v :=
  (wellFormed_iff ht).mpr (inhabits_of_createWithin hproper (fun _ => trivial) hinit h).1

/-- A well-formed value is created from itself. -/
theorem coerce_of_wellFormed (ht : t.Checked) (hdistinct : t.DistinctMembers) (h : t.WellFormed id v) :
    t.coerce id v = .ok v := by
  obtain ⟨w, hw⟩ := ht.created id h.declares
  exact coerce_of_inhabits hdistinct hw ((wellFormed_iff ht).mp h)

instance (t : TypeTable) : Decidable t.DistinctMembers :=
  let distinct (kind : TypeKind) : Bool :=
    match kind with
    | .struct members => members.Pairwise fun a b => a.name.key ≠ b.name.key
    | _ => true
  decidable_of_iff (∀ d ∈ t.types.toList, distinct d.kind = true) (by
    constructor
    · intro h id d members hd hkind
      have hmem : d ∈ t.types.toList := Array.mem_toList_iff.mpr (Array.mem_of_getElem? hd)
      simpa [distinct, hkind] using h d hmem
    · intro h d hmem
      obtain ⟨id, hid, hd⟩ := Array.getElem_of_mem (Array.mem_toList_iff.mp hmem)
      cases hkind : d.kind with
      | struct members => simpa [distinct] using h id d members (hd ▸ Array.getElem?_eq_getElem hid) hkind
      | _ => rfl)

end TypeTable

-- ---------------------------------------------------------------------------
-- Linked types
-- ---------------------------------------------------------------------------

/-- The types of a library that is linked from sources have passed their checks, and mention no values out of range. -/
theorem checked_of_parsed {units : List CompilationUnit} {options : Options} {l : Library}
    (hparsed : ∀ unit ∈ units, ∃ source file, parseUnit source file = .ok unit) (h : link units options = .ok l) :
    l.types.Checked ∧ l.types.Proper fun _ => True := by
  have hunits : ∀ unit ∈ units, unit.Fresh := fun unit hunit =>
    let ⟨_, _, hparse⟩ := hparsed unit hunit
    fresh_of_parseUnit hparse
  exact ⟨checked_of_link hunits h, fun id d hd v hv =>
    Value.Plain.proper ((resolved_of_link hunits h).1.initials id d hd v hv)⟩

/-- For the types of a linked library, what is created is well formed, and what is well formed is left as it is. -/
theorem create_wellFormed {units : List CompilationUnit} {options : Options} {l : Library}
    (hparsed : ∀ unit ∈ units, ∃ source file, parseUnit source file = .ok unit) (h : link units options = .ok l)
    (hdistinct : l.types.DistinctMembers) (id : TypeId) :
    (∀ init v, (∀ x, init = some x → x.Proper fun _ => True) → l.types.create id init = .ok v →
      l.types.WellFormed id v ∧ l.types.coerce id v = .ok v) ∧
    ∀ w, l.types.WellFormed id w → l.types.coerce id w = .ok w := by
  obtain ⟨hchecked, hproper⟩ := checked_of_parsed hparsed h
  refine ⟨fun init v hinit hv => ?_, fun w => TypeTable.coerce_of_wellFormed hchecked hdistinct⟩
  have hwellFormed : l.types.WellFormed id v := TypeTable.wellFormed_of_create hchecked hproper hinit hv
  exact ⟨hwellFormed, TypeTable.coerce_of_wellFormed hchecked hdistinct hwellFormed⟩

/-- The library that a single source is linked to. -/
def linkSource (source : String) : Except (List Diagnostic) Library := do
  link [← parseUnit source .anonymous] {}

theorem exists_of_isOk {ε α : Type} {x : Except ε α} (h : x.isOk = true) : ∃ a, x = .ok a := by
  cases x with
  | error e => cases h
  | ok a => exact ⟨a, rfl⟩

theorem exists_of_any {ε α : Type} {x : Except ε α} {p : α → Bool} (h : x.toOption.any p = true) :
    ∃ a, x = .ok a ∧ p a = true := by
  cases x with
  | error e => cases h
  | ok a => exact ⟨a, rfl, h⟩

/-- A source that is linked to a library of which something holds. -/
theorem exists_of_linkSource {source : String} {p : Library → Bool}
    (h : (linkSource source).toOption.any p = true) :
    ∃ unit l, parseUnit source .anonymous = .ok unit ∧ link [unit] {} = .ok l ∧ p l = true := by
  obtain ⟨l, hlink, hl⟩ := exists_of_any h
  obtain ⟨unit, hparse, hlink⟩ := Except.bind_eq_ok.mp hlink
  exact ⟨unit, l, hparse, hlink, hl⟩

/-- Declares a subrange and a structure with a member of it. -/
def depthSource : String := "TYPE D : INT (-5..9); S : STRUCT d : D; END_STRUCT; END_TYPE"

/-- The default value of the structure, and a value of the subrange that is created from a given one. -/
theorem create_wellFormed_depth : ∃ unit l, parseUnit depthSource .anonymous = .ok unit ∧ link [unit] {} = .ok l ∧
    l.types.DistinctMembers ∧
    (∃ v, l.types.create 22 none = .ok v ∧ l.types.WellFormed 22 v ∧ l.types.coerce 22 v = .ok v) ∧
    ∃ v, l.types.create 21 (some (.integer 7)) = .ok v ∧ l.types.WellFormed 21 v ∧ l.types.coerce 21 v = .ok v := by
  have hrun : (linkSource depthSource).toOption.any (fun l => decide l.types.DistinctMembers &&
      ((l.types.create 22 none).isOk && (l.types.create 21 (some (.integer 7))).isOk)) = true := by
    have hchars : depthSource.toList = _ := String.toList_ofList
    rw [linkSource, parseUnit, tokenize_of_toList hchars]
    decide +kernel
  obtain ⟨unit, l, hparse, hlink, hfacts⟩ := exists_of_linkSource hrun
  simp only [Bool.and_eq_true, decide_eq_true_eq] at hfacts
  obtain ⟨hdistinct, hdefault, hgiven⟩ := hfacts
  obtain ⟨v, hv⟩ := exists_of_isOk hdefault
  obtain ⟨w, hw⟩ := exists_of_isOk hgiven
  have hparsed : ∀ u ∈ [unit], ∃ source file, parseUnit source file = .ok u :=
    List.forall_mem_singleton.mpr ⟨depthSource, .anonymous, hparse⟩
  obtain ⟨hcreated, -⟩ := create_wellFormed hparsed hlink hdistinct 22
  obtain ⟨hconverted, -⟩ := create_wellFormed hparsed hlink hdistinct 21
  refine ⟨unit, l, hparse, hlink, hdistinct, ⟨v, hv, hcreated none v nofun hv⟩, w, hw, hconverted _ w ?_ hw⟩
  rintro _ ⟨⟩
  show FitsInteger 7
  decide

end StructuredText
