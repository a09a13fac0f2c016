-- SUMMARY: Reading, writing and resetting variables keep a storage sound.
import StructuredText.Proofs.Sound

/-!
# Reading, writing and resetting

Reading a variable that is located in direct memory first takes its value from there, writing one copies it
there, and calling a function resets its variables. All three leave every variable with a value of its type,
and they fail with ordinary errors only.
-/

namespace StructuredText

open Reporting

namespace TypeTable

variable {t : TypeTable} {type : TypeId}

/-- What is converted to a declared type is a value of the type. -/
theorem Complete.coerce_regular (ht : t.Complete) (hinitials : t.Proper fun _ => False)
    (htype : t.Declares type) {v : Value} {bound : BlockRef → Prop} (hv : v.Proper bound) :
    Regular (t.coerce type v) fun w => w.Proper bound ∧ t.Inhabits False type w := by
  refine (ht.coerce_orderly htype v).and_ok fun w hw _ => ⟨proper_of_createWithin_some hv hw, ?_⟩
  have htypes : t.Proper fun _ => True := fun id d hd x hx => (hinitials id d hd x hx).imp fun _ _ => trivial
  have hcreated := inhabits_of_createWithin htypes (fun _ => trivial)
    (fun x hx => by cases hx; exact hv.imp fun _ _ => trivial) hw
  exact hcreated.1.mono fun _ => trivial

/-- What is assigned under a declared type is a value of the type. -/
theorem Complete.assign_regular (ht : t.Complete) (hinitials : t.Proper fun _ => False)
    (htype : t.Declares type) {storage : StorageClass} (htemporary : storage.temporary = false)
    (name : String) (x : Value) {v : Value} {bound : BlockRef → Prop} (hv : v.Proper bound) :
    Regular (t.assign (some type) storage name x v) fun w =>
      w.Proper bound ∧ t.Inhabits False type w := by
  unfold assign
  cases hconstant : storage.constant with
  | true => exact .fail nofun
  | false =>
    refine .bind (x.require_orderly _) fun _ _ => ?_
    simp only [htemporary, Bool.false_eq_true, if_false]
    exact ht.coerce_regular hinitials htype hv

end TypeTable

namespace Storage

variable {y : Layout} {s : Storage} (hl : y.library.Resolved)

include hl

/-- The type and the address of a variable are those of its declaration. -/
theorem Sound.located?_regular (hs : s.Sound y) {slot : Slot} {decl : VarDecl}
    (h : y.declOf slot = some decl) : Regular (s.located? y.library slot) fun found =>
      ∀ type address, found = some (type, address) → decl.kind = .direct address ∧
        decl.type.id? = some type ∧ y.library.types.Declares type := by
  obtain ⟨type, hdecl⟩ := hl.declOf h
  unfold Storage.located?
  rw [hs.declOf h, Except.ok_bind]
  split
  · next address hkind =>
    rw [TypeTable.ref_id_eq_ok.mpr hdecl.typed, Except.ok_bind]
    refine .pure fun type' address' heq => ?_
    cases heq
    exact ⟨hkind, hdecl.typed, hdecl.declared⟩
  · exact .pure nofun

-- ---------------------------------------------------------------------------
-- Writing
-- ---------------------------------------------------------------------------

/-- What is written under the type of a place, or a compatible one, is a value of the type of the variable. -/
theorem fits_assign {owner inner type : TypeId} {path : List Nat} {whole : Value}
    (hpart : y.library.types.PartAt owner path inner)
    (hinner : inner = type ∨ y.library.types.compatible inner type = true) (hwhole : y.Fits owner whole)
    (htype : y.library.types.Declares type) {storage : StorageClass} (htemporary : storage.temporary = false)
    (name : String) {v : Value} (hv : v.Proper y.Bound) :
    Regular (whole.modifyAt (y.library.types.assign (some type) storage name · v) path) (y.Fits owner) := by
  obtain ⟨hproper, hinhabits⟩ := hwhole
  refine TypeTable.modifyAt_regular hpart hproper hinhabits fun x _ _ => ?_
  refine (hl.types.assign_regular hl.initials htype htemporary name x hv).mono fun w hw => ?_
  obtain rfl | hcompatible := hinner
  · exact hw
  · exact ⟨hw.1, TypeTable.inhabits_of_compatible (TypeTable.compatible_symm hcompatible) hw.2⟩

/-- Writing leaves every variable with a value of its type. -/
theorem Sound.store {p : Place} {type : TypeId} {storage : StorageClass} {name : String} {v : Value}
    (hp : y.Placed p type) (htype : y.library.types.Declares type)
    (htemporary : storage.temporary = false) (hv : v.Proper y.Bound) :
    Maintains (Sound y) (Storage.store y.library p (some type) storage name v) fun _ => True := by
  obtain ⟨decl, owner, inner, hdecl, hexternal, howner, hpart, hinner⟩ := hp.place
  refine .reads fun s hs => ?_
  obtain ⟨whole, hwhole, hfits⟩ := hs.slots p.slot decl hdecl
  have hassign := fits_assign hl hpart hinner (hfits hexternal owner howner) htype htemporary name hv
  refine .bind (.checked (.of_exists ⟨whole, hwhole, rfl⟩)) fun _ hsame => ?_
  subst hsame
  refine .bind (.checked hassign) fun changed hchanged => ?_
  refine .bind (.modify fun s hs => ?_) fun _ _ => ?_
  · refine hs.setSlot hdecl fun _ type' htype' => ?_
    cases howner.symm.trans htype'
    exact hchanged
  · refine .ite (fun _ => .reads fun s hs => ?_) fun _ => .pure trivial
    refine .bind (.checked (hs.located?_regular hl hdecl)) fun found hfound => ?_
    split
    · next type' address =>
      refine .reads fun s hs => ?_
      obtain ⟨v, hv, -⟩ := hs.slots p.slot decl hdecl
      refine .bind (Q := fun _ => True) (.checked (.of_exists ⟨v, hv, trivial⟩)) fun v _ => .reads fun s hs => ?_
      obtain ⟨-, -, hdeclared⟩ := hfound type' address rfl
      refine .bind (.checked (DirectMemory.store_orderly hl.types hdeclared address v s.memory))
        fun memory _ => .modify fun s hs => hs.withMemory memory
    · exact .pure trivial

-- ---------------------------------------------------------------------------
-- Reading
-- ---------------------------------------------------------------------------

/-- What is read at a place is a value of its type. -/
theorem Sound.load {p : Place} {type : TypeId} (hp : y.Placed p type) :
    Maintains (Sound y) (Storage.load y.library p) (y.Fits type) := by
  obtain ⟨decl, owner, inner, hdecl, hexternal, howner, -, -⟩ := hp.place
  have read : Maintains (Sound y) (do ofExcept ((← get).value p)) (y.Fits type) :=
    .reads fun s hs => .checked (.of_exists (hs.value hp))
  unfold Storage.load
  refine .ite (fun _ => .reads fun s hs => ?_) fun _ => read
  refine .bind (.checked (hs.located?_regular hl hdecl)) fun found hfound => ?_
  split
  · next type' address =>
    obtain ⟨-, htype', hdeclared⟩ := hfound type' address rfl
    refine .reads fun s hs => .bind (Q := y.Fits type')
      (.checked (DirectMemory.load_regular hl.types hdeclared address s.memory)) fun v hv => ?_
    refine .bind (.modify fun s hs => hs.setSlot hdecl fun _ type'' htype'' => ?_) fun _ _ => read
    cases htype'.symm.trans htype''
    exact hv
  · exact read

-- ---------------------------------------------------------------------------
-- Resetting
-- ---------------------------------------------------------------------------

omit hl in
theorem getElem?_freshVars {p : Pou} {old : List Value} {position : Nat} {decl : VarDecl} {v : Value}
    (hdecl : p.vars[position]? = some decl) (hv : old[position]? = some v) :
    (freshVars p old)[position]? = some
      (if decl.default.holdsBlock then keepInstances v decl.default else decl.default) := by
  simp [freshVars, hdecl, hv, List.getElem?_zip_eq_some]

omit hl in
/-- The value that a variable is reset to is one of its type. -/
theorem fits_reset {decl : VarDecl} {type : TypeId} {v : Value}
    (hdecl : decl.Resolved y.library type) (hv : y.Fits type v) :
    y.Fits type (if decl.default.holdsBlock then keepInstances v decl.default else decl.default) := by
  split
  · exact ⟨TypeTable.keepInstances_proper hdecl.default hv.2 hdecl.unbound hv.1,
      TypeTable.keepInstances_inhabits hdecl.default v⟩
  · next hblock =>
    exact ⟨TypeTable.proper_of_inhabits hdecl.default hdecl.unbound (by simpa using hblock),
      hdecl.default⟩

/-- A storage in which the variables of an instance are reset is sound. -/
theorem Sound.reset (hs : s.Sound y) {i : InstanceId} {found : Instance} {p : Pou}
    (hi : s.instances[i]? = some found) (hp : y.InstanceOf i p) :
    let fresh := { found with vars := (freshVars p found.vars.toList).toArray }
    Sound y { s with instances := s.instances.setIfInBounds i fresh } := by
  refine ⟨?_, hs.units, fun slot decl hdecl => ?_⟩
  · rw [← hs.instances]
    refine List.ext_getElem? fun j => ?_
    simp only [List.getElem?_map, Array.getElem?_toList, Array.getElem?_setIfInBounds]
    split
    · next hij =>
      subst hij
      split
      · simp [hi]
      · next hlt => simp [Array.getElem?_eq_none (Nat.not_lt.mp hlt)]
    · rfl
  · obtain ⟨v, hv, hfits⟩ := hs.slots slot decl hdecl
    cases slot with
    | global g => exact ⟨v, hv, hfits⟩
    | own j position =>
      obtain ⟨found', hfound', hv'⟩ := (slotValue_own j position).mp hv
      by_cases hij : i = j
      · subst hij
        cases hi.symm.trans hfound'
        obtain ⟨p', hp', hposition⟩ := Layout.declOf_own.mp hdecl
        obtain rfl := hp.unique hp'
        obtain ⟨type, hresolved⟩ := hl.declOf hdecl
        have hfresh := getElem?_freshVars hposition (by rw [Array.getElem?_toList]; exact hv')
        obtain ⟨hlt, -⟩ := Array.getElem?_eq_some_iff.mp hi
        refine ⟨_, (slotValue_own i position).mpr
          ⟨{ found with vars := (freshVars p found.vars.toList).toArray }, by simp [hlt],
            by rw [List.getElem?_toArray]; exact hfresh⟩, fun hexternal type' htype' => ?_⟩
        cases hresolved.typed.symm.trans htype'
        exact fits_reset hresolved (hfits hexternal type htype')
      · refine ⟨v, (slotValue_own j position).mpr ⟨found', ?_, hv'⟩, hfits⟩
        simp [hij, hfound']

theorem Sound.resetFrame {i : InstanceId} {p : Pou} (hp : y.InstanceOf i p) :
    Maintains (Sound y) (Storage.resetFrame y.library i) fun _ => True := by
  intro s hs
  obtain ⟨found, hfound, -⟩ := hs.instance? hp.choose_spec.1
  have hreset := hs.reset hl (instance?_eq_ok.mp hfound) hp
  simp only [Storage.resetFrame, EStateM.bind_apply, EStateM.get_apply, EStateM.ofExcept_apply, hfound,
    hs.pouOf hp]
  exact ⟨hreset, trivial⟩

end Storage

end StructuredText
