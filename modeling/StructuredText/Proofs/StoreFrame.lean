-- SUMMARY: Assigning to a place changes that place and its address in direct memory, or nothing.
import StructuredText.Proofs.FaithfulMemory
import StructuredText.Proofs.Reading

/-!
# Atomic assignments

An assignment that fails leaves the storage as it was, also when the variable has to be copied to direct memory
afterwards: whatever is assigned to a variable at an address has a form in memory. An assignment that succeeds changes
the value at the place, the bits at the address of the variable, and nothing else.

The value is converted to the type that is known where the assignment is written. Through an external variable this may
be a wider type than that of the variable itself, and then less is in memory than in the variable. What is read after
the assignment is what has been assigned if the type of the variable can represent it.
-/

namespace StructuredText

-- ---------------------------------------------------------------------------
-- Parts of values
-- ---------------------------------------------------------------------------

namespace Value

variable {v old part : Value} {position : Nat} {path : List Nat}

/-- The value with another part at a position. -/
def withChild (v : Value) (position : Nat) (part : Value) : Value :=
  match v with
  | .array elements => .array (elements.set position part)
  | .struct members => .struct (members.modify position fun (name, _) => (name, part))
  | v => v

theorem child_withChild_self (h : v.child position = .ok old) (part : Value) :
    (v.withChild position part).child position = .ok part := by
  cases v with
  | array elements =>
    obtain ⟨hlt, -⟩ := List.getElem?_eq_some_iff.mp (child_array_eq_ok.mp h)
    exact child_array_eq_ok.mpr (by simp [hlt])
  | struct members =>
    obtain ⟨name, hget⟩ := child_struct_eq_ok.mp h
    exact child_struct_eq_ok.mpr ⟨name, by simp [hget]⟩
  | _ => cases h

theorem child_withChild_ne {other : Nat} (hne : other ≠ position) (v part : Value) :
    (v.withChild position part).child other = v.child other := by
  cases v with
  | array elements => simp [withChild, child, hne.symm]
  | struct members => simp [withChild, child, hne.symm]
  | _ => rfl

theorem modifyAt_cons (h : v.child position = .ok old) (f : Value → Except ValueError Value) (path : List Nat) :
    v.modifyAt f (position :: path) = v.withChild position <$> old.modifyAt f path := by
  rw [modifyAt, h, Except.ok_bind]
  cases v with
  | array elements => cases old.modifyAt f path <;> rfl
  | struct members => cases old.modifyAt f path <;> rfl
  | _ => cases h

/-- Replacing a part by a function of it fails as the function does, and otherwise changes that part only. -/
theorem modifyAt_of_descend (h : v.descend path = .ok old) (f : Value → Except ValueError Value) :
    match f old with
    | .error e => v.modifyAt f path = .error e
    | .ok new => ∃ w, v.modifyAt f path = .ok w ∧ w.descend path = .ok new ∧
        ∀ other, ¬ path <+: other → ¬ other <+: path → w.descend other = v.descend other := by
  induction path generalizing v with
  | nil =>
    obtain rfl := Except.ok.inj h
    rw [modifyAt]
    cases f v with
    | error e => rfl
    | ok new => exact ⟨new, rfl, rfl, fun other hpath _ => absurd List.nil_prefix hpath⟩
  | cons position path ih =>
    obtain ⟨part, hpart, h⟩ := Except.bind_eq_ok.mp h
    have ih := ih h
    rw [modifyAt_cons hpart]
    cases hf : f old with
    | error e =>
      rw [hf] at ih
      simp only at ih ⊢
      rw [ih]
      rfl
    | ok new =>
      rw [hf] at ih
      obtain ⟨part', hpart', hnew, hothers⟩ := ih
      refine ⟨v.withChild position part', by rw [hpart']; rfl, ?_, fun other hpath hother => ?_⟩
      · rw [descend, child_withChild_self hpart, Except.ok_bind, hnew]
      · cases other with
        | nil => exact absurd List.nil_prefix hother
        | cons next other =>
          by_cases hnext : next = position
          · subst hnext
            rw [List.prefix_cons_inj] at hpath hother
            rw [descend, descend, child_withChild_self hpart, hpart, Except.ok_bind, Except.ok_bind,
              hothers other hpath hother]
          · rw [descend, descend, child_withChild_ne hnext]

end Value

-- ---------------------------------------------------------------------------
-- Values at addresses
-- ---------------------------------------------------------------------------

namespace DirectMemory

variable {t : TypeTable} {id : TypeId} {a : Address} {e : Elementary} {v : Value} {m : DirectMemory}

theorem check_eq_ok {size : Nat} :
    check t id a size = .ok () ↔ (∃ e, addressable t id a = .ok e) ∧ inArea a size = .ok () := by
  unfold check
  cases addressable t id a <;> simp [bind, Except.bind]

theorem exists_encode? (he : Encodable e) (hv : v.kind = e.kind.valueKind) : ∃ n, encode? e v = some n := by
  cases hkind : e.kind with
  | bool | integer | bits =>
    rw [hkind] at hv
    cases v <;> first | exact ⟨_, rfl⟩ | cases hv
  | _ => simp [Encodable, hkind] at he

/-- However a value is stored, the areas keep their sizes. -/
theorem size_of_store {m' : DirectMemory} (h : store t id a v m = .ok m') (area : Area) :
    (m'.area area).size = (m.area area).size := by
  obtain ⟨e, -, h⟩ := Except.bind_eq_ok.mp h
  split at h
  · next n _ =>
    obtain ⟨_, hbytes, -⟩ := Except.bind_eq_ok.mp h
    obtain ⟨_, hin, -⟩ := Except.bind_eq_ok.mp hbytes
    obtain ⟨m'', hwrite, hsize, -⟩ := write_of_inArea n hin
    cases hwrite.symm.trans h
    exact hsize area
  · cases h

/-- A value of a type is stored where the type can be, and is loaded again if the type represents all of it. -/
theorem exists_store (h : check t id a (m.area a.area).size = .ok ()) (hv : t.Inhabits False id v) :
    ∃ m', store t id a v m = .ok m' ∧ (∀ area, (m'.area area).size = (m.area area).size) ∧
      (∀ area k, ¬ a.Covers area k → m'.bit area k = m.bit area k) ∧
      ∀ e, addressable t id a = .ok e → e.Represents v → load t id a m' = .ok v := by
  obtain ⟨⟨e, he⟩, hin⟩ := check_eq_ok.mp h
  obtain ⟨helementary, hencodable, -⟩ := addressable_eq_ok he
  obtain ⟨n, hn⟩ := exists_encode? hencodable ((TypeTable.inhabits_elementaryWithin_iff helementary).mp hv)
  obtain ⟨m', hwrite, hsize, hbits⟩ := write_of_inArea n hin
  have hstore : store t id a v m = .ok m' := by
    simp only [store, he, Except.ok_bind, hn, hwrite]
  refine ⟨m', hstore, hsize, fun area k hcovers => ?_, fun e' he' hrepresents => ?_⟩
  · rw [hbits, if_neg hcovers]
  · obtain ⟨m'', hstore', hload, -⟩ := load_store he' hin hrepresents
    cases hstore.symm.trans hstore'
    exact hload

/-- Of a number that is too large for the type at a byte, only the low byte is read again. -/
example : (store .initial 1 ⟨.markers, .byte, 0⟩ (.integer 100000) (.ofSize 1) >>=
    load .initial 1 ⟨.markers, .byte, 0⟩) = .ok (.integer (-96)) := by cbv

end DirectMemory

-- ---------------------------------------------------------------------------
-- Places
-- ---------------------------------------------------------------------------

/-- Neither of the places is within the other. -/
def Place.Apart (p q : Place) : Prop := p.slot = q.slot → ¬ p.path <+: q.path ∧ ¬ q.path <+: p.path

theorem Place.apart_of_slot_ne {p q : Place} (h : p.slot ≠ q.slot) : p.Apart q := fun heq => absurd heq h

/-- The place is a variable of the type at an address. -/
structure Layout.At (y : Layout) (p : Place) (type : TypeId) (a : Address) : Prop where
  whole : p.path = []
  located : ∃ decl, y.declOf p.slot = some decl ∧ decl.kind = .direct a ∧ decl.type.id? = some type

/-- Every variable at an address has room in direct memory. -/
def Storage.Addressed (y : Layout) (s : Storage) : Prop :=
  ∀ p type a, y.At p type a → DirectMemory.check y.library.types type a (s.memory.area a.area).size = .ok ()

namespace Storage

variable {y : Layout} {s : Storage}

/-- A variable that is set to the value that it has stays as it is. -/
theorem setSlot_same {slot : Slot} {v : Value} (h : s.slotValue slot = .ok v) : s.setSlot slot v = s := by
  have same {vs : Array Value} {i : Nat} (h : vs[i]? = some v) : vs.setIfInBounds i v = vs := by
    refine Array.ext_getElem? fun j => ?_
    rw [Array.getElem?_setIfInBounds]
    split
    · next heq =>
      subst heq
      obtain ⟨hlt, -⟩ := Array.getElem?_eq_some_iff.mp h
      rw [if_pos hlt, h]
    · rfl
  cases slot with
  | global g =>
    simp only [setSlot, same ((slotValue_global g).mp h)]
  | own i position =>
    obtain ⟨found, hfound, hv⟩ := (slotValue_own i position).mp h
    have hinstances : s.instances.modify i
        (fun found => { found with vars := found.vars.setIfInBounds position v }) = s.instances := by
      refine Array.ext_getElem? fun j => ?_
      rw [Array.getElem?_modify]
      split
      · next heq =>
        subst heq
        rw [hfound, Option.map_some, same hv]
      · rfl
    simp only [setSlot, hinstances]

/-- The storage with another value for a variable has the parts of that value, and all other variables. -/
theorem value_setSlot_self {p : Place} {whole changed : Value} (hwhole : s.slotValue p.slot = .ok whole) :
    (s.setSlot p.slot changed).value p = changed.descend p.path := by
  rw [value, slotValue_setSlot_self hwhole, Except.ok_bind]

theorem value_setSlot_apart {p q : Place} {whole changed x : Value} (hwhole : s.slotValue p.slot = .ok whole)
    (hothers : ∀ other, ¬ p.path <+: other → ¬ other <+: p.path → changed.descend other = whole.descend other)
    (hapart : p.Apart q) (hx : s.value q = .ok x) : (s.setSlot p.slot changed).value q = .ok x := by
  obtain ⟨w, hw, hx⟩ := Except.bind_eq_ok.mp hx
  by_cases hslot : q.slot = p.slot
  · obtain ⟨hpath, hother⟩ := hapart hslot.symm
    rw [hslot] at hw
    cases hwhole.symm.trans hw
    rw [value, hslot, slotValue_setSlot_self hwhole, Except.ok_bind, hothers q.path hpath hother, hx]
  · rw [value, slotValue_setSlot_ne hslot hw, Except.ok_bind, hx]

-- ---------------------------------------------------------------------------
-- Copying to direct memory
-- ---------------------------------------------------------------------------

/-- Copies a variable that is located in direct memory there. -/
def copyOut (l : Library) (p : Place) : Storing Unit := do
  if p.path.isEmpty then
    match ← ofExcept ((← get).located? l p.slot) with
    | some (type, address) =>
      let v ← ofExcept ((← get).slotValue p.slot)
      let memory ← ofExcept ((← get).memory.store l.types type address v)
      modify ({ · with memory })
    | none => pure ()

/-- The value at the place is replaced before anything is copied. -/
theorem store_eq (l : Library) (p : Place) (type : Option TypeId) (storage : StorageClass) (name : String)
    (source : Value) : store l p type storage name source = (do
      let whole ← ofExcept ((← get).slotValue p.slot)
      let changed ← ofExcept (whole.modifyAt (l.types.assign type storage name · source) p.path)
      modify (·.setSlot p.slot changed)
      copyOut l p) := rfl

theorem size_of_copyOut (l : Library) (p : Place) (s : Storage) (area : Area) :
    ((copyOut l p s).state.memory.area area).size = (s.memory.area area).size := by
  unfold copyOut
  split
  · simp only [EStateM.bind_apply, EStateM.get_apply, EStateM.ofExcept_apply]
    rcases s.located? l p.slot with e | _ | ⟨type, a⟩
    · rfl
    · rfl
    · simp only [EStateM.bind_apply, EStateM.get_apply, EStateM.ofExcept_apply]
      cases s.slotValue p.slot with
      | error e => rfl
      | ok v =>
        simp only
        cases hstore : s.memory.store l.types type a v with
        | error e => rfl
        | ok memory => exact DirectMemory.size_of_store hstore area
  · rfl

/-- However an assignment ends, the areas of direct memory keep their sizes. -/
theorem size_of_assignment (l : Library) (p : Place) (type : Option TypeId) (storage : StorageClass) (name : String)
    (source : Value) (s : Storage) (area : Area) :
    ((store l p type storage name source s).state.memory.area area).size = (s.memory.area area).size := by
  simp only [store_eq, EStateM.bind_apply, EStateM.get_apply, EStateM.ofExcept_apply, EStateM.modify_apply]
  cases s.slotValue p.slot with
  | error e => rfl
  | ok whole =>
    simp only
    cases whole.modifyAt (l.types.assign type storage name · source) p.path with
    | error e => rfl
    | ok changed =>
      have hsize := size_of_copyOut l p (s.setSlot p.slot changed) area
      rwa [setSlot_memory] at hsize

/-- What assigning a value to a place makes of a storage. -/
structure Assigned (y : Layout) (p : Place) (v : Value) (s s' : Storage) : Prop where
  value : s'.value p = .ok v
  others : ∀ q x, p.Apart q → s.value q = .ok x → s'.value q = .ok x
  sizes : ∀ area, (s'.memory.area area).size = (s.memory.area area).size
  memory : ∀ area k, s'.memory.bit area k ≠ s.memory.bit area k → ∃ type a, y.At p type a ∧ a.Covers area k
  /-- The place is read as it was assigned to unless its own type is too small for the value. -/
  loaded : load y.library p s' = .ok v s' ↔
    ∀ type a e, y.At p type a → DirectMemory.addressable y.library.types type a = .ok e → e.Represents v

theorem Addressed.of_sizes {s' : Storage} (hs : s.Addressed y)
    (h : ∀ area, (s'.memory.area area).size = (s.memory.area area).size) : s'.Addressed y := by
  intro q type a hat
  rw [h]
  exact hs q type a hat

theorem Assigned.addressed {p : Place} {v : Value} {s' : Storage} (h : s.Assigned y p v s') (hs : s.Addressed y) :
    s'.Addressed y := hs.of_sizes h.sizes

section

variable {p : Place} {type : TypeId} {a : Address} {v : Value} (hs : s.Sound y)

include hs

theorem Sound.located?_of_at (hat : y.At p type a) : s.located? y.library p.slot = .ok (some (type, a)) := by
  obtain ⟨decl, hdecl, hkind, htype⟩ := hat.located
  unfold Storage.located?
  rw [hs.declOf hdecl, Except.ok_bind, hkind]
  simp only [TypeTable.ref_id_eq_ok.mpr htype, Except.ok_bind]
  rfl

theorem Sound.located?_of_not_at {owner : TypeId} (hp : y.Placed p owner) (hwhole : p.path = [])
    (hno : ∀ type a, ¬ y.At p type a) : s.located? y.library p.slot = .ok none := by
  obtain ⟨decl, _, _, hdecl, -, htype, -⟩ := hp.place
  unfold Storage.located?
  rw [hs.declOf hdecl, Except.ok_bind]
  split
  · next a hkind => exact absurd ⟨hwhole, decl, hdecl, hkind, htype⟩ (hno _ a)
  · rfl

-- Reading

theorem Sound.load_of_at {w : Value} (hat : y.At p type a) (hw : s.slotValue p.slot = .ok w)
    (hload : s.memory.load y.library.types type a = .ok v) :
    Storage.load y.library p s = .ok v (s.setSlot p.slot v) := by
  have hvalue : (s.setSlot p.slot v).value p = .ok v := by
    rw [Storage.value, slotValue_setSlot_self hw, Except.ok_bind, hat.whole]
    rfl
  simp only [Storage.load, hat.whole, List.isEmpty_nil, if_true, EStateM.bind_apply, EStateM.get_apply,
    EStateM.ofExcept_apply, hs.located?_of_at hat, hload, EStateM.modify_apply, hvalue]

theorem Sound.load_of_not_at {owner : TypeId} (hp : y.Placed p owner) (hno : ∀ type a, ¬ y.At p type a)
    (hv : s.value p = .ok v) : Storage.load y.library p s = .ok v s := by
  unfold Storage.load
  split
  · next hwhole =>
    have hlocated := hs.located?_of_not_at hp (List.isEmpty_iff.mp hwhole) hno
    simp only [EStateM.bind_apply, EStateM.get_apply, EStateM.ofExcept_apply, hlocated, hv]
  · simp only [EStateM.bind_apply, EStateM.get_apply, EStateM.ofExcept_apply, hv]

-- Copying

theorem Sound.copyOut_of_at {memory : DirectMemory} (hat : y.At p type a) (hv : s.slotValue p.slot = .ok v)
    (hstore : s.memory.store y.library.types type a v = .ok memory) :
    copyOut y.library p s = .ok () { s with memory } := by
  simp only [copyOut, hat.whole, List.isEmpty_nil, if_true, EStateM.bind_apply, EStateM.get_apply,
    EStateM.ofExcept_apply, hs.located?_of_at hat, hv, hstore, EStateM.modify_apply]

theorem Sound.copyOut_of_not_at {owner : TypeId} (hp : y.Placed p owner) (hno : ∀ type a, ¬ y.At p type a) :
    copyOut y.library p s = .ok () s := by
  unfold copyOut
  split
  · next hwhole =>
    have hlocated := hs.located?_of_not_at hp (List.isEmpty_iff.mp hwhole) hno
    simp only [EStateM.bind_apply, EStateM.get_apply, EStateM.ofExcept_apply, hlocated, EStateM.pure_apply]
  · rfl

/-- A variable is copied to its address without fail, and is read as it is after that if its type represents it. -/
theorem Sound.copyOut_apply {owner : TypeId} (hm : s.Addressed y) (hp : y.Placed p owner) (hv : s.value p = .ok v) :
    ∃ memory, copyOut y.library p s = .ok () { s with memory } ∧
      (∀ area, (memory.area area).size = (s.memory.area area).size) ∧
      (∀ area k, memory.bit area k ≠ s.memory.bit area k → ∃ type a, y.At p type a ∧ a.Covers area k) ∧
      (Storage.load y.library p { s with memory } = .ok v { s with memory } ↔
        ∀ type a e, y.At p type a → DirectMemory.addressable y.library.types type a = .ok e → e.Represents v) := by
  by_cases hat : ∃ type a, y.At p type a
  · obtain ⟨type, a, hat⟩ := hat
    obtain ⟨decl, hdecl, hkind, htype⟩ := hat.located
    obtain ⟨w, hw, hfits⟩ := hs.slots p.slot decl hdecl
    have hsame : w = v := by
      rw [Storage.value, hw, Except.ok_bind, hat.whole] at hv
      exact Except.ok.inj hv
    subst hsame
    obtain ⟨-, hinhabits⟩ := hfits (by simp [VarDecl.isExternal, hkind]) type htype
    have hcheck := hm p type a hat
    obtain ⟨memory, hstore, hsizes, hbits, hload⟩ := DirectMemory.exists_store hcheck hinhabits
    refine ⟨memory, hs.copyOut_of_at hat hw hstore, hsizes, fun area k hk => ⟨type, a, hat, ?_⟩, fun hload' => ?_,
      fun hrepresents => ?_⟩
    · by_contra hcovers
      exact hk (hbits area k hcovers)
    · rintro type' a' e hat' he
      obtain ⟨x, hx, hrepresents, -⟩ := DirectMemory.store_load he
        (hsizes a'.area ▸ (DirectMemory.check_eq_ok.mp (hm p type' a' hat')).2)
      have hread := (hs.withMemory memory).load_of_at hat' hw hx
      obtain ⟨rfl, -⟩ := EStateM.Result.ok.inj (hread.symm.trans hload')
      exact hrepresents
    · obtain ⟨⟨e, he⟩, -⟩ := DirectMemory.check_eq_ok.mp hcheck
      have hread := (hs.withMemory memory).load_of_at hat hw (hload e he (hrepresents type a e hat he))
      rwa [setSlot_same (s := { s with memory }) hw] at hread
  · have hno : ∀ type a, ¬ y.At p type a := fun type a h => hat ⟨type, a, h⟩
    exact ⟨s.memory, hs.copyOut_of_not_at hp hno, fun _ => rfl, fun _ _ hk => absurd rfl hk,
      fun _ type a _ h => absurd h (hno type a), fun _ => hs.load_of_not_at hp hno hv⟩

end

/--
Assigning to a place fails as the assignment to the value that it has does, and then nothing has changed. Otherwise it
succeeds, and changes what it has to.
-/
theorem Sound.store_apply (hl : y.library.Resolved) (hs : s.Sound y) (hm : s.Addressed y) {p : Place} {type : TypeId}
    (hp : y.Placed p type) (htype : y.library.types.Declares type) {storage : StorageClass}
    (hpermanent : storage.temporary = false) (name : String) {source : Value} (hsource : source.Proper y.Bound) :
    ∃ old, s.value p = .ok old ∧ match y.library.types.assign (some type) storage name old source with
      | .error e => Storage.store y.library p (some type) storage name source s = .error e s
      | .ok v => ∃ s', Storage.store y.library p (some type) storage name source s = .ok () s' ∧ s'.Sound y ∧
          s.Assigned y p v s' := by
  obtain ⟨decl, owner, inner, hdecl, hexternal, howner, hpart, hinner⟩ := hp.place
  obtain ⟨whole, hwhole, hfits⟩ := hs.slots p.slot decl hdecl
  replace hfits := hfits hexternal owner howner
  obtain ⟨old, hold, -⟩ := TypeTable.exists_descend hpart hfits.1 hfits.2
  have hassign := fits_assign hl hpart hinner hfits htype hpermanent name hsource
  have hmodify := Value.modifyAt_of_descend hold (y.library.types.assign (some type) storage name · source)
  refine ⟨old, by rw [Storage.value, hwhole, Except.ok_bind, hold], ?_⟩
  cases hv : y.library.types.assign (some type) storage name old source with
  | error e =>
    simp only [hv] at hmodify ⊢
    simp only [store_eq, EStateM.bind_apply, EStateM.get_apply, EStateM.ofExcept_apply, hwhole, hmodify]
  | ok v =>
    simp only [hv] at hmodify ⊢
    obtain ⟨changed, hchanged, hnew, hothers⟩ := hmodify
    have hfits' := hassign.of_ok hchanged
    have hstore : Storage.store y.library p (some type) storage name source s =
        copyOut y.library p (s.setSlot p.slot changed) := by
      simp only [store_eq, EStateM.bind_apply, EStateM.get_apply, EStateM.ofExcept_apply, hwhole, hchanged,
        EStateM.modify_apply]
    have hsound : (s.setSlot p.slot changed).Sound y := by
      refine hs.setSlot hdecl fun _ type' htype' => ?_
      cases howner.symm.trans htype'
      exact hfits'
    have hvalue : (s.setSlot p.slot changed).value p = .ok v := by rw [value_setSlot_self hwhole, hnew]
    have haddressed : (s.setSlot p.slot changed).Addressed y := hm.of_sizes fun _ => by rw [setSlot_memory]
    obtain ⟨memory, hcopy, hsizes, hmemory, hloaded⟩ := hsound.copyOut_apply haddressed hp hvalue
    rw [setSlot_memory] at hsizes hmemory
    exact ⟨_, hstore.trans hcopy, hsound.withMemory memory, hvalue,
      fun q x hq hx => value_setSlot_apart hwhole hothers hq hx, hsizes, hmemory, hloaded⟩

/-- What a variable that is neither constant nor temporary is assigned is what its type makes of the source. -/
theorem coerce_of_assign {t : TypeTable} {type : TypeId} {storage : StorageClass} {name : String}
    {old source v : Value} (hpermanent : storage.temporary = false)
    (h : t.assign (some type) storage name old source = .ok v) :
    storage.constant = false ∧ t.coerce type source = .ok v := by
  unfold TypeTable.assign at h
  cases hconstant : storage.constant with
  | true =>
    rw [hconstant] at h
    cases h
  | false =>
    obtain ⟨-, -, h⟩ := Except.bind_eq_ok.mp (by simpa only [hconstant, Bool.false_eq_true, if_false] using h)
    exact ⟨rfl, by simpa only [hpermanent, Bool.false_eq_true, if_false] using h⟩

/-- An assignment that fails changes nothing, and one that succeeds changes the value at its place and its address. -/
theorem Sound.store_atomic (hl : y.library.Resolved) (hs : s.Sound y) (hm : s.Addressed y) {p : Place} {type : TypeId}
    (hp : y.Placed p type) (htype : y.library.types.Declares type) {storage : StorageClass}
    (hpermanent : storage.temporary = false) (name : String) {source : Value} (hsource : source.Proper y.Bound) :
    match Storage.store y.library p (some type) storage name source s with
    | .error _ s' => s' = s
    | .ok _ s' => ∃ v, y.library.types.coerce type source = .ok v ∧ s.Assigned y p v s' := by
  obtain ⟨old, -, h⟩ := hs.store_apply hl hm hp htype hpermanent name hsource
  cases hv : y.library.types.assign (some type) storage name old source with
  | error e =>
    simp only [hv] at h
    rw [h]
  | ok v =>
    simp only [hv] at h
    obtain ⟨s', hstore, -, hassigned⟩ := h
    rw [hstore]
    exact ⟨v, (coerce_of_assign hpermanent hv).2, hassigned⟩

end Storage

end StructuredText
