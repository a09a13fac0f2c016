-- SUMMARY: What reading, writing and resetting variables can do to the storage.
import StructuredText.Storage
import StructuredText.Proofs.Computation

/-!
# Access to the storage

Each of the three operations that change variables is described once, by the storages that it can leave.
-/

namespace StructuredText.Storage

@[simp] theorem setSlot_units (s : Storage) (slot : Slot) (v : Value) :
    (s.setSlot slot v).units = s.units := by
  cases slot <;> rfl

@[simp] theorem setSlot_memory (s : Storage) (slot : Slot) (v : Value) :
    (s.setSlot slot v).memory = s.memory := by
  cases slot <;> rfl

/-- Reading changes at most a located variable, which takes its value from direct memory. -/
theorem load_state (l : Library) (p : Place) (s : Storage) :
    (load l p s).state = s ∨
      ∃ type address v, p.path = [] ∧ s.located? l p.slot = .ok (some (type, address)) ∧
        s.memory.load l.types type address = .ok v ∧ (load l p s).state = s.setSlot p.slot v := by
  have read (s : Storage) : (((do ofExcept ((← get).value p)) : Storing Value) s).state = s := by
    simp only [EStateM.bind_apply, EStateM.get_apply, EStateM.ofExcept_apply]
    cases s.value p <;> rfl
  unfold load
  split
  · next hpath =>
    simp only [EStateM.bind_apply, EStateM.get_apply, EStateM.ofExcept_apply]
    cases hlocated : s.located? l p.slot with
    | error e => exact .inl rfl
    | ok located =>
      cases located with
      | none => exact .inl (read s)
      | some found =>
        obtain ⟨type, address⟩ := found
        simp only [EStateM.bind_apply, EStateM.get_apply, EStateM.ofExcept_apply]
        cases hload : s.memory.load l.types type address with
        | error e => exact .inl rfl
        | ok v =>
          refine .inr ⟨type, address, v, List.isEmpty_iff.mp hpath, rfl, hload, ?_⟩
          simp only [EStateM.modify_apply]
          cases (s.setSlot p.slot v).value p <;> rfl
  · exact .inl (read s)

/--
Writing changes the variable to what the assignment makes of it, and then at most the direct memory, if the
variable is located there.
-/
theorem store_state (l : Library) (p : Place) (type : Option TypeId) (storage : StorageClass)
    (name : String) (source : Value) (s : Storage) :
    (store l p type storage name source s).state = s ∨
      ∃ whole changed, s.slotValue p.slot = .ok whole ∧
        whole.modifyAt (l.types.assign type storage name · source) p.path = .ok changed ∧
        ∃ memory, (store l p type storage name source s).state =
          { s.setSlot p.slot changed with memory } := by
  simp only [store, EStateM.bind_apply, EStateM.get_apply, EStateM.ofExcept_apply,
    EStateM.modify_apply]
  cases hwhole : s.slotValue p.slot with
  | error e => exact .inl rfl
  | ok whole =>
    simp only
    cases hchanged : whole.modifyAt (l.types.assign type storage name · source) p.path with
    | error e => exact .inl rfl
    | ok changed =>
      refine .inr ⟨whole, changed, rfl, hchanged, ?_⟩
      simp only
      split
      · simp only [EStateM.bind_apply, EStateM.get_apply, EStateM.ofExcept_apply]
        cases (s.setSlot p.slot changed).located? l p.slot with
        | error e => exact ⟨_, rfl⟩
        | ok located =>
          cases located with
          | none => exact ⟨_, rfl⟩
          | some found =>
            obtain ⟨type', address⟩ := found
            simp only [EStateM.bind_apply, EStateM.get_apply, EStateM.ofExcept_apply]
            cases (s.setSlot p.slot changed).slotValue p.slot with
            | error e => exact ⟨_, rfl⟩
            | ok v =>
              simp only
              cases (s.setSlot p.slot changed).memory.store l.types type' address v with
              | error e => exact ⟨_, rfl⟩
              | ok memory => exact ⟨memory, rfl⟩
      · exact ⟨_, rfl⟩

/-- The values that the variables of a unit are reset to. -/
def freshVars (p : Pou) (old : List Value) : List Value :=
  (p.vars.zip old).map fun (decl, v) =>
    if decl.default.holdsBlock then keepInstances v decl.default else decl.default

/-- Resetting changes the variables of one instance. -/
theorem resetFrame_state (l : Library) (i : InstanceId) (s : Storage) :
    (resetFrame l i s).state = s ∨
      ∃ found p, s.instance? i = .ok found ∧ s.pouOf l i = .ok p ∧
        (resetFrame l i s).state =
          let fresh := { found with vars := (freshVars p found.vars.toList).toArray }
          { s with instances := s.instances.setIfInBounds i fresh } := by
  simp only [resetFrame, EStateM.bind_apply, EStateM.get_apply, EStateM.ofExcept_apply]
  cases hfound : s.instance? i with
  | error e => exact .inl rfl
  | ok found =>
    simp only
    cases hpou : s.pouOf l i with
    | error e => exact .inl rfl
    | ok p => exact .inr ⟨found, p, rfl, rfl, rfl⟩

/-- The unit of an instance is one of the library. -/
theorem pou_mem {l : Library} {s : Storage} {i : InstanceId} {pou : Pou} (h : s.pouOf l i = .ok pou) :
    pou ∈ l.pous := by
  obtain ⟨found, -, h⟩ := Except.bind_eq_ok.mp h
  split at h
  · next p hp =>
    cases h
    exact List.mem_of_getElem? hp
  · cases h

end StructuredText.Storage
