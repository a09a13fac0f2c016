-- SUMMARY: The storage of a resolved library: every variable holds a value of its type, with instances for function blocks.
import StructuredText.Proofs.Sound
import StructuredText.Storage.Create

/-!
# Instances

Instances are only ever added, so what holds of a value stays true while more of them are created: a function block
that is bound stays bound to the same instance. An instance is added after the instances in its own variables, when
every one of its variables has a value.
-/

namespace StructuredText

-- ---------------------------------------------------------------------------
-- More instances
-- ---------------------------------------------------------------------------

theorem getElem?_of_prefix {α : Type} {as bs : List α} (h : as <+: bs) {i : Nat} {a : α} (ha : as[i]? = some a) :
    bs[i]? = some a := by
  obtain ⟨added, rfl⟩ := h
  obtain ⟨hlt, -⟩ := List.getElem?_eq_some_iff.mp ha
  exact (List.getElem?_append_left hlt).trans ha

namespace Layout

variable {l : Library} {pous pous' : List Nat}

theorem Bound.grow (h : pous <+: pous') {ref : BlockRef} (href : Bound ⟨l, pous⟩ ref) : Bound ⟨l, pous'⟩ ref := by
  obtain ⟨i, hi, hpou⟩ := href
  exact ⟨i, hi, getElem?_of_prefix h hpou⟩

theorem Fits.grow (h : pous <+: pous') {type : TypeId} {v : Value} (hv : Fits ⟨l, pous⟩ type v) :
    Fits ⟨l, pous'⟩ type v := ⟨hv.1.imp fun _ => Bound.grow h, hv.2⟩

/-- A variable may hold any value of its type, and an external one any value at all. -/
def Holds (y : Layout) (decl : VarDecl) (v : Value) : Prop :=
  decl.isExternal = false → ∀ type, decl.type.id? = some type → y.Fits type v

theorem Holds.grow (h : pous <+: pous') {decl : VarDecl} {v : Value} (hv : Holds ⟨l, pous⟩ decl v) :
    Holds ⟨l, pous'⟩ decl v := fun howned type htype => (hv howned type htype).grow h

end Layout

/-- The units that the instances belong to. -/
def unitsOf (instances : Array Instance) : List Nat := instances.toList.map (·.pou)

/-- The variables of every instance hold values of their types. -/
def InstancesSound (l : Library) (instances : Array Instance) : Prop :=
  ∀ (i : Nat) (found : Instance), instances[i]? = some found → ∃ p : Pou, l.pous[found.pou]? = some p ∧
    List.Forall₂ (Layout.Holds ⟨l, unitsOf instances⟩) p.vars found.vars.toList

variable {l : Library} {instances : Array Instance}

theorem getElem?_unitsOf {i : Nat} {found : Instance} (h : instances[i]? = some found) :
    (unitsOf instances)[i]? = some found.pou := by
  rw [unitsOf, List.getElem?_map, Array.getElem?_toList, h]
  rfl

theorem exists_of_getElem?_unitsOf {i pou : Nat} (h : (unitsOf instances)[i]? = some pou) :
    ∃ found, instances[i]? = some found ∧ found.pou = pou := by
  rw [unitsOf, List.getElem?_map, Array.getElem?_toList] at h
  exact Option.map_eq_some_iff.mp h

theorem unitsOf_push (found : Instance) : unitsOf (instances.push found) = unitsOf instances ++ [found.pou] := by
  simp [unitsOf]

/-- One more instance whose variables hold values of their types. -/
theorem InstancesSound.push (h : InstancesSound l instances) {pou : Nat} {p : Pou} (hp : l.pous[pou]? = some p)
    {vars : List Value} (hvars : List.Forall₂ (Layout.Holds ⟨l, unitsOf instances⟩) p.vars vars) :
    InstancesSound l (instances.push ⟨pou, vars.toArray⟩) := by
  have hgrow : unitsOf instances <+: unitsOf (instances.push ⟨pou, vars.toArray⟩) := by
    rw [unitsOf_push]
    exact List.prefix_append ..
  intro i found hfound
  rw [Array.getElem?_push] at hfound
  split at hfound
  · cases hfound
    exact ⟨p, hp, hvars.imp fun _ _ => .grow hgrow⟩
  · obtain ⟨q, hq, hholds⟩ := h i found hfound
    exact ⟨q, hq, hholds.imp fun _ _ => .grow hgrow⟩

-- ---------------------------------------------------------------------------
-- Creating instances
-- ---------------------------------------------------------------------------

/-- From instances that begin with those of the units, the computation adds instances to a result with the property. -/
def Creates {α : Type} (l : Library) (pous : List Nat) (m : Instantiating α) (Q : List Nat → α → Prop) : Prop :=
  ∀ instances a instances', pous <+: unitsOf instances → InstancesSound l instances →
    m instances = .ok (a, instances') →
      InstancesSound l instances' ∧ unitsOf instances <+: unitsOf instances' ∧ Q (unitsOf instances') a

namespace Creates

variable {α β : Type} {pous : List Nat} {m : Instantiating α} {Q : List Nat → α → Prop}

theorem pure {a : α} (h : ∀ pous', pous <+: pous' → Q pous' a) : Creates l pous (Pure.pure a) Q := by
  intro instances a' instances' hpous hsound heq
  cases heq
  exact ⟨hsound, List.prefix_rfl, h _ hpous⟩

theorem fail {e : ValueError} : Creates l pous (throw e : Instantiating α) Q := nofun

theorem mono {R : List Nat → α → Prop} (hm : Creates l pous m Q) (hQ : ∀ pous' a, Q pous' a → R pous' a) :
    Creates l pous m R := by
  intro instances a instances' hpous hsound heq
  obtain ⟨hsound', hgrow, ha⟩ := hm instances a instances' hpous hsound heq
  exact ⟨hsound', hgrow, hQ _ a ha⟩

/-- Properties of the result that each hold, if one does, hold together. -/
theorem all {ι : Type} {P : ι → Prop} {R : ι → List Nat → α → Prop} (hone : ∃ x, P x)
    (h : ∀ x, P x → Creates l pous m (R x)) : Creates l pous m fun pous' a => ∀ x, P x → R x pous' a := by
  intro instances a instances' hpous hsound heq
  obtain ⟨x, hx⟩ := hone
  obtain ⟨hsound', hgrow, -⟩ := h x hx instances a instances' hpous hsound heq
  exact ⟨hsound', hgrow, fun x hx => (h x hx instances a instances' hpous hsound heq).2.2⟩

theorem bind {R : List Nat → β → Prop} {k : α → Instantiating β} (hm : Creates l pous m Q)
    (hk : ∀ pous' a, pous <+: pous' → Q pous' a → Creates l pous' (k a) R) : Creates l pous (m >>= k) R := by
  intro instances b instances₂ hpous hsound heq
  obtain ⟨⟨a, instances₁⟩, hfirst, hrest⟩ := Except.bind_eq_ok.mp heq
  obtain ⟨hsound₁, hgrow₁, ha⟩ := hm instances a instances₁ hpous hsound hfirst
  obtain ⟨hsound₂, hgrow₂, hb⟩ :=
    hk (unitsOf instances₁) a (hpous.trans hgrow₁) ha instances₁ b instances₂ List.prefix_rfl hsound₁ hrest
  exact ⟨hsound₂, hgrow₁.trans hgrow₂, hb⟩

/-- Items one after the other, whose results keep their properties while more instances are created. -/
theorem mapM {f : α → Instantiating β} {Q : α → List Nat → β → Prop}
    (hgrow : ∀ a {pous pous' b}, pous <+: pous' → Q a pous b → Q a pous' b) {as : List α}
    (h : ∀ a ∈ as, ∀ pous, Creates l pous (f a) (Q a)) (pous : List Nat) :
    Creates l pous (as.mapM f) fun pous' bs => List.Forall₂ (fun a b => Q a pous' b) as bs := by
  induction as generalizing pous with
  | nil => exact .pure fun _ _ => .nil
  | cons a as ih =>
    rw [List.mapM_cons]
    refine .bind (h a List.mem_cons_self pous) fun pous₁ b _ hb => ?_
    refine .bind (ih (fun a' ha => h a' (List.mem_cons_of_mem a ha)) pous₁) fun pous₂ bs hgrow₁ hbs => ?_
    refine .pure fun pous₃ hgrow₂ => ?_
    exact .cons (hgrow a (hgrow₁.trans hgrow₂) hb) (hbs.imp fun a' _ => hgrow a' hgrow₂)

end Creates

-- ---------------------------------------------------------------------------
-- Binding function blocks
-- ---------------------------------------------------------------------------

theorem bindAll_eq_mapM (create : Nat → Instantiating InstanceId) :
    (vs : List Value) → bindAll create vs = vs.mapM (bindBlocks create)
  | [] => by rw [bindAll, List.mapM_nil]
  | v :: vs => by rw [bindAll, List.mapM_cons, bindAll_eq_mapM create vs]

theorem bindMembers_eq_mapM (create : Nat → Instantiating InstanceId) :
    (ms : List (Ident × Value)) →
      bindMembers create ms = ms.mapM fun m => do pure (m.1, ← bindBlocks create m.2)
  | [] => by rw [bindMembers, List.mapM_nil]
  | (name, v) :: rest => by
    rw [bindMembers, List.mapM_cons, bindMembers_eq_mapM create rest]
    simp

/-- Creating an instance of a unit results in one that belongs to the unit. -/
def CreatesInstances (l : Library) (create : Nat → Instantiating InstanceId) : Prop :=
  ∀ pou pous, Creates l pous (create pou) fun pous' i => pous'[i]? = some pou

/-- A value whose function blocks are unbound becomes one of the same type whose function blocks are bound. -/
theorem creates_bindBlocks {create : Nat → Instantiating InstanceId} (hcreate : CreatesInstances l create)
    {type : TypeId} {v : Value} (h : l.types.Inhabits False type v) (hv : v.Proper Unbound) (pous : List Nat) :
    Creates l pous (bindBlocks create v) fun pous' v' => Layout.Fits ⟨l, pous'⟩ type v' := by
  induction h generalizing pous with
  | @elementary id d e v hd hkind hstores =>
    have hinhabits : l.types.Inhabits False id v := .elementary hd hkind hstores
    obtain ⟨hblocks, hpure⟩ : v.holdsBlock = false ∧ bindBlocks create v = pure v := by
      have hvalue := hstores.kind
      cases v with
      | array | struct | block => cases hk : e.kind <;> simp [hk, Value.kind, ElementaryKind.valueKind] at hvalue
      | _ => exact ⟨rfl, rfl⟩
    rw [hpure]
    exact .pure fun _ _ => ⟨TypeTable.proper_of_inhabits hinhabits hv hblocks, hinhabits⟩
  | «alias» hd hkind hparent _ ih =>
    exact (ih hv pous).mono fun pous' v' hv' => ⟨hv'.1, .alias hd hkind hparent hv'.2⟩
  | subrange hd hkind hbase _ _ ih =>
    exact (ih hv pous).mono fun pous' v' hv' => ⟨hv'.1, .subrange hd hkind hbase hv'.2 False.elim⟩
  | enumeration hd hkind hname => exact .pure fun _ _ => ⟨trivial, .enumeration hd hkind hname⟩
  | array hd hkind helement hlength hsize _ ih =>
    rw [bindBlocks, bindAll_eq_mapM]
    refine .bind (.mapM (fun _ _ _ _ hgrow => .grow hgrow)
      (fun v hmem => ih v hmem (Value.allProper_iff.mp hv v hmem)) pous) fun pous₁ vs' _ hvs' => ?_
    refine .pure fun pous₂ hgrow => ?_
    have hfits : ∀ v' ∈ vs', Layout.Fits ⟨l, pous₂⟩ _ v' := fun v' hv' => by
      obtain ⟨v, -, hfits⟩ := TypeTable.exists_of_mem_right hvs' hv'
      exact hfits.grow hgrow
    exact ⟨Value.allProper_iff.mpr fun v' hv' => (hfits v' hv').1,
      .array hd hkind helement (hvs'.length_eq.symm.trans hlength) hsize fun v' hv' => (hfits v' hv').2⟩
  | @struct id d members ms hd hkind hnames htypes _ ih =>
    -- The types of the members go by position, and values at several positions may be the same.
    let HasType (m : Ident × Value) (e : TypeId) : Prop := ∃ (i : Nat) (member : StructMember),
      members[i]? = some member ∧ ms[i]? = some m ∧ member.type.id? = some e
    have htyped : ∀ m ∈ ms, ∃ e, HasType m e := by
      intro m hm
      obtain ⟨i, hi⟩ := List.mem_iff_getElem?.mp hm
      have hlength : ms.length = members.length := by simpa using congrArg List.length hnames
      obtain ⟨hlt, -⟩ := List.getElem?_eq_some_iff.mp hi
      have hmember := List.getElem?_eq_getElem (hlength ▸ hlt)
      obtain ⟨e, he⟩ := Option.isSome_iff_exists.mp (htypes _ (List.mem_of_getElem? hmember))
      exact ⟨e, i, _, hmember, hi, he⟩
    have hmembers : ∀ m ∈ ms, ∀ pous, Creates l pous (do pure (m.1, ← bindBlocks create m.2))
        fun pous' m' => m'.1 = m.1 ∧ ∀ e, HasType m e → Layout.Fits ⟨l, pous'⟩ e m'.2 := by
      intro m hm pous
      have hproper := Value.membersProper_iff.mp hv m hm
      have hvalue : ∀ e, HasType m e → Creates l pous (bindBlocks create m.2) fun pous' v' => Layout.Fits ⟨l, pous'⟩ e v' := by
        intro e hhas
        obtain ⟨i, member, hmember, hi, he⟩ := hhas
        exact ih i member m e hmember hi he hproper pous
      refine .bind (.all (htyped m hm) hvalue) fun pous₁ v' _ hv' => .pure fun pous₂ hgrow => ?_
      exact ⟨rfl, fun e he => (hv' e he).grow hgrow⟩
    rw [bindBlocks, bindMembers_eq_mapM]
    refine .bind (.mapM (fun m _ _ m' hgrow hm => ⟨hm.1, fun e he => (hm.2 e he).grow hgrow⟩) hmembers pous)
      fun pous₁ ms' _ hms' => .pure fun pous₂ hgrow => ?_
    refine ⟨Value.membersProper_iff.mpr fun m' hm' => ?_, .struct hd hkind ?_ htypes fun i member m' e hmember hm' he => ?_⟩
    · obtain ⟨m, hm, -, hfits⟩ := TypeTable.exists_of_mem_right hms' hm'
      obtain ⟨e, he⟩ := htyped m hm
      exact ((hfits e he).grow hgrow).1
    · rw [← hnames]
      exact TypeTable.map_eq_of_forall₂ (fun _ _ h => h.1) hms'
    · have hlength := hms'.length_eq
      obtain ⟨hlt, -⟩ := List.getElem?_eq_some_iff.mp hm'
      have hm := List.getElem?_eq_getElem (hlength ▸ hlt)
      have hfits := (TypeTable.forall₂_getElem? hms' hm hm').2 e ⟨i, member, hmember, hm, he⟩
      exact hfits.2
  | @block id d pou ref hd hkind href =>
    obtain ⟨block, instance?⟩ := ref
    obtain rfl : instance? = none := hv
    refine .bind (hcreate block pous) fun pous₁ i _ hi => .pure fun pous₂ hgrow => ⟨?_, .block hd hkind href⟩
    exact Layout.Bound.grow hgrow ⟨i, rfl, hi⟩

-- ---------------------------------------------------------------------------
-- Instances of units
-- ---------------------------------------------------------------------------

/-- A variable of a resolved declaration starts with a value that it may hold. -/
theorem creates_initialValue {create : Nat → Instantiating InstanceId} (hcreate : CreatesInstances l create)
    {decl : VarDecl} (hdecl : ∃ type, decl.Resolved l type) (pous : List Nat) :
    Creates l pous (initialValue create decl) fun pous' v => Layout.Holds ⟨l, pous'⟩ decl v := by
  obtain ⟨type, hresolved⟩ := hdecl
  have hholds {y : Layout} {v : Value} (hfits : y.Fits type v) : y.Holds decl v := fun _ type' htype' => by
    cases hresolved.typed.symm.trans htype'
    exact hfits
  unfold initialValue
  split
  · next hplain =>
    refine .pure fun pous' _ => ?_
    obtain hexternal | hblocks := Bool.or_eq_true_iff.mp hplain
    · intro howned
      cases howned.symm.trans hexternal
    · rw [Bool.not_eq_true'] at hblocks
      exact hholds ⟨TypeTable.proper_of_inhabits hresolved.default hresolved.unbound hblocks, hresolved.default⟩
  · exact (creates_bindBlocks hcreate hresolved.default hresolved.unbound pous).mono fun _ _ => hholds

/-- Instances of the units of a resolved library belong to their units. -/
theorem createsInstances_instantiate (hl : l.Resolved) (depth : Nat) : CreatesInstances l (instantiate l depth) := by
  induction depth with
  | zero =>
    intro pou pous
    rw [instantiate]
    split
    · exact .fail
    · exact .fail
  | succ depth ih =>
    intro pou pous
    rw [instantiate]
    split
    · exact .fail
    · next p hp =>
      dsimp only
      refine .bind (.mapM (fun _ _ _ _ hgrow => .grow hgrow)
        (fun decl hdecl => creates_initialValue ih (hl.vars p (List.mem_of_getElem? hp) decl hdecl)) pous)
        fun pous₁ vars _ hvars => ?_
      intro instances i instances' hgrow hsound heq
      cases heq
      refine ⟨hsound.push hp (hvars.imp fun _ _ => .grow hgrow), ?_, getElem?_unitsOf Array.getElem?_push_size⟩
      rw [unitsOf_push]
      exact List.prefix_append ..

/-- What the storage of a library is made of. -/
theorem ofLibrary_eq_ok {memory : DirectMemory} {s : Storage} (h : Storage.ofLibrary l memory = .ok s) :
    ∃ globals, l.globals.mapM (initialValue (instantiate l maxBlockDepth)) #[] = .ok globals ∧
      ∃ units, ((l.pousOf fun kind => kind ≠ PouKind.functionBlock).mapM fun pou => do
          pure (pou, ← instantiate l (maxBlockDepth + 1) pou)) globals.2 = .ok units ∧
        s = { globals := globals.1.toArray, instances := units.2, units := units.1, memory } := by
  obtain ⟨⟨⟨globals, units⟩, instances⟩, hbuild, h⟩ := Except.bind_eq_ok.mp h
  cases h
  obtain ⟨⟨globals', instances'⟩, hglobals, hbuild⟩ := Except.bind_eq_ok.mp hbuild
  obtain ⟨⟨units', instances''⟩, hunits, hbuild⟩ := Except.bind_eq_ok.mp hbuild
  cases hbuild
  exact ⟨_, hglobals, _, hunits, rfl⟩

/-- Whether there is a storage does not depend on the memory. -/
theorem ofLibrary_memory {memory : DirectMemory} {s : Storage} (h : Storage.ofLibrary l memory = .ok s)
    (memory' : DirectMemory) : Storage.ofLibrary l memory' = .ok { s with memory := memory' } := by
  obtain ⟨build, hbuild, h⟩ := Except.bind_eq_ok.mp h
  cases h
  exact Except.bind_eq_ok.mpr ⟨build, hbuild, rfl⟩

theorem memory_of_ofLibrary {memory : DirectMemory} {s : Storage} (h : Storage.ofLibrary l memory = .ok s) :
    s.memory = memory := by
  have hsame : s = { s with memory } := Except.ok.inj (h.symm.trans (ofLibrary_memory h memory))
  rw [hsame]

theorem instancesSound_empty : InstancesSound l #[] := by
  intro i found hfound
  simp at hfound

/-- The storage of a resolved library is sound. -/
theorem sound_of_ofLibrary (hl : l.Resolved) {memory : DirectMemory} {s : Storage}
    (h : Storage.ofLibrary l memory = .ok s) : ∃ pous, Layout.Resolved ⟨l, pous⟩ ∧ s.Sound ⟨l, pous⟩ := by
  obtain ⟨⟨globals, instances₁⟩, hglobals, ⟨units, instances⟩, hunits, rfl⟩ := ofLibrary_eq_ok h
  obtain ⟨hsound₁, -, hglobals⟩ := Creates.mapM (fun _ _ _ _ hgrow => .grow hgrow)
    (fun decl hdecl => creates_initialValue (createsInstances_instantiate hl _) (hl.globals decl hdecl).2) [] _ _ _
    List.nil_prefix instancesSound_empty hglobals
  have hunit : ∀ pou ∈ l.pousOf fun kind => kind ≠ .functionBlock, ∀ pous,
      Creates l pous (do pure (pou, ← instantiate l (maxBlockDepth + 1) pou))
        fun pous' u => u.1 = pou ∧ pous'[u.2]? = some pou := fun pou _ pous =>
    .bind (createsInstances_instantiate hl _ pou pous) fun pous₁ i _ hi => .pure fun pous₂ hgrow =>
      ⟨rfl, getElem?_of_prefix hgrow hi⟩
  obtain ⟨hsound, hgrow, hunits⟩ := Creates.mapM (fun _ _ _ _ hgrow hu => ⟨hu.1, getElem?_of_prefix hgrow hu.2⟩)
    hunit [] _ _ _ List.nil_prefix hsound₁ hunits
  refine ⟨unitsOf instances, ⟨hl, fun i pou hpou => ?_⟩, rfl, fun pou p hp hkind => ?_, fun slot decl hdecl => ?_⟩
  · obtain ⟨found, hfound, rfl⟩ := exists_of_getElem?_unitsOf hpou
    obtain ⟨p, hp, -⟩ := hsound i found hfound
    exact ⟨p, hp⟩
  · have hmem : pou ∈ l.pousOf fun kind => kind ≠ .functionBlock := by
      refine List.mem_map.mpr ⟨(p, pou), List.mem_filter.mpr ⟨List.mem_zipIdx_iff_getElem?.mpr hp, ?_⟩, rfl⟩
      exact decide_eq_true hkind
    obtain ⟨u, hu, rfl, -⟩ := TypeTable.exists_of_mem_left hunits hmem
    obtain ⟨i, hi⟩ := Option.isSome_iff_exists.mp (List.lookup_isSome_iff.mpr ⟨u, hu, beq_self_eq_true _⟩)
    refine ⟨i, by simp only [Storage.unitInstance, hi], ?_⟩
    obtain ⟨before, after, hsplit, -⟩ := List.lookup_eq_some_iff.mp hi
    have hmem : (u.1, i) ∈ units := hsplit ▸ List.mem_append_right before List.mem_cons_self
    obtain ⟨_, -, rfl, hpou⟩ := TypeTable.exists_of_mem_right hunits hmem
    exact hpou
  · cases slot with
    | global g =>
      obtain ⟨v, hv, hholds⟩ := TypeTable.exists_getElem?_of_forall₂ hglobals hdecl
      exact ⟨v, (Storage.slotValue_global g).mpr (by simpa using hv), hholds.grow hgrow⟩
    | own i position =>
      obtain ⟨p, ⟨pou, hpou, hp⟩, hdecl⟩ := Layout.declOf_own.mp hdecl
      obtain ⟨found, hfound, rfl⟩ := exists_of_getElem?_unitsOf hpou
      obtain ⟨p', hp', hvars⟩ := hsound i found hfound
      cases hp.symm.trans hp'
      obtain ⟨v, hv, hholds⟩ := TypeTable.exists_getElem?_of_forall₂ hvars hdecl
      exact ⟨v, (Storage.slotValue_own i position).mpr ⟨found, hfound, by simpa using hv⟩, hholds⟩

end StructuredText
