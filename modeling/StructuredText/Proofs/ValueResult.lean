-- SUMMARY: A call copies arguments into parameters before its body runs, and parameters to places of arguments after it.
import StructuredText.Proofs.NestedCalls
import StructuredText.Proofs.StoreFrame

/-!
# Value-result parameters

Arguments are evaluated before a call. Their values are copied into the parameters one after the other, the body of the
unit runs, and the parameters are copied to the places at which the arguments were found. Between these two steps the
arguments wait in a frame, so whatever the body does, it is copied to the places that the arguments had before.

What is copied from a parameter is the value that its variable holds. A parameter that is located in direct memory is not
read from there again, so a body that has written to its address in another way is not seen.
-/

namespace StructuredText

-- ---------------------------------------------------------------------------
-- Copies
-- ---------------------------------------------------------------------------

/-- A value of the storage that is converted to a type and assigned to a place. -/
structure Copy where
  source : Storage → Except ValueError Value
  target : Place
  type : TypeId

/-- The copies are made one after the other. -/
inductive Copied (y : Layout) : List Copy → Storage → Storage → Prop
  | nil {s} : Copied y [] s s
  | cons {t rest s m s' x v} (hsource : t.source s = .ok x) (hcoerce : y.library.types.coerce t.type x = .ok v)
    (hassigned : s.Assigned y t.target v m) (hrest : Copied y rest m s') : Copied y (t :: rest) s s'

namespace Copied

variable {y : Layout} {ts before after : List Copy} {t : Copy} {s s' : Storage}

theorem append_iff : Copied y (before ++ after) s s' ↔
    ∃ m, Copied y before s m ∧ Copied y after m s' := by
  induction before generalizing s with
  | nil =>
    constructor
    · exact fun h => ⟨s, .nil, h⟩
    · rintro ⟨_, ⟨⟩, h⟩
      exact h
  | cons t before ih =>
    constructor
    · rintro (_ | ⟨hsource, hcoerce, hassigned, hrest⟩)
      obtain ⟨m, hbefore, hafter⟩ := ih.mp hrest
      exact ⟨m, .cons hsource hcoerce hassigned hbefore, hafter⟩
    · rintro ⟨m, _ | ⟨hsource, hcoerce, hassigned, hrest⟩, hafter⟩
      exact .cons hsource hcoerce hassigned (ih.mpr ⟨m, hrest, hafter⟩)

theorem addressed (h : Copied y ts s s') (hs : s.Addressed y) : s'.Addressed y := by
  induction h with
  | nil => exact hs
  | cons _ _ hassigned _ ih => exact ih (hassigned.addressed hs)

/-- What is apart from all targets stays. -/
theorem others (h : Copied y ts s s') {q : Place} (hapart : ∀ t ∈ ts, t.target.Apart q) {x : Value}
    (hx : s.value q = .ok x) : s'.value q = .ok x := by
  induction h with
  | nil => exact hx
  | cons _ _ hassigned _ ih =>
    obtain ⟨hfirst, hrest⟩ := List.forall_mem_cons.mp hapart
    exact ih hrest (hassigned.others q _ hfirst hx)

/-- A target that is apart from the ones that follow has received its source. -/
theorem received (h : Copied y (before ++ t :: after) s s') (hapart : ∀ u ∈ after, u.target.Apart t.target) :
    ∃ m x v, Copied y before s m ∧ t.source m = .ok x ∧ y.library.types.coerce t.type x = .ok v ∧
      s'.value t.target = .ok v := by
  obtain ⟨m, hbefore, _ | ⟨hsource, hcoerce, hassigned, hrest⟩⟩ := append_iff.mp h
  exact ⟨m, _, _, hbefore, hsource, hcoerce, hrest.others hapart hassigned.value⟩

/-- Direct memory changes at the addresses of targets only. -/
theorem memory (h : Copied y ts s s') {area : Area} {k : Nat}
    (hk : s'.memory.bit area k ≠ s.memory.bit area k) :
    ∃ t ∈ ts, ∃ type a, y.At t.target type a ∧ a.Covers area k := by
  induction h with
  | nil => exact absurd rfl hk
  | @cons t rest s m s' x v _ _ hassigned _ ih =>
    by_cases hfirst : m.memory.bit area k = s.memory.bit area k
    · rw [← hfirst] at hk
      obtain ⟨u, hu, hat⟩ := ih hk
      exact ⟨u, List.mem_cons_of_mem t hu, hat⟩
    · exact ⟨t, List.mem_cons_self, hassigned.memory area k hfirst⟩

end Copied

-- ---------------------------------------------------------------------------
-- Computations that copy
-- ---------------------------------------------------------------------------

open Run

/-- The computation makes the copies, or it fails after some of them. -/
def Copies (y : Layout) {α : Type} (m : Run α) (ts : List Copy) : Prop :=
  ∀ x, x.storage.Sound y → x.storage.Addressed y → (m x).state.storage.Sound y ∧ ∃ done, done <+: ts ∧
    Copied y done x.storage (m x).state.storage ∧ ∀ a x', m x = .ok a x' → done = ts

namespace Copies

variable {y : Layout} {α β : Type} {ts : List Copy}

theorem pure (a : α) : Copies y (Pure.pure a) [] := fun _ hs _ =>
  ⟨hs, [], List.prefix_rfl, .nil, fun _ _ _ => rfl⟩

theorem throw (d : Diagnostic) (ts : List Copy) : Copies y (throw d : Run α) ts := fun _ hs _ =>
  ⟨hs, [], List.nil_prefix, .nil, nofun⟩

/-- A question changes nothing. -/
theorem asking {span : Span} {q : Storage → Except ValueError α} {k : α → Run β}
    (hk : ∀ s a, s.Sound y → q s = .ok a → Copies y (k a) ts) : Copies y (Run.asking span q >>= k) ts := by
  intro x hs hm
  simp only [Run.asking, EStateM.bind_apply, EStateM.get_apply, EStateM.ofExcept_apply]
  cases hq : q x.storage with
  | error e => exact throw (e.at span) ts x hs hm
  | ok a => exact hk x.storage a hs hq x hs hm

variable (hl : y.library.Resolved) {place : Place} {type : TypeId} {storage : StorageClass} (hp : y.Placed place type)
  (htype : y.library.types.Declares type) (hpermanent : storage.temporary = false) (name : String)

include hl hp htype hpermanent

/-- Where the source of a copy is known, assigning it is making the copy. -/
theorem storing_at {x : Execution} (hs : x.storage.Sound y) (hm : x.storage.Addressed y) {span : Span}
    {source : Storage → Except ValueError Value} {v : Value} (hsource : source x.storage = .ok v)
    (hv : v.Proper y.Bound) {k : Unit → Run β} (hk : Copies y (k ()) ts) :
    let m := Run.storing span (Storage.store y.library place (some type) storage name v) >>= k
    (m x).state.storage.Sound y ∧ ∃ done, done <+: ⟨source, place, type⟩ :: ts ∧
      Copied y done x.storage (m x).state.storage ∧ ∀ a x', m x = .ok a x' → done = ⟨source, place, type⟩ :: ts := by
  obtain ⟨s, cursor⟩ := x
  obtain ⟨old, -, h⟩ := hs.store_apply hl hm hp htype hpermanent name hv
  simp only [EStateM.bind_apply, Run.storing]
  cases hassign : y.library.types.assign (some type) storage name old v with
  | error e =>
    simp only [hassign] at h
    simp only [h]
    refine ⟨hs, [], List.nil_prefix, .nil, fun a x' hok => ?_⟩
    cases hok
  | ok w =>
    simp only [hassign] at h
    obtain ⟨s', hstore, hsound, hassigned⟩ := h
    simp only [hstore]
    obtain ⟨hsound', done, hprefix, hcopied, hall⟩ := hk ⟨s', cursor⟩ hsound (hassigned.addressed hm)
    refine ⟨hsound', ⟨source, place, type⟩ :: done, (List.prefix_cons_inj _).mpr hprefix,
      .cons hsource (Storage.coerce_of_assign hpermanent hassign).2 hassigned hcopied, fun a x' hok => ?_⟩
    rw [hall a x' hok]

/-- Assigning a value. -/
theorem storing {span : Span} {v : Value} (hv : v.Proper y.Bound) {k : Unit → Run β} (hk : Copies y (k ()) ts) :
    Copies y (Run.storing span (Storage.store y.library place (some type) storage name v) >>= k)
      (⟨fun _ => .ok v, place, type⟩ :: ts) :=
  fun _ hs hm => storing_at hl hp htype hpermanent name hs hm rfl hv hk

/-- Assigning a value that is looked up before. -/
theorem copying {span span' : Span} {q : Storage → Except ValueError Value}
    (hq : ∀ s v, s.Sound y → q s = .ok v → v.Proper y.Bound) {k : Unit → Run β} (hk : Copies y (k ()) ts) :
    Copies y (do
      let v ← Run.asking span q
      Run.storing span' (Storage.store y.library place (some type) storage name v) >>= k)
      (⟨q, place, type⟩ :: ts) := by
  intro x hs hm
  simp only [Run.asking, EStateM.bind_apply, EStateM.get_apply, EStateM.ofExcept_apply]
  cases hv : q x.storage with
  | error e => exact throw (e.at span) _ x hs hm
  | ok v => exact storing_at hl hp htype hpermanent name hs hm hv (hq x.storage v hs hv) hk

omit hl hp htype hpermanent in
/-- A loop makes the copies of its items in turn. -/
theorem forIn {ι : Type} {items : List ι} {step : ι → PUnit → Run (ForInStep PUnit)} {f : ι → Option Copy}
    (hstep : ∀ b ∈ items, ∀ (k : ForInStep PUnit → Run β) ts, Copies y (k (.yield ⟨⟩)) ts →
      Copies y (step b ⟨⟩ >>= k) ((f b).toList ++ ts))
    {k : PUnit → Run β} (hk : Copies y (k ⟨⟩) ts) :
    Copies y (ForIn.forIn items PUnit.unit step >>= k) (items.filterMap f ++ ts) := by
  induction items with
  | nil => exact hk
  | cons b items ih =>
    obtain ⟨hfirst, hrest⟩ := List.forall_mem_cons.mp hstep
    have hlist : (b :: items).filterMap f ++ ts = (f b).toList ++ (items.filterMap f ++ ts) := by
      cases hb : f b <;> simp [hb]
    rw [hlist, List.forIn_cons, bind_assoc]
    exact hfirst _ _ (ih hrest)

end Copies

-- ---------------------------------------------------------------------------
-- Parameters
-- ---------------------------------------------------------------------------

namespace ArgBinding

/-- What is copied from an argument into the parameter of an instance. -/
def input? (b : ArgBinding) (p : Pou) (args : List Evaluated) (i : InstanceId) : Option Copy := do
  if b.input then
    let found ← args[b.arg]?
    let param ← p.vars[b.param]?
    pure ⟨fun _ => .ok found.value, ⟨.own i b.param, []⟩, ← param.type.id?⟩
  else none

/-- The place of the argument that is bound, if it is a variable. -/
def place? (b : ArgBinding) (args : List Evaluated) : Option Place := args[b.arg]?.bind (·.place?)

/-- What is copied from the parameter of an instance to the place of an argument. -/
def output? (b : ArgBinding) (site : CallSite) (args : List Evaluated) (i : InstanceId) : Option Copy := do
  if b.output then
    let place ← b.place? args
    let arg ← site.args[b.arg]?
    pure ⟨(·.value ⟨.own i b.param, []⟩), place, ← arg.info.type?⟩
  else none

end ArgBinding

namespace Expr

section

variable {y : Layout} {epsilon : Float} {site : CallSite} {args : List Evaluated} {i : InstanceId} {p : Pou}
  (hl : y.library.Resolved) (hi : y.InstanceOf i p) (hbindings : ∀ b ∈ site.bindings, b.Links p site.args)
  (hargs : List.Forall₂ y.Yields site.args args)

include hl hi hbindings hargs

theorem copyInputs_copies : Copies y (copyInputs ⟨y.library, epsilon⟩ site args i)
    (site.bindings.filterMap (·.input? p args i)) := by
  refine .asking fun s pou hs hpou => ?_
  cases (hs.pouOf hi).symm.trans hpou
  rw [← List.append_nil (site.bindings.filterMap _)]
  refine .forIn (fun b hb k ts hk => ?_) (.pure _)
  obtain ⟨param, hparam, hexternal⟩ := (hbindings b hb).param
  obtain ⟨arg, harg, -⟩ := (hbindings b hb).arg
  obtain ⟨found, hfound, hyields⟩ := TypeTable.exists_getElem?_of_forall₂ hargs harg
  obtain ⟨type, hresolved, hplaced⟩ := placed_own hl hi hparam hexternal
  cases hinput : b.input with
  | false => simpa [ArgBinding.input?, hinput] using hk
  | true =>
    have hcopy : b.input? p args i = some ⟨fun _ => .ok found.value, ⟨.own i b.param, []⟩, type⟩ := by
      simp [ArgBinding.input?, hinput, hparam, hfound, hresolved.typed]
    have hpermanent : { param.storage with constant := false }.temporary = false := hresolved.permanent
    simp only [hcopy, Option.toList_some, List.singleton_append, if_true, hparam, harg, hfound, hresolved.typed,
      bind_assoc, pure_bind]
    refine .storing hl hplaced hresolved.declared hpermanent param.name.text hyields.proper ?_
    exact hk

theorem copyOutputs_copies : Copies y (copyOutputs ⟨y.library, epsilon⟩ site args i)
    (site.bindings.filterMap (·.output? site args i)) := by
  rw [← List.append_nil (site.bindings.filterMap _)]
  refine .forIn (fun b hb k ts hk => ?_) (.pure _)
  obtain ⟨param, hparam, hexternal⟩ := (hbindings b hb).param
  obtain ⟨arg, harg, hvar⟩ := (hbindings b hb).arg
  obtain ⟨found, hfound, hyields⟩ := TypeTable.exists_getElem?_of_forall₂ hargs harg
  obtain ⟨_, -, hparameter⟩ := placed_own hl hi hparam hexternal
  cases houtput : b.output with
  | false => simpa [ArgBinding.output?, houtput] using hk
  | true =>
    obtain ⟨info, path, indexes, rfl⟩ := hvar houtput
    obtain ⟨type, place, htype, hdeclared, hpermanent, hplace, hplaced⟩ := hyields.located info path indexes rfl
    have hcopy : b.output? site args i = some ⟨(·.value ⟨.own i b.param, []⟩), place, type⟩ := by
      simp [ArgBinding.output?, ArgBinding.place?, houtput, harg, hfound, hplace, Expr.info, htype]
    have hproper (s : Storage) (v : Value) (hs : s.Sound y) (hv : s.value ⟨.own i b.param, []⟩ = .ok v) :
        v.Proper y.Bound := by
      obtain ⟨w, hw, hfits⟩ := hs.value hparameter
      cases hw.symm.trans hv
      exact hfits.1
    simp only [hcopy, Option.toList_some, List.singleton_append, if_true, harg, hfound, Option.bind_some, hplace, htype,
      bind_assoc, pure_bind]
    refine .copying hl hplaced hdeclared hpermanent path.text hproper ?_
    exact hk

end

end Expr

-- ---------------------------------------------------------------------------
-- Entering a unit
-- ---------------------------------------------------------------------------

/-- What a call to a function resets a variable with the value to. -/
def VarDecl.fresh (decl : VarDecl) (v : Value) : Value :=
  if decl.default.holdsBlock then keepInstances v decl.default else decl.default

namespace Storage

variable {y : Layout} {s s' : Storage} {i : InstanceId} {p : Pou}

/-- Resetting replaces the variables of an instance by their defaults, and nothing else. -/
theorem Sound.resetFrame_apply (hs : s.Sound y) (hi : y.InstanceOf i p) : ∃ s',
    Storage.resetFrame y.library i s = .ok () s' ∧ s'.memory = s.memory ∧
      (∀ k decl v, p.vars[k]? = some decl → s.value ⟨.own i k, []⟩ = .ok v →
        s'.value ⟨.own i k, []⟩ = .ok (decl.fresh v)) ∧
      ∀ q x, (∀ k, q.slot ≠ .own i k) → s.value q = .ok x → s'.value q = .ok x := by
  obtain ⟨pou, hpou, -⟩ := id hi
  obtain ⟨found, hfound, -⟩ := hs.instance? hpou
  have hget := instance?_eq_ok.mp hfound
  obtain ⟨hlt, -⟩ := Array.getElem?_eq_some_iff.mp hget
  let fresh : Instance := { found with vars := (freshVars p found.vars.toList).toArray }
  refine ⟨{ s with instances := s.instances.setIfInBounds i fresh }, ?_, rfl, fun k decl v hdecl hv => ?_,
    fun q x hq hx => ?_⟩
  · simp only [Storage.resetFrame, EStateM.bind_apply, EStateM.get_apply, EStateM.ofExcept_apply, hfound, hs.pouOf hi]
    rfl
  · obtain ⟨w, hw, hwv⟩ := Except.bind_eq_ok.mp hv
    cases hwv
    obtain ⟨found', hfound', hposition⟩ := (slotValue_own i k).mp hw
    cases hget.symm.trans hfound'
    have hfresh := getElem?_freshVars hdecl (by rw [Array.getElem?_toList]; exact hposition)
    refine Except.bind_eq_ok.mpr ⟨_, (slotValue_own i k).mpr ⟨fresh, by simp [hlt], ?_⟩, rfl⟩
    rw [List.getElem?_toArray]
    exact hfresh
  · obtain ⟨w, hw, hx⟩ := Except.bind_eq_ok.mp hx
    refine Except.bind_eq_ok.mpr ⟨w, ?_, hx⟩
    cases hslot : q.slot with
    | global g =>
      rw [hslot] at hw
      exact hw
    | own j k =>
      rw [hslot] at hw
      have hne : i ≠ j := by
        rintro rfl
        exact hq k hslot
      obtain ⟨found', hfound', hposition⟩ := (slotValue_own j k).mp hw
      exact (slotValue_own j k).mpr ⟨found', by simp [hne, hfound'], hposition⟩

end Storage

/-- What the body of a called unit starts with. -/
structure Entered (y : Layout) (site : CallSite) (args : List Evaluated) (i : InstanceId) (p : Pou) (isFunction : Bool)
    (s s' : Storage) : Prop where
  /-- A parameter has the value of its argument, or of the last one if there are several. -/
  bound : ∀ before b after, site.bindings = before ++ b :: after → b.input = true →
    (∀ c ∈ after, c.input = true → c.param ≠ b.param) → ∃ found param type v, args[b.arg]? = some found ∧
      p.vars[b.param]? = some param ∧ param.type.id? = some type ∧ y.library.types.coerce type found.value = .ok v ∧
        s'.value ⟨.own i b.param, []⟩ = .ok v
  /-- Another variable of a function has its default, and one of a function block the value that it had. -/
  unbound : ∀ k decl v, p.vars[k]? = some decl → (∀ b ∈ site.bindings, b.input = true → b.param ≠ k) →
    s.value ⟨.own i k, []⟩ = .ok v → s'.value ⟨.own i k, []⟩ = .ok (if isFunction then decl.fresh v else v)
  others : ∀ q x, (∀ k, q.slot ≠ .own i k) → s.value q = .ok x → s'.value q = .ok x
  /-- Direct memory changes at the addresses of the parameters only. -/
  memory : ∀ area k, s'.memory.bit area k ≠ s.memory.bit area k → ∃ b ∈ site.bindings, b.input = true ∧
    ∃ type a, y.At ⟨.own i b.param, []⟩ type a ∧ a.Covers area k

section

variable {y : Layout} {site : CallSite} {args : List Evaluated} {i : InstanceId} {p : Pou} {s m s' : Storage}

theorem ArgBinding.input?_eq_some {b : ArgBinding} {c : Copy} : b.input? p args i = some c ↔
    b.input = true ∧ ∃ found param type, args[b.arg]? = some found ∧ p.vars[b.param]? = some param ∧
      param.type.id? = some type ∧ c = ⟨fun _ => .ok found.value, ⟨.own i b.param, []⟩, type⟩ := by
  cases hinput : b.input <;> simp [input?, hinput, Option.bind_eq_some_iff, eq_comm (a := c)]

/-- Copying the arguments into the variables of an instance enters it. -/
theorem entered_of_copied {isFunction : Bool}
    (hbindings : ∀ b ∈ site.bindings, b.input = true → ∃ c, b.input? p args i = some c)
    (hvars : ∀ k decl v, p.vars[k]? = some decl → s.value ⟨.own i k, []⟩ = .ok v →
      m.value ⟨.own i k, []⟩ = .ok (if isFunction then decl.fresh v else v))
    (hothers : ∀ q x, (∀ k, q.slot ≠ .own i k) → s.value q = .ok x → m.value q = .ok x) (hmemory : m.memory = s.memory)
    (h : Copied y (site.bindings.filterMap (·.input? p args i)) m s') : Entered y site args i p isFunction s s' := by
  have target {bs : List ArgBinding} {c : Copy} (hc : c ∈ bs.filterMap (·.input? p args i)) :
      ∃ b ∈ bs, b.input = true ∧ c.target = ⟨.own i b.param, []⟩ := by
    obtain ⟨b, hb, hcopy⟩ := List.mem_filterMap.mp hc
    obtain ⟨hinput, _, _, _, -, -, -, rfl⟩ := ArgBinding.input?_eq_some.mp hcopy
    exact ⟨b, hb, hinput, rfl⟩
  refine ⟨fun before b after hsplit hinput hlast => ?_, fun k decl v hdecl hunbound hv => ?_, fun q x hq hx => ?_,
    fun area k hk => ?_⟩
  · obtain ⟨c, hc⟩ := hbindings b (by simp [hsplit]) hinput
    obtain ⟨-, found, param, type, hfound, hparam, htype, rfl⟩ := ArgBinding.input?_eq_some.mp hc
    simp only [hsplit, List.filterMap_append, List.filterMap_cons, hc] at h
    obtain ⟨_, _, v, -, ⟨⟩, hcoerce, hv⟩ := h.received fun u hu => by
      obtain ⟨b', hb', hinput', htarget⟩ := target hu
      refine Place.apart_of_slot_ne ?_
      simp [htarget, hlast b' hb' hinput']
    exact ⟨found, param, type, v, hfound, hparam, htype, hcoerce, hv⟩
  · refine h.others (fun u hu => ?_) (hvars k decl v hdecl hv)
    obtain ⟨b, hb, hinput, htarget⟩ := target hu
    refine Place.apart_of_slot_ne ?_
    simp [htarget, hunbound b hb hinput]
  · refine h.others (fun u hu => ?_) (hothers q x hq hx)
    obtain ⟨b, -, -, htarget⟩ := target hu
    refine Place.apart_of_slot_ne ?_
    rw [htarget]
    exact (hq b.param).symm
  · rw [← hmemory] at hk
    obtain ⟨u, hu, hat⟩ := h.memory hk
    obtain ⟨b, hb, hinput, htarget⟩ := target hu
    exact ⟨b, hb, hinput, htarget ▸ hat⟩

end

namespace Expr

section

variable {y : Layout} {epsilon : Float} {site : CallSite} {args : List Evaluated} {i : InstanceId} {p pou : Pou}
  {isFunction : Bool} {x x' : Execution}
  (hl : y.library.Resolved) (hi : y.InstanceOf i p) (hbindings : ∀ b ∈ site.bindings, b.Links p site.args)
  (hargs : List.Forall₂ y.Yields site.args args) (hs : x.storage.Sound y) (hm : x.storage.Addressed y)

include hl hi hbindings hargs hs hm

theorem prepareCall_entered (h : prepareCall ⟨y.library, epsilon⟩ site args i isFunction x = .ok pou x') :
    pou = p ∧ Entered y site args i p isFunction x.storage x'.storage ∧
      x'.storage.Sound y ∧ x'.storage.Addressed y := by
  have hinputs (b : ArgBinding) (hb : b ∈ site.bindings) (hinput : b.input = true) : ∃ c, b.input? p args i = some c := by
    obtain ⟨param, hparam, hexternal⟩ := (hbindings b hb).param
    obtain ⟨arg, harg, -⟩ := (hbindings b hb).arg
    obtain ⟨found, hfound, -⟩ := TypeTable.exists_getElem?_of_forall₂ hargs harg
    obtain ⟨type, hresolved, -⟩ := placed_own hl hi hparam hexternal
    exact ⟨_, ArgBinding.input?_eq_some.mpr ⟨hinput, found, param, type, hfound, hparam, hresolved.typed, rfl⟩⟩
  have called {x : Execution} (hs : x.storage.Sound y) (hm : x.storage.Addressed y) (h : (do
      let pou ← asking site.info.span (·.pouOf y.library i)
      copyInputs ⟨y.library, epsilon⟩ site args i
      pure pou : Run Pou) x = .ok pou x') :
      pou = p ∧ Copied y (site.bindings.filterMap (·.input? p args i)) x.storage x'.storage ∧
        x'.storage.Sound y ∧ x'.storage.Addressed y := by
    have hpou : atSpan site.info.span (x.storage.pouOf y.library i) = .ok p := by
      rw [hs.pouOf hi]
      rfl
    simp only [asking, EStateM.bind_apply, EStateM.get_apply, EStateM.ofExcept_apply, hpou] at h
    have hcopies : Copies y (copyInputs ⟨y.library, epsilon⟩ site args i) _ :=
      copyInputs_copies hl hi hbindings hargs
    obtain ⟨hsound, done, -, hcopied, hall⟩ := hcopies x hs hm
    cases hresult : copyInputs ⟨y.library, epsilon⟩ site args i x with
    | error d z => simp [hresult] at h
    | ok u z =>
      simp only [hresult, EStateM.pure_apply] at h
      cases h
      rw [hresult] at hsound hcopied hall
      rw [hall u _ rfl] at hcopied
      exact ⟨rfl, hcopied, hsound, hcopied.addressed hm⟩
  unfold prepareCall at h
  cases isFunction with
  | false =>
    obtain ⟨rfl, hcopied, hkept⟩ := called hs hm h
    exact ⟨rfl, entered_of_copied hinputs (fun _ _ _ _ hv => hv) (fun _ _ _ hx => hx) rfl hcopied, hkept⟩
  | true =>
    obtain ⟨s, hreset, hmemory, hvars, hothers⟩ := hs.resetFrame_apply hi
    have hsound := Storage.Sound.resetFrame hl hi x.storage hs
    rw [hreset] at hsound
    have haddressed : s.Addressed y := hm.of_sizes fun _ => by rw [hmemory]
    simp only [if_true, EStateM.bind_apply, Run.storing, hreset] at h
    obtain ⟨rfl, hcopied, hkept⟩ := called (x := ⟨s, x.cursor⟩) hsound.1 haddressed h
    exact ⟨rfl, entered_of_copied hinputs hvars hothers hmemory hcopied, hkept⟩

/-- A call that is entered has set the parameters, and the body of the unit is to be executed before its outputs. -/
theorem enter_entered {result : Progress Evaluated}
    (h : enter ⟨y.library, epsilon⟩ site args i isFunction x = .ok result x') :
    result = .paused [.start p.body, .callee site args i] ∧ x'.cursor.current = some i ∧
      Entered y site args i p isFunction x.storage x'.storage ∧ x'.storage.Sound y ∧ x'.storage.Addressed y := by
  cases hactive : x.cursor.isActive i with
  | true =>
    rw [enter_of_isActive hactive] at h
    cases h
  | false =>
    rw [enter_of_inactive hactive] at h
    cases hprepare : prepareCall ⟨y.library, epsilon⟩ site args i isFunction x with
    | error d z => simp [hprepare] at h
    | ok pou z =>
      obtain ⟨rfl, hentered⟩ := prepareCall_entered hl hi hbindings hargs hs hm hprepare
      rw [hprepare] at h
      cases h
      exact ⟨rfl, rfl, hentered⟩

end

end Expr

-- ---------------------------------------------------------------------------
-- Leaving a unit
-- ---------------------------------------------------------------------------

/-- What a call that has finished makes of the storage that the body of the unit has left. -/
structure Returned (y : Layout) (site : CallSite) (args : List Evaluated) (i : InstanceId) (p : Pou) (r : Evaluated)
    (s s' : Storage) : Prop where
  /-- An argument has the value of its parameter, unless other arguments are within the one or the other. -/
  received : ∀ before b after place, site.bindings = before ++ b :: after → b.output = true →
    b.place? args = some place →
    (∀ c ∈ before, c.output = true → ∀ other, c.place? args = some other → other.Apart ⟨.own i b.param, []⟩) →
    (∀ c ∈ after, c.output = true → ∀ other, c.place? args = some other → other.Apart place) →
      ∃ arg type x v, site.args[b.arg]? = some arg ∧ arg.info.type? = some type ∧
        s.value ⟨.own i b.param, []⟩ = .ok x ∧ y.library.types.coerce type x = .ok v ∧ s'.value place = .ok v
  others : ∀ q x, (∀ b ∈ site.bindings, b.output = true → ∀ place, b.place? args = some place → place.Apart q) →
    s.value q = .ok x → s'.value q = .ok x
  /-- Direct memory changes at the addresses of the arguments only. -/
  memory : ∀ area k, s'.memory.bit area k ≠ s.memory.bit area k → ∃ b ∈ site.bindings, b.output = true ∧
    ∃ place type a, b.place? args = some place ∧ y.At place type a ∧ a.Covers area k
  result : ∀ position, p.result? = some position → s'.value ⟨.own i position, []⟩ = .ok r.value
  nothing : p.result? = none → r = {}

section

variable {y : Layout} {epsilon : Float} {site : CallSite} {args : List Evaluated} {i : InstanceId} {p : Pou}

theorem ArgBinding.output?_eq_some {b : ArgBinding} {c : Copy} : b.output? site args i = some c ↔
    b.output = true ∧ ∃ place arg type, b.place? args = some place ∧ site.args[b.arg]? = some arg ∧
      arg.info.type? = some type ∧ c = ⟨(·.value ⟨.own i b.param, []⟩), place, type⟩ := by
  cases houtput : b.output <;> simp [output?, houtput, Option.bind_eq_some_iff, eq_comm (a := c)]

variable (hl : y.library.Resolved) (hi : y.InstanceOf i p) (hbindings : ∀ b ∈ site.bindings, b.Links p site.args)
  (hargs : List.Forall₂ y.Yields site.args args)

include hl hi hbindings hargs

/-- Copying the variables of an instance to the places of the arguments leaves it. -/
theorem returned_of_copied {r : Evaluated} {s s' : Storage} (hs : s.Sound y)
    (hresult : ∀ position, p.result? = some position → s'.value ⟨.own i position, []⟩ = .ok r.value)
    (hnothing : p.result? = none → r = {})
    (h : Copied y (site.bindings.filterMap (·.output? site args i)) s s') : Returned y site args i p r s s' := by
  have target {bs : List ArgBinding} {c : Copy} (hc : c ∈ bs.filterMap (·.output? site args i)) :
      ∃ b ∈ bs, b.output = true ∧ b.place? args = some c.target := by
    obtain ⟨b, hb, hcopy⟩ := List.mem_filterMap.mp hc
    obtain ⟨houtput, _, _, _, hplace, -, -, rfl⟩ := ArgBinding.output?_eq_some.mp hcopy
    exact ⟨b, hb, houtput, hplace⟩
  refine ⟨fun before b after place hsplit houtput hplace hearlier hlater => ?_, fun q x hq hx => ?_,
    fun area k hk => ?_, hresult, hnothing⟩
  · have hb : b ∈ site.bindings := by simp [hsplit]
    obtain ⟨param, hparam, hexternal⟩ := (hbindings b hb).param
    obtain ⟨arg, harg, hvar⟩ := (hbindings b hb).arg
    obtain ⟨info, path, indexes, rfl⟩ := hvar houtput
    obtain ⟨found, hfound, hyields⟩ := TypeTable.exists_getElem?_of_forall₂ hargs harg
    obtain ⟨type, _, htype, -⟩ := hyields.located info path indexes rfl
    obtain ⟨_, -, hparameter⟩ := Expr.placed_own hl hi hparam hexternal
    obtain ⟨w, hw, -⟩ := hs.value hparameter
    have hcopy := ArgBinding.output?_eq_some (i := i).mpr ⟨houtput, place, _, type, hplace, harg, htype, rfl⟩
    simp only [hsplit, List.filterMap_append, List.filterMap_cons, hcopy] at h
    obtain ⟨m, x, v, hbefore, hsource, hcoerce, hv⟩ := h.received fun u hu => by
      obtain ⟨c, hc, houtput', hplace'⟩ := target hu
      exact hlater c hc houtput' _ hplace'
    have hkept := hbefore.others (fun u hu => by
      obtain ⟨c, hc, houtput', hplace'⟩ := target hu
      exact hearlier c hc houtput' _ hplace') hw
    cases hkept.symm.trans hsource
    exact ⟨_, type, w, v, harg, htype, hw, hcoerce, hv⟩
  · refine h.others (fun u hu => ?_) hx
    obtain ⟨b, hb, houtput, hplace⟩ := target hu
    exact hq b hb houtput _ hplace
  · obtain ⟨u, hu, type, a, hat, hcovers⟩ := h.memory hk
    obtain ⟨b, hb, houtput, hplace⟩ := target hu
    exact ⟨b, hb, houtput, u.target, type, a, hplace, hat, hcovers⟩

/-- When the outputs have been copied, the call has its result. -/
theorem Expr.collectResults_returned {x x' : Execution} (hs : x.storage.Sound y) (hm : x.storage.Addressed y)
    {result : Progress Evaluated} (h : collectResults ⟨y.library, epsilon⟩ site args i x = .ok result x') :
    ∃ r, result = .done r ∧ Returned y site args i p r x.storage x'.storage := by
  have hpou : atSpan site.info.span (x.storage.pouOf y.library i) = .ok p := by
    rw [hs.pouOf hi]
    rfl
  have hcopies : Copies y (copyOutputs ⟨y.library, epsilon⟩ site args i) _ :=
    copyOutputs_copies hl hi hbindings hargs
  obtain ⟨-, done, -, hcopied, hall⟩ := hcopies x hs hm
  simp only [collectResults, asking, EStateM.bind_apply, EStateM.get_apply, EStateM.ofExcept_apply, hpou] at h
  cases hcopy : copyOutputs ⟨y.library, epsilon⟩ site args i x with
  | error d z => simp [hcopy] at h
  | ok u z =>
    rw [hcopy] at hcopied hall
    rw [hall u _ rfl] at hcopied
    simp only [hcopy] at h
    cases hresult : p.result? with
    | none =>
      simp only [hresult] at h
      cases h
      exact ⟨_, rfl, returned_of_copied hl hi hbindings hargs hs (by simp [hresult]) (fun _ => rfl) hcopied⟩
    | some position =>
      simp only [hresult, EStateM.bind_apply, EStateM.get_apply, EStateM.ofExcept_apply] at h
      cases hvalue : z.storage.value ⟨.own i position, []⟩ with
      | error e => simp [atSpan, hvalue, Except.mapError] at h
      | ok v =>
        simp only [atSpan, hvalue, Except.mapError] at h
        cases h
        refine ⟨_, rfl, returned_of_copied hl hi hbindings hargs hs (fun position' heq => ?_) (by simp [hresult]) hcopied⟩
        cases hresult.symm.trans heq
        exact hvalue

end

-- ---------------------------------------------------------------------------
-- Whole calls
-- ---------------------------------------------------------------------------

/-- The areas of direct memory keep their sizes. -/
theorem sizes_kept (l : Library) :
    Kept l fun s s' => ∀ area, (s'.memory.area area).size = (s.memory.area area).size where
  refl _ _ := rfl
  trans h h' area := (h' area).trans (h area)
  load p s area := by rw [Storage.load_memory]
  store p type storage name v s := Storage.size_of_assignment l p type storage name v s
  resetFrame i s := by
    obtain h | ⟨_, _, -, -, h⟩ := Storage.resetFrame_state l i s <;> simp [h]

namespace Run

variable {env : Environment} {p : Stepped} {n : Nat} {r : Evaluated} {x : Execution}

theorem Settles.keeps {R : Storage → Storage → Prop} (hR : Kept env.library R) (h : Settles env p n (.ok r x)) :
    R p.state.storage x.storage := by
  generalize hr : EStateM.Result.ok r x = result at h
  induction h with
  | done =>
    cases hr
    exact hR.refl _
  | failed => cases hr
  | @paused frames z n _ _ ih =>
    exact hR.trans (microStep_keeps hR frames (resumed z)) (ih hr)

theorem Settles.safe {I : Storage → Prop} {after : Stack} {Q : Evaluated → Prop} (h : Settles env p n (.ok r x))
    (hp : SafeEnd env I after Q n p) : I x.storage := by
  generalize hr : EStateM.Result.ok r x = result at h
  induction h with
  | done =>
    cases hr
    exact hp.1
  | failed => cases hr
  | @paused frames z n _ _ ih => exact ih (hp.2 (resumed z) hp.1 rfl) hr

end Run

variable {y : Layout} {epsilon : Float} {site : CallSite} {args : List Evaluated} {i : InstanceId} {p : Pou}
  {isFunction : Bool} {x x' : Execution} {n : Nat} {r : Evaluated}

theorem Expr.collectResults_settles (hl : y.library.Resolved) (hi : y.InstanceOf i p)
    (hbindings : ∀ b ∈ site.bindings, b.Links p site.args) (hargs : List.Forall₂ y.Yields site.args args)
    (hs : x.storage.Sound y) (hm : x.storage.Addressed y)
    (h : Settles ⟨y.library, epsilon⟩ (collectResults ⟨y.library, epsilon⟩ site args i x) n (.ok r x')) :
    Returned y site args i p r x.storage x'.storage := by
  generalize hcollect : collectResults ⟨y.library, epsilon⟩ site args i x = p₁ at h
  cases h with
  | done =>
    obtain ⟨r, hresult, hreturned⟩ := collectResults_returned hl hi hbindings hargs hs hm hcollect
    cases hresult
    exact hreturned
  | paused =>
    obtain ⟨r, hresult, -⟩ := collectResults_returned hl hi hbindings hargs hs hm hcollect
    cases hresult

/--
A call that comes to its end has set the parameters, then the body of the unit has been executed until its end, and only
after that the parameters have been copied to the places that the arguments had before the call.
-/
theorem Expr.enter_settles (hl : y.Resolved) (hlinked : y.library.BodiesLinked) (hi : y.InstanceOf i p)
    (hbindings : ∀ b ∈ site.bindings, b.Links p site.args) (hargs : List.Forall₂ y.Yields site.args args)
    (hs : x.storage.Sound y) (hm : x.storage.Addressed y)
    (h : Settles ⟨y.library, epsilon⟩ (enter ⟨y.library, epsilon⟩ site args i isFunction x) n (.ok r x')) :
    ∃ x₁ k a x₂, Entered y site args i p isFunction x.storage x₁.storage ∧
      Settles ⟨y.library, epsilon⟩ (p.body.execute ⟨y.library, epsilon⟩ x₁) k (.ok a x₂) ∧
      Returned y site args i p r x₂.storage x'.storage := by
  generalize hstart : enter ⟨y.library, epsilon⟩ site args i isFunction x = start at h
  cases h with
  | done =>
    obtain ⟨hresult, -⟩ := enter_entered hl.library hi hbindings hargs hs hm hstart
    cases hresult
  | @paused frames x₁ n _ h =>
    obtain ⟨hresult, hcurrent, hentered, hs₁, hm₁⟩ := enter_entered hl.library hi hbindings hargs hs hm hstart
    cases hresult
    rw [show [Frame.start p.body, .callee site args i] = [.start p.body] ++ [.callee site args i] from rfl,
      microStep_append, microStep, resumeAll_singleton] at h
    obtain ⟨k, m, a, x₂, hbody, hleft⟩ := h.of_follow
    have hstack : (resumed x₁).cursor.stack = ⟨some i, x₁.cursor.callers, x₁.cursor.loops⟩ := by
      rw [← hcurrent]
      rfl
    have hs₂ : x₂.storage.Sound y :=
      hbody.safe (y.bodiesSafe hl hlinked (k + 1) k (Nat.lt_succ_self k) i p _ _ hi (resumed x₁) hs₁ hstack)
    have hkept : Keeps _ (p.body.execute ⟨y.library, epsilon⟩) := Stmt.execute_keeps (sizes_kept y.library) p.body
    have hm₂ : x₂.storage.Addressed y := hm₁.of_sizes ((sizes_kept y.library).trans (hkept (resumed x₁))
      (hbody.keeps (sizes_kept y.library)))
    obtain ⟨c, hleave⟩ : ∃ c, leave site args i x₂ = .ok (.paused [.results site args i]) ⟨x₂.storage, c⟩ := ⟨_, rfl⟩
    rw [resumeAll_singleton, resume, hleave] at hleft
    cases hleft with
    | paused hcollected =>
      rw [microStep, resumeAll_singleton] at hcollected
      exact ⟨resumed x₁, k, a, x₂, hentered, hbody,
        collectResults_settles (x := resumed ⟨x₂.storage, c⟩) hl.library hi hbindings hargs hs₂ hm₂ hcollected⟩

end StructuredText
