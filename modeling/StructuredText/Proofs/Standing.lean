-- SUMMARY: The bodies of the instances on the call stack stand for the frames that wait.
import StructuredText.Proofs.CallStack
import StructuredText.Proofs.DistinctNodes
import StructuredText.Proofs.TrackedBodies

/-!
# Bodies on the call stack

The frames that are left to do in a cycle lie in the bodies of the instances on the call stack: those of the running
instance in front, and those of each caller from the call on that it waits for. Every other instance is at the start of its
body. A step of the running body changes this as a micro-step changes the frames. If it fails, the bodies can still be
rewound.
-/

namespace StructuredText

open Run Arena Node

/-- The bodies of the library can be stepped. -/
structure Library.Steppable (l : Library) : Prop where
  linked : l.BodiesLinked
  distinct : ∀ p ∈ l.pous, p.body.ids.Nodup

namespace Machine

-- ---------------------------------------------------------------------------
-- Bodies
-- ---------------------------------------------------------------------------

/-- The body of an instance, which is not taken. -/
structure Has (l : Library) (m : Machine) (i : InstanceId) (pou : Pou) (b : Arena) : Prop where
  unit : m.storage.pouOf l i = .ok pou
  body : m.bodies[i]? = some (some b)

/-- Every instance has a body with the nodes of its unit. -/
def Embodied (l : Library) (m : Machine) : Prop :=
  ∀ i pou, m.storage.pouOf l i = .ok pou → ∃ b, m.Has l i pou b ∧ b.Fills pou.body

/-- The instance is at the start of its body. -/
def Rests (l : Library) (m : Machine) (i : InstanceId) : Prop :=
  ∀ pou, m.storage.pouOf l i = .ok pou → ∃ b, m.Has l i pou b ∧ b.Holds pou.body

/-- The frames are left to do in the body of the instance. -/
def Waits (l : Library) (m : Machine) (i : InstanceId) (frames : List Frame) : Prop :=
  ∃ pou b, m.Has l i pou b ∧ Suspended b pou.body frames

/-- What is left to do in the bodies of the callers when an instance has finished. -/
inductive Callers (l : Library) (m : Machine) : InstanceId → List InstanceId → List Frame → Prop
  | none {i} : Callers l m i [] []
  | some {i caller callers site args inner outer} (h : m.Waits l caller (.results site args i :: inner))
    (hcallers : Callers l m caller callers outer) :
    Callers l m i (caller :: callers) (.callee site args i :: (inner ++ outer))

/-- The machine after a step of the body of an instance. -/
def stepped (m : Machine) (s : Storage) (i : InstanceId) (b : Arena) : Machine where
  storage := s
  bodies := m.bodies.setIfInBounds i (some b)

variable {l : Library} {m : Machine} {i j : InstanceId} {pou : Pou} {b b' : Arena} {s : Storage} {frames : List Frame}
  {callers : List InstanceId} {c : Cursor}

section

variable (hs : SameInstances m.storage s)

include hs

theorem Has.stepped (h : m.Has l i pou b) (b' : Arena) : (m.stepped s i b').Has l i pou b' := by
  refine ⟨(hs.pouOf l i).trans h.unit, ?_⟩
  rw [Machine.stepped, Array.getElem?_setIfInBounds, if_pos rfl, if_pos (Array.getElem?_eq_some_iff.mp h.body).1]

theorem Has.apart (h : m.Has l j pou b) (hne : i ≠ j) (b' : Arena) : (m.stepped s i b').Has l j pou b := by
  refine ⟨(hs.pouOf l j).trans h.unit, ?_⟩
  rw [Machine.stepped, Array.getElem?_setIfInBounds, if_neg hne, h.body]

theorem Embodied.stepped (hm : m.Embodied l) (h : m.Has l i pou b) (hb' : b'.Fills pou.body) :
    (m.stepped s i b').Embodied l := by
  intro j pou' hpou'
  replace hpou' := (hs.pouOf l j).symm.trans hpou'
  by_cases hne : i = j
  · subst hne
    cases h.unit.symm.trans hpou'
    exact ⟨b', h.stepped hs b', hb'⟩
  · obtain ⟨other, hother, hfills⟩ := hm j pou' hpou'
    exact ⟨other, hother.apart hs hne b', hfills⟩

theorem Rests.stepped (h : m.Rests l j) (hne : i ≠ j) (b' : Arena) : (m.stepped s i b').Rests l j := by
  intro pou' hpou'
  obtain ⟨other, hother, hholds⟩ := h pou' ((hs.pouOf l j).symm.trans hpou')
  exact ⟨other, hother.apart hs hne b', hholds⟩

/-- An instance whose body has come to rest rests. -/
theorem Has.rests (h : m.Has l i pou b) (hb' : b'.Holds pou.body) : (m.stepped s i b').Rests l i := by
  intro pou' hpou'
  cases h.unit.symm.trans ((hs.pouOf l i).symm.trans hpou')
  exact ⟨b', h.stepped hs b', hb'⟩

theorem Waits.stepped (h : m.Waits l j frames) (hne : i ≠ j) (b' : Arena) : (m.stepped s i b').Waits l j frames := by
  obtain ⟨pou, b, hb, hsuspended⟩ := h
  exact ⟨pou, b, hb.apart hs hne b', hsuspended⟩

/-- A step of the body of an instance that does not wait changes nothing for those that do. -/
theorem Callers.stepped (h : Callers l m j callers frames) (hi : i ∉ callers) (b' : Arena) :
    Callers l (m.stepped s i b') j callers frames := by
  induction h with
  | none => exact .none
  | some h _ ih =>
    obtain ⟨hne, hrest⟩ := not_or.mp (List.mem_cons.not.mp hi)
    exact .some (h.stepped hs hne b') (ih hrest)

end

-- ---------------------------------------------------------------------------
-- Machines in a cycle
-- ---------------------------------------------------------------------------

/-- The frames are left to do in the bodies of the instances on the stack, and the other instances rest. -/
structure Stands (l : Library) (m : Machine) (stack : List InstanceId) (frames : List Frame) : Prop where
  distinct : stack.Nodup
  waiting : ∃ i callers inner outer, stack = i :: callers ∧ frames = inner ++ outer ∧ m.Waits l i inner ∧
    Callers l m i callers outer
  resting : ∀ j ∉ stack, m.Rests l j

/-- A cycle is in progress in the machine, or at its beginning, and the frames are left to do. -/
structure Runs (l : Library) (m : Machine) (c : Cursor) (frames : List Frame) : Prop where
  embodied : m.Embodied l
  stack : ∃ stack, c.OnStack stack ∧ m.Stands l stack frames
  pause : c.pause = none

/-- All instances rest at the beginning of the body of one of them. -/
theorem runs_primed (hm : m.Embodied l) (hrests : ∀ j, m.Rests l j) (hpou : m.storage.pouOf l i = .ok pou) :
    m.Runs l (.primed i) [.start pou.body] := by
  obtain ⟨b, hb, hholds⟩ := hrests i pou hpou
  refine ⟨hm, ⟨[i], ⟨rfl, rfl⟩, List.nodup_singleton i, ?_, fun j _ => hrests j⟩, rfl⟩
  exact ⟨i, [], [.start pou.body], [], rfl, rfl, ⟨pou, b, hb, .start hholds⟩, .none⟩

/-- All instances rest at the beginning of a cycle. -/
theorem Runs.rests (h : m.Runs l (.primed i) [.start pou.body]) (hpou : m.storage.pouOf l i = .ok pou) (j : InstanceId) :
    m.Rests l j := by
  obtain ⟨-, ⟨stack, hstack, -, ⟨k, callers, inner, outer, rfl, hframes, ⟨pou', b, hb, hsuspended⟩, hcallers⟩, hrests⟩,
    -⟩ := h
  obtain rfl : i = k := Option.some.inj hstack.current
  cases hcallers with
  | none =>
    obtain rfl : inner = [.start pou.body] := by rw [hframes, List.append_nil]
    cases hb.unit.symm.trans hpou
    by_cases hj : j = i
    · subst hj
      intro pou' hpou'
      cases hb.unit.symm.trans hpou'
      exact ⟨b, hb, hsuspended.holds⟩
    · exact hrests j fun hmem => hj (List.mem_singleton.mp hmem)
  | some h _ =>
    have hlength := congrArg List.length hframes
    cases inner with
    | nil => cases hframes
    | cons => simp at hlength

theorem Has.reset (h : m.Has l i pou b) : m.resetBodies.Has l i pou b.reset := by
  refine ⟨h.unit, ?_⟩
  rw [resetBodies, Array.getElem?_map, h.body]
  rfl

theorem Embodied.reset (hm : m.Embodied l) : m.resetBodies.Embodied l := by
  intro i pou hpou
  obtain ⟨b, hb, hfills⟩ := hm i pou hpou
  exact ⟨b.reset, hb.reset, hfills.reset⟩

/-- All instances rest in a machine that is rewound. -/
theorem Embodied.rests_reset (hm : m.Embodied l) : m.resetBodies.Rests l i := by
  intro pou hpou
  obtain ⟨b, hb, hfills⟩ := hm i pou hpou
  exact ⟨b.reset, hb.reset, hfills.rewinds⟩

theorem has_ofStorage (hpou : s.pouOf l i = .ok pou) : (ofStorage l s).Has l i pou (Arena.ofStmt pou.body) := by
  refine ⟨hpou, ?_⟩
  obtain ⟨found, hfound, hpou⟩ := Except.bind_eq_ok.mp hpou
  rw [ofStorage, Array.getElem?_map, Storage.instance?_eq_ok.mp hfound, Option.map_some]
  split at hpou
  · next p hp =>
    cases hpou
    rw [hp]
    rfl
  · cases hpou

/-- The instances of a new machine are embodied. -/
theorem embodied_ofStorage (hl : l.Steppable) (s : Storage) : (ofStorage l s).Embodied l := fun _ pou hpou =>
  ⟨_, has_ofStorage hpou, fills_ofStmt (hl.distinct pou (Storage.pou_mem hpou))⟩

/-- The instances of a new machine rest. -/
theorem rests_ofStorage (hl : l.Steppable) (s : Storage) (i : InstanceId) : (ofStorage l s).Rests l i := fun pou hpou =>
  ⟨_, has_ofStorage hpou, holds_ofStmt (hl.distinct pou (Storage.pou_mem hpou))⟩

-- ---------------------------------------------------------------------------
-- Other storages
-- ---------------------------------------------------------------------------

/-- The machine with the variables and the direct memory of another one. -/
def holding (m : Machine) (s : Storage) : Machine := { m with storage := s }

section

variable (hs : SameInstances m.storage s)

include hs

theorem Has.holding (h : m.Has l i pou b) : (m.holding s).Has l i pou b := ⟨(hs.pouOf l i).trans h.unit, h.body⟩

theorem Embodied.holding (h : m.Embodied l) : (m.holding s).Embodied l := fun i pou hpou => by
  obtain ⟨b, hb, hfills⟩ := h i pou ((hs.pouOf l i).symm.trans hpou)
  exact ⟨b, hb.holding hs, hfills⟩

theorem Rests.holding (h : m.Rests l i) : (m.holding s).Rests l i := fun pou hpou => by
  obtain ⟨b, hb, hholds⟩ := h pou ((hs.pouOf l i).symm.trans hpou)
  exact ⟨b, hb.holding hs, hholds⟩

theorem Waits.holding (h : m.Waits l i frames) : (m.holding s).Waits l i frames := by
  obtain ⟨pou, b, hb, hsuspended⟩ := h
  exact ⟨pou, b, hb.holding hs, hsuspended⟩

theorem Callers.holding (h : Callers l m i callers frames) : Callers l (m.holding s) i callers frames := by
  induction h with
  | none => exact .none
  | some h _ ih => exact .some (h.holding hs) ih

/-- What is left to do in the bodies does not depend on the variables. -/
theorem Runs.holding (h : m.Runs l c frames) : (m.holding s).Runs l c frames := by
  obtain ⟨hm, ⟨stack, hstack, hdistinct, ⟨i, callers, inner, outer, rfl, rfl, hwaits, hcallers⟩, hrests⟩, hpause⟩ := h
  refine ⟨hm.holding hs, ⟨i :: callers, hstack, hdistinct, ?_, fun j hj => (hrests j hj).holding hs⟩, hpause⟩
  exact ⟨i, callers, inner, outer, rfl, rfl, hwaits.holding hs, hcallers.holding hs⟩

end

-- ---------------------------------------------------------------------------
-- Steps
-- ---------------------------------------------------------------------------

/-- The cursor when control has returned to a caller. -/
abbrev returned (c : Cursor) (caller : InstanceId) (callers : List InstanceId) : Cursor :=
  { c with current := some caller, callers, pending := none }

/-- A step of the body of an instance ends as the micro-step does. -/
def Proceeds (l : Library) (m : Machine) (i : InstanceId) :
    EStateM.Result Diagnostic (Stepping Unit) Step → Stepped → Prop
  | .ok .finished ⟨_, b, x⟩, p =>
    match x.cursor.callers with
    | [] => (∃ a, p = .ok (.done a) x) ∧ ∀ j, (m.stepped x.storage i b).Rests l j
    | caller :: callers => ∃ frames, p = .ok (.paused frames) ⟨x.storage, returned x.cursor caller callers⟩ ∧
      (m.stepped x.storage i b).Runs l (returned x.cursor caller callers) frames
  | .ok .inProgress ⟨_, b, x⟩, p => ∃ frames, p = .ok (.paused frames) x ∧
    (m.stepped x.storage i b).Runs l x.cursor.clearPause frames
  | .error d ⟨_, _, x⟩, p => p = .error d x

section

variable {outer : List Frame} (hm : m.Embodied l) (hb : m.Has l i pou b) (hdistinct : (i :: callers).Nodup)
variable (hcallers : Callers l m i callers outer) (hrests : ∀ j ∉ i :: callers, m.Rests l j)
variable (hs : SameInstances m.storage s) (hfills : b'.Fills pou.body)

include hm hb hdistinct hcallers hrests hs hfills

/-- The running instance has stopped in its own body. -/
theorem runs_within (hc : c.OnStack (i :: callers)) (hpause : c.pause = none) (h : Suspended b' pou.body frames) :
    (m.stepped s i b').Runs l c (frames ++ outer) := by
  obtain ⟨hi, -⟩ := List.nodup_cons.mp hdistinct
  refine ⟨hm.stepped hs hb hfills, ⟨i :: callers, hc, hdistinct, ?_, fun j hj => ?_⟩, hpause⟩
  · exact ⟨i, callers, frames, outer, rfl, rfl, ⟨pou, b', hb.stepped hs b', h⟩, hcallers.stepped hs hi b'⟩
  · exact (hrests j hj).stepped hs (List.ne_of_not_mem_cons hj).symm b'

/-- The running instance has called another one. -/
theorem runs_called {callee : Pou} {site : CallSite} {args : List Evaluated} (hc : c.OnStack (j :: i :: callers))
    (hpause : c.pause = none) (hj : j ∉ i :: callers) (hcallee : s.pouOf l j = .ok callee)
    (h : Suspended b' pou.body (.results site args j :: frames)) :
    (m.stepped s i b').Runs l c (.start callee.body :: .callee site args j :: (frames ++ outer)) := by
  obtain ⟨hi, -⟩ := List.nodup_cons.mp hdistinct
  have hwaits : (m.stepped s i b').Waits l i (.results site args j :: frames) := ⟨pou, b', hb.stepped hs b', h⟩
  have hresting {k : InstanceId} (hk : k ∉ i :: callers) : (m.stepped s i b').Rests l k :=
    (hrests k hk).stepped hs (List.ne_of_not_mem_cons hk).symm b'
  obtain ⟨other, hother, hholds⟩ := hresting hj callee hcallee
  refine ⟨hm.stepped hs hb hfills, ⟨j :: i :: callers, hc, List.nodup_cons.mpr ⟨hj, hdistinct⟩, ?_, fun k hk => ?_⟩, hpause⟩
  · exact ⟨j, i :: callers, [.start callee.body], _, rfl, rfl, ⟨callee, other, hother, .start hholds⟩,
      .some hwaits (hcallers.stepped hs hi b')⟩
  · exact hresting (List.not_mem_of_not_mem_cons hk)

end

/-- Once the running instance has finished, all of those rest that do not wait. -/
theorem rests_finished (hb : m.Has l i pou b) (hrests : ∀ j ∉ i :: callers, m.Rests l j) (hs : SameInstances m.storage s)
    (hholds : b'.Holds pou.body) (hj : j ∉ callers) : (m.stepped s i b').Rests l j := by
  by_cases hne : i = j
  · subst hne
    exact hb.rests hs hholds
  · exact (hrests j fun hmem => hj (List.mem_of_ne_of_mem (Ne.symm hne) hmem)).stepped hs hne b'

/-- The running instance has finished, and its caller goes on. -/
theorem runs_returned {caller : InstanceId} {outer : List Frame} (hm : m.Embodied l) (hb : m.Has l i pou b)
    (hdistinct : (i :: caller :: callers).Nodup) (hcallers : Callers l m i (caller :: callers) outer)
    (hrests : ∀ j ∉ i :: caller :: callers, m.Rests l j) (hs : SameInstances m.storage s) (hfills : b'.Fills pou.body)
    (hholds : b'.Holds pou.body) (hpause : c.pause = none) :
    ∃ site args left, outer = .callee site args i :: left ∧
      (m.stepped s i b').Runs l (returned c caller callers) (.results site args i :: left) := by
  obtain ⟨hi, hrest⟩ := List.nodup_cons.mp hdistinct
  have hstepped := hcallers.stepped hs hi b'
  cases hstepped with
  | @some _ _ _ site args inner outer hwaits hcallers' =>
    refine ⟨site, args, inner ++ outer, rfl, hm.stepped hs hb hfills, ?_, hpause⟩
    refine ⟨caller :: callers, ⟨rfl, rfl⟩, hrest, ?_, ?_⟩
    · exact ⟨caller, callers, .results site args i :: inner, outer, rfl, rfl, hwaits, hcallers'⟩
    · exact fun j hj => rests_finished hb hrests hs hholds hj

/-- The running body is stepped as the frames are resumed. -/
theorem Runs.step (env : Environment) (hl : env.library.Steppable) (h : m.Runs env.library c frames) :
    ∃ i pou b, c.current = some i ∧ m.Has env.library i pou b ∧ b.Fills pou.body ∧
      let r := Arena.step ⟨env, some i⟩ (b.nodes.size + 1) pou.body.nodeId ⟨(), b, ⟨m.storage, c⟩⟩
      r.state.arena.Fills pou.body ∧ SameInstances m.storage r.state.execution.storage ∧
        m.Proceeds env.library i r (microStep env frames ⟨m.storage, c⟩) := by
  obtain ⟨hm, ⟨stack, hstack, hdistinct, ⟨i, callers, inner, outer, rfl, rfl, ⟨pou, b, hb, hsuspended⟩, hcallers⟩, hrests⟩,
    hpause⟩ := h
  obtain ⟨b', hb', hfills⟩ := hm i pou hb.unit
  obtain rfl : b' = b := Option.some.inj (Option.some.inj (hb'.body.symm.trans hb.body))
  have hpou := Storage.pou_mem hb.unit
  have htracks : Tracks ⟨env, some i⟩ (b'.nodes.size + 1) pou.body :=
    pou.body.tracks (hfills.fits (hl.distinct pou hpou)) (hl.linked pou hpou)
  have hmatches := htracks b' inner ⟨m.storage, c⟩ hsuspended hstack.current
  have hkept := step_kept ⟨env, some i⟩ (b'.nodes.size + 1) pou.body.nodeId ⟨(), b', ⟨m.storage, c⟩⟩
  have hkeeps : Keeps SameInstances (microStep env inner) := microStep_keeps (instances_kept env.library) inner
  have hinstances := hkeeps ⟨m.storage, c⟩
  refine ⟨i, pou, b', hstack.current, hb, hfills, ?_⟩
  rw [microStep_append]
  generalize Arena.step ⟨env, some i⟩ (b'.nodes.size + 1) pou.body.nodeId ⟨(), b', ⟨m.storage, c⟩⟩ = r at hmatches hkept ⊢
  generalize microStep env inner ⟨m.storage, c⟩ = p at hmatches hinstances ⊢
  rcases p with ⟨a | frames, x⟩ | ⟨d, x⟩
  · obtain ⟨b₁, rfl, hholds, -, -, hx⟩ := hmatches
    have hfills₁ : b₁.Fills pou.body := hfills.of_shape hkept
    have hcallers' : x.cursor.callers = callers := hx.callers.trans hstack.callers
    refine ⟨hfills₁, hinstances, ?_⟩
    simp only [Proceeds, hcallers']
    cases callers with
    | nil =>
      cases hcallers
      exact ⟨⟨a, rfl⟩, fun j => rests_finished hb hrests hinstances hholds List.not_mem_nil⟩
    | cons caller rest =>
      obtain ⟨site, args, left, rfl, hruns⟩ := runs_returned hm hb hdistinct hcallers hrests hinstances hfills₁ hholds
        (hx.pause.trans hpause)
      refine ⟨_, ?_, hruns⟩
      rw [follow_done, resumeAll_cons, resume, leave_eq site args i caller rest hcallers']
      rfl
  · obtain ⟨b₁, left, rfl, hpauses, hleft, -⟩ := hmatches
    have hfills₁ : b₁.Fills pou.body := hfills.of_shape hkept
    refine ⟨hfills₁, hinstances, frames ++ outer, rfl, ?_⟩
    cases hpauses with
    | within hcurrent' hcallers' =>
      exact runs_within hm hb hdistinct hcallers hrests hinstances hfills₁
        ⟨hcurrent'.trans hstack.current, hcallers'.trans hstack.callers⟩ rfl hleft
    | @called j callee site args frames hinactive hcurrent' hcallers' _ hcallee =>
      have hj : j ∉ i :: callers := fun hmem => by
        rw [(hstack.isActive j).mpr hmem] at hinactive
        cases hinactive
      have hc : x.cursor.clearPause.OnStack (j :: i :: callers) := by
        refine ⟨hcurrent', hcallers'.trans ?_⟩
        rw [hstack.current, hstack.callers]
        rfl
      exact runs_called hm hb hdistinct hcallers hrests hinstances hfills₁ hc rfl hj hcallee hleft
  · obtain ⟨b₁, rfl⟩ := hmatches
    exact ⟨hfills.of_shape hkept, hinstances, rfl⟩

end Machine

end StructuredText
