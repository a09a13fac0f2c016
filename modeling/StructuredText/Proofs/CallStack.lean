-- SUMMARY: The call stack never repeats an instance, and control returns to the instance that has made the call.
import StructuredText.Proofs.Limits
import StructuredText.Proofs.Silent

/-!
# The call stack

The instances on the call stack are the one that runs and those that wait for it. Nothing but a call and the end of a
called instance changes the stack, and each of these ends the micro-step. A call adds an instance that is not on the
stack, together with a frame that waits for it; so the frames of a cycle wait for exactly the instances on the stack, in
the same order, except for the instance of the program, which nothing waits for.
-/

namespace StructuredText

-- ---------------------------------------------------------------------------
-- Stacks
-- ---------------------------------------------------------------------------

namespace Cursor

/-- The stack has the instance that runs in front of those that wait for it. -/
structure OnStack (c : Cursor) (stack : List InstanceId) : Prop where
  current : c.current = stack.head?
  callers : c.callers = stack.tail

/-- The same instances run and wait. -/
structure SameStack (c c' : Cursor) : Prop where
  current : c'.current = c.current
  callers : c'.callers = c.callers

variable {c c' c'' : Cursor} {stack : List InstanceId}

theorem SameStack.refl (c : Cursor) : SameStack c c := ⟨rfl, rfl⟩

theorem SameStack.trans (h : SameStack c c') (h' : SameStack c' c'') : SameStack c c'' :=
  ⟨h'.current.trans h.current, h'.callers.trans h.callers⟩

theorem OnStack.same (hc : c.OnStack stack) (h : SameStack c c') : c'.OnStack stack :=
  ⟨h.current.trans hc.current, h.callers.trans hc.callers⟩

theorem OnStack.isActive (hc : c.OnStack stack) (i : InstanceId) : c.isActive i = true ↔ i ∈ stack := by
  simp only [Cursor.isActive, hc.current, hc.callers]
  cases stack with
  | nil => simp only [List.head?_nil, List.tail_nil, Bool.or_eq_true, decide_eq_true_eq, reduceCtorEq, List.contains_nil,
      Bool.false_eq_true, or_self, List.not_mem_nil]
  | cons j rest =>
    simp only [List.head?_cons, List.tail_cons, Bool.or_eq_true, decide_eq_true_eq, Option.some.injEq,
      List.contains_iff_mem, List.mem_cons, eq_comm (a := j)]

end Cursor

/-- The instance that a frame waits for. -/
def Frame.awaited? : Frame → Option InstanceId
  | .callee _ _ i => some i
  | _ => none

/-- The instances that frames wait for, the one that is awaited by the innermost frame first. -/
def Frame.awaited (frames : List Frame) : List InstanceId := frames.filterMap awaited?

/-- None of the frames that are left to do waits for an instance. -/
def Progress.Local : Progress Evaluated → Prop
  | .done _ => True
  | .paused inner => Frame.awaited inner = []

namespace Run

variable {env : Environment} {α β : Type}

open Cursor

-- ---------------------------------------------------------------------------
-- What stays in an instance
-- ---------------------------------------------------------------------------

/-- The computation does not change the call stack, and what it results in has the property. -/
def Stays (m : Run α) (Q : α → Prop) : Prop :=
  ∀ x, SameStack x.cursor (m x).state.cursor ∧ ∀ a x', m x = .ok a x' → Q a

/-- The computation does not change the call stack. -/
abbrev Neutral (m : Run α) : Prop := Stays m fun _ => True

namespace Stays

variable {Q R : α → Prop} {m m' : Run α}

theorem pure {a : α} (h : Q a) : Stays (Pure.pure a) Q := by
  refine fun x => ⟨.refl _, ?_⟩
  rintro _ _ ⟨⟩
  exact h

theorem throw (d : Diagnostic) : Stays (throw d : Run α) Q := fun _ => ⟨.refl _, nofun⟩

theorem bind {P : β → Prop} {f : α → Run β} (hm : Stays m R) (hf : ∀ a, R a → Stays (f a) P) :
    Stays (m >>= f) P := by
  intro x
  obtain ⟨hsame, hresult⟩ := hm x
  simp only [EStateM.bind_apply]
  rcases hx : m x with ⟨a, x'⟩ | ⟨d, x'⟩ <;> rw [hx] at hsame
  · obtain ⟨hsame', hresult'⟩ := hf a (hresult a x' hx) x'
    exact ⟨hsame.trans hsame', hresult'⟩
  · exact ⟨hsame, nofun⟩

/-- A computation whose result does not matter comes first. -/
theorem after {P : β → Prop} {f : α → Run β} (hm : Neutral m) (hf : ∀ a, Stays (f a) P) : Stays (m >>= f) P :=
  hm.bind fun a _ => hf a

theorem reads {f : Execution → Run α} (hf : ∀ x, Stays (f x) Q) : Stays (get >>= f) Q := fun x => hf x x

theorem ite {p : Prop} [Decidable p] (hm : Stays m Q) (hm' : Stays m' Q) : Stays (if p then m else m') Q := by
  split <;> assumption

theorem checked (e : Except Diagnostic α) : Neutral (ofExcept e : Run α) := by
  cases e with
  | error d => exact throw d
  | ok a => exact pure trivial

theorem onCursor {f : Cursor → Cursor} (hf : ∀ c, SameStack c (f c)) : Neutral (Run.onCursor f) :=
  fun x => ⟨hf x.cursor, fun _ _ _ => trivial⟩

end Stays

theorem Silent.stays {Q : α → Prop} {m : Run α} (h : Silent m Q) : Stays m Q := by
  intro x
  obtain ⟨hcursor, hresult⟩ := h x
  rw [hcursor]
  exact ⟨.refl _, hresult⟩

theorem Silent.stays_local {m : Run (Progress Evaluated)} (h : Silent m Finished) : Stays m Progress.Local := by
  intro x
  obtain ⟨hsame, hresult⟩ := h.stays x
  refine ⟨hsame, fun p x' hx => ?_⟩
  obtain ⟨r, rfl⟩ := hresult p x' hx
  trivial

theorem finish_stays : Stays finish Progress.Local := finish_silent.stays_local

end Run

namespace Expr

open Run

variable {env : Environment}

theorem lookup_stays (info : NodeInfo) (path : VarPath) (indexes : List (Span × Value)) :
    Stays (lookup env info path indexes) Progress.Local := (lookup_silent info path indexes).stays_local

theorem applyUnary_stays (info : NodeInfo) (op : UnaryOp) (r : Evaluated) :
    Stays (applyUnary info op r) Progress.Local := (applyUnary_silent info op r).stays_local

theorem applyBinary_stays (op : BinaryOp) (left right : Expr) (a : Value) (b : Evaluated) :
    Stays (applyBinary env op left right a b) Progress.Local := (applyBinary_silent op left right a b).stays_local

theorem collectResults_stays (site : CallSite) (args : List Evaluated) (i : InstanceId) :
    Stays (collectResults env site args i) Progress.Local := (collectResults_silent site args i).stays_local

end Expr

namespace Stmt

open Run

variable {env : Environment}

theorem announce_stays (statements : List Stmt) : Stays (announce statements) Progress.Local := by
  cases statements with
  | nil => exact finish_stays
  | cons s rest => exact .after (.onCursor fun _ => ⟨rfl, rfl⟩) fun _ => .pure rfl

theorem continueBlock_stays (rest : List Stmt) : Stays (continueBlock rest) Progress.Local := by
  refine .reads fun x => ?_
  split
  · exact announce_stays rest
  · exact finish_stays

theorem assignTo_stays (a : AssignTarget) (r : Evaluated) : Stays (assignTo env a r) Progress.Local :=
  (assignTo_silent a r).stays_local

theorem enterLoop_stays (info : NodeInfo) : Neutral (enterLoop info) := by
  refine .reads fun x => ?_
  split
  · exact .onCursor fun _ => ⟨rfl, rfl⟩
  · exact .throw _

theorem sameStack_leaveLoop (c : Cursor) (loop : LoopEntry) : Cursor.SameStack c (c.leaveLoop loop) := by
  unfold Cursor.leaveLoop
  split <;> exact ⟨rfl, rfl⟩

theorem leaveLoop_stays (info : NodeInfo) : Neutral (leaveLoop info) := by
  refine .onCursor fun c => ?_
  split
  · exact sameStack_leaveLoop c _
  · exact .refl c

theorem afterIteration_stays (info : NodeInfo) {next : Run (Progress Evaluated)} (h : Stays next Progress.Local) :
    Stays (afterIteration info next) Progress.Local := by
  refine .reads fun x => ?_
  split
  · exact h
  · exact .after (.onCursor fun _ => ⟨rfl, rfl⟩) fun _ => .after (leaveLoop_stays info) fun _ => finish_stays
  · exact .after (leaveLoop_stays info) fun _ => finish_stays

theorem afterFor_stays (info : NodeInfo) (remaining : Int) (body : Stmt) :
    Stays (afterFor info remaining body) Progress.Local :=
  afterIteration_stays info <| .ite (.after (leaveLoop_stays info) fun _ => finish_stays) (.pure rfl)

theorem afterWhile_stays (info : NodeInfo) (condition : Expr) (body : Stmt) :
    Stays (afterWhile info condition body) Progress.Local := afterIteration_stays info (.pure rfl)

theorem testRepeat_stays (info : NodeInfo) (body : Stmt) (condition : Expr) (r : Evaluated) :
    Stays (testRepeat info body condition r) Progress.Local :=
  .after (.checked _) fun _ => .ite (.after (leaveLoop_stays info) fun _ => finish_stays) (.pure rfl)

theorem startFor_stays (loop : ForLoop) (results : List Evaluated) : Neutral (startFor env loop results) :=
  (startFor_silent loop results).stays

theorem requestExit_stays (info : NodeInfo) : Stays (requestExit info) Progress.Local := by
  refine .reads fun ⟨storage, ⟨current, callers, loops, pending, pause⟩⟩ => ?_
  cases current with
  | none => exact .throw _
  | some i => exact .ite (.after (.onCursor fun _ => ⟨rfl, rfl⟩) fun _ => finish_stays) (.throw _)

end Stmt

-- ---------------------------------------------------------------------------
-- Transitions and the stack
-- ---------------------------------------------------------------------------

/-- The frames that a transition puts in front of the ones that wait. -/
def Moved.inner : Moved → List Frame
  | .next _ inner | .paused inner => inner

/-- None of the frames that a transition comes to waits for an instance. -/
def Moved.Local (moved : Moved) : Prop := Frame.awaited moved.inner = []

namespace Run

open Cursor Expr Stmt

variable {env : Environment}

/-- A transition has called an instance that was not on the stack. -/
structure Called (x : Execution) (i : InstanceId) (site : CallSite) (args : List Evaluated) (body : Stmt)
    (moved : Moved) (x' : Execution) : Prop where
  inactive : x.cursor.isActive i = false
  cursor : (x.cursor.call i).SameStack x'.cursor
  bounded : i < x'.storage.instances.size
  moved : moved = .paused [.start body, .callee site args i]

/-- A transition stays in the instance that runs, or it calls another one. A call that fails stays, too. -/
def Turns (m : Run Moved) : Prop :=
  ∀ x, match m x with
    | .ok moved x' => SameStack x.cursor x'.cursor ∧ moved.Local ∨
      ∃ i site args body, Called x i site args body moved x'
    | .error _ x' => SameStack x.cursor x'.cursor

theorem Stays.turns {m : Run Moved} (h : Stays m Moved.Local) : Turns m := by
  intro x
  obtain ⟨hsame, hresult⟩ := h x
  rcases hx : m x with ⟨moved, x'⟩ | ⟨d, x'⟩ <;> rw [hx] at hsame
  · exact .inl ⟨hsame, hresult moved x' hx⟩
  · exact hsame

theorem settled_stays {k : Run (Progress Evaluated)} (h : Stays k Progress.Local) : Stays (settled k) Moved.Local := by
  refine h.bind fun p hp => ?_
  cases p with
  | done r => exact .pure rfl
  | paused inner => exact .pure hp

-- ---------------------------------------------------------------------------
-- Calls
-- ---------------------------------------------------------------------------

variable {x x' : Execution} {site : CallSite} {args : List Evaluated} {i : InstanceId} {isFunction : Bool}

/-- A call to an instance on the stack fails before anything is changed. -/
theorem enter_of_isActive (h : x.cursor.isActive i = true) :
    enter env site args i isFunction x =
      .error (.of .notInvocable site.info.span s!"{site.name.text} is already executing") x := by
  simp [enter, h]

/-- A call to an instance that is not on the stack, before control is transferred to it. -/
def prepareCall (env : Environment) (site : CallSite) (args : List Evaluated) (i : InstanceId) (isFunction : Bool) :
    Run Pou := do
  if isFunction then storing site.info.span (Storage.resetFrame env.library i)
  let pou ← asking site.info.span (·.pouOf env.library i)
  copyInputs env site args i
  pure pou

theorem enter_of_inactive (h : x.cursor.isActive i = false) :
    enter env site args i isFunction x = match prepareCall env site args i isFunction x with
      | .ok pou x' => .ok (.paused [.start pou.body, .callee site args i]) ⟨x'.storage, x'.cursor.call i⟩
      | .error d x' => .error d x' := by
  have entered (x : Execution) : ((do
      let pou ← asking site.info.span (·.pouOf env.library i)
      copyInputs env site args i
      onCursor (·.call i)
      pure (.paused [.start pou.body, .callee site args i])) : Run (Progress Evaluated)) x = match ((do
      let pou ← asking site.info.span (·.pouOf env.library i)
      copyInputs env site args i
      pure pou) : Run Pou) x with
      | .ok pou x' => .ok (.paused [.start pou.body, .callee site args i]) ⟨x'.storage, x'.cursor.call i⟩
      | .error d x' => .error d x' := by
    simp only [EStateM.bind_apply]
    rcases asking site.info.span (·.pouOf env.library i) x with ⟨pou, x'⟩ | ⟨d, x'⟩
    · simp only
      rcases copyInputs env site args i x' with ⟨_, x'⟩ | ⟨d, x'⟩ <;> rfl
    · rfl
  unfold enter prepareCall
  simp only [EStateM.bind_apply, EStateM.get_apply, h, Bool.false_eq_true, if_false]
  cases isFunction with
  | false => exact entered x
  | true =>
    simp only [if_true, EStateM.bind_apply]
    rcases storing site.info.span (Storage.resetFrame env.library i) x with ⟨_, x'⟩ | ⟨d, x'⟩
    · exact entered x'
    · rfl

/-- The storages have the same instances, each of the same unit. -/
def SameInstances (s s' : Storage) : Prop := s'.instances.toList.map (·.pou) = s.instances.toList.map (·.pou)

theorem SameInstances.size {s s' : Storage} (h : SameInstances s s') : s'.instances.size = s.instances.size := by
  have hlength := congrArg List.length h
  simpa only [List.length_map, Array.length_toList] using hlength

theorem SameInstances.pouOf {s s' : Storage} (h : SameInstances s s') (l : Library) (i : InstanceId) :
    s'.pouOf l i = s.pouOf l i := by
  have hpou : (s'.instances[i]?).map (·.pou) = (s.instances[i]?).map (·.pou) := by
    simpa only [List.getElem?_map, Array.getElem?_toList] using congrArg (·[i]?) h
  unfold Storage.pouOf Storage.instance?
  cases hfound : s.instances[i]? with
  | none =>
    rw [hfound, Option.map_none, Option.map_eq_none_iff] at hpou
    rw [hpou]
  | some found =>
    rw [hfound, Option.map_some] at hpou
    obtain ⟨found', hfound', hsame⟩ := Option.map_eq_some_iff.mp hpou
    simp only [hfound', Except.ok_bind, hsame]

/-- No instance is created or removed. -/
theorem instances_kept (l : Library) : Kept l SameInstances where
  refl _ := rfl
  trans h h' := h'.trans h
  load p s := by
    obtain h | ⟨_, _, v, -, -, -, h⟩ := Storage.load_state l p s
    · rw [h]
      exact rfl
    · rw [h]
      exact Storage.setSlot_pous p.slot v
  store p type storage name v s := by
    obtain h | ⟨_, changed, -, -, memory, h⟩ := Storage.store_state l p type storage name v s
    · rw [h]
      exact rfl
    · rw [h]
      exact Storage.setSlot_pous p.slot changed
  resetFrame i s := by
    obtain h | ⟨found, p, hfound, -, h⟩ := Storage.resetFrame_state l i s
    · rw [h]
      exact rfl
    · rw [h]
      refine List.ext_getElem? fun j => ?_
      simp only [List.getElem?_map, Array.getElem?_toList, Array.getElem?_setIfInBounds]
      split
      · next heq =>
        subst heq
        replace hfound := Storage.instance?_eq_ok.mp hfound
        rw [if_pos (Array.getElem?_eq_some_iff.mp hfound).1, hfound]
        rfl
      · rfl

theorem lt_of_pouOf {l : Library} {s : Storage} {p : Pou} (h : s.pouOf l i = .ok p) : i < s.instances.size := by
  obtain ⟨found, hfound, -⟩ := Except.bind_eq_ok.mp h
  exact (Array.getElem?_eq_some_iff.mp (Storage.instance?_eq_ok.mp hfound)).1

theorem prepareCall_silent (env : Environment) (site : CallSite) (args : List Evaluated) (i : InstanceId)
    (isFunction : Bool) : Mute (prepareCall env site args i isFunction) := by
  have called : Mute (do
      let pou ← asking site.info.span (·.pouOf env.library i)
      copyInputs env site args i
      pure pou : Run Pou) :=
    .after (.asking _ _) fun _ => .after (copyInputs_silent site args i) fun _ => .pure trivial
  exact .ite (.after (.storing _ _) fun _ => called) called

/-- What is going to run in a called instance is the body of its unit. -/
theorem pouOf_of_prepareCall {pou : Pou} (h : prepareCall env site args i isFunction x = .ok pou x') :
    x'.storage.pouOf env.library i = .ok pou := by
  have called {x : Execution} (h : (do
      let pou ← asking site.info.span (·.pouOf env.library i)
      copyInputs env site args i
      pure pou : Run Pou) x = .ok pou x') : x'.storage.pouOf env.library i = .ok pou := by
    simp only [asking, EStateM.bind_apply, EStateM.get_apply, EStateM.ofExcept_apply] at h
    cases hpou : atSpan site.info.span (x.storage.pouOf env.library i) with
    | error d => simp [hpou] at h
    | ok p =>
      have hsame := copyInputs_keeps (instances_kept env.library) site args i x
      simp only [hpou] at h
      cases hcopied : copyInputs env site args i x with
      | error d y => simp [hcopied] at h
      | ok _ y =>
        simp only [hcopied] at h hsame
        cases h
        exact (hsame.pouOf env.library i).trans (atSpan_eq_ok.mp hpou)
  unfold prepareCall at h
  cases isFunction with
  | false => exact called h
  | true =>
    simp only [if_true, EStateM.bind_apply] at h
    cases hreset : storing site.info.span (Storage.resetFrame env.library i) x with
    | error d y => simp [hreset] at h
    | ok _ y =>
      simp only [hreset] at h
      exact called h

theorem settled_enter_turns (env : Environment) (site : CallSite) (args : List Evaluated) (i : InstanceId)
    (isFunction : Bool) : Turns (settled (enter env site args i isFunction)) := by
  intro x
  cases hactive : x.cursor.isActive i with
  | true =>
    simp only [settled, EStateM.bind_apply, enter_of_isActive hactive]
    exact .refl _
  | false =>
    obtain ⟨hsame, -⟩ := (prepareCall_silent env site args i isFunction).stays x
    simp only [settled, EStateM.bind_apply, enter_of_inactive hactive]
    rcases hprepared : prepareCall env site args i isFunction x with ⟨pou, y⟩ | ⟨d, y⟩ <;> rw [hprepared] at hsame
    · refine .inr ⟨i, site, args, pou.body, hactive, ⟨rfl, ?_⟩, ?_, rfl⟩
      · exact congrArg₂ (fun (current : Option InstanceId) callers => current.toList ++ callers) hsame.current
          hsame.callers
      · exact lt_of_pouOf (pouOf_of_prepareCall hprepared : y.storage.pouOf env.library i = .ok pou)
    · exact hsame

/-- The instance that a call is for. -/
inductive Targets (env : Environment) (x : Execution) (site : CallSite) : InstanceId → Bool → Prop
  | function {pou i} (hcallee : site.callee = some (.function pou)) (hi : x.storage.unitInstance pou = .ok i) :
    Targets env x site i true
  | block {root place block i} (hcallee : site.callee = some (.instance root))
    (hplace : x.storage.locate env.library x.cursor.current root [] = .ok place)
    (hi : x.storage.value place = .ok (.block ⟨block, some i⟩)) : Targets env x site i false

theorem invoke_eq_enter (h : Targets env x site i isFunction) (args : List Evaluated) :
    invoke env site args x = enter env site args i isFunction x := by
  cases h with
  | function hcallee hi =>
    simp [invoke, hcallee, asking, hi, atSpan, Except.mapError]
  | block hcallee hplace hi =>
    simp [invoke, hcallee, asking, hplace, hi, atSpan, Except.mapError]

/-- A call is for an instance, or it ends with the value of a standard function, or it fails at once. -/
theorem invoke_cases (env : Environment) (site : CallSite) (args : List Evaluated) (x : Execution) :
    (∃ i isFunction, Targets env x site i isFunction) ∨
      (∃ v, invoke env site args x = .ok (.done { value := v }) x) ∨ ∃ d, invoke env site args x = .error d x := by
  cases hcallee : site.callee with
  | none => exact .inr (.inr ⟨_, by simp [invoke, hcallee]; rfl⟩)
  | some callee =>
    cases callee with
    | standard f =>
      cases hvalue : atSpan site.info.span (f.evaluate (args.map (·.value))) with
      | error d => exact .inr (.inr ⟨d, by simp [invoke, hcallee, hvalue]⟩)
      | ok v => exact .inr (.inl ⟨v, by simp [invoke, hcallee, hvalue]⟩)
    | function pou =>
      cases hi : x.storage.unitInstance pou with
      | error e => exact .inr (.inr ⟨_, by simp [invoke, hcallee, asking, hi, atSpan, Except.mapError]; rfl⟩)
      | ok i => exact .inl ⟨i, true, .function hcallee hi⟩
    | «instance» root =>
      cases hplace : x.storage.locate env.library x.cursor.current root [] with
      | error e => exact .inr (.inr ⟨_, by simp [invoke, hcallee, asking, hplace, atSpan, Except.mapError]; rfl⟩)
      | ok place =>
        cases hvalue : x.storage.value place with
        | error e =>
          exact .inr (.inr ⟨_, by simp [invoke, hcallee, asking, hplace, hvalue, atSpan, Except.mapError]; rfl⟩)
        | ok v =>
          by_cases hv : ∃ block i, v = .block ⟨block, some i⟩
          · obtain ⟨block, i, rfl⟩ := hv
            exact .inl ⟨i, false, .block hcallee hplace hvalue⟩
          · refine .inr (.inr ⟨.internal site.info.span s!"{site.name.text} is not bound to an instance", ?_⟩)
            simp only [invoke, hcallee, asking, EStateM.bind_apply, EStateM.get_apply, hplace, hvalue, atSpan,
              Except.mapError, EStateM.ofExcept_apply]
            split
            · next block i => exact absurd ⟨block, i, rfl⟩ hv
            · rfl

/-- A call to a unit turns to its instance, or it fails; a call to a standard function stays. -/
theorem settled_invoke_turns (site : CallSite) (args : List Evaluated) : Turns (settled (invoke env site args)) := by
  intro x
  obtain ⟨i, isFunction, htarget⟩ | ⟨v, hv⟩ | ⟨d, hd⟩ := invoke_cases env site args x
  · have hturns := settled_enter_turns env site args i isFunction x
    simp only [settled, EStateM.bind_apply, invoke_eq_enter htarget] at hturns ⊢
    exact hturns
  · simp only [settled, EStateM.bind_apply, hv]
    exact .inl ⟨.refl _, rfl⟩
  · simp only [settled, EStateM.bind_apply, hd]
    exact .refl _

-- ---------------------------------------------------------------------------
-- Every transition
-- ---------------------------------------------------------------------------

theorem enterNext_turns {frame : List Evaluated → List Expr → Frame} {next : List Evaluated → Run Moved}
    (hframe : ∀ before rest, (frame before rest).awaited? = none) (hnext : ∀ values, Turns (next values))
    (before : List Evaluated) (es : List Expr) : Turns (enterNext frame next before es) := by
  cases es with
  | nil => exact hnext before
  | cons e rest => exact Stays.turns (.pure (by simp [Moved.Local, Moved.inner, Frame.awaited, hframe]))

theorem lookup_turns (info : NodeInfo) (path : VarPath) (indexes : List (Span × Value)) :
    Turns (settled (lookup env info path indexes)) := (settled_stays (lookup_stays info path indexes)).turns

theorem enterExpr_turns (e : Expr) : Turns (enterExpr env e) := by
  cases e with
  | literal info v type => exact Stays.turns (.pure rfl)
  | var info path indexes =>
    rw [enterExpr]
    split
    · exact lookup_turns _ _ _
    · exact enterNext_turns (fun _ _ => rfl) (fun values => lookup_turns _ _ _) [] indexes
  | unary info op e => exact Stays.turns (.pure rfl)
  | binary info op l r => exact Stays.turns (.pure rfl)
  | call info name labels args callee bindings =>
    exact enterNext_turns (fun _ _ => rfl) (fun values => settled_invoke_turns _ values) [] args

theorem enterOption_stays (otherwise : Option Stmt) : Stays (enterOption otherwise) Moved.Local := by
  cases otherwise with
  | none => exact settled_stays finish_stays
  | some s => exact .pure rfl

theorem enterBranches_stays (otherwise : Option Stmt) (branches : List (Expr × Stmt)) :
    Stays (enterBranches otherwise branches) Moved.Local := by
  cases branches with
  | nil => exact enterOption_stays otherwise
  | cons branch rest => exact .pure rfl

theorem enterArm_stays (span : Span) (v : Value) (otherwise : Option Stmt) (arms : List (List CaseLabel × Stmt)) :
    Stays (enterArm span v otherwise arms) Moved.Local := by
  induction arms with
  | nil => exact enterOption_stays otherwise
  | cons arm rest ih => exact .after (.checked _) fun matched => .ite (.pure rfl) ih

theorem enterFor_stays (loop : ForLoop) (results : List Evaluated) : Stays (enterFor env loop results) Moved.Local :=
  .after (startFor_stays loop results) fun _ => .ite (settled_stays finish_stays) <|
    .after (enterLoop_stays loop.info) fun _ => .pure rfl

theorem enterWhile_stays (info : NodeInfo) (condition : Expr) (body : Stmt) (entered : Bool) (r : Evaluated) :
    Stays (enterWhile info condition body entered r) Moved.Local := by
  refine .after (.checked _) fun holds => .ite (.ite (.after (enterLoop_stays info) fun _ => ?_) ?_)
    (.ite (.after (leaveLoop_stays info) fun _ => ?_) ?_)
  · exact .pure rfl
  · exact .pure rfl
  · exact settled_stays finish_stays
  · exact settled_stays finish_stays

theorem enterUntil_stays (info : NodeInfo) (body : Stmt) (condition : Expr) :
    Stays (enterUntil info body condition) Moved.Local := by
  refine .reads fun x => ?_
  split
  · exact .pure rfl
  · exact settled_stays (afterIteration_stays info finish_stays)

theorem enterStmt_turns (s : Stmt) : Turns (enterStmt env s) := by
  cases s with
  | forLoop info control start stop step body =>
    rw [enterStmt]
    exact enterNext_turns (fun _ _ => rfl) (fun values => (enterFor_stays _ values).turns) [] _
  | ifThen info branches otherwise => exact (enterBranches_stays otherwise branches).turns
  | block info statements => exact (settled_stays (announce_stays statements)).turns
  | repeatLoop info body condition => exact Stays.turns (.after (enterLoop_stays info) fun _ => .pure rfl)
  | exit info => exact (settled_stays (requestExit_stays info)).turns
  | ret info =>
    have hret : Stays (do onCursor (·.request .ret); finish) Progress.Local :=
      .after (.onCursor fun _ => ⟨rfl, rfl⟩) fun _ => finish_stays
    exact (settled_stays hret).turns
  | eval | assign | case | whileLoop => exact Stays.turns (.pure rfl)

/-- Every frame but one that waits for an instance stays in the instance that runs, or calls another one. -/
theorem enterFrame_turns (r : Evaluated) {frame : Frame} (h : frame.awaited? = none) :
    Turns (enterFrame env r frame) := by
  cases frame with
  | index info path before indexes rest =>
    rw [enterFrame]
    exact enterNext_turns (fun _ _ => rfl) (fun values => lookup_turns _ _ _) _ rest
  | arg site before rest =>
    exact enterNext_turns (fun _ _ => rfl) (fun values => settled_invoke_turns _ values) _ rest
  | bound loop before rest =>
    rw [enterFrame]
    exact enterNext_turns (fun _ _ => rfl) (fun values => (enterFor_stays _ values).turns) _ rest
  | operand info op => exact (settled_stays (applyUnary_stays info op r)).turns
  | right op left right value => exact (settled_stays (applyBinary_stays op left right value r)).turns
  | callee site args i => cases h
  | results site args i => exact (settled_stays (collectResults_stays site args i)).turns
  | rest statements => exact (settled_stays (continueBlock_stays statements)).turns
  | value target => exact (settled_stays (assignTo_stays target r)).turns
  | condition condition body rest otherwise =>
    exact Stays.turns (.after (.checked _) fun _ => .ite (.pure rfl) (enterBranches_stays otherwise rest))
  | selector selector arms otherwise => exact (enterArm_stays _ _ otherwise arms).turns
  | forBody info remaining body => exact (settled_stays (afterFor_stays info remaining body)).turns
  | whileTest info condition body entered => exact (enterWhile_stays info condition body entered r).turns
  | whileBody info condition body => exact (settled_stays (afterWhile_stays info condition body)).turns
  | repeatBody info body condition => exact (enterUntil_stays info body condition).turns
  | repeatTest info body condition => exact (settled_stays (testRepeat_stays info body condition r)).turns
  | left | start | target | whileAgain => exact Stays.turns (.pure rfl)

-- ---------------------------------------------------------------------------
-- Micro-steps and the stack
-- ---------------------------------------------------------------------------

@[simp] theorem awaited_nil : Frame.awaited [] = [] := rfl

@[simp] theorem awaited_append (inner outer : List Frame) :
    Frame.awaited (inner ++ outer) = Frame.awaited inner ++ Frame.awaited outer := List.filterMap_append

@[simp] theorem awaited_callee (site : CallSite) (args : List Evaluated) (i : InstanceId) (outer : List Frame) :
    Frame.awaited (.callee site args i :: outer) = i :: Frame.awaited outer := rfl

theorem awaited_cons_of_none {frame : Frame} (h : frame.awaited? = none) (outer : List Frame) :
    Frame.awaited (frame :: outer) = Frame.awaited outer := List.filterMap_cons_none h

/-- What a micro-step that pauses does to the stack, above instances that nothing in its frames waits for. -/
inductive Shifts (base : List InstanceId) (frames frames' : List Frame) (x' : Execution) : Prop
  | stays (hsame : Frame.awaited frames' = Frame.awaited frames)
  | call {i site args body outer} (hframes : frames' = .start body :: .callee site args i :: outer)
    (houter : Frame.awaited outer = Frame.awaited frames) (hnew : i ∉ Frame.awaited frames ++ base)
    (hbounded : i < x'.storage.instances.size)
  | «return» {i site args outer} (hframes : frames' = .results site args i :: outer)
    (hawaited : Frame.awaited frames = i :: Frame.awaited outer)

theorem Shifts.nodup {base : List InstanceId} {frames frames' : List Frame} (h : Shifts base frames frames' x')
    (hnodup : (Frame.awaited frames ++ base).Nodup) : (Frame.awaited frames' ++ base).Nodup := by
  cases h with
  | stays hsame => rwa [hsame]
  | call hframes houter hnew hbounded =>
    rw [← houter] at hnodup hnew
    rw [hframes]
    exact List.nodup_cons.mpr ⟨hnew, hnodup⟩
  | «return» hframes hawaited =>
    rw [hawaited] at hnodup
    rw [hframes]
    exact (List.nodup_cons.mp hnodup).2

theorem Shifts.bounded {base : List InstanceId} {frames frames' : List Frame} (h : Shifts base frames frames' x')
    (hbounded : ∀ i ∈ Frame.awaited frames ++ base, i < x'.storage.instances.size) :
    ∀ i ∈ Frame.awaited frames' ++ base, i < x'.storage.instances.size := by
  cases h with
  | stays hsame => rwa [hsame]
  | call hframes houter hnew hlt =>
    rw [← houter] at hbounded
    rw [hframes]
    exact List.forall_mem_cons.mpr ⟨hlt, hbounded⟩
  | «return» hframes hawaited =>
    rw [hawaited] at hbounded
    rw [hframes]
    exact (List.forall_mem_cons.mp hbounded).2

/-- What a micro-step ends with: the frames wait for the instances on the stack, except for the lowest ones. -/
def Ended (base : List InstanceId) (frames : List Frame) (x : Execution) : Stepped → Prop
  | .ok (.done _) x' => SameStack x.cursor x'.cursor ∧ Frame.awaited frames = []
  | .ok (.paused frames') x' => x'.cursor.OnStack (Frame.awaited frames' ++ base) ∧ Shifts base frames frames' x'
  | .error _ x' => SameStack x.cursor x'.cursor

theorem leave_eq (site : CallSite) (args : List Evaluated) (i caller : InstanceId) (rest : List InstanceId)
    (hcallers : x.cursor.callers = caller :: rest) :
    leave site args i x = .ok (.paused [.results site args i])
      ⟨x.storage, { x.cursor with current := some caller, callers := rest, pending := none }⟩ := by
  simp [leave, onCursor, EStateM.modify_apply, Cursor.return?, Cursor.clearPending, hcallers]

/-- A transition that the micro-step goes on with does not change the stack, and the last one does what is said. -/
theorem transition_shifts (env : Environment) {base : List InstanceId} (hbase : base ≠ []) {frames₀ : List Frame} {x₀ : Execution}
    (hstack : x₀.cursor.OnStack (Frame.awaited frames₀ ++ base)) (focus : Focus) (frames : List Frame) (x : Execution)
    (hframes : Frame.awaited frames = Frame.awaited frames₀) (hsame : SameStack x₀.cursor x.cursor) :
    match transition env focus frames x with
    | .ok (.inl p) x' => Ended base frames₀ x₀ (.ok p x')
    | .ok (.inr (_, frames')) x' => Frame.awaited frames' = Frame.awaited frames₀ ∧ SameStack x₀.cursor x'.cursor
    | .error _ x' => SameStack x₀.cursor x'.cursor := by
  have behind {m : Run Moved} {outer : List Frame} (hm : Turns m)
      (houter : Frame.awaited outer = Frame.awaited frames₀) :
      match transition.behind outer m x with
      | .ok (.inl p) x' => Ended base frames₀ x₀ (.ok p x')
      | .ok (.inr (_, frames')) x' => Frame.awaited frames' = Frame.awaited frames₀ ∧ SameStack x₀.cursor x'.cursor
      | .error _ x' => SameStack x₀.cursor x'.cursor := by
    have hx := hm x
    simp only [transition.behind, EStateM.bind_apply]
    generalize m x = result at hx ⊢
    rcases result with ⟨moved, x'⟩ | ⟨d, x'⟩
    · obtain ⟨hsame', hlocal⟩ | ⟨i, site, args, body, hcalled⟩ := hx
      · cases moved with
        | next focus inner =>
          refine ⟨?_, hsame.trans hsame'⟩
          rw [awaited_append, show Frame.awaited inner = [] from hlocal, List.nil_append, houter]
        | paused inner =>
          have hawaited : Frame.awaited (inner ++ outer) = Frame.awaited frames₀ := by
            rw [awaited_append, show Frame.awaited inner = [] from hlocal, List.nil_append, houter]
          refine ⟨?_, .stays hawaited⟩
          rw [hawaited]
          exact hstack.same (hsame.trans hsame')
      · obtain ⟨hinactive, hcursor, hbounded, rfl⟩ := hcalled
        have hx : x.cursor.OnStack (Frame.awaited frames₀ ++ base) := hstack.same hsame
        have hnew : i ∉ Frame.awaited frames₀ ++ base := fun hmem => by
          rw [(hx.isActive i).mpr hmem] at hinactive
          cases hinactive
        refine ⟨.same ⟨rfl, ?_⟩ hcursor, .call rfl houter hnew hbounded⟩
        show x.cursor.current.toList ++ x.cursor.callers = Frame.awaited outer ++ base
        rw [hx.current, hx.callers, houter]
        cases hwhole : Frame.awaited frames₀ ++ base with
        | nil => exact absurd (List.append_eq_nil_iff.mp hwhole).2 hbase
        | cons caller rest => rfl
    · exact hsame.trans hx
  cases focus with
  | expr e => exact behind (enterExpr_turns e) hframes
  | stmt s => exact behind (enterStmt_turns s) hframes
  | result r =>
    cases frames with
    | nil => exact ⟨hsame, hframes.symm⟩
    | cons frame outer =>
      by_cases hawaited : frame.awaited? = none
      · exact behind (enterFrame_turns r hawaited) ((awaited_cons_of_none hawaited outer).symm.trans hframes)
      · cases frame with
        | callee site args i =>
          -- The lowest instances are there, so the one that has made the call is on the stack.
          have hx : x.cursor.OnStack (i :: (Frame.awaited outer ++ base)) := by
            rw [awaited_callee] at hframes
            rw [← List.cons_append, hframes]
            exact hstack.same hsame
          cases hcallers : Frame.awaited outer ++ base with
          | nil => exact absurd (List.append_eq_nil_iff.mp hcallers).2 hbase
          | cons caller rest =>
            have hleave := leave_eq site args i caller rest (hx.callers.trans hcallers)
            simp only [transition, transition.behind, enterFrame, settled, EStateM.bind_apply, hleave]
            refine ⟨?_, .return rfl hframes.symm⟩
            rw [List.singleton_append, awaited_cons_of_none rfl, hcallers]
            exact ⟨rfl, rfl⟩
        | _ => exact absurd rfl hawaited

/-- A micro-step calls an instance, returns from one, or does not change the stack. -/
theorem microStep_ended (env : Environment) {base : List InstanceId} (hbase : base ≠ []) {frames : List Frame}
    (hstack : x.cursor.OnStack (Frame.awaited frames ++ base)) : Ended base frames x (microStep env frames x) := by
  rw [← rest_result]
  refine rest_of_transition
    (P := fun _ frames' x' => Frame.awaited frames' = Frame.awaited frames ∧ SameStack x.cursor x'.cursor)
    (fun focus frames' x' h => ?_) ⟨rfl, .refl _⟩
  exact transition_shifts env hbase hstack focus frames' x' h.1 h.2

end Run

end StructuredText
