-- SUMMARY: Evaluating the expressions of a linked body is safe.
import StructuredText.Proofs.Locate
import StructuredText.Proofs.Nodes
import StructuredText.Proofs.Results
import StructuredText.Proofs.Safe

/-!
# Safe expressions

In a linked body every reference has a type, every call a callee, and every argument a parameter. Then
references are located, called instances exist, and whatever the expressions of the body evaluate to is proper:
only what the program computes may fail.
-/

namespace StructuredText

open Run

-- ---------------------------------------------------------------------------
-- Linked expressions
-- ---------------------------------------------------------------------------

/-- A reference has the type that its node says. -/
structure VarPath.Links (l : Library) (vars : List VarDecl) (info : NodeInfo) (path : VarPath)
    (type : TypeId) (root : Root) : Prop where
  typed : info.type? = some type
  declared : l.types.Declares type
  permanent : info.storage.temporary = false
  rooted : path.root = some root
  refers : l.Refers vars root path.selectors type
  fixed : ∀ hops, path.fixed = some hops → List.Forall₂ Selector.Selects path.selectors hops

/-- An argument of a call is bound to a parameter of the unit, and is a variable if that is copied to it. -/
structure ArgBinding.Links (p : Pou) (args : List Expr) (b : ArgBinding) : Prop where
  param : ∃ v, p.vars[b.param]? = some v ∧ v.isExternal = false
  arg : ∃ e, args[b.arg]? = some e ∧ (b.output = true → e.IsVar)

/-- The callee is there, and the arguments are bound to its parameters. Only a unit calls units. -/
def Callee.Links (l : Library) (vars : List VarDecl) (inUnit : Prop) (args : List Expr)
    (bindings : List ArgBinding) : Callee → Prop
  | .standard _ => True
  | .function pou => inUnit ∧ ∃ p, l.pous[pou]? = some p ∧ p.kind ≠ .functionBlock ∧
    ∀ b ∈ bindings, b.Links p args
  | .instance root => inUnit ∧ ∃ type pou p, l.Refers vars root [] type ∧
    l.types.kindOf type = .ok (.block pou) ∧ l.pous[pou]? = some p ∧ ∀ b ∈ bindings, b.Links p args

namespace Expr

/-- References have types, literals are plain, and calls have callees. -/
def linked (l : Library) (vars : List VarDecl) (inUnit : Prop) : NodeSpec where
  literal _ v := v.Plain
  var info path _ := ∃ type root, path.Links l vars info type root
  operator _ := True
  call _ callee args bindings := ∃ c, callee = some c ∧ c.Links l vars inUnit args bindings

abbrev Linked (l : Library) (vars : List VarDecl) (inUnit : Prop) (e : Expr) : Prop :=
  e.Satisfies (linked l vars inUnit)

end Expr

/-- What an expression may evaluate to: a variable also to a place of its type. -/
structure Layout.Yields (y : Layout) (e : Expr) (r : Evaluated) : Prop where
  proper : r.value.Proper y.Bound
  located : ∀ info path indexes, e = .var info path indexes → ∃ type place, info.type? = some type ∧
    y.library.types.Declares type ∧ info.storage.temporary = false ∧ r.place? = some place ∧
    y.Placed place type

theorem Layout.Yields.of_value {y : Layout} {e : Expr} {r : Evaluated} (he : e.path? = none)
    (h : r.value.Proper y.Bound) : y.Yields e r := by
  refine ⟨h, fun info path indexes heq => ?_⟩
  subst heq
  cases he

theorem Layout.proper_of_yields {y : Layout} {es : List Expr} {rs : List Evaluated}
    (h : List.Forall₂ y.Yields es rs) : ∀ r ∈ rs, r.value.Proper y.Bound := by
  intro r hr
  obtain ⟨e, -, hyields⟩ := TypeTable.exists_of_mem_right h hr
  exact hyields.proper

/-- The computation is safe on the variables of the layout, and leaves the stack as it is. -/
abbrev Layout.Performs (y : Layout) (epsilon : Float) (n : Nat) (stack : Stack)
    (m : Run (Progress Evaluated)) (Q : Evaluated → Prop) : Prop :=
  Safe ⟨y.library, epsilon⟩ (Storage.Sound y) n stack stack m Q

variable {y : Layout} {epsilon : Float} {vars : List VarDecl} {inUnit : Prop} {n : Nat} {stack : Stack}

/-- The bodies of all units are safe up to fewer pauses. -/
def Layout.BodiesSafe (y : Layout) (epsilon : Float) (n : Nat) : Prop :=
  ∀ k < n, ∀ i p callers loops, y.InstanceOf i p →
    y.Performs epsilon k ⟨some i, callers, loops⟩ (p.body.execute ⟨y.library, epsilon⟩) fun _ => True

theorem Layout.BodiesSafe.mono {k : Nat} (hk : k ≤ n) (h : y.BodiesSafe epsilon n) :
    y.BodiesSafe epsilon k :=
  fun k' hk' => h k' (Nat.lt_of_lt_of_le hk' hk)

variable (hl : y.library.Resolved)

namespace Expr

-- ---------------------------------------------------------------------------
-- References and operators
-- ---------------------------------------------------------------------------

include hl in
theorem lookup_safe {info : NodeInfo} {path : VarPath} {indexes : List Expr} {type : TypeId} {root : Root}
    (hlinks : path.Links y.library vars info type root) (hruns : y.Runs stack.current vars)
    (values : List (Span × Value)) :
    y.Performs epsilon n stack (lookup ⟨y.library, epsilon⟩ info path values)
      (y.Yields (.var info path indexes)) := by
  have located {hops : List Hop} (hhops : List.Forall₂ Selector.Selects path.selectors hops) :
      y.Performs epsilon n stack (do
        let current := (← get).cursor.current
        let place ← asking info.span (·.locate y.library current root hops)
        let value ← storing info.span (Storage.load y.library place)
        pure (.done ⟨value, some place⟩)) (y.Yields (.var info path indexes)) := by
    refine .reads fun x hx => ?_
    have hcurrent : x.cursor.current = stack.current := by rw [← hx]; rfl
    rw [hcurrent]
    refine .bind (R := fun place => y.Placed place type) ?_ fun place hplace => ?_
    · exact .asking fun s hs => .of_exists (hs.locate hl hruns hlinks.refers hhops)
    · refine .bind (.storing (Storage.Sound.load hl hplace)) fun v hv => .done ⟨hv.1, ?_⟩
      intro info' path' indexes' heq
      cases heq
      exact ⟨type, place, hlinks.typed, hlinks.declared, hlinks.permanent, rfl, hplace⟩
  unfold lookup
  rw [hlinks.rooted]
  cases hfix : path.fixed with
  | some hops => exact located (hlinks.fixed hops hfix)
  | none => exact .bind (.checked (Body.hops_regular _ _ _)) fun hops hhops => located hhops

theorem applyUnary_safe (info : NodeInfo) (op : UnaryOp) (r : Evaluated) :
    y.Performs epsilon n stack (applyUnary info op r) (·.value.Proper y.Bound) :=
  .bind (.checked ((op.evaluate_regular r.value).atSpan info.span)) fun _ hv => .done hv

theorem applyBinary_safe (op : BinaryOp) (left right : Expr) {a : Value} (b : Evaluated)
    (ha : a.Proper y.Bound) :
    y.Performs epsilon n stack (applyBinary ⟨y.library, epsilon⟩ op left right a b)
      (·.value.Proper y.Bound) := by
  have hresult := (op.evaluate_regular ha b.value epsilon).mapError (f := (·.between left.span right.span))
    fun _ h => ValueError.ordinary_between h _ _
  exact .bind (.checked hresult) fun _ hv => .done hv

-- ---------------------------------------------------------------------------
-- Parameters
-- ---------------------------------------------------------------------------

include hl in
theorem store_steady {span : Span} {place : Place} {type : TypeId} {storage : StorageClass}
    {name : String} {v : Value} (hplace : y.Placed place type) (htype : y.library.types.Declares type)
    (hpermanent : storage.temporary = false) (hv : v.Proper y.Bound) :
    Steady (Storage.Sound y) stack
      (storing span (Storage.store y.library place (some type) storage name v)) fun _ => True :=
  .storing (Storage.Sound.store hl hplace htype hpermanent hv)

theorem value_steady {span : Span} {place : Place} {type : TypeId} (hplace : y.Placed place type) :
    Steady (Storage.Sound y) stack (asking span (·.value place)) (·.Proper y.Bound) := by
  refine .asking fun s hs => .of_exists ?_
  obtain ⟨v, hv, hfits⟩ := hs.value hplace
  exact ⟨v, hv, hfits.1⟩

/-- The unit of an instance is the one that the layout has for it. -/
theorem pouOf_steady {i : InstanceId} {p : Pou} (hi : y.InstanceOf i p) (span : Span) :
    Steady (Storage.Sound y) stack (asking span (·.pouOf y.library i)) (p = ·) :=
  .asking fun _ hs => .of_exists ⟨p, hs.pouOf hi, rfl⟩

include hl in
/-- The variables of an instance that are not external are at places of their types. -/
theorem placed_own {i : InstanceId} {p : Pou} (hi : y.InstanceOf i p) {position : Nat} {decl : VarDecl}
    (hdecl : p.vars[position]? = some decl) (hexternal : decl.isExternal = false) :
    ∃ type, decl.Resolved y.library type ∧ y.Placed ⟨.own i position, []⟩ type := by
  have hdecl : y.declOf (.own i position) = some decl := Layout.declOf_own.mpr ⟨p, hi, hdecl⟩
  obtain ⟨type, hresolved⟩ := hl.declOf hdecl
  exact ⟨type, hresolved, Layout.placed_slot hdecl hexternal hresolved.typed⟩

include hl in
/-- The variable that holds the result of a function is not external. -/
theorem placed_result {i : InstanceId} {p : Pou} (hi : y.InstanceOf i p) {position : Nat} {decl : VarDecl}
    (hdecl : p.vars[position]? = some decl) (hsection : decl.section = .result) :
    ∃ type, decl.Resolved y.library type ∧ y.Placed ⟨.own i position, []⟩ type := by
  obtain ⟨type, hresolved⟩ := hl.declOf (Layout.declOf_own.mpr ⟨p, hi, hdecl⟩)
  refine placed_own hl hi hdecl (Bool.eq_false_iff.mpr fun hexternal => ?_)
  cases hsection.symm.trans (hresolved.external hexternal)

section

variable {site : CallSite} {args : List Evaluated} {i : InstanceId} {p : Pou} (hi : y.InstanceOf i p)
  (hbindings : ∀ b ∈ site.bindings, b.Links p site.args) (hargs : List.Forall₂ y.Yields site.args args)

include hl hi hbindings hargs

theorem copyInputs_steady :
    Steady (Storage.Sound y) stack (copyInputs ⟨y.library, epsilon⟩ site args i) fun _ => True := by
  refine .bind (pouOf_steady hi _) fun _ heq => ?_
  subst heq
  refine .bind (Q := fun _ => True) (.forIn fun b hb _ => ?_) fun _ _ => .pure trivial
  refine .ite (fun _ => ?_) fun _ => .pure trivial
  obtain ⟨param, hparam, hexternal⟩ := (hbindings b hb).param
  obtain ⟨arg, harg, -⟩ := (hbindings b hb).arg
  obtain ⟨found, hfound, hyields⟩ := TypeTable.exists_getElem?_of_forall₂ hargs harg
  obtain ⟨type, hresolved, hplaced⟩ := placed_own hl hi hparam hexternal
  simp only [hparam, harg, hfound, hresolved.typed]
  exact .bind (store_steady hl hplaced hresolved.declared hresolved.permanent hyields.proper)
    fun _ _ => .pure trivial

theorem copyOutputs_steady :
    Steady (Storage.Sound y) stack (copyOutputs ⟨y.library, epsilon⟩ site args i) fun _ => True := by
  refine .bind (Q := fun _ => True) (.forIn fun b hb _ => ?_) fun _ _ => .pure trivial
  refine .ite (fun houtput => ?_) fun _ => .pure trivial
  obtain ⟨param, hparam, hexternal⟩ := (hbindings b hb).param
  obtain ⟨arg, harg, hvar⟩ := (hbindings b hb).arg
  obtain ⟨info, path, indexes, rfl⟩ := hvar houtput
  obtain ⟨found, hfound, hyields⟩ := TypeTable.exists_getElem?_of_forall₂ hargs harg
  obtain ⟨_, -, hplaced⟩ := placed_own hl hi hparam hexternal
  refine .bind (value_steady hplaced) fun v hv => ?_
  obtain ⟨type, place, htype, hdeclared, hpermanent, hplace, hplaced⟩ :=
    hyields.located info path indexes rfl
  simp only [harg, hfound, Option.bind_some, hplace, htype]
  exact .bind (store_steady hl hplaced hdeclared hpermanent hv) fun _ _ => .pure trivial

-- ---------------------------------------------------------------------------
-- Calls
-- ---------------------------------------------------------------------------

theorem collectResults_safe :
    y.Performs epsilon n stack (collectResults ⟨y.library, epsilon⟩ site args i)
      (·.value.Proper y.Bound) := by
  refine .bind (pouOf_steady hi _) fun _ heq => ?_
  subst heq
  refine .bind (copyOutputs_steady hl hi hbindings hargs) fun _ _ => ?_
  cases hresult : p.result? with
  | none => exact .done trivial
  | some position =>
    obtain ⟨hlt, hsection, -⟩ := List.findIdx?_eq_some_iff_getElem.mp hresult
    obtain ⟨_, -, hplaced⟩ := placed_result hl hi (List.getElem?_eq_getElem hlt) (of_decide_eq_true hsection)
    exact .bind (value_steady hplaced) fun v hv => .done hv

/-- A called instance that has finished returns to the one that has called it. -/
theorem leave_safe {caller : InstanceId} {callers : List InstanceId} {loops : List LoopEntry} :
    Safe ⟨y.library, epsilon⟩ (Storage.Sound y) n ⟨some i, caller :: callers, loops⟩
      ⟨some caller, callers, loops⟩ (leave site args i) (·.value.Proper y.Bound) := by
  refine .onCursor ⟨some caller, callers, loops⟩ (fun c hc => ?_) (.paused fun k _ => ?_)
  · obtain ⟨current, waiting, running, pending, pause⟩ := c
    cases hc
    rfl
  · exact .resumed (collectResults_safe hl hi hbindings hargs) fun r hr => .finished hr

theorem enter_safe (hbodies : y.BodiesSafe epsilon n) {caller : InstanceId}
    (hcaller : stack.current = some caller) (isFunction : Bool) :
    y.Performs epsilon n stack (enter ⟨y.library, epsilon⟩ site args i isFunction)
      (·.value.Proper y.Bound) := by
  obtain ⟨current, callers, loops⟩ := stack
  obtain rfl : current = some caller := hcaller
  have entered : y.Performs epsilon n ⟨some caller, callers, loops⟩ (do
        let pou ← asking site.info.span (·.pouOf y.library i)
        copyInputs ⟨y.library, epsilon⟩ site args i
        onCursor (·.call i)
        pure (.paused [.start pou.body, .callee site args i])) (·.value.Proper y.Bound) := by
    refine .bind (pouOf_steady hi _) fun _ heq => ?_
    subst heq
    refine .bind (copyInputs_steady hl hi hbindings hargs) fun _ _ => ?_
    refine .onCursor ⟨some i, caller :: callers, loops⟩ (fun c hc => ?_) (.paused fun k hk => ?_)
    · obtain ⟨current, waiting, running, pending, pause⟩ := c
      cases hc
      rfl
    · refine .resumed (hbodies k hk i p (caller :: callers) loops hi) fun r _ => ?_
      exact .resumed (leave_safe hl hi hbindings hargs) fun r hr => .finished hr
  unfold enter
  refine .reads fun x _ => .ite (fun _ => .fail nofun) fun _ => .ite (fun _ => ?_) fun _ => entered
  exact .bind (.storing (Storage.Sound.resetFrame hl hi)) fun _ _ => entered

end

include hl in
theorem invoke_safe {site : CallSite} {args : List Evaluated} {callee : Callee}
    (hcallee : site.callee = some callee)
    (hlinks : callee.Links y.library vars inUnit site.args site.bindings)
    (hbodies : y.BodiesSafe epsilon n) (hruns : y.Runs stack.current vars)
    (hunit : inUnit → ∃ caller, stack.current = some caller)
    (hargs : List.Forall₂ y.Yields site.args args) :
    y.Performs epsilon n stack (invoke ⟨y.library, epsilon⟩ site args) (·.value.Proper y.Bound) := by
  unfold invoke
  rw [hcallee]
  cases callee with
  | standard f =>
    have hvalues : ∀ v ∈ args.map (·.value), v.Proper y.Bound := by
      intro v hv
      obtain ⟨r, hr, rfl⟩ := List.mem_map.mp hv
      exact Layout.proper_of_yields hargs r hr
    exact .bind (.checked ((f.evaluate_regular hvalues).atSpan _)) fun v hv => .done hv
  | function pou =>
    obtain ⟨hin, p, hp, hkind, hbindings⟩ := hlinks
    obtain ⟨caller, hcaller⟩ := hunit hin
    refine .bind (R := fun i => y.InstanceOf i p) (.asking fun s hs => .of_exists ?_) fun i hi => ?_
    · obtain ⟨i, hi, hpou⟩ := hs.units pou p hp hkind
      exact ⟨i, hi, pou, hpou, hp⟩
    · exact enter_safe hl hi hbindings hargs hbodies hcaller true
  | «instance» root =>
    obtain ⟨hin, type, pou, p, hrefers, hkind, hp, hbindings⟩ := hlinks
    obtain ⟨caller, hcaller⟩ := hunit hin
    refine .reads fun x hx => ?_
    have hcurrent : x.cursor.current = stack.current := by rw [← hx]; rfl
    rw [hcurrent]
    refine .bind (R := fun place => y.Placed place type) ?_ fun place hplace => ?_
    · exact .asking fun s hs => .of_exists (hs.locate hl hruns hrefers .nil)
    · refine .bind (R := fun v => ∃ i, v = .block ⟨pou, some i⟩ ∧ y.pous[i]? = some pou)
        (.asking fun s hs => .of_exists ?_) fun v ⟨i, hv, hpou⟩ => ?_
      · obtain ⟨i, hi, hpou⟩ := hs.blockAt hplace hkind
        exact ⟨_, hi, i, rfl, hpou⟩
      · subst hv
        exact enter_safe hl ⟨pou, hpou, hp⟩ hbindings hargs hbodies hcaller false

-- ---------------------------------------------------------------------------
-- Evaluation
-- ---------------------------------------------------------------------------

set_option linter.unusedSectionVars false in
include hl in
mutual

/-- A linked expression is safe, and evaluates to what it may evaluate to. -/
theorem evaluate_safe (hbodies : y.BodiesSafe epsilon n) (hruns : y.Runs stack.current vars)
    (hunit : inUnit → ∃ caller, stack.current = some caller) :
    (e : Expr) → e.Linked y.library vars inUnit →
      y.Performs epsilon n stack (e.evaluate ⟨y.library, epsilon⟩) (y.Yields e)
  | .literal info v type, h => by
    rw [evaluate]
    exact .done (.of_value rfl (Value.Plain.proper h))
  | .var info path indexes, h => by
    obtain ⟨⟨type, root, hlinks⟩, hindexes⟩ := h
    rw [evaluate]
    split
    · exact lookup_safe hl hlinks hruns []
    · refine evaluateAll_safe hbodies hruns hunit (fun _ _ _ => rfl) .nil indexes hindexes
        fun results _ => ?_
      exact lookup_safe hl hlinks hruns _
  | .unary info op e, h => by
    rw [evaluate]
    refine .andThen (evaluate_safe hbodies hruns hunit e h.2) (fun _ => rfl) fun r _ => ?_
    exact (applyUnary_safe info op r).weaken fun _ => .of_value rfl
  | .binary info op left right, h => by
    rw [evaluate]
    refine .andThen (evaluate_safe hbodies hruns hunit left h.2.1) (fun _ => rfl) fun a ha => ?_
    refine .andThen (evaluate_safe hbodies hruns hunit right h.2.2) (fun _ => rfl) fun b _ => ?_
    exact (applyBinary_safe op left right b ha.proper).weaken fun _ => .of_value rfl
  | .call info name labels args callee bindings, h => by
    obtain ⟨⟨c, hcallee, hlinks⟩, hargs⟩ := h
    rw [evaluate]
    refine evaluateAll_safe hbodies hruns hunit (fun _ _ _ => rfl) .nil args hargs fun results hresults => ?_
    exact (invoke_safe hl hcallee hlinks hbodies hruns hunit hresults).weaken fun _ => .of_value rfl

/-- Expressions are evaluated in order, and what goes on with the results of all is safe. -/
theorem evaluateAll_safe (hbodies : y.BodiesSafe epsilon n) (hruns : y.Runs stack.current vars)
    (hunit : inUnit → ∃ caller, stack.current = some caller)
    {frame : List Evaluated → List Expr → Frame}
    {next : List Evaluated → Run (Progress Evaluated)} {Q : Evaluated → Prop}
    (hframe : ∀ before rest r, resume ⟨y.library, epsilon⟩ r (frame before rest) =
      evaluateAll ⟨y.library, epsilon⟩ frame next (before ++ [r]) rest)
    {done : List Expr} {before : List Evaluated} (hbefore : List.Forall₂ y.Yields done before) :
    (es : List Expr) → AllSatisfy (linked y.library vars inUnit) es →
      (∀ results, List.Forall₂ y.Yields (done ++ es) results →
        y.Performs epsilon n stack (next results) Q) →
      y.Performs epsilon n stack (evaluateAll ⟨y.library, epsilon⟩ frame next before es) Q
  | [], _, hnext => by
    rw [evaluateAll]
    rw [List.append_nil] at hnext
    exact hnext before hbefore
  | e :: es, h, hnext => by
    rw [evaluateAll]
    refine .andThen (evaluate_safe hbodies hruns hunit e h.1) (hframe before es) fun r hr => ?_
    have hdone : List.Forall₂ y.Yields (done ++ [e]) (before ++ [r]) :=
      List.rel_append hbefore (.cons hr .nil)
    refine evaluateAll_safe hbodies hruns hunit hframe hdone es h.2 fun results hresults => ?_
    rw [List.append_assoc] at hresults
    exact hnext results hresults

end

end Expr

end StructuredText
