-- SUMMARY: Evaluating an expression on two storages that are alike comes to the same value, calls included.
import StructuredText.Proofs.Parallel
import StructuredText.Proofs.SafeExpr

/-!
# Parallel expressions

The expressions of a linked body are parallel. Its references lead to places where both storages have the same value. A
call of a function makes the variables of the function the same before anything is copied into them, so that its body is
executed on storages that agree on the whole stack, and the variables of a function block are the same in any case.
-/

namespace StructuredText

open Run

-- ---------------------------------------------------------------------------
-- Function blocks that last
-- ---------------------------------------------------------------------------

/-- What a function block is bound to lasts. -/
def Layout.Binds (y : Layout) (ref : BlockRef) : Prop := ∀ i, ref.instance? = some i → y.Lasting i

/-- Function blocks in a value of a type are bound to instances that last. -/
theorem Layout.Fits.binds {y : Layout} (hl : y.library.Resolved) {type : TypeId} {v : Value} (h : y.Fits type v) :
    v.Proper y.Binds := by
  obtain ⟨hproper, hinhabits⟩ := h
  induction hinhabits with
  | @elementary id d e v hd hkind hstores =>
    refine TypeTable.proper_of_inhabits (.elementary hd hkind hstores : y.library.types.Inhabits False id v) hproper ?_
    have hvalue := hstores.kind
    cases v with
    | array | struct | block => cases hk : e.kind <;> simp [hk, Value.kind, ElementaryKind.valueKind] at hvalue
    | _ => rfl
  | «alias» _ _ _ _ ih => exact ih hproper
  | subrange _ _ _ _ _ ih => exact ih hproper
  | enumeration => trivial
  | array _ _ _ _ _ _ ih =>
    exact Value.allProper_iff.mpr fun v hmem => ih v hmem (Value.allProper_iff.mp hproper v hmem)
  | @struct id d members ms _ _ hnames htypes _ ih =>
    refine Value.membersProper_iff.mpr fun m hmem => ?_
    obtain ⟨k, hm⟩ := List.mem_iff_getElem?.mp hmem
    have hlength : ms.length = members.length := by simpa using congrArg List.length hnames
    have hlt := (List.getElem?_eq_some_iff.mp hm).1
    have hdecl : members[k]? = some members[k] := List.getElem?_eq_getElem (hlength ▸ hlt)
    obtain ⟨e, he⟩ := Option.isSome_iff_exists.mp (htypes _ (List.mem_of_getElem? hdecl))
    exact ih k _ m e hdecl hm he (Value.membersProper_iff.mp hproper m hmem)
  | @block id d pou ref hd hkind href =>
    intro i hi
    obtain ⟨j, hj, hpou⟩ := hproper
    obtain rfl : j = i := Option.some.inj (hj.symm.trans hi)
    obtain ⟨p, hp, hblock⟩ := hl.blocks id d pou hd hkind
    exact ⟨p, ⟨pou, href ▸ hpou, hp⟩, by simp [hblock]⟩

/-- What an expression evaluates to, at a place where both storages have the same value. -/
structure Layout.Locates (y : Layout) (busy : List InstanceId) (e : Expr) (r : Evaluated) : Prop
    extends y.Yields e r where
  binds : r.value.Proper y.Binds
  sees : ∀ place, r.place? = some place → y.Sees busy place.slot

/-- What is computed has no place. -/
structure Layout.Computes (y : Layout) (r : Evaluated) : Prop where
  proper : r.value.Proper y.Bound
  binds : r.value.Proper y.Binds
  place : r.place? = none

theorem Layout.Computes.locates {y : Layout} {busy : List InstanceId} {e : Expr} {r : Evaluated}
    (h : y.Computes r) (he : e.path? = none) : y.Locates busy e r :=
  ⟨.of_value he h.proper, h.binds, fun place hplace => by cases h.place.symm.trans hplace⟩

namespace Comparison

variable {c : Comparison} {n : Nat} {extra : List InstanceId} {before after chain : Chain}
  {Q : Evaluated → Prop} {vars : List VarDecl}

/-- What an expression evaluates to while the instances of a chain run. -/
abbrev Locates (c : Comparison) (chain : Chain) (e : Expr) (r : Evaluated) : Prop :=
  c.layout.Locates (c.kept ++ chain.instances) e r

/-- The bodies of all units are parallel up to fewer pauses. -/
def BodiesParallel (c : Comparison) (n : Nat) : Prop :=
  ∀ k < n, ∀ i p callers, c.layout.InstanceOf i p →
    c.Parallel k [] ⟨some i, callers⟩ ⟨some i, callers⟩ (p.body.execute c.env) fun _ => True

theorem BodiesParallel.mono {k : Nat} (hk : k ≤ n) (h : c.BodiesParallel n) : c.BodiesParallel k :=
  fun k' hk' => h k' (Nat.lt_of_lt_of_le hk' hk)

variable (hl : c.layout.library.Resolved)

-- ---------------------------------------------------------------------------
-- References and operators
-- ---------------------------------------------------------------------------

include hl in
theorem lookup_parallel {info : NodeInfo} {path : VarPath} {indexes : List Expr} {type : TypeId} {root : Root}
    (hlinks : path.Links c.layout.library vars info type root) (hruns : c.layout.Runs chain.current vars)
    (values : List (Span × Value)) :
    c.Parallel n [] chain chain (Expr.lookup c.env info path values) (c.Locates chain (.var info path indexes)) := by
  have located {hops : List Hop} (hhops : List.Forall₂ Selector.Selects path.selectors hops) :
      c.Parallel n [] chain chain (do
        let current := (← get).cursor.current
        let place ← asking info.span (·.locate c.layout.library current root hops)
        let value ← storing info.span (Storage.load c.layout.library place)
        pure (.done ⟨value, some place⟩)) (c.Locates chain (.var info path indexes)) := by
    refine .reads (fun x hx => ?_) fun _ _ _ => rfl
    have hcurrent : x.cursor.current = chain.current := by rw [← hx]; rfl
    rw [hcurrent]
    refine .bind (R := fun place => c.layout.Placed place type ∧ c.layout.Sees (c.kept ++ chain.instances) place.slot)
      (uniform_found fun s s' hs => ?_) fun place ⟨hplaced, hsees⟩ => ?_
    · obtain ⟨place, hplace⟩ := hs.locate hl hruns (fun i hi => List.mem_append_right _ (Chain.mem_of_current hi))
        hlinks.refers hhops
      exact ⟨place, hplace.left, hplace.right, hplace.placed, hplace.sees⟩
    · refine .bind (.abreast (fun stack => .storing (Storage.Sound.load hl hplaced)) fun cursor =>
        uniform_storing (Storage.load_uniform hsees)) fun v hv => .done ⟨⟨hv.1, ?_⟩, hv.binds hl, ?_⟩
      · intro info' path' indexes' heq
        cases heq
        exact ⟨type, place, hlinks.typed, hlinks.declared, hlinks.permanent, rfl, hplaced⟩
      · rintro _ ⟨⟩
        exact hsees
  unfold Expr.lookup
  rw [hlinks.rooted]
  cases hfix : path.fixed with
  | some hops => exact located (hlinks.fixed hops hfix)
  | none => exact .bind (.checked _) fun hops hhops => located ((Body.hops_regular _ _ _).of_ok hhops)

theorem applyUnary_parallel (info : NodeInfo) (op : UnaryOp) (r : Evaluated) :
    c.Parallel n [] chain chain (Expr.applyUnary info op r) c.layout.Computes := by
  refine .bind (.checked _) fun v hv => .done ⟨?_, ?_, rfl⟩
  · exact ((op.evaluate_regular r.value).atSpan info.span).of_ok hv
  · exact ((op.evaluate_regular r.value).atSpan info.span).of_ok hv

theorem applyBinary_parallel (op : BinaryOp) (left right : Expr) {a : Value} (b : Evaluated)
    (ha : a.Proper c.layout.Bound) (hbinds : a.Proper c.layout.Binds) :
    c.Parallel n [] chain chain (Expr.applyBinary c.env op left right a b) c.layout.Computes := by
  refine .bind (.checked _) fun v hv => .done ⟨?_, ?_, rfl⟩
  · exact (op.evaluate_regular ha b.value c.epsilon).of_ok (Except.mapError_eq_ok.mp hv)
  · exact (op.evaluate_regular hbinds b.value c.epsilon).of_ok (Except.mapError_eq_ok.mp hv)

-- ---------------------------------------------------------------------------
-- Parameters
-- ---------------------------------------------------------------------------

section

variable {y : Layout} {busy : List InstanceId} {cursor : Cursor} {env : Environment} {site : CallSite}
  {args : List Evaluated} {i : InstanceId} (hi : i ∈ busy)

include hi

theorem sees_own (position : Nat) : y.Sees busy (.own i position) := .inr hi

theorem copyInputs_uniform : Uniform (AlikeAt y busy cursor) (Expr.copyInputs env site args i) fun _ => True := by
  refine .bind (uniform_asking fun s s' hs => hs.pouOf i) fun pou _ => ?_
  refine .bind (Q := fun _ => True) (.forIn fun b _ _ => .ite (fun _ => ?_) fun _ => .pure trivial) fun _ _ => .pure trivial
  split
  · exact .bind (uniform_storing (Storage.store_uniform (sees_own hi _) _ _ _ _)) fun _ _ => .pure trivial
  · exact .fail

theorem copyOutputs_uniform (hargs : ∀ r ∈ args, ∀ place, r.place? = some place → y.Sees busy place.slot) :
    Uniform (AlikeAt y busy cursor) (Expr.copyOutputs env site args i) fun _ => True := by
  refine .bind (Q := fun _ => True) (.forIn fun b _ _ => .ite (fun _ => ?_) fun _ => .pure trivial) fun _ _ => .pure trivial
  refine .bind (uniform_asking fun s s' hs => hs.value (sees_own hi _)) fun v _ => ?_
  split
  · next info path indexes harg =>
    cases hplace : args[b.arg]?.bind (·.place?) with
    | none => exact .fail
    | some place =>
      obtain ⟨r, hr, hplace⟩ := Option.bind_eq_some_iff.mp hplace
      have hsees := hargs r (List.mem_of_getElem? hr) place hplace
      exact .bind (uniform_storing (Storage.store_uniform hsees _ _ _ _)) fun _ _ => .pure trivial
  · exact .fail
  · exact .fail

end

-- ---------------------------------------------------------------------------
-- Calls
-- ---------------------------------------------------------------------------

/-- What makes the variables of an instance the same in both storages may come first. -/
theorem Parallel.lasting {m : Run (Progress Evaluated)} {i : InstanceId} (hi : c.layout.Lasting i)
    (h : c.Parallel n [i] before after m Q) : c.Parallel n [] before after m Q :=
  fun x x' hx => h x x' ⟨hx.cursor, hx.onChain, hx.pause, hx.storages.left, hx.storages.right, hx.storages.alike.lasting hi⟩

include hl in
theorem Parallel.resetting {i : InstanceId} {p : Pou} {span : Span} {k : Unit → Run (Progress Evaluated)}
    (hi : c.layout.InstanceOf i p) (h : c.Parallel n [i] before after (k ()) Q) :
    c.Parallel n [] before after (storing span (Storage.resetFrame c.layout.library i) >>= k) Q := by
  rintro ⟨s, cursor⟩ ⟨s', cursor'⟩ hx
  obtain rfl : cursor = cursor' := hx.cursor
  have hleft := Storage.Sound.resetFrame hl hi s hx.storages.left
  have hright := Storage.Sound.resetFrame hl hi s' hx.storages.right
  obtain ⟨t, t', ht, ht', halike⟩ | ⟨e, he, he'⟩ := hx.storages.alike.resetFrame c.layout.library i
  · rw [ht] at hleft
    rw [ht'] at hright
    simp only [EStateM.bind_apply, storing, ht, ht']
    exact h ⟨t, cursor⟩ ⟨t', cursor⟩ ⟨rfl, hx.onChain, hx.pause, hleft.1, hright.1, halike⟩
  · simp only [EStateM.bind_apply, storing, he, he']
    exact .error hx.coupled

theorem sees_of_locates {es : List Expr} {rs : List Evaluated} (h : List.Forall₂ (c.Locates chain) es rs)
    (extra : List InstanceId) :
    ∀ r ∈ rs, ∀ place, r.place? = some place → c.layout.Sees (extra ++ c.kept ++ chain.instances) place.slot := by
  intro r hr place hplace
  obtain ⟨e, -, hlocates⟩ := TypeTable.exists_of_mem_right h hr
  refine (hlocates.sees place hplace).mono ?_
  rw [List.append_assoc]
  exact List.subset_append_right _ _

section

variable {site : CallSite} {args : List Evaluated} {i : InstanceId} {p : Pou} (hi : c.layout.InstanceOf i p)
  (hbindings : ∀ b ∈ site.bindings, b.Links p site.args) (hargs : List.Forall₂ (c.Locates chain) site.args args)

include hl hi hbindings hargs

/-- The outputs of an instance that has finished are the same in both storages. -/
theorem collectResults_parallel :
    c.Parallel n [i] chain chain (Expr.collectResults c.env site args i) c.layout.Computes := by
  have hmem : i ∈ [i] ++ c.kept ++ chain.instances := List.mem_cons_self
  have hyields := hargs.imp fun _ _ (h : c.Locates chain _ _) => h.toYields
  refine .bind (.abreast (fun stack => Expr.pouOf_steady hi _) fun cursor =>
    uniform_asking fun s s' hs => hs.pouOf i) fun _ heq => ?_
  subst heq
  refine .bind (.abreast (fun stack => Expr.copyOutputs_steady hl hi hbindings hyields) fun cursor =>
    copyOutputs_uniform hmem (sees_of_locates hargs [i])) fun _ _ => ?_
  cases hresult : p.result? with
  | none => exact .done ⟨trivial, trivial, rfl⟩
  | some position =>
    obtain ⟨hlt, hsection, -⟩ := List.findIdx?_eq_some_iff_getElem.mp hresult
    obtain ⟨type, -, hplaced⟩ :=
      Expr.placed_result hl hi (List.getElem?_eq_getElem hlt) (of_decide_eq_true hsection)
    refine .bind (R := c.layout.Fits type) (uniform_found fun s s' hs => ?_) fun v hv => .done ⟨hv.1, hv.binds hl, rfl⟩
    obtain ⟨v, hv, hfits⟩ := hs.left.value hplaced
    have hsees : c.layout.Sees ([i] ++ c.kept ++ chain.instances) (.own i position) := sees_own hmem position
    have hsame : s.value ⟨.own i position, []⟩ = s'.value ⟨.own i position, []⟩ := hs.alike.value hsees
    exact ⟨v, hv, hsame ▸ hv, hfits⟩

/-- A called instance that has finished returns to the one that has called it. -/
theorem leave_parallel (hin : c.inUnit) {caller : InstanceId} (hcaller : chain.current = some caller) :
    c.Parallel n [] (chain.push i) chain (Expr.leave site args i) c.layout.Computes := by
  obtain ⟨_, callers⟩ := chain
  obtain rfl : _ = some caller := hcaller
  refine .onCursor ⟨some caller, callers⟩ [i] (fun cursor hcursor => ?_) List.perm_middle.symm.subset ?_
  · obtain ⟨current, waiting, loops, pending, pause⟩ := cursor
    cases hcursor
    exact ⟨rfl, rfl⟩
  · refine .paused hin (List.cons_ne_nil _ _) rfl fun k _ => ?_
    exact .resumed (collectResults_parallel hl hi hbindings hargs) fun r hr => .finished hr

/-- The called instance is executed, and then what it has come to is copied. -/
theorem called_parallel (hbodies : c.BodiesParallel n) (hin : c.inUnit) {caller : InstanceId}
    (hcaller : chain.current = some caller) :
    c.Parallel n [i] chain chain (do
      let pou ← asking site.info.span (·.pouOf c.layout.library i)
      Expr.copyInputs c.env site args i
      onCursor (·.call i)
      pure (.paused [.start pou.body, .callee site args i])) c.layout.Computes := by
  have hmem : i ∈ [i] ++ c.kept ++ chain.instances := List.mem_cons_self
  have hyields := hargs.imp fun _ _ (h : c.Locates chain _ _) => h.toYields
  refine .bind (.abreast (fun stack => Expr.pouOf_steady hi _) fun cursor =>
    uniform_asking fun s s' hs => hs.pouOf i) fun _ heq => ?_
  subst heq
  refine .bind (.abreast (fun stack => Expr.copyInputs_steady hl hi hbindings hyields) fun cursor =>
    copyInputs_uniform hmem) fun _ _ => ?_
  refine .onCursor (chain.push i) [] (fun cursor hcursor => ?_) List.perm_middle.subset ?_
  · subst hcursor
    exact ⟨rfl, rfl⟩
  · refine .paused hin (List.cons_ne_nil _ _) rfl fun k hk => ?_
    refine .resumed (hbodies k hk i p chain.instances hi) fun r _ => ?_
    exact .resumed (leave_parallel hl hi hbindings hargs hin hcaller) fun r hr => .finished hr

theorem enter_parallel (hbodies : c.BodiesParallel n) (hin : c.inUnit) {caller : InstanceId}
    (hcaller : chain.current = some caller) {isFunction : Bool} (hlasting : isFunction = false → c.layout.Lasting i) :
    c.Parallel n [] chain chain (Expr.enter c.env site args i isFunction) c.layout.Computes := by
  have called := called_parallel hl hi hbindings hargs hbodies hin hcaller
  refine .reads (fun x _ => .ite (fun _ => .fail) fun _ => ?_) fun _ _ _ => rfl
  cases isFunction with
  | true => exact .resetting hl hi called
  | false => exact .lasting (hlasting rfl) called

end

include hl in
theorem invoke_parallel {site : CallSite} {args : List Evaluated} {callee : Callee} (hcallee : site.callee = some callee)
    (hlinks : callee.Links c.layout.library vars c.inUnit site.args site.bindings)
    (hbodies : c.inUnit → c.BodiesParallel n) (hruns : c.layout.Runs chain.current vars)
    (hunit : c.inUnit → ∃ caller, chain.current = some caller)
    (hargs : List.Forall₂ (c.Locates chain) site.args args) :
    c.Parallel n [] chain chain (Expr.invoke c.env site args) c.layout.Computes := by
  unfold Expr.invoke
  rw [hcallee]
  cases callee with
  | standard f =>
    have hvalues {bound : BlockRef → Prop} (h : ∀ e r, c.Locates chain e r → r.value.Proper bound) :
        ∀ v ∈ args.map (·.value), v.Proper bound := by
      intro v hv
      obtain ⟨r, hr, rfl⟩ := List.mem_map.mp hv
      obtain ⟨e, -, hlocates⟩ := TypeTable.exists_of_mem_right hargs hr
      exact h e r hlocates
    refine .bind (.checked _) fun v hv => .done ⟨?_, ?_, rfl⟩
    · exact ((f.evaluate_regular (hvalues fun _ _ h => h.proper)).atSpan _).of_ok hv
    · exact ((f.evaluate_regular (hvalues fun _ _ h => h.binds)).atSpan _).of_ok hv
  | function pou =>
    obtain ⟨hin, p, hp, hkind, hbindings⟩ := hlinks
    obtain ⟨caller, hcaller⟩ := hunit hin
    refine .bind (R := fun i => c.layout.InstanceOf i p) (uniform_found fun s s' hs => ?_) fun i hi => ?_
    · obtain ⟨i, hi, hpou⟩ := hs.left.units pou p hp hkind
      exact ⟨i, hi, hs.alike.unitInstance pou ▸ hi, pou, hpou, hp⟩
    · exact enter_parallel hl hi hbindings hargs (hbodies hin) hin hcaller nofun
  | «instance» root =>
    obtain ⟨hin, type, pou, p, hrefers, hkind, hp, hbindings⟩ := hlinks
    obtain ⟨caller, hcaller⟩ := hunit hin
    refine .reads (fun x hx => ?_) fun _ _ _ => rfl
    have hcurrent : x.cursor.current = chain.current := by rw [← hx]; rfl
    rw [hcurrent]
    refine .bind (R := fun place => c.layout.Placed place type ∧ c.layout.Sees (c.kept ++ chain.instances) place.slot)
      (uniform_found fun s s' hs => ?_) fun place ⟨hplaced, hsees⟩ => ?_
    · obtain ⟨place, hplace⟩ := hs.locate hl hruns (fun i hi => List.mem_append_right _ (Chain.mem_of_current hi))
        hrefers .nil
      exact ⟨place, hplace.left, hplace.right, hplace.placed, hplace.sees⟩
    · refine .bind (R := fun v => ∃ i, v = .block ⟨pou, some i⟩ ∧ c.layout.pous[i]? = some pou)
        (uniform_found fun s s' hs => ?_) fun v ⟨i, hv, hpou⟩ => ?_
      · obtain ⟨i, hi, hpou⟩ := hs.left.blockAt hplaced hkind
        exact ⟨_, hi, hs.alike.value hsees ▸ hi, i, rfl, hpou⟩
      · subst hv
        exact enter_parallel hl ⟨pou, hpou, hp⟩ hbindings hargs (hbodies hin) hin hcaller
          fun _ => Storage.Coupled.lasting_of_kindOf hl hkind hpou

-- ---------------------------------------------------------------------------
-- Evaluation
-- ---------------------------------------------------------------------------

set_option linter.unusedSectionVars false in
include hl in
mutual

/-- A linked expression is parallel, and evaluates to a place where both storages have the same value. -/
theorem evaluate_parallel (hbodies : c.inUnit → c.BodiesParallel n) (hruns : c.layout.Runs chain.current vars)
    (hunit : c.inUnit → ∃ caller, chain.current = some caller) :
    (e : Expr) → e.Linked c.layout.library vars c.inUnit →
      c.Parallel n [] chain chain (e.evaluate c.env) (c.Locates chain e)
  | .literal info v type, h => by
    rw [Expr.evaluate]
    exact .done ((⟨Value.Plain.proper h, Value.Plain.proper h, rfl⟩ : c.layout.Computes { value := v }).locates rfl)
  | .var info path indexes, h => by
    obtain ⟨⟨type, root, hlinks⟩, hindexes⟩ := h
    rw [Expr.evaluate]
    split
    · exact lookup_parallel hl hlinks hruns []
    · refine evaluateAll_parallel hbodies hruns hunit (fun _ _ _ => rfl) .nil indexes hindexes
        fun results _ => ?_
      exact lookup_parallel hl hlinks hruns _
  | .unary info op e, h => by
    rw [Expr.evaluate]
    refine .andThen (evaluate_parallel hbodies hruns hunit e h.2) (fun _ => rfl) fun r _ => ?_
    exact (applyUnary_parallel info op r).weaken fun _ hr => hr.locates rfl
  | .binary info op left right, h => by
    rw [Expr.evaluate]
    refine .andThen (evaluate_parallel hbodies hruns hunit left h.2.1) (fun _ => rfl) fun a ha => ?_
    refine .andThen (evaluate_parallel hbodies hruns hunit right h.2.2) (fun _ => rfl) fun b _ => ?_
    exact (applyBinary_parallel op left right b ha.proper ha.binds).weaken fun _ hr => hr.locates rfl
  | .call info name labels args callee bindings, h => by
    obtain ⟨⟨callee', hcallee, hlinks⟩, hargs⟩ := h
    rw [Expr.evaluate]
    refine evaluateAll_parallel hbodies hruns hunit (fun _ _ _ => rfl) .nil args hargs fun results hresults => ?_
    exact (invoke_parallel hl hcallee hlinks hbodies hruns hunit hresults).weaken fun _ hr => hr.locates rfl

/-- Expressions are evaluated in order, and what goes on with the results of all is parallel. -/
theorem evaluateAll_parallel (hbodies : c.inUnit → c.BodiesParallel n) (hruns : c.layout.Runs chain.current vars)
    (hunit : c.inUnit → ∃ caller, chain.current = some caller)
    {frame : List Evaluated → List Expr → Frame} {next : List Evaluated → Run (Progress Evaluated)}
    {Q : Evaluated → Prop}
    (hframe : ∀ before rest r, resume c.env r (frame before rest) =
      Expr.evaluateAll c.env frame next (before ++ [r]) rest)
    {done : List Expr} {before : List Evaluated} (hbefore : List.Forall₂ (c.Locates chain) done before) :
    (es : List Expr) → Expr.AllSatisfy (Expr.linked c.layout.library vars c.inUnit) es →
      (∀ results, List.Forall₂ (c.Locates chain) (done ++ es) results →
        c.Parallel n [] chain chain (next results) Q) →
      c.Parallel n [] chain chain (Expr.evaluateAll c.env frame next before es) Q
  | [], _, hnext => by
    rw [Expr.evaluateAll]
    rw [List.append_nil] at hnext
    exact hnext before hbefore
  | e :: es, h, hnext => by
    rw [Expr.evaluateAll]
    refine .andThen (evaluate_parallel hbodies hruns hunit e h.1) (hframe before es) fun r hr => ?_
    have hdone : List.Forall₂ (c.Locates chain) (done ++ [e]) (before ++ [r]) :=
      List.rel_append hbefore (.cons hr .nil)
    refine evaluateAll_parallel hbodies hruns hunit hframe hdone es h.2 fun results hresults => ?_
    rw [List.append_assoc] at hresults
    exact hnext results hresults

end

end Comparison

end StructuredText
