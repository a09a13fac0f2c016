-- SUMMARY: Bodies that are prepared are well-formed and linked, and queries are prepared or refused as mistakes.
import StructuredText.Proofs.Checked
import StructuredText.Proofs.SafeStmt

/-!
# Prepared bodies

A body whose names are resolved and that passes the checks is well-formed and linked. Fixing the references whose
indexes are constant keeps that. Of a query it is known, too, that it is refused with ordinary errors only.
-/

namespace StructuredText

open Reporting Returning

namespace Body

variable {s : Scope} {inUnit : Prop}

-- ---------------------------------------------------------------------------
-- Checked statements
-- ---------------------------------------------------------------------------

section

variable {P E : Expr → Prop} (hcheck : ∀ e c, P e → checkExpr s e = .ok c → E c.expr)

set_option linter.unusedSectionVars false

include hcheck

theorem forall_checkedBounds {control start start' stop stop' : Expr} {step step' : Option Expr} {c : Checked}
    (hcontrol : checkControl s control = .ok c) (hstart : checkBound s c "start" start = .ok start')
    (hstop : checkBound s c "end" stop = .ok stop')
    (hstep : Option.Rel (fun e e' => checkBound s c "step" e = .ok e') step step')
    (h : ∀ e ∈ [control, start, stop] ++ step.toList, P e) :
    ∀ e ∈ [c.expr, start', stop'] ++ step'.toList, E e := by
  have bound {what : String} {e e' : Expr} (he : P e) (h : checkBound s c what e = .ok e') : E e' := by
    obtain ⟨checked, hchecked, rfl⟩ := checkBound_eq_ok h
    exact hcheck e checked he hchecked
  have hcontrol := hcheck control c (h control (by simp)) (checkControl_eq_ok hcontrol).1
  have hstart := bound (h start (by simp)) hstart
  have hstop := bound (h stop (by simp)) hstop
  cases hstep with
  | none => simp [hcontrol, hstart, hstop]
  | some hstep => simp [hcontrol, hstart, hstop, bound (h _ (by simp)) hstep]

mutual

/-- A statement that has passed the checks is well-formed. -/
theorem Verified.wellFormed {inLoop : Bool} {stmt checked : Stmt} :
    Verified s inLoop stmt checked → (∀ e ∈ stmt.exprs, P e) → checked.WellFormed E (inLoop = true)
  | .eval h, hP => hcheck _ _ (hP _ (by simp [Stmt.exprs])) h
  | .assign h, hP => by
    obtain ⟨t, v, path, ht, hpath, hv, -, -, -, rfl⟩ := checkAssign_ok h
    exact ⟨Expr.isVar_of_path? hpath, hcheck _ t (hP _ (by simp [Stmt.exprs])) ht,
      hcheck _ v (hP _ (by simp [Stmt.exprs])) hv⟩
  | .block h, hP => h.wellFormed fun e he => hP e (by rw [Stmt.exprs]; exact he)
  | .ifThen hbranches hotherwise, hP =>
    ⟨hbranches.wellFormed fun e he => hP e (by rw [Stmt.exprs.eq_def]; simp [he]),
      hotherwise.wellFormed fun e he => hP e (by rw [Stmt.exprs.eq_def]; exact List.mem_append_right _ he)⟩
  | .case hselector harms hotherwise, hP =>
    ⟨hcheck _ _ (hP _ (by rw [Stmt.exprs.eq_def]; simp)) (checkSelector_eq_ok hselector),
      harms.wellFormed fun e he => hP e (by rw [Stmt.exprs.eq_def]; simp [he]),
      hotherwise.wellFormed fun e he => hP e (by rw [Stmt.exprs.eq_def]; exact List.mem_append_right _ he)⟩
  | .forLoop hcontrol hstart hstop hstep hbody, hP => by
    refine ⟨(checkControl_eq_ok hcontrol).2, ?_, ?_⟩
    · refine forall_checkedBounds hcheck hcontrol hstart hstop hstep fun e he => hP e ?_
      rw [Stmt.exprs]
      exact List.mem_append_left _ he
    · simpa using hbody.wellFormed fun e he => hP e (by simp [Stmt.exprs, he])
  | .whileLoop hcondition hbody, hP => by
    obtain ⟨c, hc, rfl⟩ := checkCondition_eq_ok hcondition
    refine ⟨hcheck _ c (hP _ (by simp [Stmt.exprs])) hc, ?_⟩
    simpa using hbody.wellFormed fun e he => hP e (by simp [Stmt.exprs, he])
  | .repeatLoop hbody hcondition, hP => by
    obtain ⟨c, hc, rfl⟩ := checkCondition_eq_ok hcondition
    refine ⟨?_, hcheck _ c (hP _ (by simp [Stmt.exprs])) hc⟩
    simpa using hbody.wellFormed fun e he => hP e (by simp [Stmt.exprs, he])
  | .exit, _ => rfl
  | .ret, _ => trivial

theorem VerifiedAll.wellFormed {inLoop : Bool} {ss checked : List Stmt} :
    VerifiedAll s inLoop ss checked → (∀ e ∈ Stmt.exprsOfAll ss, P e) →
      Stmt.AllWellFormed E (inLoop = true) checked
  | .nil, _ => trivial
  | .cons hfirst hrest, hP =>
    ⟨hfirst.wellFormed fun e he => hP e (by simp [Stmt.exprsOfAll, he]),
      hrest.wellFormed fun e he => hP e (by simp [Stmt.exprsOfAll, he])⟩

theorem VerifiedOption.wellFormed {inLoop : Bool} {o checked : Option Stmt} :
    VerifiedOption s inLoop o checked →
      (∀ e ∈ (match o with | some body => body.exprs | none => []), P e) →
      Stmt.OptionWellFormed E (inLoop = true) checked
  | .none, _ => trivial
  | .some h, hP => Verified.wellFormed h hP

theorem VerifiedBranches.wellFormed {inLoop : Bool} {bs checked : List (Expr × Stmt)} :
    VerifiedBranches s inLoop bs checked → (∀ e ∈ Stmt.exprsOfBranches bs, P e) →
      Stmt.BranchesWellFormed E (inLoop = true) checked
  | .nil, _ => trivial
  | .cons hcondition hbody hrest, hP => by
    obtain ⟨c, hc, rfl⟩ := checkCondition_eq_ok hcondition
    exact ⟨hcheck _ c (hP _ (by simp [Stmt.exprsOfBranches])) hc,
      hbody.wellFormed fun e he => hP e (by simp [Stmt.exprsOfBranches, he]),
      hrest.wellFormed fun e he => hP e (by simp [Stmt.exprsOfBranches, he])⟩

theorem VerifiedArms.wellFormed {selector : Checked} {inLoop : Bool}
    {arms checked : List (List CaseLabel × Stmt)} :
    VerifiedArms s selector inLoop arms checked → (∀ e ∈ Stmt.exprsOfArms arms, P e) →
      Stmt.ArmsWellFormed E (inLoop = true) checked
  | .nil, _ => trivial
  | .cons hlabels hbody hrest, hP => by
    refine ⟨fun label hlabel => ?_, hbody.wellFormed fun e he => hP e (by simp [Stmt.exprsOfArms, he]),
      hrest.wellFormed fun e he => hP e (by simp [Stmt.exprsOfArms, he])⟩
    obtain ⟨_, -, hverified⟩ := TypeTable.exists_of_mem_right hlabels hlabel
    exact hverified.isConstant

end

end

-- ---------------------------------------------------------------------------
-- Fixed references
-- ---------------------------------------------------------------------------

theorem fixNode_orderly (e : Expr) : Orderly (fixNode e) := by
  unfold fixNode
  split
  · split
    · exact .bind (hops_regular _ _ _) fun _ _ => .pure trivial
    · exact .pure trivial
  · exact .pure trivial

theorem fixNode_var {info : NodeInfo} {path : VarPath} {indexes : List Expr} {e : Expr}
    (h : fixNode (.var info path indexes) = .ok e) : e = .var info path indexes ∨ ∃ fixed,
      List.Forall₂ Selector.Selects path.selectors fixed ∧
        e = .var info { path with fixed := some fixed } indexes := by
  unfold fixNode at h
  dsimp only at h
  split at h
  · next values _ =>
    obtain ⟨fixed, hfixed, h⟩ := Except.bind_eq_ok.mp h
    exact .inr ⟨fixed, (hops_regular info.span path.selectors values).of_ok hfixed, (Except.ok.inj h).symm⟩
  · exact .inl (Except.ok.inj h).symm

theorem fixNode_linked {l : Library} {vars : List VarDecl} {e e' : Expr} (he : e.Linked l vars inUnit)
    (h : fixNode e = .ok e') : e'.Linked l vars inUnit := by
  cases e with
  | var info path indexes =>
    obtain rfl | ⟨fixed, hfixed, rfl⟩ := fixNode_var h
    · exact he
    · obtain ⟨⟨type, root, hlinks⟩, hindexes⟩ := he
      refine ⟨⟨type, root, ⟨hlinks.typed, hlinks.declared, hlinks.permanent, hlinks.rooted, hlinks.refers,
        fun hops hhops => ?_⟩⟩, hindexes⟩
      cases hhops
      exact hfixed
  | literal | unary | binary | call =>
    cases h
    exact he

theorem isVar_fixed {e e' : Expr} (he : e.IsVar) (h : e.mapNodesM fixNode = .ok e') : e'.IsVar := by
  obtain ⟨info, path, indexes, rfl⟩ := he
  rw [Expr.mapNodesM] at h
  obtain ⟨indexes', -, h⟩ := Except.bind_eq_ok.mp h
  obtain rfl | ⟨fixed, -, rfl⟩ := fixNode_var h
  · exact ⟨_, _, _, rfl⟩
  · exact ⟨_, _, _, rfl⟩

theorem isLiteral_fixed {e e' : Expr} (he : e.isLiteral = true) (h : e.mapNodesM fixNode = .ok e') :
    e'.isLiteral = true := by
  cases e with
  | literal info v type =>
    cases h
    rfl
  | var | unary | binary | call => cases he

theorem forall₂_of_mapAllM {f : Expr → Except Diagnostic Expr} :
    {es es' : List Expr} → Expr.mapAllM f es = .ok es' → List.Forall₂ (fun e e' => e.mapNodesM f = .ok e') es es'
  | [], _, h => by
    rw [Expr.mapAllM] at h
    cases h
    exact .nil
  | e :: es, _, h => by
    rw [Expr.mapAllM] at h
    obtain ⟨e', hfirst, h⟩ := Except.bind_eq_ok.mp h
    obtain ⟨es', hrest, h⟩ := Except.bind_eq_ok.mp h
    cases h
    exact .cons hfirst (forall₂_of_mapAllM hrest)

/-- Fixing the references in the arguments of a call keeps the variables among them. -/
theorem links_fixed {p : Pou} {args args' : List Expr} {b : ArgBinding} (hb : b.Links p args)
    (h : List.Forall₂ (fun e e' => e.mapNodesM fixNode = .ok e') args args') : b.Links p args' := by
  obtain ⟨e, he, hvar⟩ := hb.arg
  obtain ⟨e', he', hfixed⟩ := TypeTable.exists_getElem?_of_forall₂ h he
  exact ⟨hb.param, e', he', fun houtput => isVar_fixed (hvar houtput) hfixed⟩

theorem preserving_fixed {l : Library} {vars : List VarDecl} {e e' : Expr} (h : e.mapNodesM fixNode = .ok e') :
    Stmt.Preserving (Expr.Linked l vars inUnit) (Expr.Linked l vars inUnit) e e' := by
  refine ⟨fun he => ?_, fun he => isVar_fixed he h, fun he => isLiteral_fixed he h⟩
  refine Expr.satisfies_of_mapNodesM (fun info callee args args' bindings hcall hargs => ?_)
    (fun e e' he h => fixNode_linked he h) e he (returns_of_eq_ok h)
  obtain ⟨c, hc, hlinks⟩ := hcall
  have hargs := forall₂_of_mapAllM (f := fixNode) hargs
  refine ⟨c, hc, ?_⟩
  cases c with
  | standard f => trivial
  | function pou =>
    obtain ⟨hin, p, hp, hkind, hbindings⟩ := hlinks
    exact ⟨hin, p, hp, hkind, fun b hb => links_fixed (hbindings b hb) hargs⟩
  | «instance» root =>
    obtain ⟨hin, type, pou, p, hrefers, hkind, hp, hbindings⟩ := hlinks
    exact ⟨hin, type, pou, p, hrefers, hkind, hp, fun b hb => links_fixed (hbindings b hb) hargs⟩

-- ---------------------------------------------------------------------------
-- Prepared bodies
-- ---------------------------------------------------------------------------

/-- A body whose names are resolved is well-formed and linked once it is prepared. -/
theorem prepare_wellFormed (hs : s.Resolved) {body prepared : Stmt}
    (hbody : body.Satisfies (Expr.resolved s.library s.vars inUnit)) (h : prepare s body = .ok prepared) :
    prepared.WellFormed (Expr.Linked s.library s.vars inUnit) False := by
  obtain ⟨checked, hchecked, h⟩ := Except.bind_eq_ok.mp h
  have hresolved := Expr.allSatisfy_iff.mp hbody
  have hwell := (verified_of_verify hchecked).wellFormed
    (fun e c he hc => ((checkExpr_regular hs e he).of_ok hc).linked) hresolved
  simp only [Bool.false_eq_true] at hwell
  have hmapped := returns_of_eq_ok (Except.mapError_eq_ok.mp h)
  have hreplaced := Stmt.replaced_of_mapExprsM checked hmapped
  exact hreplaced.wellFormed (fun e e' he => preserving_fixed he) hwell

-- ---------------------------------------------------------------------------
-- Queries
-- ---------------------------------------------------------------------------

mutual

theorem mapNodesM_orderly {f : Expr → Except Diagnostic Expr} (hf : ∀ e, Orderly (f e)) :
    (e : Expr) → Orderly (e.mapNodesM f)
  | .literal .. => by
    rw [Expr.mapNodesM]
    exact hf _
  | .var _ _ indexes => by
    rw [Expr.mapNodesM]
    exact .bind (mapAllM_orderly hf indexes) fun _ _ => hf _
  | .unary _ _ e => by
    rw [Expr.mapNodesM]
    exact .bind (mapNodesM_orderly hf e) fun _ _ => hf _
  | .binary _ _ left right => by
    rw [Expr.mapNodesM]
    exact .bind (mapNodesM_orderly hf left) fun _ _ => .bind (mapNodesM_orderly hf right) fun _ _ => hf _
  | .call _ _ _ args _ _ => by
    rw [Expr.mapNodesM]
    exact .bind (mapAllM_orderly hf args) fun _ _ => hf _

theorem mapAllM_orderly {f : Expr → Except Diagnostic Expr} (hf : ∀ e, Orderly (f e)) :
    (es : List Expr) → Orderly (Expr.mapAllM f es)
  | [] => by
    rw [Expr.mapAllM]
    exact .pure trivial
  | e :: es => by
    rw [Expr.mapAllM]
    exact .bind (mapNodesM_orderly hf e) fun _ _ => .bind (mapAllM_orderly hf es) fun _ _ => .pure trivial

end

/-- A value is assigned to a target that is no function block. -/
theorem checkAssigned_orderly (hs : s.Resolved) (info : NodeInfo) {t v : Checked} (ht : t.Passes s inUnit) :
    Orderly (do
        if let .block _ := t.probe then throw ((t.probe.notSupported .assign).at t.span)
        atSpan v.span (s.types.assignable t.info.type? v.info.type? v.info.storage v.probe)
        pure (.assign info t.expr v.expr) : Except Diagnostic Stmt) := by
  have assignable : Orderly (do
      atSpan v.span (s.types.assignable t.info.type? v.info.type? v.info.storage v.probe)
      pure (.assign info t.expr v.expr) : Except Diagnostic Stmt) :=
    .bind ((hs.library.types.assignable_orderly ht.declared _ _ _).atSpan _) fun _ _ => .pure trivial
  dsimp only
  split
  · exact .bind (Q := fun _ => True) (.fail (ValueError.ordinary_at (Value.ordinary_notSupported _ _) _)) fun _ _ => assignable
  · exact assignable

theorem checkAssign_orderly (hs : s.Resolved) (info : NodeInfo) {target value : Expr}
    (htarget : target.Satisfies (Expr.resolved s.library s.vars inUnit))
    (hvalue : value.Satisfies (Expr.resolved s.library s.vars inUnit)) :
    Orderly (checkAssign s info target value) := by
  refine .bind (checkExpr_regular hs target htarget) fun t ht => ?_
  split
  · exact .fail (by rintro ⟨⟩)
  · next path _ =>
    refine .bind (checkExpr_regular hs value hvalue) fun v hv => ?_
    have assigned := checkAssigned_orderly hs info (v := v) ht
    have hconstant := (ValueError.constantTarget path.text).ordinary_at (by rintro ⟨⟩) t.span
    exact .guarded hconstant assigned

end Body

/-- The statements that queries consist of. -/
def Stmt.IsQuery : Stmt → Prop
  | .eval _ | .assign .. => True
  | _ => False

namespace Body

variable {s : Scope} {inUnit : Prop}

theorem verify_eval (s : Scope) (e : Expr) :
    verify s (.eval e) = ((fun c => Stmt.eval c.expr) <$> checkExpr s e).mapError ([·]) := by
  rw [verify, checkStmt]
  cases checkExpr s e <;> rfl

theorem verify_assign (s : Scope) (info : NodeInfo) (target value : Expr) :
    verify s (.assign info target value) = (checkAssign s info target value).mapError ([·]) := by
  rw [verify, checkStmt]
  cases checkAssign s info target value <;> rfl

theorem reported_ordinary (d : Diagnostic) (h : Ordinary d) : Ordinary [d] :=
  List.forall_mem_singleton.mpr h

/-- A query whose names are resolved passes the checks, or is refused with ordinary errors. -/
theorem verify_orderly (hs : s.Resolved) {q : Stmt} (hquery : q.IsQuery)
    (hq : q.Satisfies (Expr.resolved s.library s.vars inUnit)) : Orderly (verify s q) := by
  have hq := Expr.allSatisfy_iff.mp hq
  cases q with
  | eval e =>
    have hcheck := checkExpr_regular hs e (hq e (by simp [Stmt.exprs]))
    rw [verify_eval]
    exact .mapError reported_ordinary (.map (hcheck.mono (R := fun _ => True) fun _ _ => trivial))
  | assign info target value =>
    have hcheck := checkAssign_orderly hs info (hq target (by simp [Stmt.exprs]))
      (hq value (by simp [Stmt.exprs]))
    rw [verify_assign]
    exact .mapError reported_ordinary hcheck
  | _ => cases hquery

/-- What a query is checked to and prepared to is a query. -/
theorem isQuery_of_verify {q checked : Stmt} (hquery : q.IsQuery) (h : verify s q = .ok checked) :
    checked.IsQuery := by
  have hverified := verified_of_verify h
  cases hverified with
  | eval => trivial
  | assign h =>
    obtain ⟨_, _, _, -, -, -, -, -, -, rfl⟩ := checkAssign_ok h
    trivial
  | _ => cases hquery

theorem mapExprsM_regular {f : Expr → Except Diagnostic Expr} (hf : ∀ e, Orderly (f e)) {q : Stmt}
    (hquery : q.IsQuery) : Regular (q.mapExprsM f) Stmt.IsQuery := by
  cases q with
  | eval e =>
    rw [Stmt.mapExprsM]
    exact .bind (hf e) fun _ _ => .pure trivial
  | assign info target value =>
    rw [Stmt.mapExprsM]
    exact .bind (hf target) fun _ _ => .bind (hf value) fun _ _ => .pure trivial
  | _ => cases hquery

/-- A query whose names are resolved is prepared to a well-formed one, or refused with ordinary errors. -/
theorem prepare_regular (hs : s.Resolved) {q : Stmt} (hquery : q.IsQuery)
    (hq : q.Satisfies (Expr.resolved s.library s.vars inUnit)) :
    Regular (prepare s q) fun prepared =>
      prepared.IsQuery ∧ prepared.WellFormed (Expr.Linked s.library s.vars inUnit) False := by
  have hprepare : Regular (prepare s q) Stmt.IsQuery := by
    refine .bind ((verify_orderly hs hquery hq).and_ok fun checked h _ => isQuery_of_verify hquery h)
      fun checked hchecked => .mapError reported_ordinary ?_
    exact mapExprsM_regular (mapNodesM_orderly fixNode_orderly) hchecked
  exact hprepare.and_ok fun prepared h hquery => ⟨hquery, prepare_wellFormed hs hq h⟩

end Body

end StructuredText
