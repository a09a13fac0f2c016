-- SUMMARY: Checking an expression whose names are resolved leaves a linked one, or fails with an ordinary error.
import StructuredText.Proofs.SafeExpr

/-!
# Checked expressions

Once the names in an expression are resolved, only mistakes of the program are left to be found. The check of a
reference follows its names from type to type, so a reference that passes it has a type; the check of a call finds a
parameter for every argument; and an expression that becomes a literal is computed from literals.
-/

namespace StructuredText

open Reporting

-- ---------------------------------------------------------------------------
-- Resolved names
-- ---------------------------------------------------------------------------

/-- The variable that a reference starts with is there. -/
def Root.Valid (l : Library) (vars : List VarDecl) : Root → Prop
  | .own i => ∃ v, vars[i]? = some v
  | .global i => ∃ v, l.globals[i]? = some v
  | .program pou => ∃ p, l.pous[pou]? = some p ∧ p.kind = .program

/-- What a call invokes is there. Only a unit calls units. -/
def Callee.Valid (l : Library) (vars : List VarDecl) (inUnit : Prop) : Callee → Prop
  | .standard _ => True
  | .function pou => inUnit ∧ ∃ p, l.pous[pou]? = some p ∧ p.kind ≠ .functionBlock
  | .instance root => inUnit ∧ root.Valid l vars

/-- The names in an expression are resolved, and nothing else is known of it. -/
def Expr.resolved (l : Library) (vars : List VarDecl) (inUnit : Prop) : NodeSpec where
  literal info v := v.Plain ∧ ∀ type, info.type? = some type → l.types.Declares type
  var _ path _ := path.fixed = none ∧ ∃ root, path.root = some root ∧ root.Valid l vars
  operator info := info.type? = none
  call info callee _ _ := info.type? = none ∧ ∃ c, callee = some c ∧ c.Valid l vars inUnit

/-- The variables of a unit, or none in a query. -/
def varsOf (pou : Option Pou) : List VarDecl := (pou.map (·.vars)).getD []

namespace Body

/-- The variables that the body belongs to. -/
def Scope.vars (s : Scope) : List VarDecl := varsOf s.pou

/-- All declarations that a body can refer to are resolved. -/
structure Scope.Resolved (s : Scope) : Prop where
  library : s.library.Resolved
  vars : ∀ decl ∈ s.vars, ∃ type, decl.Resolved s.library type

/-- An expression that passes the check is linked, has a declared type, and is plain if it is a constant. -/
structure Checked.Passes (s : Scope) (inUnit : Prop) (c : Checked) : Prop where
  linked : c.expr.Linked s.library s.vars inUnit
  declared : ∀ type, c.info.type? = some type → s.library.types.Declares type
  plain : c.expr.isLiteral = true → c.probe.Plain

variable {s : Scope} {inUnit : Prop} (hs : s.Resolved)

-- ---------------------------------------------------------------------------
-- What a place requires
-- ---------------------------------------------------------------------------

theorem requireInteger_orderly (what : String) (c : Checked) : Orderly (requireInteger s what c) :=
  .ite (fun _ => .ok trivial) fun _ =>
    .error ((ValueError.incompatibleTypes _ _).ordinary_at nofun _)

-- ---------------------------------------------------------------------------
-- Literals and operators
-- ---------------------------------------------------------------------------

theorem Checked.passes_folded {info : NodeInfo} {v : Value} (hinfo : info.type? = none) (hv : v.Plain) :
    (Checked.folded info v).Passes s inUnit := by
  refine ⟨hv, fun type htype => ?_, fun _ => hv⟩
  cases hinfo.symm.trans htype

include hs in
theorem checkLiteral_regular {info : NodeInfo} {v : Value} (type : Option Ident) (hv : v.Plain)
    (hinfo : ∀ type, info.type? = some type → s.library.types.Declares type) :
    Regular (checkLiteral s info v type) (·.Passes s inUnit) := by
  unfold checkLiteral
  cases type with
  | none => exact .ok ⟨hv, hinfo, fun _ => hv⟩
  | some name =>
    dsimp only
    cases hid : s.types.lookup? name with
    | none => exact .error nofun
    | some id =>
      have hdeclared := hs.library.types.lookup?_declares hid
      have hcoerce := hs.library.types.coerce_regular hs.library.initials hdeclared hv
      refine .bind (hcoerce.atSpan _) fun w hw => .pure ⟨hw.1, fun type htype => ?_, fun _ => hw.1⟩
      cases htype
      exact hdeclared

theorem checkUnary_regular {info : NodeInfo} (op : UnaryOp) {operand : Checked}
    (hinfo : info.type? = none) (hoperand : operand.Passes s inUnit) :
    Regular (checkUnary info op operand) (·.Passes s inUnit) := by
  refine .bind ((operand.probe.require_orderly _).atSpan _) fun _ _ => .ite (fun _ => ?_) fun _ => ?_
  · exact .bind ((op.evaluate_regular _).atSpan _) fun v hv => .pure (Checked.passes_folded hinfo hv)
  · exact .pure ⟨⟨trivial, hoperand.linked⟩, hoperand.declared, nofun⟩

theorem checkOperands_orderly (op : BinaryOp) (left right : Checked) :
    Orderly (checkOperands s op left right) := by
  have fail {e : ValueError} (h : Ordinary e) :
      Orderly (.error (e.between left.span right.span) : Except Diagnostic Unit) :=
    .error (ValueError.ordinary_between h _ _)
  have probes : Orderly (if left.probe.operatesWith op.operation right.probe then pure ()
      else if !left.probe.supports op.operation then
        .error ((left.probe.notSupported op.operation).between left.span right.span)
      else .error ((left.probe.incompatible op.operation right.probe).between left.span right.span) :
        Except Diagnostic Unit) :=
    .ite (fun _ => .pure trivial) fun _ => .ite (fun _ => fail nofun) fun _ => fail nofun
  unfold checkOperands
  dsimp only
  split
  · exact .ite (fun _ => .bind (fail nofun) fun _ _ => probes) fun _ => probes
  · exact probes

/-- The type of an operation is the one of a comparison or of one of the operands. -/
theorem operandType_declared (op : BinaryOp) {left right : Checked} {type? : Option TypeId} {probe : Value}
    (hbool : s.library.types.Declares (TypeTable.elementaryId .bool))
    (hleft : left.Passes s inUnit) (hright : right.Passes s inUnit)
    (h : (if op.isComparison then (some (TypeTable.elementaryId .bool), Value.bool false)
      else
        match left.info.type?, right.info.type? with
        | none, some type => (some type, right.probe)
        | type?, _ => (type?, left.probe)) = (type?, probe)) :
    ∀ type, type? = some type → s.library.types.Declares type := by
  rintro type rfl
  split at h
  · cases h
    exact hbool
  · split at h
    · next hnone hsome =>
      cases h
      exact hright.declared type hsome
    · exact hleft.declared type (congrArg Prod.fst h)

include hs in
theorem checkBinary_regular {info : NodeInfo} (op : BinaryOp) {left right : Checked}
    (hinfo : info.type? = none) (hleft : left.Passes s inUnit) (hright : right.Passes s inUnit) :
    Regular (checkBinary s info op left right) (·.Passes s inUnit) := by
  refine .bind (checkOperands_orderly op left right) fun _ _ => .ite (fun hliteral => ?_) fun _ => ?_
  · have hresult := (op.evaluate_regular (hleft.plain (by simp_all)) right.probe s.epsilon).mapError
      (f := (·.between left.span right.span)) fun _ h => ValueError.ordinary_between h _ _
    exact .bind hresult fun v hv => .pure (Checked.passes_folded hinfo hv)
  · have hdeclared := operandType_declared op
      (hs.library.types.elementary _ (by decide)) hleft hright rfl
    exact .pure ⟨⟨trivial, hleft.linked, hright.linked⟩, hdeclared, nofun⟩

-- ---------------------------------------------------------------------------
-- References
-- ---------------------------------------------------------------------------

/-- How far a reference is followed: to a variable or part of a declared type, or to a program. -/
def Walk.Reaches (s : Scope) (root : Root) (w : Walk) : Prop :=
  match w.denoted with
  | .value type => s.library.Refers s.vars root w.selectors type ∧ s.library.types.Declares type
  | .unit pou => root = .program pou ∧ w.selectors = [] ∧ root.Valid s.library s.vars

theorem Scope.getElem?_vars {i : Nat} {v : VarDecl} :
    s.pou.bind (·.vars[i]?) = some v ↔ s.vars[i]? = some v := by
  unfold Scope.vars varsOf
  cases s.pou <;> simp

theorem id_regular {decl : VarDecl} {type : TypeId} {l : Library} (h : decl.Resolved l type) (span : Span) :
    Regular (atSpan span decl.type.id) (· = type) := by
  rw [TypeTable.ref_id_eq_ok.mpr h.typed]
  exact .ok rfl

include hs

theorem startOf_regular (span : Span) {root : Root} (hroot : root.Valid s.library s.vars) :
    Regular (startOf s span root) (·.Reaches s root) := by
  unfold startOf
  cases root with
  | own i =>
    obtain ⟨v, hv⟩ := hroot
    obtain ⟨type, hresolved⟩ := hs.vars v (List.mem_of_getElem? hv)
    simp only [Scope.getElem?_vars.mpr hv]
    refine .bind (id_regular hresolved span) fun _ htype => .pure ?_
    subst htype
    exact ⟨.own hv hresolved.typed, hresolved.declared⟩
  | global i =>
    obtain ⟨v, hv⟩ := hroot
    obtain ⟨-, type, hresolved⟩ := hs.library.globals v (List.mem_of_getElem? hv)
    simp only [hv]
    refine .bind (id_regular hresolved span) fun _ htype => .pure ?_
    subst htype
    exact ⟨.global hv hresolved.typed, hresolved.declared⟩
  | program pou => exact .pure ⟨rfl, rfl, hroot⟩

theorem selectVar_regular {root : Root} (w : Walk) {pou : Nat} {p : Pou} (segment : Segment)
    (hp : s.library.pous[pou]? = some p)
    (hw : ∀ i v type, p.vars[i]? = some v → v.type.id? = some type →
      s.library.Refers s.vars root (w.selectors ++ [.var i]) type) :
    Regular (selectVar s w pou segment) (·.Reaches s root) := by
  unfold selectVar
  simp only [hp]
  cases hi : p.find? segment.name with
  | none => exact .error nofun
  | some i =>
    obtain ⟨hlt, -⟩ := List.findIdx?_eq_some_iff_getElem.mp hi
    have hv : p.vars[i]? = some p.vars[i] := List.getElem?_eq_getElem hlt
    obtain ⟨type, hresolved⟩ := hs.library.vars p (List.mem_of_getElem? hp) _ (List.mem_of_getElem? hv)
    simp only [hv, Option.getD_some]
    refine .bind (id_regular hresolved segment.span) fun _ htype => .pure ?_
    subst htype
    exact ⟨hw i _ _ hv hresolved.typed, hresolved.declared⟩

theorem select_regular {root : Root} {w : Walk} (segment : Segment) (hw : w.Reaches s root) :
    Regular (select s w segment) (·.Reaches s root) := by
  have ht := hs.library.types
  obtain ⟨denoted, storage, selectors, indexes⟩ := w
  cases denoted with
  | unit pou =>
    obtain ⟨rfl, hselectors, p, hp, hkind⟩ := hw
    dsimp only at hselectors
    subst hselectors
    exact selectVar_regular hs _ segment hp fun i v type hv htype => .program hp hkind hv htype
  | value type =>
    obtain ⟨hrefers, hdeclared⟩ := hw
    refine .bind ((ht.memberOf_regular hdeclared _).atSpan _) fun found hfound => ?_
    split
    · next position member =>
      obtain ⟨hdeclared, members, m, hkind, hm, hpart⟩ := hfound position member rfl
      exact .pure ⟨.step hrefers (.member hkind hm hpart), hdeclared⟩
    · refine .bind ((ht.blockOf_regular hdeclared).atSpan _) fun block hblock => ?_
      split
      · next pou =>
        have hkind := hblock pou rfl
        obtain ⟨root', d, -, hd, hdkind⟩ := TypeTable.kindOf_eq_ok.mp hkind
        obtain ⟨p, hp, -⟩ := hs.library.blocks root' d pou hd hdkind
        exact selectVar_regular hs _ segment hp fun i v type hv htype =>
          .step hrefers (.var hkind hp hv htype)
      · refine .bind ((ht.kindOf_regular hdeclared).atSpan _) fun kind _ => .fail ?_
        split
        · exact (ValueError.unknownMember _ _).ordinary_at nofun _
        · exact (ValueError.notSupported _ _).ordinary_at nofun _

theorem index_regular {root : Root} {w : Walk} (segment : Segment) (hw : w.Reaches s root) :
    Regular (index s w segment) (·.Reaches s root) := by
  have fail {e : ValueError} (h : Ordinary e) :
      Regular (.error (e.at segment.span) : Except Diagnostic Walk) (·.Reaches s root) :=
    .error (e.ordinary_at h _)
  refine .ite (fun _ => .pure hw) fun _ => ?_
  obtain ⟨denoted, storage, selectors, indexes⟩ := w
  cases denoted with
  | unit pou => exact fail nofun
  | value type =>
    obtain ⟨hrefers, hdeclared⟩ := hw
    refine .bind ((hs.library.types.arrayOf_regular hdeclared).atSpan _) fun found hfound => ?_
    split
    · exact fail nofun
    · next element dimensions =>
      obtain ⟨hdeclared, element', initial, hkind, hpart⟩ := hfound element dimensions rfl
      refine .ite (fun _ => fail nofun) fun _ => .pure ?_
      exact ⟨.step hrefers (.element hkind hpart), hdeclared⟩

/-- The names of a reference are followed as far as they lead. -/
theorem walk_regular {root : Root} (segments : List Segment) {w : Walk} (hw : w.Reaches s root) :
    Regular (segments.foldlM (fun w segment => do index s (← select s w segment) segment) w)
      (·.Reaches s root) :=
  .foldlM hw fun segment _ _ hw => .bind (select_regular hs segment hw) fun _ hw => index_regular hs segment hw

/-- A reference denotes what its names lead to, which must be a value. -/
theorem reached_regular {info : NodeInfo} {path : VarPath} {root : Root} {indexes : List Expr}
    (hroot : path.root = some root) (hfixed : path.fixed = none)
    (hindexes : Expr.AllSatisfy (Expr.linked s.library s.vars inUnit) indexes) {w : Walk} (hw : w.Reaches s root) :
    Regular (match w.denoted with
      | .unit _ => throw (.of .notAssignable info.span s!"Program {path.text} is not a value")
      | .value type => do
        let probe ← atSpan info.span (s.types.create type none)
        let info := { info with type? := some type, storage := { w.storage with temporary := false } }
        pure ⟨.var info { path with selectors := w.selectors } indexes, probe⟩ :
          Except Diagnostic Checked) (·.Passes s inUnit) := by
  obtain ⟨denoted, storage, selectors, count⟩ := w
  cases denoted with
  | unit pou => exact .fail (by rintro ⟨⟩)
  | value type =>
    obtain ⟨hrefers, hdeclared⟩ := hw
    refine .bind ((hs.library.types.create_orderly hdeclared none).atSpan _) fun probe _ => .pure ?_
    refine ⟨⟨⟨type, root, rfl, hdeclared, rfl, hroot, hrefers, fun hops hhops => ?_⟩, hindexes⟩, ?_, ?_⟩
    · cases hfixed.symm.trans hhops
    · rintro _ ⟨⟩
      exact hdeclared
    · rintro ⟨⟩

theorem checkVar_regular {info : NodeInfo} {path : VarPath} {root : Root} {indexes : List Expr}
    (hroot : path.root = some root) (hvalid : root.Valid s.library s.vars) (hfixed : path.fixed = none)
    (hindexes : Expr.AllSatisfy (Expr.linked s.library s.vars inUnit) indexes) :
    Regular (checkVar s info path root indexes) (·.Passes s inUnit) := by
  refine .bind (startOf_regular hs _ hvalid) fun start hstart => ?_
  split
  · exact reached_regular hs hroot hfixed hindexes hstart
  · refine .bind (index_regular hs _ hstart) fun w hw => ?_
    exact .bind (walk_regular hs _ hw) fun w hw => reached_regular hs hroot hfixed hindexes hw

-- ---------------------------------------------------------------------------
-- Arguments
-- ---------------------------------------------------------------------------

/-- A parameter is a variable of the unit that is not external. -/
def IsParameter (p : Pou) (i : Nat) : Prop := ∃ v, p.vars[i]? = some v ∧ v.isExternal = false

omit hs in
/-- The section of a variable that is not one of external variables tells that it is not external. -/
theorem isParameter_of_section {p : Pou} {i : Nat} {v : VarDecl} {l : Library}
    (hvars : ∀ decl ∈ p.vars, ∃ type, decl.Resolved l type) (hv : p.vars[i]? = some v)
    (hsection : v.section ≠ .external) : IsParameter p i := by
  obtain ⟨type, hresolved⟩ := hvars v (List.mem_of_getElem? hv)
  exact ⟨v, hv, Bool.eq_false_iff.mpr fun h => hsection (hresolved.external h)⟩

omit hs in
theorem parameter_regular {p : Pou} {l : Library} (hvars : ∀ decl ∈ p.vars, ∃ type, decl.Resolved l type)
    (span : Span) (label : ArgLabel) (arg : Checked) (positional : Nat) :
    Regular (parameter p span label arg positional) (IsParameter p) := by
  unfold parameter
  cases label.name with
  | none =>
    dsimp only
    cases hi : p.inputs[positional]? with
    | none => exact .error nofun
    | some i =>
      obtain ⟨⟨v, j⟩, hmem, rfl⟩ := List.mem_map.mp (List.mem_of_getElem? hi)
      obtain ⟨hmem, hinput⟩ := List.mem_filter.mp hmem
      have hv := List.mk_mem_zipIdx_iff_getElem?.mp hmem
      exact .ok (isParameter_of_section hvars hv fun h => by simp [h, Section.isInput] at hinput)
  | some name =>
    dsimp only
    split
    · next i hi =>
      obtain ⟨hfind, hfits⟩ := Option.filter_eq_some_iff.mp hi
      obtain ⟨hlt, -⟩ := List.findIdx?_eq_some_iff_getElem.mp hfind
      have hv : p.vars[i]? = some p.vars[i] := List.getElem?_eq_getElem hlt
      refine .ok (isParameter_of_section hvars hv fun h => ?_)
      simp [hv, h, Section.isInput, Section.isOutput] at hfits
    · exact .error nofun

/-- An argument that a parameter is copied to is a variable. -/
theorem checkOutput_regular {arg : Checked} (v : VarDecl) (harg : arg.Passes s inUnit) :
    Regular (checkOutput s v arg) fun _ => arg.expr.IsVar := by
  unfold checkOutput
  split
  · exact .fail nofun
  · next path hpath =>
    have hconstant := (ValueError.constantTarget path.text).ordinary_at (by rintro ⟨⟩) arg.span
    refine .guarded hconstant (((hs.library.types.assignable_orderly harg.declared _ _ _).atSpan _).mono fun _ _ => ?_)
    exact Expr.isVar_of_path? hpath

/-- The parameters of the unit are found for the arguments. -/
theorem bindArgs_regular {p : Pou} (hp : p ∈ s.library.pous) (span : Span)
    {args : List (ArgLabel × Checked)} (hargs : ∀ arg ∈ args, arg.2.Passes s inUnit) :
    Regular (bindArgs s p span args) fun bindings =>
      ∀ b ∈ bindings, b.Links p (args.map (·.2.expr)) := by
  have hvars := hs.library.vars p hp
  refine .bind (Q := fun state => ∀ b ∈ state.2, b.Links p (args.map (·.2.expr)))
    (.foldlM (by simp) fun arg harg state hstate => ?_) fun _ h => .pure h
  obtain ⟨⟨label, checked⟩, position⟩ := arg
  obtain ⟨positional, bindings⟩ := state
  have harg := List.mk_mem_zipIdx_iff_getElem?.mp harg
  have hchecked := hargs _ (List.mem_of_getElem? harg)
  refine .bind (parameter_regular hvars span label checked positional) fun param hparam => ?_
  have bound {output : Bool} (houtput : output = true → checked.expr.IsVar) :
      ∀ b ∈ bindings ++ [⟨param, position, !label.output, output⟩], b.Links p (args.map (·.2.expr)) := by
    refine List.forall_mem_append.mpr ⟨hstate, List.forall_mem_singleton.mpr ⟨hparam, ?_⟩⟩
    exact ⟨checked.expr, by simp [harg], houtput⟩
  have assigned {output : Bool} (houtput : output = true → checked.expr.IsVar) :
      Regular (do
        if !label.output then
          atSpan checked.span (s.types.assignable (p.vars[param]?.getD default).type.id?
            checked.info.type? checked.info.storage checked.probe)
        let positional := if label.name.isNone then positional + 1 else positional
        pure (positional, bindings ++ [⟨param, position, !label.output, output⟩]) :
          Except Diagnostic (Nat × List ArgBinding))
        fun state => ∀ b ∈ state.2, b.Links p (args.map (·.2.expr)) := by
    refine .ite (fun _ => .bind (Q := fun _ => True) ?_ fun _ _ => .pure (bound houtput))
      fun _ => .pure (bound houtput)
    obtain ⟨v, hv, -⟩ := hparam
    obtain ⟨type, hresolved⟩ := hvars v (List.mem_of_getElem? hv)
    refine Regular.atSpan (hs.library.types.assignable_orderly (fun id hid => ?_) _ _ _) _
    rw [hv, Option.getD_some, hresolved.typed] at hid
    cases hid
    exact hresolved.declared
  refine .ite (fun _ => .bind (checkOutput_regular hs _ hchecked) fun _ hvar => assigned fun _ => hvar)
    fun hoff => assigned fun hon => absurd hon hoff

-- ---------------------------------------------------------------------------
-- Calls
-- ---------------------------------------------------------------------------

omit hs in
theorem linked_args {args : List (ArgLabel × Checked)} (hargs : ∀ arg ∈ args, arg.2.Passes s inUnit) :
    Expr.AllSatisfy (Expr.linked s.library s.vars inUnit) (args.map (·.2.expr)) := by
  refine Expr.allSatisfy_iff.mpr fun e he => ?_
  obtain ⟨arg, harg, rfl⟩ := List.mem_map.mp he
  exact (hargs arg harg).linked

/-- The type of what a standard function results in is one of an argument, or elementary. -/
theorem resultType_declared (f : StandardFunction) {args : List (ArgLabel × Checked)}
    (hargs : ∀ arg ∈ args, arg.2.Passes s inUnit) :
    ∀ type, f.resultType (args.map (·.2.info.type?)) = some type → s.library.types.Declares type := by
  have declared {type : TypeId} (h : some type ∈ args.map (·.2.info.type?)) :
      s.library.types.Declares type := by
    obtain ⟨arg, harg, htype⟩ := List.mem_map.mp h
    exact (hargs arg harg).declared type htype
  have found {types : List (Option TypeId)} {type : TypeId} (h : types.findSome? id = some type) :
      some type ∈ types := by
    obtain ⟨found, hmem, hfound⟩ := List.exists_of_findSome?_eq_some h
    exact hfound ▸ hmem
  intro type h
  cases f with
  | sqrt =>
    simp only [StandardFunction.resultType] at h
    cases hfirst : (args.map (·.2.info.type?)).head?.join with
    | some first =>
      rw [hfirst] at h
      cases h
      exact declared (List.mem_of_head? (Option.join_eq_some_iff.mp hfirst))
    | none =>
      rw [hfirst] at h
      cases h
      exact hs.library.types.elementary _ (by decide)
  | sel => exact declared (List.mem_of_mem_drop (found h))
  | abs | min | max | limit => exact declared (found h)

/-- A standard function is computed from literals, or called. -/
theorem applied_regular {info : NodeInfo} (name : Ident) (f : StandardFunction)
    {args : List (ArgLabel × Checked)} (hinfo : info.type? = none)
    (hargs : ∀ arg ∈ args, arg.2.Passes s inUnit) :
    Regular (do
      let probes := args.map (·.2.probe)
      if args.all (·.2.expr.isLiteral) then
        pure (.folded info (← atSpan info.span (f.evaluate probes)))
      else
        let type? := f.resultType (args.map (·.2.info.type?))
        let probe ← match type? with
          | some type => atSpan info.span (s.types.create type none)
          | none => pure (probes.head?.getD .void)
        pure ⟨.call { info with type?, storage := .result } name (args.map (·.1))
          (args.map (·.2.expr)) (some (.standard f)) [], probe⟩ : Except Diagnostic Checked)
      (·.Passes s inUnit) := by
  refine .ite (fun hliteral => ?_) fun _ => ?_
  · have hplain : ∀ v ∈ args.map (·.2.probe), v.Plain := by
      intro v hv
      obtain ⟨arg, harg, rfl⟩ := List.mem_map.mp hv
      exact (hargs arg harg).plain (List.all_eq_true.mp hliteral arg harg)
    exact .bind ((f.evaluate_regular hplain).atSpan _) fun v hv => .pure (Checked.passes_folded hinfo hv)
  · have hdeclared := resultType_declared hs f hargs
    have called (probe : Value) : (Checked.mk (.call
        { info with type? := f.resultType (args.map (·.2.info.type?)), storage := .result } name
        (args.map (·.1)) (args.map (·.2.expr)) (some (.standard f)) []) probe).Passes s inUnit :=
      ⟨⟨⟨_, rfl, trivial⟩, linked_args hargs⟩, hdeclared, by rintro ⟨⟩⟩
    dsimp only
    split
    · have hcreate := hs.library.types.create_orderly (hdeclared _ ‹_›) none
      exact .bind (hcreate.atSpan _) fun probe _ => .pure (called probe)
    · exact .bind (Q := fun _ => True) (.pure trivial) fun probe _ => .pure (called probe)

theorem checkStandard_regular {info : NodeInfo} (name : Ident) (f : StandardFunction)
    {args : List (ArgLabel × Checked)} (hinfo : info.type? = none)
    (hargs : ∀ arg ∈ args, arg.2.Passes s inUnit) :
    Regular (checkStandard s info name f args) (·.Passes s inUnit) := by
  have happlied := applied_regular hs name f hinfo hargs
  unfold checkStandard
  generalize args.find? _ = labelled
  cases labelled with
  | some arg => exact .error (by rintro ⟨⟩)
  | none => exact .guarded (by rintro ⟨⟩) happlied

/-- The function block of a variable, and how the variable leads to it. -/
theorem blockOfRoot_regular (span : Span) {root : Root} (hroot : root.Valid s.library s.vars) :
    Regular (blockOfRoot s span root) fun found => ∀ p, found = some p → ∃ type pou,
      s.library.Refers s.vars root [] type ∧ s.library.types.kindOf type = .ok (.block pou) ∧
        s.library.pous[pou]? = some p := by
  have found {type : TypeId} (hdeclared : s.library.types.Declares type)
      (hrefers : s.library.Refers s.vars root [] type) :
      Regular (do pure ((← atSpan span (s.types.blockOf type)).bind (s.library.pous[·]?)) :
        Except Diagnostic (Option Pou)) fun found => ∀ p, found = some p → ∃ type pou,
          s.library.Refers s.vars root [] type ∧ s.library.types.kindOf type = .ok (.block pou) ∧
            s.library.pous[pou]? = some p := by
    refine .bind ((hs.library.types.blockOf_regular hdeclared).atSpan _) fun block hblock => .pure ?_
    intro p hp
    obtain ⟨pou, rfl, hp⟩ := Option.bind_eq_some_iff.mp hp
    exact ⟨type, pou, hrefers, hblock pou rfl, hp⟩
  unfold blockOfRoot
  cases root with
  | own i =>
    obtain ⟨v, hv⟩ := hroot
    obtain ⟨type, hresolved⟩ := hs.vars v (List.mem_of_getElem? hv)
    simp only [Scope.getElem?_vars.mpr hv, Option.bind_some, hresolved.typed]
    exact found hresolved.declared (.own hv hresolved.typed)
  | global i =>
    obtain ⟨v, hv⟩ := hroot
    obtain ⟨-, type, hresolved⟩ := hs.library.globals v (List.mem_of_getElem? hv)
    simp only [hv, Option.bind_some, hresolved.typed]
    exact found hresolved.declared (.global hv hresolved.typed)
  | program pou => exact .pure nofun

theorem checkCall_regular {info : NodeInfo} (name : Ident) {callee : Callee}
    {args : List (ArgLabel × Checked)} (hinfo : info.type? = none)
    (hcallee : callee.Valid s.library s.vars inUnit) (hargs : ∀ arg ∈ args, arg.2.Passes s inUnit) :
    Regular (checkCall s info name callee args) (·.Passes s inUnit) := by
  have hall := linked_args hargs
  unfold checkCall
  cases callee with
  | standard f => exact checkStandard_regular hs name f hinfo hargs
  | function pou =>
    obtain ⟨hin, p, hp, hkind⟩ := hcallee
    have hmem := List.mem_of_getElem? hp
    simp only [hp]
    refine .bind (bindArgs_regular hs hmem _ hargs) fun bindings hbindings => ?_
    have hlinks : (Callee.function pou).Links s.library s.vars inUnit (args.map (·.2.expr)) bindings :=
      ⟨hin, p, hp, hkind, hbindings⟩
    split
    · next v hv =>
      obtain ⟨position, -, hv⟩ := Option.bind_eq_some_iff.mp hv
      obtain ⟨type, hresolved⟩ := hs.library.vars p hmem v (List.mem_of_getElem? hv)
      refine .pure ⟨⟨⟨_, rfl, hlinks⟩, hall⟩, fun type' htype => ?_, nofun⟩
      cases hresolved.typed.symm.trans htype
      exact hresolved.declared
    · exact .pure ⟨⟨⟨_, rfl, hlinks⟩, hall⟩, nofun, nofun⟩
  | «instance» root =>
    obtain ⟨hin, hroot⟩ := hcallee
    refine .bind (blockOfRoot_regular hs _ hroot) fun found hfound => ?_
    split
    · exact .fail nofun
    · next p =>
      obtain ⟨type, pou, hrefers, hkind, hp⟩ := hfound p rfl
      refine .bind (bindArgs_regular hs (List.mem_of_getElem? hp) _ hargs) fun bindings hbindings => ?_
      exact .pure ⟨⟨⟨_, rfl, hin, type, pou, p, hrefers, hkind, hp, hbindings⟩, hall⟩, nofun, nofun⟩

-- ---------------------------------------------------------------------------
-- Expressions
-- ---------------------------------------------------------------------------

set_option linter.unusedSectionVars false in
mutual

/-- An expression whose names are resolved passes the check, or is refused with an ordinary error. -/
theorem checkExpr_regular : (e : Expr) → e.Satisfies (Expr.resolved s.library s.vars inUnit) →
    Regular (checkExpr s e) (·.Passes s inUnit)
  | .literal info v type, h => by
    rw [checkExpr]
    exact checkLiteral_regular hs type h.1 h.2
  | .var info path indexes, h => by
    obtain ⟨⟨hfixed, root, hroot, hvalid⟩, hindexes⟩ := h
    rw [checkExpr, hroot]
    exact .bind (checkIndexes_regular indexes hindexes) fun checked hchecked =>
      checkVar_regular hs hroot hvalid hfixed hchecked
  | .unary info op operand, h => by
    rw [checkExpr]
    exact .bind (checkExpr_regular operand h.2) fun c hc => checkUnary_regular op h.1 hc
  | .binary info op left right, h => by
    rw [checkExpr]
    refine .bind (checkExpr_regular left h.2.1) fun l hleft => ?_
    exact .bind (checkExpr_regular right h.2.2) fun r hright => checkBinary_regular hs op h.1 hleft hright
  | .call info name labels args callee bindings, h => by
    obtain ⟨⟨hinfo, c, rfl, hvalid⟩, hargs⟩ := h
    rw [checkExpr]
    refine .bind (checkArgs_regular args hargs) fun checked hchecked => ?_
    exact checkCall_regular hs name hinfo hvalid fun arg harg => hchecked arg.2 (List.of_mem_zip harg).2

theorem checkIndexes_regular : (es : List Expr) →
    Expr.AllSatisfy (Expr.resolved s.library s.vars inUnit) es →
      Regular (checkIndexes s es) (Expr.AllSatisfy (Expr.linked s.library s.vars inUnit))
  | [], _ => by
    rw [checkIndexes]
    exact .pure trivial
  | e :: es, h => by
    rw [checkIndexes]
    refine .bind (checkExpr_regular e h.1) fun c hc => .bind (requireInteger_orderly _ c) fun _ _ => ?_
    exact .bind (checkIndexes_regular es h.2) fun checked hchecked => .pure ⟨hc.linked, hchecked⟩

theorem checkArgs_regular : (es : List Expr) →
    Expr.AllSatisfy (Expr.resolved s.library s.vars inUnit) es →
      Regular (checkArgs s es) fun checked => ∀ c ∈ checked, c.Passes s inUnit
  | [], _ => by
    rw [checkArgs]
    exact .pure (by simp)
  | e :: es, h => by
    rw [checkArgs]
    refine .bind (checkExpr_regular e h.1) fun c hc => ?_
    exact .bind (checkArgs_regular es h.2) fun checked hchecked =>
      .pure (List.forall_mem_cons.mpr ⟨hc, hchecked⟩)

end

end Body

end StructuredText
