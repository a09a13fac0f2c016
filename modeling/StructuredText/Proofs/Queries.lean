-- SUMMARY: A query on a sound storage is answered, or refused with an ordinary error.
import StructuredText.Interpreter
import StructuredText.Proofs.Named
import StructuredText.Proofs.Numbered
import StructuredText.Proofs.Prepared
import StructuredText.Proofs.SafeStmt

/-!
# Queries

A query is linked to the global scope, where no unit runs: it may not call units, and there is no variable of its own
that it could refer to. So what is left of it after the checks can be evaluated on the variables of any instance, and
its value shown.
-/

namespace StructuredText

open Reporting

-- ---------------------------------------------------------------------------
-- Linking
-- ---------------------------------------------------------------------------

theorem Stmt.IsQuery.setExprNode {q : Stmt} (h : q.IsQuery) (id : NodeId) (e : Expr) : (q.setExprNode id e).IsQuery := by
  cases q with
  | eval | assign =>
    rw [Stmt.setExprNode, Stmt.mapExprsM]
    trivial
  | _ => cases h

namespace Link

variable (l : Library) (pou : Option Pou) {q : Stmt}

theorem isQuery_linkVariables (h : q.IsQuery) (pool : RefPool NodeId Symbol) : (linkVariables l pou pool q).2.IsQuery := by
  rw [linkVariables, lookUpVariables, RefPool.trigger_unchecked]
  refine RefPool.visit_invariant (fun task q hq => ?_) _ _ h
  unfold bindVariable
  split
  · exact hq
  · split
    · exact hq.setExprNode _ _
    · exact hq

theorem isQuery_linkCalls (h : q.IsQuery) (pool : RefPool NodeId Callee) : (linkCalls l pou pool q).2.IsQuery := by
  rw [linkCalls, lookUpCalls, RefPool.trigger_unchecked]
  refine RefPool.visit_invariant (fun task q hq => ?_) _ _ h
  unfold bindCall
  split
  · exact hq
  · split
    · exact hq.setExprNode _ _
    · exact hq

theorem finish_regular {α : Type} {ds : List Diagnostic} {a : α} (h : Ordinary ds) :
    Regular (finish ds a) fun b => ds = [] ∧ b = a := by
  unfold finish
  split
  · next hnone => exact .ok ⟨List.isEmpty_iff.mp hnone, rfl⟩
  · exact .error h

end Link

namespace Interpreter

variable {l : Library} {q : Stmt}

/-- A body without forbidden calls calls standard functions only. -/
theorem isStandard_of_forbiddenCall? (h : forbiddenCall? q = none) {info : NodeInfo} {callee : Callee}
    {bindings : List ArgBinding} (hmem : Head.call info (some callee) bindings ∈ q.heads) : ∃ f, callee = .standard f := by
  obtain ⟨e, he, hhead⟩ := List.mem_map.mp hmem
  have hallowed := List.findSome?_eq_none_iff.mp h e he
  cases e with
  | call info' name labels args callee' bindings' =>
    cases hhead
    cases callee with
    | standard f => exact ⟨f, rfl⟩
    | function | «instance» => cases hallowed
  | literal | var | unary | binary => cases hhead

theorem ordinary_of_forbiddenCall? {d : Diagnostic} (h : forbiddenCall? q = some d) : Ordinary d := by
  obtain ⟨e, -, h⟩ := List.exists_of_findSome?_eq_some h
  split at h
  · cases h
  · cases h
    nofun
  · cases h

/-- What is linked of a query depends on no unit. -/
theorem resolved_of_query (hlocated : ∀ h ∈ q.heads, Link.Located l [] h) (hcalled : ∀ h ∈ q.heads, h.Called)
    (hallowed : forbiddenCall? q = none) : q.Satisfies (Expr.resolved l [] False) := by
  refine Stmt.satisfies_of_heads fun h hh => ?_
  have hfulfils := (hlocated h hh).1.fulfils (hlocated h hh).2 (hcalled h hh)
  cases h with
  | literal | var | operator => exact hfulfils
  | call info callee bindings =>
    intro args
    obtain ⟨htype, c, rfl, -⟩ := hfulfils args
    obtain ⟨f, rfl⟩ := isStandard_of_forbiddenCall? hallowed hh
    exact ⟨htype, _, rfl, trivial⟩

/-- A query is prepared for evaluation, or refused with ordinary errors. -/
theorem prepareQuery_regular {q : Query} (hl : l.Resolved) (epsilon : Float) (hquery : q.body.IsQuery)
    (hunlinked : Body.Unlinked q.body q.pools) :
    Regular (prepareQuery l epsilon q) fun prepared =>
      prepared.IsQuery ∧ prepared.WellFormed (Expr.Linked l [] False) False := by
  obtain ⟨body, pools⟩ := q
  obtain ⟨⟨hdistinct, hheads⟩, hnames : pools = body.pools⟩ := hunlinked
  subst hnames
  have hvariables := Link.linkVariables_names l none hdistinct fun h hh => (hheads h hh).opened
  have hquery₁ := Link.isQuery_linkVariables l none hquery body.pools.vars
  unfold prepareQuery
  generalize Link.linkVariables l none body.pools.vars body = linked at hvariables hquery₁ ⊢
  obtain ⟨ds₁, linked₁⟩ := linked
  obtain ⟨hordinary₁, hdistinct₁, hopened, hpools, hrooted⟩ := hvariables
  refine .bind (Link.finish_regular hordinary₁) fun q₁ ⟨hnone₁, hq₁⟩ => ?_
  subst hq₁
  have hcalls := Link.linkCalls_names l none hdistinct₁ fun h hh => ⟨hopened h hh, hrooted hnone₁ h hh⟩
  rw [hpools] at hcalls
  have hquery₂ := Link.isQuery_linkCalls l none hquery₁ body.pools.calls
  generalize Link.linkCalls l none body.pools.calls q₁ = linked at hcalls hquery₂ ⊢
  obtain ⟨ds₂, linked₂⟩ := linked
  obtain ⟨hordinary₂, -, hlocated, hcalled⟩ := hcalls
  refine .bind (Link.finish_regular hordinary₂) fun q₂ ⟨hnone₂, hq₂⟩ => ?_
  subst hq₂
  cases hforbidden : forbiddenCall? q₂ with
  | some d => exact .fail (List.forall_mem_singleton.mpr (ordinary_of_forbiddenCall? hforbidden))
  | none =>
    have hscope : Body.Scope.Resolved ⟨l, none, epsilon⟩ := ⟨hl, by simp [Body.Scope.vars, varsOf]⟩
    exact Body.prepare_regular hscope hquery₂ (resolved_of_query hlocated (hcalled hnone₂) hforbidden)

end Interpreter

-- ---------------------------------------------------------------------------
-- Showing values
-- ---------------------------------------------------------------------------

namespace Storage

variable {y : Layout} {s : Storage} (hl : y.Resolved) (hs : s.Sound y)

include hl hs

/-- The values in the interface of an instance have types, since none of its variables is external. -/
theorem interface_regular {block : Nat} {i : InstanceId} (hi : y.pous[i]? = some block) :
    Regular (s.interface y.library block i) fun parts => ∀ part ∈ parts, ∃ type, y.Fits type part.2 := by
  obtain ⟨p, hp⟩ := hl.pous i block hi
  obtain ⟨found, hfound, -⟩ := hs.instance? hi
  unfold interface
  rw [hp, hfound]
  refine .pure fun part hpart => ?_
  obtain ⟨hpart, hinterface⟩ := List.mem_filter.mp hpart
  obtain ⟨position, hposition⟩ := List.mem_iff_getElem?.mp hpart
  obtain ⟨hdecl, hv⟩ := List.getElem?_zip_eq_some.mp hposition
  rw [Array.getElem?_toList] at hv
  have hslot : y.declOf (.own i position) = some part.1 := Layout.declOf_own.mpr ⟨p, ⟨block, hi, hp⟩, hdecl⟩
  obtain ⟨v, hvalue, hfits⟩ := hs.slots _ _ hslot
  obtain ⟨type, hresolved⟩ := hl.library.declOf hslot
  have howned : part.1.isExternal = false := by
    cases hexternal : part.1.isExternal with
    | false => rfl
    | true =>
      rw [hresolved.external hexternal] at hinterface
      cases hinterface
  obtain ⟨found', hfound', hv'⟩ := (slotValue_own i position).mp hvalue
  cases (instance?_eq_ok.mp hfound).symm.trans hfound'
  cases hv.symm.trans hv'
  exact ⟨type, hfits howned type hresolved.typed⟩

/-- A proper value is shown, or nested too deep to be shown. -/
theorem displayWithin_orderly (depth : Nat) {v : Value} (hv : v.Proper y.Bound) :
    Orderly (s.displayWithin y.library depth v) := by
  induction depth generalizing v with
  | zero => exact .error nofun
  | succ depth ih =>
    cases v with
    | array elements =>
      rw [displayWithin]
      refine .bind (.mapM (R := fun _ _ => True) fun v hmem => ?_) fun _ _ => .pure trivial
      exact ih (Value.allProper_iff.mp hv v hmem)
    | struct members =>
      rw [displayWithin]
      refine .bind (.mapM (R := fun _ _ => True) fun m hmem => ?_) fun _ _ => .pure trivial
      exact .bind (ih (Value.membersProper_iff.mp hv m hmem)) fun _ _ => .pure trivial
    | block ref =>
      obtain ⟨i, hbound, hi⟩ := hv
      obtain ⟨block, _⟩ := ref
      subst hbound
      rw [displayWithin]
      refine .bind (interface_regular hl hs hi) fun parts hparts => ?_
      refine .bind (.mapM (R := fun _ _ => True) fun part hpart => ?_) fun _ _ => .pure trivial
      obtain ⟨type, hfits⟩ := hparts part hpart
      exact .bind (ih hfits.1) fun _ _ => .pure trivial
    | _ => exact Value.display_orderly _

end Storage

-- ---------------------------------------------------------------------------
-- Answers
-- ---------------------------------------------------------------------------

namespace Run

variable {env : Environment} {I : Storage → Prop} {stack after : Stack} {Q : Evaluated → Prop}

/-- Frames whose first micro-step is safe for any number of pauses are executed safely within any limit. -/
theorem runWithin_safe (limit : Nat) {frames : List Frame}
    (h : ∀ n, Safe env I n stack after (microStep env frames) Q) {x : Execution} (hx : I x.storage)
    (hstack : x.cursor.stack = stack) :
    Ends (fun result x' => I x'.storage ∧ ∀ r, result = some r → Q r) (fun x' => I x'.storage)
      (Interpreter.runWithin env limit frames x) := by
  induction limit generalizing frames stack x with
  | zero => exact ⟨hx, nofun⟩
  | succ limit ih =>
    have hsafe (n : Nat) := h n x hx hstack
    simp only [Interpreter.runWithin, EStateM.bind_apply]
    rcases hstep : microStep env frames x with ⟨r | frames', x'⟩ | ⟨d, x'⟩ <;> simp only [hstep] at hsafe ⊢
    · refine ⟨(hsafe 0).1, fun r' heq => ?_⟩
      cases heq
      exact (hsafe 0).2.2
    · have hpaused (n : Nat) := hsafe (n + 1)
      exact ih (fun n x'' hx'' hstack'' => (hpaused n).2 x'' hx'' hstack'') (hpaused 0).1 rfl
    · exact hsafe 0

end Run

namespace Interpreter

/-- The value of a query is proper; that of an assignment is in the place of its target. -/
def Answers (y : Layout) (q : Stmt) (r : Evaluated) : Prop :=
  match q with
  | .assign .. => Stmt.Assigns y r
  | _ => r.value.Proper y.Bound

variable {y : Layout} (epsilon : Float) {q : Stmt} (hl : y.Resolved) (hlinked : y.library.BodiesLinked)

include hl hlinked

theorem query_safe (hquery : q.IsQuery) (hq : q.WellFormed (Expr.Linked y.library [] False) False) (n : Nat) :
    y.Performs epsilon n ⟨none, [], []⟩ (Run.microStep ⟨y.library, epsilon⟩ [.start q]) (Answers y q) := by
  have hbodies : y.BodiesSafe epsilon n := y.bodiesSafe hl hlinked n
  have hruns : y.Runs none [] := rfl
  refine Run.Safe.resumed (?_ : y.Performs epsilon n ⟨none, [], []⟩ _ (Answers y q)) fun r hr => .finished hr
  cases q with
  | eval e =>
    have hevaluate : y.Performs epsilon n ⟨none, [], []⟩ (e.evaluate ⟨y.library, epsilon⟩) (y.Yields e) :=
      Expr.evaluate_safe hl.library hbodies hruns False.elim e hq
    exact hevaluate.weaken fun r hr => hr.proper
  | assign info target value =>
    exact Stmt.assign_safe hl.library hbodies hruns False.elim hq.1 hq.2.1 hq.2.2
  | _ => cases hquery

omit hlinked in
/-- The value of a query is shown once it is found. -/
theorem show_maintains {span : Span} {m : Run Value}
    (hm : Maintains (fun x : Execution => x.storage.Sound y) m (·.Proper y.Bound)) :
    Maintains (fun x : Execution => x.storage.Sound y) (do Run.asking span (·.display y.library (← m)))
      fun _ => True :=
  .bind hm fun _ hv => .reads fun _ hx => .checked ((Storage.displayWithin_orderly hl hx _ hv).atSpan span)

/-- A linked query is answered, or fails with an ordinary error. The storage stays sound. -/
theorem answer_safe (limit : Nat) (hquery : q.IsQuery)
    (hq : q.WellFormed (Expr.Linked y.library [] False) False) {s : Storage} (hs : s.Sound y) :
    Ends (fun _ x => x.storage.Sound y) (fun x => x.storage.Sound y)
      (answer ⟨y.library, epsilon⟩ limit q ⟨s, .idle⟩) := by
  have hrun := Run.runWithin_safe (x := ⟨s, .idle⟩) limit (query_safe epsilon hl hlinked hquery hq) hs rfl
  unfold answer
  simp only [EStateM.bind_apply]
  rcases hresult : runWithin ⟨y.library, epsilon⟩ limit [.start q] ⟨s, .idle⟩ with ⟨_ | r, x⟩ | ⟨d, x⟩ <;>
    simp only [hresult] at hrun ⊢
  · exact ⟨hrun.1, nofun⟩
  · have hr := hrun.2 r rfl
    cases q with
    | eval e =>
      dsimp only
      exact (show_maintains hl (.pure hr) x hrun.1).mono (fun _ _ h => h.1) fun _ => id
    | assign info target value =>
      obtain ⟨type, place, hplace, hplaced⟩ := hr
      simp only [hplace]
      have hvalue : Maintains (fun x : Execution => x.storage.Sound y) (Run.asking info.span (·.value place))
          (·.Proper y.Bound) := by
        refine .reads fun x hx => .checked (.atSpan (.of_exists ?_) _)
        obtain ⟨v, hv, hfits⟩ := hx.value hplaced
        exact ⟨v, hv, hfits.1⟩
      exact (show_maintains hl hvalue x hrun.1).mono (fun _ _ h => h.1) fun _ => id
    | _ => cases hquery
  · exact hrun

end Interpreter

end StructuredText
