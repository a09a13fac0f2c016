-- SUMMARY: Nodes that wait stand for frames: what an arena that is in the middle of a body has left to do.
import StructuredText.Proofs.Arenas
import StructuredText.Proofs.Settling

/-!
# Suspended bodies

A body whose root is in progress keeps in its nodes what is left to do. Read from the root down to the node where the last
step has stopped, the states of the nodes are the frames that wait, the outermost one first. What a frame carries with it,
the results of operands and the places of arguments, is in the nodes of the parts that are finished.
-/

namespace StructuredText

open Node

/-- The reference that a variable is, with the place where it was found. -/
def Expr.reference? (place? : Option Place) : Expr → Option Node.Variable
  | .var _ path indexes => some { path, indexes := indexes.map Expr.nodeId, place? }
  | _ => none

namespace Arena

variable {b b' : Arena} {s : Stmt} {e : Expr} {r : Evaluated} {ids : List NodeId}

-- ---------------------------------------------------------------------------
-- Results
-- ---------------------------------------------------------------------------

/-- The node of the expression has the result, and the place if it is a reference. -/
def Shows (b : Arena) (e : Expr) (r : Evaluated) : Prop :=
  ∃ n, b.nodes[e.nodeId]? = some n ∧ n.result = r.value ∧ n.kind.place? = r.place?

/-- The place where a reference was found. -/
def place? (b : Arena) (id : NodeId) : Option Place := (b.reference? id).bind (·.place?)

/-- The result of a statement that is a call or an assignment is in its nodes. Other statements have none. -/
def Shown (b : Arena) : Stmt → Evaluated → Prop
  | .eval e, r => b.Shows e r
  | .assign _ target _, r => b.place? target.nodeId = r.place?
  | _, _ => True

theorem Shows.same (h : b.Shows e r) (hsame : SameBut ids b b') (hid : e.nodeId ∉ ids) : b'.Shows e r := by
  obtain ⟨n, hn, hr⟩ := h
  exact ⟨n, (hsame _ hid).trans hn, hr⟩

theorem place?_same (hsame : SameBut ids b b') {id : NodeId} (hid : id ∉ ids) : b'.place? id = b.place? id := by
  rw [place?, reference?, hsame id hid, place?, reference?]

theorem Shows.place? (h : b.Shows e r) : b.place? e.nodeId = r.place? := by
  obtain ⟨⟨k, span, type?, storage, result⟩, hn, -, hplace⟩ := h
  rw [Arena.place?, reference?, hn, ← hplace]
  cases k <;> rfl

theorem Shows.result (h : b.Shows e r) : b.result e.nodeId = .ok r.value := by
  obtain ⟨n, hn, hresult, -⟩ := h
  rw [Arena.result, node, hn, ← hresult]
  rfl

theorem Shown.same (h : b.Shown s r) (hsame : SameBut ids b b') (hids : ∀ i ∈ s.ids, i ∉ ids) : b'.Shown s r := by
  cases s with
  | eval e => exact Shows.same h hsame (hids _ (Stmt.eval e).nodeId_mem_ids)
  | assign info target value =>
    refine (place?_same hsame (hids _ ?_)).trans h
    have hcells : (Stmt.eval target).cells ⊆ (Stmt.assign info target value).cells := by
      rw [(Stmt.assign info target value).cells_eq, Stmt.cells]
      exact fun cell hcell => List.mem_append_left _ (List.mem_append_left _ hcell)
    exact List.map_subset _ hcells (Stmt.eval target).nodeId_mem_ids
  | _ => trivial

/-- The nodes of parts of a statement have the results. -/
def Showing (b : Arena) (s : Stmt) (es : List Expr) (rs : List Evaluated) : Prop :=
  List.Forall₂ (fun e r => (Stmt.eval e).Part s ∧ b.Shows e r) es rs

theorem Showing.snoc {es : List Expr} {rs : List Evaluated} (h : b.Showing s es rs) (hpart : (Stmt.eval e).Part s)
    (hshows : b.Shows e r) : b.Showing s (es ++ [e]) (rs ++ [r]) :=
  List.rel_append h (.cons ⟨hpart, hshows⟩ .nil)

/-- What is done to other nodes does not change the results. -/
theorem Showing.apart {es : List Expr} {rs : List Evaluated} (h : b.Showing s es rs) (hsame : SameBut ids b b')
    (hids : ∀ e ∈ es, e.nodeId ∉ ids) : b'.Showing s es rs := by
  induction h with
  | nil => exact .nil
  | cons hfirst _ ih =>
    obtain ⟨hnot, hrest⟩ := List.forall_mem_cons.mp hids
    exact .cons ⟨hfirst.1, hfirst.2.same hsame hnot⟩ (ih hrest)

theorem Showing.same {es : List Expr} {rs : List Evaluated} (h : b.Showing s es rs) (hsame : SameBut ids b b')
    (hids : ∀ i ∈ s.ids, i ∉ ids) : b'.Showing s es rs :=
  h.imp fun e _ ⟨hpart, hshows⟩ => ⟨hpart, hshows.same hsame (hids _ (hpart.ids_subset (Stmt.eval e).nodeId_mem_ids))⟩

/-- What a node at rest tells of one of its parts that is finished. -/
theorem Rests.read {k : Kind} (h : b.Rests s k) (hpart : (Stmt.eval e).Part s) (hshows : b.Shows e r) :
    ∃ k', k'.forget = e.nodeKind ∧ k'.place? = r.place? ∧
      b.nodes[e.nodeId]? = some ⟨k', e.span, e.info.type?, e.info.storage, r.value⟩ := by
  have hcell : e.info.cell e.nodeKind ∈ s.innerCells := by
    refine hpart.inner ?_
    rw [Stmt.cells, e.cells_eq]
    exact List.mem_append_right _ (List.mem_singleton_self _)
  obtain ⟨⟨k', span, type?, storage, result⟩, hn, hforget⟩ := h.inner _ hcell
  obtain ⟨n, hn', hresult, hplace⟩ := hshows
  cases hn.symm.trans hn'
  obtain ⟨hkind, rfl, rfl, rfl, -⟩ := Node.mk.inj hforget
  obtain rfl := hresult
  exact ⟨k', hkind, hplace, hn⟩

/-- The part is a reference, with the place that it was found at, if it is a variable. -/
theorem Rests.reference? {k : Kind} (h : b.Rests s k) (hpart : (Stmt.eval e).Part s) (hshows : b.Shows e r) :
    b.reference? e.nodeId = e.reference? r.place? := by
  obtain ⟨k', hkind, hplace, hn⟩ := h.read hpart hshows
  rw [Arena.reference?, hn]
  cases e with
  | var info path indexes =>
    rw [Kind.eq_of_forget_reference hkind, hplace]
    rfl
  | _ =>
    cases k' <;> first | rfl | cases hkind

/-- What is done to the node of the statement itself does not change the results of its parts. -/
theorem Showing.own {es : List Expr} {rs : List Evaluated} (h : b.Showing s es rs) (hsame : SameBut [s.nodeId] b b') :
    b'.Showing s es rs :=
  h.imp fun _ _ ⟨hpart, hshows⟩ => ⟨hpart, hshows.same hsame fun hmem => hpart.nodeId_ne (List.mem_singleton.mp hmem)⟩

end Arena

-- ---------------------------------------------------------------------------
-- Frames in nodes
-- ---------------------------------------------------------------------------

/-- The parts of a call that its node refers to. -/
def CallSite.node (site : CallSite) : Node.Call where
  name := site.name
  args := site.args.map Expr.nodeId
  callee := site.callee
  bindings := site.bindings.map (Expr.nodeBinding site.args)

/-- The call of a site, with labels that do not matter when it is executed. -/
abbrev CallSite.expr (site : CallSite) (labels : List ArgLabel) : Expr :=
  .call site.info site.name labels site.args site.callee site.bindings

abbrev ForLoop.stmt (loop : ForLoop) : Stmt :=
  .forLoop loop.info loop.control loop.start loop.stop loop.step loop.body

/-- The parts of a loop that its node refers to. -/
def ForLoop.node (loop : ForLoop) : Node.For where
  control := loop.control.nodeId
  start := loop.start.nodeId
  stop := loop.stop.nodeId
  stride := loop.step.map Expr.nodeId
  body := loop.body.nodeId

/-- The parts of a branching statement that its node refers to. -/
def Stmt.ifNode (branches : List (Expr × Stmt)) (otherwise : Option Stmt) : Node.If where
  branches := branches.map fun (c, s) => (c.nodeId, s.nodeId)
  otherwise := otherwise.map nodeId

def Stmt.caseNode (selector : Expr) (arms : List (List CaseLabel × Stmt)) (otherwise : Option Stmt) : Node.Case where
  selector := selector.nodeId
  arms := arms.map fun (labels, s) => (labels.map CaseLabel.nodeLabel, s.nodeId)
  otherwise := otherwise.map nodeId

/--
The nodes of a statement are in the middle of its execution, and the frames are what is left to do. Where a called
instance is awaited, they are those from its end on.
-/
inductive Suspended (b : Arena) : Stmt → List Frame → Prop
  | start {s} (h : b.Holds s) : Suspended b s [.start s]
  | index {info path done e rest before place? frames} (hfixed : path.fixed = none)
      (hdone : b.Showing (.eval (.var info path (done ++ e :: rest))) done before)
      (haround : b.Around (.eval (.var info path (done ++ e :: rest)))
        (.reference ⟨path, (done ++ e :: rest).map Expr.nodeId, done.length, place?⟩) (.eval e))
      (h : Suspended b (.eval e) frames) :
      Suspended b (.eval (.var info path (done ++ e :: rest)))
        (frames ++ [.index info path before (done ++ e :: rest) rest])
  | operand {info op e frames}
      (haround : b.Around (.eval (.unary info op e)) (.unary ⟨op, e.nodeId⟩) (.eval e))
      (h : Suspended b (.eval e) frames) : Suspended b (.eval (.unary info op e)) (frames ++ [.operand info op])
  | left {info op left right frames}
      (haround : b.Around (.eval (.binary info op left right))
        (.binary ⟨op, left.nodeId, right.nodeId, .left⟩) (.eval left))
      (h : Suspended b (.eval left) frames) :
      Suspended b (.eval (.binary info op left right)) (frames ++ [.left op left right])
  | right {info op left right a frames} (hleft : b.Showing (.eval (.binary info op left right)) [left] [a])
      (haround : b.Around (.eval (.binary info op left right))
        (.binary ⟨op, left.nodeId, right.nodeId, .right⟩) (.eval right))
      (h : Suspended b (.eval right) frames) :
      Suspended b (.eval (.binary info op left right)) (frames ++ [.right op left right a.value])
  | arg {site : CallSite} {labels done e rest before frames} (hargs : site.args = done ++ e :: rest)
      (hdone : b.Showing (.eval (site.expr labels)) done before)
      (haround : b.Around (.eval (site.expr labels)) (.call { site.node with next := done.length }) (.eval e))
      (h : Suspended b (.eval e) frames) :
      Suspended b (.eval (site.expr labels)) (frames ++ [.arg site before rest])
  | results {site : CallSite} {labels args i} (hbound : ∀ bound ∈ site.bindings, bound.arg < site.args.length)
      (hargs : b.Showing (.eval (site.expr labels)) site.args args)
      (hrests : b.Rests (.eval (site.expr labels)) (.call { site.node with state := .await i })) :
      Suspended b (.eval (site.expr labels)) [.results site args i]
  | rest {info done s rest frames}
      (haround : b.Around (.block info (done ++ s :: rest))
        (.block ⟨(done ++ s :: rest).map Stmt.nodeId, done.length, true⟩) s)
      (h : Suspended b s frames) : Suspended b (.block info (done ++ s :: rest)) (frames ++ [.rest rest])
  | target {info target value frames}
      (haround : b.Around (.assign info target value) (.assign ⟨target.nodeId, value.nodeId, .target⟩) (.eval target))
      (h : Suspended b (.eval target) frames) :
      Suspended b (.assign info target value) (frames ++ [.target info target value])
  | value {info target value located frames} (htarget : b.Showing (.assign info target value) [target] [located])
      (haround : b.Around (.assign info target value) (.assign ⟨target.nodeId, value.nodeId, .value⟩) (.eval value))
      (h : Suspended b (.eval value) frames) :
      Suspended b (.assign info target value) (frames ++ [.value ⟨info.span, target, located.place?⟩])
  | condition {info done condition s rest otherwise frames}
      (haround : b.Around (.ifThen info (done ++ (condition, s) :: rest) otherwise)
        (.ifThen { Stmt.ifNode (done ++ (condition, s) :: rest) otherwise with state := .condition done.length })
        (.eval condition))
      (h : Suspended b (.eval condition) frames) :
      Suspended b (.ifThen info (done ++ (condition, s) :: rest) otherwise)
        (frames ++ [.condition condition s rest otherwise])
  | branch {info branches otherwise s frames} (hs : s ∈ branches.map (·.2) ++ otherwise.toList)
      (haround : b.Around (.ifThen info branches otherwise)
        (.ifThen { Stmt.ifNode branches otherwise with state := .body s.nodeId }) s)
      (h : Suspended b s frames) : Suspended b (.ifThen info branches otherwise) frames
  | selector {info selector arms otherwise frames}
      (haround : b.Around (.case info selector arms otherwise) (.case (Stmt.caseNode selector arms otherwise))
        (.eval selector))
      (h : Suspended b (.eval selector) frames) :
      Suspended b (.case info selector arms otherwise) (frames ++ [.selector selector arms otherwise])
  | arm {info selector arms otherwise s frames} (hs : s ∈ arms.map (·.2) ++ otherwise.toList)
      (haround : b.Around (.case info selector arms otherwise)
        (.case { Stmt.caseNode selector arms otherwise with state := .body s.nodeId }) s)
      (h : Suspended b s frames) : Suspended b (.case info selector arms otherwise) frames
  | bound {loop : ForLoop} {done e rest before frames} (hbounds : Stmt.bounds loop = done ++ e :: rest)
      (hdone : b.Showing loop.stmt done before)
      (haround : b.Around loop.stmt (.forLoop { loop.node with next := done.length }) (.eval e))
      (h : Suspended b (.eval e) frames) : Suspended b loop.stmt (frames ++ [.bound loop before rest])
  | forBody {loop : ForLoop} {remaining frames}
      (haround : b.Around loop.stmt (.forLoop { loop.node with remaining, state := .body }) loop.body)
      (h : Suspended b loop.body frames) :
      Suspended b loop.stmt (frames ++ [.forBody loop.info remaining loop.body])
  | whileTest {info condition body entered frames}
      (haround : b.Around (.whileLoop info condition body)
        (.whileLoop ⟨condition.nodeId, body.nodeId, entered, .condition⟩) (.eval condition))
      (h : Suspended b (.eval condition) frames) :
      Suspended b (.whileLoop info condition body) (frames ++ [.whileTest info condition body entered])
  | whileBody {info condition body frames}
      (haround : b.Around (.whileLoop info condition body)
        (.whileLoop ⟨condition.nodeId, body.nodeId, true, .body⟩) body)
      (h : Suspended b body frames) :
      Suspended b (.whileLoop info condition body) (frames ++ [.whileBody info condition body])
  | whileAgain {info condition body}
      (hrests : b.Rests (.whileLoop info condition body)
        (.whileLoop ⟨condition.nodeId, body.nodeId, true, .condition⟩)) :
      Suspended b (.whileLoop info condition body) [.whileAgain info condition body]
  | repeatBody {info body condition frames}
      (haround : b.Around (.repeatLoop info body condition)
        (.repeatLoop ⟨body.nodeId, condition.nodeId, true, .body⟩) body)
      (h : Suspended b body frames) :
      Suspended b (.repeatLoop info body condition) (frames ++ [.repeatBody info body condition])
  | repeatTest {info body condition frames}
      (haround : b.Around (.repeatLoop info body condition)
        (.repeatLoop ⟨body.nodeId, condition.nodeId, true, .condition⟩) (.eval condition))
      (h : Suspended b (.eval condition) frames) :
      Suspended b (.repeatLoop info body condition) (frames ++ [.repeatTest info body condition])

namespace Suspended

open Arena

variable {b b' : Arena} {s : Stmt} {frames : List Frame} {ids : List NodeId}

/-- What is left to do in a statement depends on its own nodes only. -/
theorem same (h : Suspended b s frames) (hsame : SameBut ids b b') (hids : ∀ i ∈ s.ids, i ∉ ids) :
    Suspended b' s frames := by
  have inside {s c : Stmt} {k : Kind} (haround : b.Around s k c) (hids : ∀ i ∈ s.ids, i ∉ ids) :
      ∀ i ∈ c.ids, i ∉ ids := fun i hi => hids i (haround.part.ids_subset hi)
  induction h with
  | start h => exact .start (h.same hsame hids)
  | index hfixed hdone haround _ ih =>
    exact .index hfixed (hdone.same hsame hids) (haround.same hsame hids) (ih (inside haround hids))
  | operand haround _ ih => exact .operand (haround.same hsame hids) (ih (inside haround hids))
  | left haround _ ih => exact .left (haround.same hsame hids) (ih (inside haround hids))
  | right hleft haround _ ih =>
    exact .right (hleft.same hsame hids) (haround.same hsame hids) (ih (inside haround hids))
  | arg hargs hdone haround _ ih =>
    exact .arg hargs (hdone.same hsame hids) (haround.same hsame hids) (ih (inside haround hids))
  | results hbound hargs hrests => exact .results hbound (hargs.same hsame hids) (hrests.same hsame hids)
  | rest haround _ ih => exact .rest (haround.same hsame hids) (ih (inside haround hids))
  | target haround _ ih => exact .target (haround.same hsame hids) (ih (inside haround hids))
  | value htarget haround _ ih =>
    exact .value (htarget.same hsame hids) (haround.same hsame hids) (ih (inside haround hids))
  | condition haround _ ih => exact .condition (haround.same hsame hids) (ih (inside haround hids))
  | branch hs haround _ ih => exact .branch hs (haround.same hsame hids) (ih (inside haround hids))
  | selector haround _ ih => exact .selector (haround.same hsame hids) (ih (inside haround hids))
  | arm hs haround _ ih => exact .arm hs (haround.same hsame hids) (ih (inside haround hids))
  | bound hbounds hdone haround _ ih =>
    exact .bound hbounds (hdone.same hsame hids) (haround.same hsame hids) (ih (inside haround hids))
  | forBody haround _ ih => exact .forBody (haround.same hsame hids) (ih (inside haround hids))
  | whileTest haround _ ih => exact .whileTest (haround.same hsame hids) (ih (inside haround hids))
  | whileBody haround _ ih => exact .whileBody (haround.same hsame hids) (ih (inside haround hids))
  | whileAgain hrests => exact .whileAgain (hrests.same hsame hids)
  | repeatBody haround _ ih => exact .repeatBody (haround.same hsame hids) (ih (inside haround hids))
  | repeatTest haround _ ih => exact .repeatTest (haround.same hsame hids) (ih (inside haround hids))

/-- A statement that is ahead as a whole is at its start. -/
theorem holds {s' : Stmt} (h : Suspended b s [.start s']) : b.Holds s' := by
  generalize hframes : [Frame.start s'] = frames at h
  induction h with
  | start h =>
    cases hframes
    exact h
  | branch _ _ _ ih | arm _ _ _ ih => exact ih hframes
  | results | whileAgain => cases hframes
  | _ =>
    obtain ⟨-, hframe⟩ := List.append_inj' ((List.nil_append [Frame.start s']).trans hframes) rfl
    cases hframe

end Suspended

end StructuredText
