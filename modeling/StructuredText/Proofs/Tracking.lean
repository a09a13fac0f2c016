-- SUMMARY: Steps of a node and frames: when they come to the same, and what a node does with the steps of its parts.
import StructuredText.Proofs.Silent
import StructuredText.Proofs.Suspended

/-!
# Steps and frames

A step of a node tracks frames if both end in the same way: they finish with the same result, fail with the same
diagnostic, or pause, and then the nodes wait as the new frames do. A node that waits for a part tracks frames if the part
does, and if what the node goes on with tracks the frame that waits for the part.
-/

theorem EStateM.get_bind {ε σ α : Type} (f : σ → EStateM ε σ α) (s : σ) : (get >>= f) s = f s s := rfl

theorem EStateM.bind_congr_apply {ε σ α β : Type} {m m' : EStateM ε σ α} {s : σ} (h : m s = m' s)
    (f : α → EStateM ε σ β) : (m >>= f) s = (m' >>= f) s := by
  rw [EStateM.bind_apply, h, EStateM.bind_apply]

namespace StructuredText

/-- A question to the storage changes nothing. -/
theorem Run.asking_eq_ok {α : Type} {span : Span} {q : Storage → Except ValueError α} {a : α} {x x' : Execution} :
    Run.asking span q x = .ok a x' ↔ q x.storage = .ok a ∧ x' = x := by
  rw [Run.asking, EStateM.get_bind, EStateM.ofExcept_apply]
  cases q x.storage with
  | error e => simp [atSpan, Except.mapError]
  | ok a' => simp [atSpan, Except.mapError, eq_comm]

open Run Arena

-- ---------------------------------------------------------------------------
-- Computations of a node
-- ---------------------------------------------------------------------------

namespace Node

variable {κ α : Type} {n : κ} {b : Arena} {x : Execution}

@[simp] theorem own_apply (s : Stepping κ) : own s = .ok s.own s := rfl

@[simp] theorem modifyOwn_apply (f : κ → κ) (s : Stepping κ) : modifyOwn f s = .ok () { s with own := f s.own } := rfl

@[simp] theorem asking_apply (f : Arena → Except Diagnostic α) (s : Stepping κ) :
    (asking f : Stepper κ α) s = match f s.arena with
      | .ok a => .ok a s
      | .error d => .error d s := by
  simp only [asking, EStateM.bind_apply, EStateM.get_apply, EStateM.ofExcept_apply]
  cases f s.arena <;> rfl

@[simp] theorem spanOf_apply (id : NodeId) (s : Stepping κ) :
    (spanOf id : Stepper κ Span) s = .ok (s.arena.span id) s := rfl

@[simp] theorem running_apply (m : Run α) (s : Stepping κ) :
    (running m : Stepper κ α) s = match m s.execution with
      | .ok a execution => .ok a { s with execution }
      | .error d execution => .error d { s with execution } := rfl

theorem running_ofExcept (e : Except Diagnostic α) (s : Stepping κ) :
    (running (ofExcept e) : Stepper κ α) s = (ofExcept e : Stepper κ α) s := by
  cases e <;> rfl

/-- What depends on the execution only goes on with what does, too. -/
theorem running_bind_congr {β : Type} {m : Run α} {next : α → Stepper κ β} {cont : α → Run β}
    (h : ∀ a x', m x = .ok a x' → next a ⟨n, b, x'⟩ = running (cont a) ⟨n, b, x'⟩) :
    (running m >>= next) ⟨n, b, x⟩ = running (m >>= cont) ⟨n, b, x⟩ := by
  rw [EStateM.bind_apply, running_apply, running_apply, EStateM.bind_apply]
  rcases hm : m x with ⟨a, x'⟩ | ⟨d, x'⟩
  · exact h a x' hm
  · rfl

-- The equations below go on in the state that an operation leads to, and leave what comes after it alone.

section

variable {β : Type}

theorem own_bind (f : κ → Stepper κ β) (s : Stepping κ) : (own >>= f) s = f s.own s := rfl

theorem modifyOwn_bind (g : κ → κ) (f : Unit → Stepper κ β) (s : Stepping κ) :
    (modifyOwn g >>= f) s = f () { s with own := g s.own } := rfl

theorem spanOf_bind (id : NodeId) (f : Span → Stepper κ β) (s : Stepping κ) :
    (spanOf id >>= f) s = f (s.arena.span id) s := rfl

theorem asking_bind {q : Arena → Except Diagnostic α} {a : α} {s : Stepping κ} (h : q s.arena = .ok a)
    (f : α → Stepper κ β) : (asking q >>= f) s = f a s := by
  rw [EStateM.bind_apply, asking_apply, h]

end

theorem setResult_apply {id : NodeId} {node : Node} (h : b.nodes[id]? = some node) (v : Value) :
    setResult id v ⟨n, b, x⟩ = .ok () ⟨n, b.setResult id v, x⟩ := by
  simp only [setResult, EStateM.bind_apply, asking_apply, Arena.node, h]
  rfl

theorem stepping_apply (m : Stepper Unit α) (s : Stepping κ) :
    (stepping m : Stepper κ α) s = match m ⟨(), s.arena, s.execution⟩ with
      | .ok a s' => .ok a ⟨s.own, s'.arena, s'.execution⟩
      | .error d s' => .error d ⟨s.own, s'.arena, s'.execution⟩ := rfl

theorem afterStep_apply (m next : Stepper κ Step) (s : Stepping κ) :
    afterStep m next s = match m s with
      | .ok .inProgress s' => .ok .inProgress s'
      | .ok .finished s' => next s'
      | .error d s' => .error d s' := by
  simp only [afterStep, EStateM.bind_apply]
  rcases m s with ⟨_ | _, _⟩ | ⟨_, _⟩ <;> rfl

theorem afterStep_afterStep (m next last : Stepper κ Step) :
    afterStep (afterStep m next) last = afterStep m (afterStep next last) := by
  funext s
  simp only [afterStep_apply]
  rcases m s with ⟨_ | _, _⟩ | ⟨_, _⟩ <;> rfl

theorem afterStep_bind (m : Stepper κ Unit) (next last : Stepper κ Step) :
    afterStep (do m; next) last = (do m; afterStep next last) := by
  funext s
  simp only [afterStep_apply, EStateM.bind_apply]
  rcases m s with ⟨_, _⟩ | ⟨_, _⟩ <;> rfl

/-- The end of a step of a node whose kind is put back. -/
def restored (id : NodeId) (wrap : κ → Kind) :
    EStateM.Result Diagnostic (Stepping κ) Step → EStateM.Result Diagnostic (Stepping Unit) Step
  | .ok r s => .ok r ⟨(), s.arena.setKind id (wrap s.own), s.execution⟩
  | .error d s => .error d ⟨(), s.arena.setKind id (wrap s.own), s.execution⟩

theorem moving_apply (id : NodeId) (wrap : κ → Kind) (n : κ) (m : Stepper κ Step) (b : Arena) (x : Execution) :
    moving id wrap n m ⟨(), b, x⟩ = restored id wrap (m ⟨n, b.setKind id .vacant, x⟩) := by
  simp only [moving, restored]
  rcases m _ with ⟨_, _⟩ | ⟨_, _⟩ <;> rfl

end Node

open Node

-- ---------------------------------------------------------------------------
-- The ends of steps
-- ---------------------------------------------------------------------------

/-- The same instances run and wait, and no statement is announced. -/
structure Cursor.Untouched (c c' : Cursor) : Prop where
  current : c'.current = c.current
  callers : c'.callers = c.callers
  pause : c'.pause = c.pause

namespace Cursor.Untouched

variable {c c' c'' : Cursor}

theorem refl (c : Cursor) : c.Untouched c := ⟨rfl, rfl, rfl⟩

theorem trans (h : c.Untouched c') (h' : c'.Untouched c'') : c.Untouched c'' :=
  ⟨h'.current.trans h.current, h'.callers.trans h.callers, h'.pause.trans h.pause⟩

end Cursor.Untouched

theorem Run.Mute.untouched {α : Type} {m : Run α} (hm : Mute m) (x : Execution) :
    x.cursor.Untouched (m x).state.cursor := by
  rw [(hm x).1]
  exact .refl _

/--
A step ends with frames that are left to do, within the instance that runs or with a call. The frames of the instance that
are left when the called one has ended are named, too.
-/
inductive Pauses (l : Library) (x x' : Execution) : List Frame → List Frame → Prop
  | within {frames} (hcurrent : x'.cursor.current = x.cursor.current) (hcallers : x'.cursor.callers = x.cursor.callers) :
    Pauses l x x' frames frames
  | called {i pou site args frames} (hinactive : x.cursor.isActive i = false)
    (hcurrent : x'.cursor.current = some i)
    (hcallers : x'.cursor.callers = x.cursor.current.toList ++ x.cursor.callers)
    (hpause : x'.cursor.pause = x.cursor.pause) (hpou : x'.storage.pouOf l i = .ok pou) :
    Pauses l x x' (.start pou.body :: .callee site args i :: frames) (.results site args i :: frames)

namespace Pauses

variable {l : Library} {x x' x'' : Execution} {frames left : List Frame}

theorem append (h : Pauses l x x' frames left) (outer : List Frame) : Pauses l x x' (frames ++ outer) (left ++ outer) := by
  cases h with
  | within hcurrent hcallers => exact .within hcurrent hcallers
  | called hinactive hcurrent hcallers hpause hpou => exact .called hinactive hcurrent hcallers hpause hpou

theorem after (h : x.cursor.Untouched x'.cursor) (h' : Pauses l x' x'' frames left) : Pauses l x x'' frames left := by
  cases h' with
  | within hcurrent hcallers => exact .within (hcurrent.trans h.current) (hcallers.trans h.callers)
  | called hinactive hcurrent hcallers hpause hpou =>
    refine .called ?_ hcurrent ?_ (hpause.trans h.pause) hpou
    · rwa [Cursor.isActive, h.current, h.callers] at hinactive
    · rw [hcallers, h.current, h.callers]

end Pauses

/-- A step of the node of a statement ends as frames do. -/
def Matches (l : Library) (s : Stmt) (b : Arena) (x : Execution) (r : EStateM.Result Diagnostic (Stepping Unit) Step) :
    Stepped → Prop
  | .ok (.done a) x' => ∃ b', r = .ok .finished ⟨(), b', x'⟩ ∧ b'.Holds s ∧ b'.Shown s a ∧ SameBut s.ids b b' ∧
      x.cursor.Untouched x'.cursor
  | .ok (.paused frames) x' => ∃ b' left, r = .ok .inProgress ⟨(), b', x'⟩ ∧ Pauses l x x' frames left ∧
      Suspended b' s left ∧ SameBut s.ids b b'
  | .error d x' => ∃ b', r = .error d ⟨(), b', x'⟩

/-- The steps of the node of a statement end as the frames do that it stands for. -/
def Tracks (ctx : StepContext) (depth : Nat) (s : Stmt) : Prop :=
  ∀ b frames x, Suspended b s frames → x.cursor.current = ctx.instance? →
    Matches ctx.env.library s b x (Arena.step ctx depth s.nodeId ⟨(), b, x⟩) (microStep ctx.env frames x)

variable {ctx : StepContext} {depth : Nat} {l : Library} {s c : Stmt} {b b' : Arena} {x x' : Execution}

/-- What has come to rest before a step goes on belongs to the step. -/
theorem Matches.after {r : EStateM.Result Diagnostic (Stepping Unit) Step} {p : Stepped} (h : Matches l s b' x' r p)
    (hsame : SameBut s.ids b b') (hx : x.cursor.Untouched x'.cursor) : Matches l s b x r p := by
  rcases p with ⟨a | frames, x''⟩ | ⟨d, x''⟩
  · obtain ⟨b'', hr, hholds, hshown, hsame', hx'⟩ := h
    exact ⟨b'', hr, hholds, hshown, hsame.trans hsame', hx.trans hx'⟩
  · obtain ⟨b'', left, hr, hpauses, hleft, hsame'⟩ := h
    exact ⟨b'', left, hr, hpauses.after hx, hleft, hsame.trans hsame'⟩
  · exact h

theorem Matches.error {d : Diagnostic} {b' : Arena} : Matches l s b x (.error d ⟨(), b', x'⟩) (.error d x') := ⟨b', rfl⟩

section

variable {κ : Type} {wrap : κ → Kind} {n n' : κ} {outer : List Frame}

/-- The node has stopped at a part, and goes on with it. -/
theorem Matches.part {frames : List Frame} {next : Stepper κ Step} (hpart : Tracks ctx depth c)
    (hcurrent : x.cursor.current = ctx.instance?) (h : Suspended b c frames) (haround : b.Around s (wrap n) c)
    (hwait : ∀ {b' left}, b'.Around s (wrap n) c → SameBut c.ids b b' → Suspended b' c left →
      Suspended b' s (left ++ outer))
    (hnext : ∀ {b' a x'}, b'.Rests s (wrap n) → SameBut c.ids b b' → b'.Shown c a →
      x'.cursor.current = ctx.instance? →
      Matches ctx.env.library s b' x' (restored s.nodeId wrap (next ⟨n, b'.setKind s.nodeId .vacant, x'⟩))
        (resumeAll ctx.env outer a x')) :
    Matches ctx.env.library s b x
      (restored s.nodeId wrap
        (afterStep (stepping (Arena.step ctx depth c.nodeId)) next ⟨n, b.setKind s.nodeId .vacant, x⟩))
      (follow ctx.env outer (microStep ctx.env frames x)) := by
  have hnot : ∀ i ∈ c.ids, i ∉ [s.nodeId] := fun i hi hmem =>
    haround.part.not_mem (List.mem_singleton.mp hmem ▸ hi)
  have hchild := hpart (b.setKind s.nodeId .vacant) frames x
    (h.same (sameBut_setKind (List.mem_singleton_self _)) hnot) hcurrent
  -- The node is put back into what its part has left.
  have back {b' : Arena} (hsame : SameBut c.ids (b.setKind s.nodeId .vacant) b') :
      SameBut c.ids b (b'.setKind s.nodeId (wrap n)) ∧
        (b'.setKind s.nodeId (wrap n)).setKind s.nodeId .vacant = b' := by
    have howns : b'.Owns s.info .vacant := (haround.owns.setKind .vacant).same hsame haround.part.not_mem
    refine ⟨fun i hi => ?_, ?_⟩
    · by_cases hid : i = s.nodeId
      · subst hid
        obtain ⟨result, hn⟩ := haround.owns
        have hvacant := hsame _ hi
        rw [getElem?_setKind, if_pos rfl] at hvacant ⊢
        rw [hvacant, Stmt.nodeId, hn]
        rfl
      · rw [getElem?_setKind, if_neg (Ne.symm hid), hsame i hi, getElem?_setKind, if_neg (Ne.symm hid)]
    · rw [setKind_setKind]
      exact howns.setKind_self
  rw [afterStep_apply, stepping_apply]
  generalize microStep ctx.env frames x = p at hchild ⊢
  rcases p with ⟨a | frames, x'⟩ | ⟨d, x'⟩
  · obtain ⟨b', hr, hholds, hshown, hsame, hx⟩ := hchild
    obtain ⟨hsame', hvacant⟩ := back hsame
    have hrests := haround.rests hsame' (hholds.same (sameBut_setKind (List.mem_singleton_self _)) hnot)
    have hshown' := hshown.same (sameBut_setKind (k := wrap n) (List.mem_singleton_self _)) hnot
    have hlast := hnext hrests hsame' hshown' (hx.current.trans hcurrent)
    rw [hvacant] at hlast
    rw [hr]
    exact hlast.after (hsame'.mono haround.part.ids_subset) hx
  · obtain ⟨b', left, hr, hpauses, hleft, hsame⟩ := hchild
    obtain ⟨hsame', -⟩ := back hsame
    rw [hr]
    refine ⟨b'.setKind s.nodeId (wrap n), left ++ outer, rfl, hpauses.append outer, ?_,
      hsame'.mono haround.part.ids_subset⟩
    exact hwait (haround.apart hsame') hsame' (hleft.same (sameBut_setKind (List.mem_singleton_self _)) hnot)
  · obtain ⟨b', hr⟩ := hchild
    rw [hr]
    exact .error

/-- The node stands for no frame of its own while it steps the part. -/
theorem Matches.inside {frames : List Frame} {next : Stepper κ Step} (hpart : Tracks ctx depth c)
    (hcurrent : x.cursor.current = ctx.instance?) (h : Suspended b c frames) (haround : b.Around s (wrap n) c)
    (hwait : ∀ {b' left}, b'.Around s (wrap n) c → Suspended b' c left → Suspended b' s left)
    (hnext : ∀ {b' a x'}, b'.Rests s (wrap n) → x'.cursor.current = ctx.instance? →
      Matches ctx.env.library s b' x' (restored s.nodeId wrap (next ⟨n, b'.setKind s.nodeId .vacant, x'⟩))
        (.ok (.done a) x')) :
    Matches ctx.env.library s b x
      (restored s.nodeId wrap
        (afterStep (stepping (Arena.step ctx depth c.nodeId)) next ⟨n, b.setKind s.nodeId .vacant, x⟩))
      (microStep ctx.env frames x) := by
  rw [← follow_nil (microStep ctx.env frames x)]
  refine .part hpart hcurrent h haround (fun haround _ h => ?_) fun hrests _ _ hcurrent => hnext hrests hcurrent
  rw [List.append_nil]
  exact hwait haround h

/-- The node is finished and back in its start state. -/
theorem Matches.finish {a : Evaluated} {k : Kind} (hrests : b'.Rests s k) (hs : s.ids.Nodup)
    (hliteral : s.nodeKind.isLiteral = false) (hkind : (wrap n).forget = s.nodeKind) (hsame : SameBut s.ids b b')
    (hshown : (b'.setKind s.nodeId (wrap n)).Shown s a) (hx : x.cursor.Untouched x'.cursor) :
    Matches l s b x (restored s.nodeId wrap (.ok .finished ⟨n, b', x'⟩)) (.ok (.done a) x') :=
  ⟨_, rfl, (hrests.setKind hs (wrap n)).holds hkind hliteral, hshown, hsame.trans (sameBut_setKind s.nodeId_mem_ids), hx⟩

/-- The node waits. -/
theorem Matches.pause {frames left : List Frame} (hpauses : Pauses l x x' frames left)
    (h : Suspended (b'.setKind s.nodeId (wrap n)) s left) (hsame : SameBut s.ids b b') :
    Matches l s b x (restored s.nodeId wrap (.ok .inProgress ⟨n, b', x'⟩)) (.ok (.paused frames) x') :=
  ⟨_, left, rfl, hpauses, h, hsame.trans (sameBut_setKind s.nodeId_mem_ids)⟩

/-- The node is in another state, and goes on. -/
theorem Matches.moved {k : Kind} {m : Stepper κ Step} {p : Stepped}
    (h : Matches l s (b.setKind s.nodeId k) x
      (restored s.nodeId wrap (m ⟨n, (b.setKind s.nodeId k).setKind s.nodeId .vacant, x⟩)) p) :
    Matches l s b x (restored s.nodeId wrap (m ⟨n, b.setKind s.nodeId .vacant, x⟩)) p := by
  rw [setKind_setKind] at h
  exact h.after (sameBut_setKind s.nodeId_mem_ids) (.refl _)

theorem Matches.fail {d : Diagnostic} :
    Matches l s b x (restored s.nodeId wrap (.error d ⟨n, b', x'⟩)) (.error d x') := .error

/-- The node reads what others have left in the arena. -/
theorem Matches.reading {α : Type} {m : Stepper κ α} {a : α} {next : α → Stepper κ Step} {p : Stepped}
    (hm : m ⟨n, b', x'⟩ = .ok a ⟨n', b', x'⟩)
    (h : Matches l s b x (restored s.nodeId wrap (next a ⟨n', b', x'⟩)) p) :
    Matches l s b x (restored s.nodeId wrap ((m >>= next) ⟨n, b', x'⟩)) p := by
  rwa [EStateM.bind_apply, hm]

/-- The node goes on with what does not depend on the arena. -/
theorem Matches.running {α : Type} {m : Run α} {next : α → Stepper κ Step} {cont : α → Run (Progress Evaluated)}
    (hm : x.cursor.Untouched (m x).state.cursor)
    (h : ∀ a x', m x = .ok a x' → x.cursor.Untouched x'.cursor →
      Matches l s b x' (restored s.nodeId wrap (next a ⟨n, b', x'⟩)) (cont a x')) :
    Matches l s b x (restored s.nodeId wrap ((Node.running m >>= next) ⟨n, b', x⟩)) ((m >>= cont) x) := by
  simp only [EStateM.bind_apply, running_apply]
  rcases hmx : m x with ⟨a, x'⟩ | ⟨d, x'⟩
  · rw [hmx] at hm
    exact (h a x' hmx hm).after (.refl _ _) hm
  · exact .fail

/-- The node goes on with a value, if there is one. -/
theorem Matches.checking {α : Type} {value : Except Diagnostic α} {next : α → Stepper κ Step}
    {cont : α → Run (Progress Evaluated)}
    (h : ∀ a, value = .ok a → Matches l s b x (restored s.nodeId wrap (next a ⟨n, b', x⟩)) (cont a x)) :
    Matches l s b x (restored s.nodeId wrap ((ofExcept value >>= next) ⟨n, b', x⟩)) ((ofExcept value >>= cont) x) := by
  cases value with
  | error d => exact .fail
  | ok a => exact h a rfl

end

-- ---------------------------------------------------------------------------
-- Parts in order
-- ---------------------------------------------------------------------------

section

variable {κ : Type} {wrap : κ → Kind} {own : Nat → κ} {advance : κ → κ} {next : Stepper κ Step}
  {frame : List Evaluated → List Expr → Frame} {last : List Evaluated → Run (Progress Evaluated)} {es : List Expr}

theorem cells_subset_cellsOfAll {e : Expr} (h : e ∈ es) : e.cells ⊆ Expr.cellsOfAll es := by
  induction es with
  | nil => cases h
  | cons first rest ih =>
    rw [Expr.cellsOfAll]
    rcases List.mem_cons.mp h with rfl | h
    · exact fun cell hcell => List.mem_append_left _ hcell
    · exact fun cell hcell => List.mem_append_right _ (ih h hcell)

theorem cellsOfAll_append (es es' : List Expr) :
    Expr.cellsOfAll (es ++ es') = Expr.cellsOfAll es ++ Expr.cellsOfAll es' := by
  induction es with
  | nil => rfl
  | cons e es ih => simp [Expr.cellsOfAll, ih]

/-- Expressions that are parts of a statement, one after the other. -/
structure Parts (s : Stmt) (es : List Expr) : Prop where
  inner : (Expr.cellsOfAll es).Sublist s.innerCells
  distinct : s.ids.Nodup

namespace Parts

theorem part (h : Parts s es) {e : Expr} (he : e ∈ es) : (Stmt.eval e).Part s :=
  ⟨List.Subset.trans (cells_subset_cellsOfAll he) h.inner.subset, h.distinct⟩

/-- The expressions before one of the parts have other nodes. -/
theorem apart (h : Parts s es) {done rest : List Expr} {e : Expr} (hes : es = done ++ e :: rest) :
    ∀ e' ∈ done, e'.nodeId ∉ (Stmt.eval e).ids := by
  subst hes
  intro e' he' hmem
  have hinner : s.innerCells.Sublist s.cells := by
    rw [s.cells_eq]
    exact List.sublist_append_left _ _
  have hdistinct : ((Expr.cellsOfAll (done ++ e :: rest)).map (·.1)).Nodup :=
    ((h.inner.trans hinner).map _).nodup h.distinct
  rw [cellsOfAll_append, Expr.cellsOfAll, List.map_append, List.map_append] at hdistinct
  have hdone : e'.nodeId ∈ (Expr.cellsOfAll done).map (·.1) :=
    List.map_subset _ (cells_subset_cellsOfAll he') (Stmt.eval e').nodeId_mem_ids
  exact (List.nodup_append.mp hdistinct).2.2 _ hdone _ (List.mem_append_left _ hmem) rfl

end Parts

/-- What a node that evaluates expressions in order has to see to. -/
structure InTurn (ctx : StepContext) (depth : Nat) (s : Stmt) (es : List Expr) (wrap : κ → Kind) (own : Nat → κ)
    (advance : κ → κ) (next : Stepper κ Step) (frame : List Evaluated → List Expr → Frame)
    (last : List Evaluated → Run (Progress Evaluated)) : Prop where
  parts : Parts s es
  tracks : ∀ e ∈ es, Tracks ctx depth (.eval e)
  advance : ∀ j, advance (own j) = own (j + 1)
  resume : ∀ before rest a,
    resume ctx.env a (frame before rest) = Expr.evaluateAll ctx.env frame last (before ++ [a]) rest
  wait : ∀ {b done e rest before frames}, es = done ++ e :: rest → b.Showing s done before →
    b.Around s (wrap (own done.length)) (.eval e) → Suspended b (.eval e) frames →
      Suspended b s (frames ++ [frame before rest])
  next : ∀ {b results x}, b.Showing s es results → b.Rests s (wrap (own es.length)) →
    x.cursor.current = ctx.instance? →
      Matches ctx.env.library s b x (restored s.nodeId wrap (next ⟨own es.length, b.setKind s.nodeId .vacant, x⟩))
        (last results x)

variable {done rest : List Expr} {e : Expr} {before : List Evaluated} {frames : List Frame}

theorem execute_eval_apply (e : Expr) (x : Execution) : e.evaluate ctx.env x = microStep ctx.env [.start (.eval e)] x := by
  rw [microStep, resumeAll_singleton]
  rfl

/-- The node goes on at one of the expressions. -/
theorem InTurn.at (h : InTurn ctx depth s es wrap own advance next frame last) (hes : es = done ++ e :: rest)
    (hdone : b.Showing s done before) (haround : b.Around s (wrap (own done.length)) (.eval e))
    (hsuspended : Suspended b (.eval e) frames) (hcurrent : x.cursor.current = ctx.instance?)
    (hrest : ∀ {b before x}, b.Showing s (done ++ [e]) before → b.Rests s (wrap (own (done ++ [e]).length)) →
      x.cursor.current = ctx.instance? → Matches ctx.env.library s b x
        (restored s.nodeId wrap
          (afterStep (stepAll (Arena.step ctx depth) advance (rest.map Expr.nodeId)) next
            ⟨own (done ++ [e]).length, b.setKind s.nodeId .vacant, x⟩))
        (Expr.evaluateAll ctx.env frame last before rest x)) :
    Matches ctx.env.library s b x
      (restored s.nodeId wrap
        (afterStep (stepAll (Arena.step ctx depth) advance ((e :: rest).map Expr.nodeId)) next
          ⟨own done.length, b.setKind s.nodeId .vacant, x⟩))
      (follow ctx.env [frame before rest] (microStep ctx.env frames x)) := by
  have hmem : e ∈ es := by simp [hes]
  rw [List.map_cons, stepAll, afterStep_afterStep]
  refine Matches.part (h.tracks e hmem) hcurrent hsuspended haround ?_ ?_
  · intro b' left haround' hsame hleft
    exact h.wait hes (hdone.apart hsame (h.parts.apart hes)) haround' hleft
  · intro b' a x' hrests hsame hshows hcurrent'
    have hlength : (done ++ [e]).length = done.length + 1 := by simp
    have hown : SameBut [s.nodeId] b' (b'.setKind s.nodeId (wrap (own (done ++ [e]).length))) :=
      sameBut_setKind (List.mem_singleton_self _)
    have hbefore : b'.Showing s (done ++ [e]) (before ++ [a]) :=
      (hdone.apart hsame (h.parts.apart hes)).snoc haround.part hshows
    rw [afterStep_bind, resumeAll_singleton, h.resume]
    have hnext := hrest (hbefore.own hown) (hrests.setKind h.parts.distinct _) hcurrent'
    simp only [EStateM.bind_apply, modifyOwn_apply, h.advance]
    rw [hlength] at hnext
    exact hnext.moved

/-- The node begins with the rest of the expressions. -/
theorem InTurn.begin (h : InTurn ctx depth s es wrap own advance next frame last) (hes : es = done ++ rest)
    (hdone : b.Showing s done before) (hrests : b.Rests s (wrap (own done.length)))
    (hcurrent : x.cursor.current = ctx.instance?) :
    Matches ctx.env.library s b x
      (restored s.nodeId wrap
        (afterStep (stepAll (Arena.step ctx depth) advance (rest.map Expr.nodeId)) next
          ⟨own done.length, b.setKind s.nodeId .vacant, x⟩))
      (Expr.evaluateAll ctx.env frame last before rest x) := by
  induction rest generalizing done before b x with
  | nil =>
    rw [List.append_nil] at hes
    subst hes
    exact h.next hdone hrests hcurrent
  | cons e rest ih =>
    have hpart := h.parts.part (show e ∈ es by simp [hes])
    rw [Expr.evaluateAll, andThen_apply (h.resume before rest), execute_eval_apply]
    refine h.at hes hdone (hrests.around hpart) (.start (hrests.part hpart)) hcurrent fun hdone hrests hcurrent => ?_
    exact ih (by simp [hes]) hdone hrests hcurrent

/-- The node goes on at one of the expressions, and with those that come after it. -/
theorem InTurn.resumed (h : InTurn ctx depth s es wrap own advance next frame last) (hes : es = done ++ e :: rest)
    (hdone : b.Showing s done before) (haround : b.Around s (wrap (own done.length)) (.eval e))
    (hsuspended : Suspended b (.eval e) frames) (hcurrent : x.cursor.current = ctx.instance?) :
    Matches ctx.env.library s b x
      (restored s.nodeId wrap
        (afterStep (stepAll (Arena.step ctx depth) advance ((e :: rest).map Expr.nodeId)) next
          ⟨own done.length, b.setKind s.nodeId .vacant, x⟩))
      (microStep ctx.env (frames ++ [frame before rest]) x) := by
  rw [microStep_append]
  exact h.at hes hdone haround hsuspended hcurrent fun hdone hrests hcurrent =>
    h.begin (by simp [hes]) hdone hrests hcurrent

end

end StructuredText
