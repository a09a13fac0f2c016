-- SUMMARY: The nodes of statements are stepped as the statements are executed.
import StructuredText.Proofs.TrackedCall
import StructuredText.Proofs.WellFormed

/-!
# Stepped statements

The node of a block keeps the position of the statement that is announced. A branching statement evaluates its conditions
in order, or compares its selector with labels, and then executes the statement that it has chosen: its node keeps which
one that is, or else how many conditions were false. Where the statements have finished, the node is back in its start
state.
-/

namespace StructuredText

open Run Arena Node

variable {ctx : StepContext} {depth : Nat} {l : Library} {info : NodeInfo} {e : Expr} {s : Stmt} {k : Kind}
  {b b' : Arena} {x x' : Execution}

-- ---------------------------------------------------------------------------
-- Parts of statements
-- ---------------------------------------------------------------------------

theorem Stmt.cells_subset_cellsOfAll {statements : List Stmt} (h : s ∈ statements) : s.cells ⊆ cellsOfAll statements := by
  induction statements with
  | nil => cases h
  | cons first rest ih =>
    rw [cellsOfAll]
    rcases List.mem_cons.mp h with rfl | h
    · exact fun cell hcell => List.mem_append_left _ hcell
    · exact fun cell hcell => List.mem_append_right _ (ih h hcell)

theorem Arena.Holds.span (h : b.Holds s) : b.span s.nodeId = s.span := by
  rw [Holds, Stmt.cells_eq] at h
  obtain ⟨n, hn, hforget⟩ := h (s.info.cell s.nodeKind) (List.mem_append_right _ (List.mem_singleton_self _))
  obtain ⟨-, hspan, -⟩ := Node.mk.inj hforget
  rw [Arena.span, Stmt.nodeId, show b.nodes[s.info.id]? = some n from hn]
  exact hspan

/-- The node of a statement without a result is back in its start state. -/
theorem Matches.ended {κ : Type} {wrap : κ → Kind} {n : κ} {a : Evaluated} (hrests : b.Rests s k) (hs : s.ids.Nodup)
    (hplain : s.nodeKind.isPlain = true) (hkind : wrap n = s.nodeKind)
    (hshown : ∀ b : Arena, b.Shown s a) :
    Matches l s b x (restored s.nodeId wrap (.ok .finished ⟨n, b.setKind s.nodeId .vacant, x⟩)) (.ok (.done a) x) :=
  .finish (hrests.setKind hs .vacant) hs (Kind.isLiteral_of_isPlain hplain)
    (by rw [hkind, Kind.forget_of_isPlain hplain]) (sameBut_setKind s.nodeId_mem_ids) (hshown _) (.refl _)

-- ---------------------------------------------------------------------------
-- Blocks
-- ---------------------------------------------------------------------------

section

variable {statements done rest : List Stmt} {position : Nat} {announced : Bool}

/-- The node of a block announces the first of the statements that are left. -/
theorem matches_announce (hsplit : statements = done ++ rest) (hposition : position = done.length)
    (hids : (Stmt.block info statements).ids.Nodup) (hrests : b.Rests (.block info statements) k) :
    Matches l (.block info statements) b x
      (restored (Stmt.block info statements).nodeId .block
        (Block.announce ⟨⟨statements.map Stmt.nodeId, position, announced⟩,
          b.setKind (Stmt.block info statements).nodeId .vacant, x⟩))
      (Stmt.announce rest x) := by
  subst hsplit hposition
  rw [Block.announce, own_bind]
  cases rest with
  | nil =>
    have hget : ((done ++ []).map Stmt.nodeId)[done.length]? = none := by simp
    simp only [hget]
    rw [Block.rewind, modifyOwn_bind]
    exact .ended hrests hids rfl rfl fun _ => trivial
  | cons s rest =>
    have hget : ((done ++ s :: rest).map Stmt.nodeId)[done.length]? = some s.nodeId := by simp
    have hpart : s.Part (.block info (done ++ s :: rest)) := ⟨Stmt.cells_subset_cellsOfAll (by simp), hids⟩
    have hspan := ((hrests.setKind hids .vacant).part hpart).span
    simp only [hget]
    rw [modifyOwn_bind, spanOf_bind, hspan]
    have hwaits := hrests.setKind hids (.block ⟨(done ++ s :: rest).map Stmt.nodeId, done.length, true⟩)
    refine Matches.pause (.within rfl rfl) ?_ (sameBut_setKind (Stmt.nodeId_mem_ids _))
    rw [setKind_setKind]
    exact .rest (hwaits.around hpart) (.start (hwaits.part hpart))

theorem tracks_block (hstatements : ∀ s ∈ statements, Tracks ctx depth s)
    (hids : (Stmt.block info statements).ids.Nodup) : Tracks ctx (depth + 1) (.block info statements) := by
  intro b frames x h hcurrent
  cases h with
  | start h =>
    have hrests : b.Rests _ (.block ⟨statements.map Stmt.nodeId, 0, false⟩) := h.rests_plain rfl
    rw [step_apply hrests.owns, stepKind, moving_apply, microStep_single, Stmt.execute]
    exact matches_announce (List.nil_append _).symm rfl hids hrests
  | @rest _ done s rest frames haround h =>
    have hget : ((done ++ s :: rest).map Stmt.nodeId)[done.length]? = some s.nodeId := by simp
    rw [step_apply haround.owns, stepKind, moving_apply, Block.step, own_bind, microStep_append]
    simp only [hget]
    refine Matches.part (hstatements s (by simp)) hcurrent h haround (fun haround _ h => .rest haround h) ?_
    intro b a x hrests _ _ hcurrent
    rw [modifyOwn_bind, EStateM.get_bind, resumeAll_singleton, resume, Stmt.continueBlock, EStateM.get_bind]
    cases x.cursor.pending with
    | some t =>
      rw [Block.rewind]
      exact .ended hrests hids rfl rfl fun _ => trivial
    | none =>
      exact matches_announce (List.append_cons done s rest) (by simp) hids hrests

end

-- ---------------------------------------------------------------------------
-- Assignments and transfers of control
-- ---------------------------------------------------------------------------

section

variable {target value : Expr}

theorem parts_assign (hids : (Stmt.assign info target value).ids.Nodup) :
    Parts (.assign info target value) [target, value] :=
  ⟨by simp [Expr.cellsOfAll, Stmt.innerCells], hids⟩

/-- The node of an assignment whose target is located assigns the value. -/
theorem matches_assignTo {located source : Evaluated} (hids : (Stmt.assign info target value).ids.Nodup)
    (hrests : b.Rests (.assign info target value) k)
    (hshowing : b.Showing (.assign info target value) [target, value] [located, source]) :
    Matches ctx.env.library (.assign info target value) b x
      (restored (Stmt.assign info target value).nodeId .assign (((do
        modifyOwn (fun n => { n with state := .target })
        let span ← spanOf (Stmt.assign info target value).nodeId
        let found ← asking (·.node target.nodeId)
        match (← get).arena.reference? target.nodeId with
        | none => throw (.internal span "Target of the assignment is not a variable")
        | some reference =>
          match reference.place? with
          | none => throw (.internal span "Target of the assignment was not located")
          | some place => do
            let v ← asking (·.result value.nodeId)
            running (Run.storing span
              (Storage.store ctx.env.library place found.type? found.storage reference.path.text v))
            pure .finished) : Stepper Node.Assign Step)
        ⟨⟨target.nodeId, value.nodeId, .value⟩, b.setKind (Stmt.assign info target value).nodeId .vacant, x⟩))
      (Stmt.assignTo ctx.env ⟨info.span, target, located.place?⟩ source x) := by
  let s : Stmt := .assign info target value
  have hvacant := hrests.setKind hids .vacant
  have hresults := hshowing.own (sameBut_setKind (k := .vacant) (List.mem_singleton_self s.nodeId))
  obtain _ | ⟨⟨hpart, hlocated⟩, _ | ⟨⟨hpart', hsource⟩, _⟩⟩ := hresults
  obtain ⟨_, -, -, hn⟩ := hvacant.read hpart hlocated
  rw [modifyOwn_bind, spanOf_bind, hvacant.span, asking_bind (by rw [Arena.node, hn]), EStateM.get_bind,
    hvacant.reference? hpart hlocated]
  cases target with
  | var info' path indexes =>
    cases hplace : located.place? with
    | none => exact .fail
    | some place =>
      simp only [Expr.reference?]
      rw [asking_bind hsource.result]
      refine .running (Mute.untouched (.storing _ _) x) fun _ x' _ _ => ?_
      refine .finish hvacant hids rfl rfl (sameBut_setKind s.nodeId_mem_ids) ?_ (.refl _)
      have hnot : (Expr.var info' path indexes).nodeId ∉ [s.nodeId] :=
        fun hmem => hpart.nodeId_ne (List.mem_singleton.mp hmem)
      exact (place?_same (sameBut_setKind (List.mem_singleton_self _)) hnot).trans (hlocated.place?.trans hplace)
  | _ => exact .fail

theorem tracks_assign (htarget : Tracks ctx depth (.eval target)) (hvalue : Tracks ctx depth (.eval value))
    (hids : (Stmt.assign info target value).ids.Nodup) : Tracks ctx (depth + 1) (.assign info target value) := by
  let s : Stmt := .assign info target value
  have hparts : Parts s [target, value] := parts_assign hids
  have goValue {b : Arena} {frames : List Frame} {x : Execution} {located : Evaluated}
      (hcurrent : x.cursor.current = ctx.instance?) (hshowing : b.Showing s [target] [located])
      (haround : b.Around s (.assign ⟨target.nodeId, value.nodeId, .value⟩) (.eval value))
      (h : Suspended b (.eval value) frames) :
      Matches ctx.env.library s b x
        (restored s.nodeId .assign (Assign.stepValue ctx (Arena.step ctx depth) s.nodeId
          ⟨⟨target.nodeId, value.nodeId, .value⟩, b.setKind s.nodeId .vacant, x⟩))
        (microStep ctx.env (frames ++ [.value ⟨info.span, target, located.place?⟩]) x) := by
    have hapart := hparts.apart (show [target, value] = [target] ++ value :: [] from rfl)
    rw [Assign.stepValue, own_bind, microStep_append]
    refine Matches.part hvalue hcurrent h haround ?_ ?_
    · exact fun haround hsame h => .value (hshowing.apart hsame hapart) haround h
    · intro b' r x hrests hsame hshows _
      rw [resumeAll_singleton]
      exact matches_assignTo hids hrests ((hshowing.apart hsame hapart).snoc haround.part hshows)
  have goTarget {b : Arena} {frames : List Frame} {x : Execution} (hcurrent : x.cursor.current = ctx.instance?)
      (haround : b.Around s (.assign ⟨target.nodeId, value.nodeId, .target⟩) (.eval target))
      (h : Suspended b (.eval target) frames) :
      Matches ctx.env.library s b x (Arena.step ctx (depth + 1) s.nodeId ⟨(), b, x⟩)
        (microStep ctx.env (frames ++ [.target info target value]) x) := by
    rw [step_apply haround.owns, stepKind, moving_apply, microStep_append, Assign.step, own_bind]
    refine Matches.part htarget hcurrent h haround (fun haround _ h => .target haround h) ?_
    intro b r x hrests _ hshows hcurrent
    rw [modifyOwn_bind, resumeAll_singleton, resume, Stmt.assignValue]
    have hrests' := hrests.setKind hids (.assign ⟨target.nodeId, value.nodeId, .value⟩)
    have hpart : (Stmt.eval value).Part s := hparts.part (by simp)
    refine .starting (fun _ => rfl)
      (Matches.moved (goValue hcurrent ?_ (hrests'.around hpart) (.start (hrests'.part hpart))))
    exact Showing.own (.cons ⟨haround.part, hshows⟩ .nil) (sameBut_setKind (by simp))
  intro b frames x h hcurrent
  cases h with
  | start h =>
    have hrests : b.Rests s (.assign ⟨target.nodeId, value.nodeId, .target⟩) := h.rests_plain rfl
    have hpart : (Stmt.eval target).Part s := hparts.part (by simp)
    rw [microStep_single, Stmt.execute]
    refine .starting (fun _ => rfl) ?_
    exact goTarget hcurrent (hrests.around hpart) (.start (hrests.part hpart))
  | target haround h => exact goTarget hcurrent haround h
  | value hshowing haround h =>
    rw [step_apply haround.owns, stepKind, moving_apply, Assign.step, own_bind]
    exact goValue hcurrent hshowing haround h

/-- The node of an `EXIT` requests it in a loop of the instance. -/
theorem tracks_exit : Tracks ctx (depth + 1) (.exit info) := by
  intro b frames x h hcurrent
  cases h with
  | start h =>
    have hids : (Stmt.exit info).ids.Nodup := by simp [Stmt.ids, Stmt.cells]
    have hrests : b.Rests (.exit info) .exit := h.rests_plain rfl
    rw [step_apply hrests.owns, stepKind, moving_apply, microStep_single, Stmt.execute, stepExit, spanOf_bind,
      (hrests.setKind hids .vacant).span, Stmt.requestExit, EStateM.get_bind, hcurrent]
    cases ctx.instance? with
    | none => exact .fail
    | some i =>
      simp only
      rw [EStateM.get_bind]
      by_cases hloop : (x.cursor.loops.head?.map (·.instance)) = some i
      · rw [if_pos hloop, if_pos hloop]
        refine .running ⟨rfl, rfl, rfl⟩ fun _ x' _ _ => ?_
        exact .ended hrests hids rfl rfl fun _ => trivial
      · rw [if_neg hloop, if_neg hloop]
        exact .fail

theorem tracks_ret : Tracks ctx (depth + 1) (.ret info) := by
  intro b frames x h hcurrent
  cases h with
  | start h =>
    have hids : (Stmt.ret info).ids.Nodup := by simp [Stmt.ids, Stmt.cells]
    have hrests : b.Rests (.ret info) .ret := h.rests_plain rfl
    rw [step_apply hrests.owns, stepKind, moving_apply, microStep_single, Stmt.execute, stepReturn]
    refine .running ⟨rfl, rfl, rfl⟩ fun _ x' _ _ => ?_
    exact .ended hrests hids rfl rfl fun _ => trivial

end

variable {otherwise : Option Stmt}

-- ---------------------------------------------------------------------------
-- Conditions
-- ---------------------------------------------------------------------------

theorem truth_apply {κ : Type} {n : κ} {r : Evaluated} (hrests : b.Rests s k) (hpart : (Stmt.eval e).Part s)
    (hshows : b.Shows e r) : Node.truth e.nodeId ⟨n, b, x⟩ = running (Stmt.truth e r) ⟨n, b, x⟩ := by
  obtain ⟨_, -, -, hn⟩ := hrests.read hpart hshows
  have hspan : b.span e.nodeId = e.span := by
    rw [Arena.span, hn]
    rfl
  rw [Node.truth, asking_bind hshows.result, spanOf_bind, hspan, Stmt.truth, running_ofExcept]

/-- A node goes on with the truth of a condition. -/
theorem Matches.testing {κ : Type} {wrap : κ → Kind} {n : κ} {r : Evaluated} {next : Bool → Stepper κ Step}
    {cont : Bool → Run (Progress Evaluated)} (hs : s.ids.Nodup) (hrests : b.Rests s k) (hpart : (Stmt.eval e).Part s)
    (hshows : b.Shows e r)
    (h : ∀ t, Matches l s b x (restored s.nodeId wrap (next t ⟨n, b.setKind s.nodeId .vacant, x⟩)) (cont t x)) :
    Matches l s b x (restored s.nodeId wrap ((Node.truth e.nodeId >>= next) ⟨n, b.setKind s.nodeId .vacant, x⟩))
      ((Stmt.truth e r >>= cont) x) := by
  have hshows' := hshows.same (sameBut_setKind (k := .vacant) (List.mem_singleton_self s.nodeId))
    (fun hmem => hpart.nodeId_ne (List.mem_singleton.mp hmem))
  rw [EStateM.bind_congr_apply (truth_apply (hrests.setKind hs .vacant) hpart hshows')]
  exact .running (Mute.untouched (.checked _) x) fun t x' ht _ => by
    have hx : x' = x := by
      rw [Stmt.truth, EStateM.ofExcept_apply] at ht
      cases htruth : atSpan e.span r.value.toBool <;> rw [htruth] at ht <;> cases ht
      rfl
    rw [hx]
    exact h t

-- ---------------------------------------------------------------------------
-- Branches
-- ---------------------------------------------------------------------------

section

variable {branches done rest : List (Expr × Stmt)} {condition : Expr}

theorem Stmt.cells_subset_cellsOfBranches (h : (condition, s) ∈ branches) :
    condition.cells ⊆ cellsOfBranches branches ∧ s.cells ⊆ cellsOfBranches branches := by
  induction branches with
  | nil => cases h
  | cons first rest ih =>
    rw [cellsOfBranches]
    rcases List.mem_cons.mp h with rfl | h
    · exact ⟨fun cell hcell => List.mem_append_left _ (List.mem_append_left _ hcell),
        fun cell hcell => List.mem_append_left _ (List.mem_append_right _ hcell)⟩
    · exact ⟨fun cell hcell => List.mem_append_right _ ((ih h).1 hcell),
        fun cell hcell => List.mem_append_right _ ((ih h).2 hcell)⟩

theorem part_of_condition (hids : (Stmt.ifThen info branches otherwise).ids.Nodup) (h : (condition, s) ∈ branches) :
    (Stmt.eval condition).Part (.ifThen info branches otherwise) := by
  refine ⟨fun cell hcell => List.mem_append_left _ ((Stmt.cells_subset_cellsOfBranches h).1 ?_), hids⟩
  rwa [Stmt.cells] at hcell

theorem part_of_branch (hids : (Stmt.ifThen info branches otherwise).ids.Nodup)
    (h : s ∈ branches.map (·.2) ++ otherwise.toList) : s.Part (.ifThen info branches otherwise) := by
  refine ⟨fun cell hcell => ?_, hids⟩
  rcases List.mem_append.mp h with h | h
  · obtain ⟨⟨condition, s⟩, hmem, rfl⟩ := List.mem_map.mp h
    exact List.mem_append_left _ ((Stmt.cells_subset_cellsOfBranches hmem).2 hcell)
  · obtain rfl : otherwise = some s := Option.mem_toList.mp h
    exact List.mem_append_right _ (by rwa [Stmt.cellsOfOption])

/-- The node of a branching statement steps what it has chosen. -/
theorem matches_ifBody {frames : List Frame} (hs : Tracks ctx depth s) (hmem : s ∈ branches.map (·.2) ++ otherwise.toList)
    (hids : (Stmt.ifThen info branches otherwise).ids.Nodup) (hcurrent : x.cursor.current = ctx.instance?)
    (haround : b.Around (.ifThen info branches otherwise)
      (.ifThen { Stmt.ifNode branches otherwise with state := .body s.nodeId }) s)
    (h : Suspended b s frames) :
    Matches ctx.env.library (.ifThen info branches otherwise) b x
      (restored (Stmt.ifThen info branches otherwise).nodeId .ifThen
        (If.stepBody (Arena.step ctx depth) s.nodeId ⟨{ Stmt.ifNode branches otherwise with state := .body s.nodeId },
          b.setKind (Stmt.ifThen info branches otherwise).nodeId .vacant, x⟩))
      (microStep ctx.env frames x) := by
  rw [If.stepBody]
  refine .inside hs hcurrent h haround (fun haround h => .branch hmem haround h) fun hrests _ => ?_
  rw [modifyOwn_bind]
  exact .ended hrests hids rfl rfl fun _ => trivial

/-- The node of a branching statement begins with what it has chosen. -/
theorem matches_ifChosen {state : BranchState} (hs : Tracks ctx depth s) (hmem : s ∈ branches.map (·.2) ++ otherwise.toList)
    (hids : (Stmt.ifThen info branches otherwise).ids.Nodup)
    (hrests : b.Rests (.ifThen info branches otherwise) k) (hcurrent : x.cursor.current = ctx.instance?) :
    Matches ctx.env.library (.ifThen info branches otherwise) b x
      (restored (Stmt.ifThen info branches otherwise).nodeId .ifThen (((do
          modifyOwn (fun n => { n with state := .body s.nodeId })
          If.stepBody (Arena.step ctx depth) s.nodeId) : Stepper Node.If Step)
        ⟨{ Stmt.ifNode branches otherwise with state },
          b.setKind (Stmt.ifThen info branches otherwise).nodeId .vacant, x⟩))
      (s.execute ctx.env x) := by
  have hpart := part_of_branch hids hmem
  have hrests' := hrests.setKind hids (.ifThen { Stmt.ifNode branches otherwise with state := .body s.nodeId })
  rw [modifyOwn_bind, ← microStep_single]
  exact .moved (matches_ifBody hs hmem hids hcurrent (hrests'.around hpart) (.start (hrests'.part hpart)))

section

variable {position : Nat} {frames : List Frame}

/-- The node of a branching statement is at a condition, and goes on with the branch or the other conditions. -/
theorem matches_condition (hcondition : Tracks ctx depth (.eval condition)) (hs : Tracks ctx depth s)
    (hids : (Stmt.ifThen info branches otherwise).ids.Nodup) (hsplit : branches = done ++ (condition, s) :: rest)
    (hposition : position = done.length) (hcurrent : x.cursor.current = ctx.instance?)
    (haround : b.Around (.ifThen info branches otherwise)
      (.ifThen { Stmt.ifNode branches otherwise with state := .condition position }) (.eval condition))
    (h : Suspended b (.eval condition) frames)
    (hrest : ∀ {b x}, b.Rests (.ifThen info branches otherwise)
        (.ifThen { Stmt.ifNode branches otherwise with state := .condition (position + 1) }) →
      x.cursor.current = ctx.instance? → Matches ctx.env.library (.ifThen info branches otherwise) b x
        (restored (Stmt.ifThen info branches otherwise).nodeId .ifThen
          (If.test (Arena.step ctx depth) (position + 1) (rest.map fun (c, s) => (c.nodeId, s.nodeId))
            ⟨{ Stmt.ifNode branches otherwise with state := .condition (position + 1) },
              b.setKind (Stmt.ifThen info branches otherwise).nodeId .vacant, x⟩))
        (Stmt.executeBranches ctx.env otherwise (Stmt.executeOption ctx.env otherwise) rest x)) :
    Matches ctx.env.library (.ifThen info branches otherwise) b x
      (restored (Stmt.ifThen info branches otherwise).nodeId .ifThen
        (If.test (Arena.step ctx depth) position (((condition, s) :: rest).map fun (c, s) => (c.nodeId, s.nodeId))
          ⟨{ Stmt.ifNode branches otherwise with state := .condition position },
            b.setKind (Stmt.ifThen info branches otherwise).nodeId .vacant, x⟩))
      (microStep ctx.env (frames ++ [.condition condition s rest otherwise]) x) := by
  rw [List.map_cons, If.test, microStep_append]
  refine Matches.part hcondition hcurrent h haround ?_ ?_
  · subst hsplit hposition
    exact fun haround _ h => .condition haround h
  · intro b a x hrests _ hshows hcurrent
    rw [resumeAll_singleton, resume]
    refine .testing hids hrests haround.part hshows fun t => ?_
    cases t with
    | true => exact matches_ifChosen hs (by simp [hsplit]) hids hrests hcurrent
    | false =>
      exact Matches.moved (hrest (hrests.setKind hids _) hcurrent)

/-- The node of a branching statement tests the conditions that are left. -/
theorem matches_test (hbranches : ∀ branch ∈ branches, Tracks ctx depth (.eval branch.1) ∧ Tracks ctx depth branch.2)
    (hotherwise : ∀ s ∈ otherwise, Tracks ctx depth s) (hids : (Stmt.ifThen info branches otherwise).ids.Nodup)
    (hsplit : branches = done ++ rest) (hposition : position = done.length)
    (hrests : b.Rests (.ifThen info branches otherwise)
      (.ifThen { Stmt.ifNode branches otherwise with state := .condition position }))
    (hcurrent : x.cursor.current = ctx.instance?) :
    Matches ctx.env.library (.ifThen info branches otherwise) b x
      (restored (Stmt.ifThen info branches otherwise).nodeId .ifThen
        (If.test (Arena.step ctx depth) position (rest.map fun (c, s) => (c.nodeId, s.nodeId))
          ⟨{ Stmt.ifNode branches otherwise with state := .condition position },
            b.setKind (Stmt.ifThen info branches otherwise).nodeId .vacant, x⟩))
      (Stmt.executeBranches ctx.env otherwise (Stmt.executeOption ctx.env otherwise) rest x) := by
  induction rest generalizing done position b x with
  | nil =>
    rw [Stmt.executeBranches, List.map_nil, If.test, own_bind]
    cases otherwise with
    | none =>
      rw [Stmt.executeOption]
      exact .ended hrests hids rfl rfl fun _ => trivial
    | some s =>
      rw [Stmt.executeOption]
      exact matches_ifChosen (hotherwise s rfl) (by simp) hids hrests hcurrent
  | cons first rest ih =>
    obtain ⟨condition, s⟩ := first
    have hmem : (condition, s) ∈ branches := by simp [hsplit]
    obtain ⟨hcondition, hs⟩ := hbranches _ hmem
    have hpart := part_of_condition hids hmem
    rw [Stmt.executeBranches]
    refine .starting (fun _ => rfl) (matches_condition hcondition hs hids hsplit hposition hcurrent (hrests.around hpart)
      (.start (hrests.part hpart)) fun hrests hcurrent => ?_)
    exact ih (hsplit.trans (List.append_cons ..)) (by simp [hposition]) hrests hcurrent

theorem tracks_if (hbranches : ∀ branch ∈ branches, Tracks ctx depth (.eval branch.1) ∧ Tracks ctx depth branch.2)
    (hotherwise : ∀ s ∈ otherwise, Tracks ctx depth s) (hids : (Stmt.ifThen info branches otherwise).ids.Nodup) :
    Tracks ctx (depth + 1) (.ifThen info branches otherwise) := by
  intro b frames x h hcurrent
  cases h with
  | start h =>
    have hrests : b.Rests _ (.ifThen (Stmt.ifNode branches otherwise)) := h.rests_plain rfl
    rw [step_apply hrests.owns, stepKind, moving_apply, If.step, own_bind, microStep_single, Stmt.execute]
    exact matches_test hbranches hotherwise hids (List.nil_append _).symm rfl hrests hcurrent
  | @condition _ done condition s rest _ frames haround h =>
    obtain ⟨hcondition, hs⟩ := hbranches (condition, s) (by simp)
    have hdrop : ((done ++ (condition, s) :: rest).map fun (c, s) => (c.nodeId, s.nodeId)).drop done.length =
        ((condition, s) :: rest).map fun (c, s) => (c.nodeId, s.nodeId) := by
      rw [← List.map_drop, List.drop_left]
    rw [step_apply haround.owns, stepKind, moving_apply, If.step, own_bind]
    simp only [Stmt.ifNode, hdrop]
    refine matches_condition hcondition hs hids rfl rfl hcurrent haround h fun hrests hcurrent => ?_
    exact matches_test hbranches hotherwise hids (List.append_cons ..) (by simp) hrests hcurrent
  | @branch _ _ _ s _ hmem haround h =>
    have hs : Tracks ctx depth s := by
      rcases List.mem_append.mp hmem with hmem | hmem
      · obtain ⟨branch, hbranch, rfl⟩ := List.mem_map.mp hmem
        exact (hbranches branch hbranch).2
      · exact hotherwise s (Option.mem_toList.mp hmem)
    rw [step_apply haround.owns, stepKind, moving_apply, If.step, own_bind]
    exact matches_ifBody hs hmem hids hcurrent haround h

end

end

-- ---------------------------------------------------------------------------
-- Selections
-- ---------------------------------------------------------------------------

section

variable {selector : Expr} {arms : List (List CaseLabel × Stmt)} {labels : List CaseLabel} {r : Evaluated}

theorem Stmt.cells_subset_cellsOfArms (h : (labels, s) ∈ arms) :
    Expr.cellsOfAll (labels.flatMap CaseLabel.exprs) ⊆ cellsOfArms arms ∧ s.cells ⊆ cellsOfArms arms := by
  induction arms with
  | nil => cases h
  | cons first rest ih =>
    rw [cellsOfArms]
    rcases List.mem_cons.mp h with rfl | h
    · exact ⟨fun cell hcell => List.mem_append_left _ (List.mem_append_left _ hcell),
        fun cell hcell => List.mem_append_left _ (List.mem_append_right _ hcell)⟩
    · exact ⟨fun cell hcell => List.mem_append_right _ ((ih h).1 hcell),
        fun cell hcell => List.mem_append_right _ ((ih h).2 hcell)⟩

/-- The arm that is chosen for a value. -/
def Stmt.chosen (span : Span) (v : Value) (otherwise : Option Stmt) :
    List (List CaseLabel × Stmt) → Except Diagnostic (Option Stmt)
  | [] => pure otherwise
  | (labels, s) :: rest => do
    if ← atSpan span (anyMatches v labels) then pure (some s) else chosen span v otherwise rest

theorem executeArms_eq (span : Span) (v : Value) (arms : List (List CaseLabel × Stmt)) :
    Stmt.executeArms ctx.env span v (Stmt.executeOption ctx.env otherwise) arms = (do
      Stmt.executeOption ctx.env (← ofExcept (Stmt.chosen span v otherwise arms))) := by
  induction arms with
  | nil => rw [Stmt.executeArms]; rfl
  | cons first rest ih =>
    obtain ⟨labels, s⟩ := first
    rw [Stmt.executeArms, Stmt.chosen, ih]
    cases atSpan span (Stmt.anyMatches v labels) with
    | error d => rfl
    | ok t =>
      cases t with
      | true =>
        change s.execute ctx.env = Stmt.executeOption ctx.env (some s)
        rw [Stmt.executeOption]
      | false => rfl

theorem Arena.Holds.literal {v : Value} {type : Option Ident} (h : b.Holds (.eval (.literal info v type))) :
    b.result info.id = .ok v := by
  obtain ⟨⟨k, span, type?, storage, result⟩, hn, hforget⟩ :=
    h (info.cell (.literal v)) (by simp [Stmt.cells, Expr.cells, Expr.nodeKind])
  have hkind : k = .literal v := by
    have := congrArg Node.kind hforget
    cases k <;> first | exact this | cases this
  subst hkind
  obtain ⟨-, -, -, -, hresult⟩ := Node.mk.inj hforget
  rw [Arena.result, Arena.node, show b.nodes[info.id]? = _ from hn]
  exact congrArg _ hresult

section

variable {n : Node.Case}

theorem isMatch_apply {label : CaseLabel} (hlabel : label.IsConstant) (hholds : ∀ e ∈ label.exprs, b.Holds (.eval e))
    (hresult : b.result selector.nodeId = .ok r.value) (hspan : b.span selector.nodeId = selector.span) :
    Case.isMatch selector.nodeId label.nodeLabel ⟨n, b, x⟩ =
      running (ofExcept (atSpan selector.span (Stmt.labelMatches r.value label))) ⟨n, b, x⟩ := by
  have constant {e : Expr} (he : e ∈ label.exprs) :
      ∃ info v type, e = .literal info v type ∧ b.result e.nodeId = .ok v := by
    have hliteral := hlabel e he
    have hheld := hholds e he
    cases e with
    | literal info v type => exact ⟨info, v, type, rfl, hheld.literal⟩
    | _ => cases hliteral
  rw [Case.isMatch, asking_bind hresult, spanOf_bind, hspan, running_ofExcept]
  cases label with
  | value e =>
    obtain ⟨info, v, type, rfl, hv⟩ := constant (List.mem_singleton_self e)
    exact asking_bind (s := ⟨n, b, x⟩) hv _
  | range low high =>
    obtain ⟨_, v, _, rfl, hv⟩ := constant (e := low) (by simp [CaseLabel.exprs])
    obtain ⟨_, v', _, rfl, hv'⟩ := constant (e := high) (by simp [CaseLabel.exprs])
    exact (asking_bind (s := ⟨n, b, x⟩) hv _).trans (asking_bind hv' _)

theorem anyMatch_apply {labels : List CaseLabel} (hlabels : ∀ label ∈ labels, label.IsConstant)
    (hholds : ∀ e ∈ labels.flatMap CaseLabel.exprs, b.Holds (.eval e))
    (hresult : b.result selector.nodeId = .ok r.value) (hspan : b.span selector.nodeId = selector.span) :
    Case.anyMatch selector.nodeId (labels.map CaseLabel.nodeLabel) ⟨n, b, x⟩ =
      running (ofExcept (atSpan selector.span (Stmt.anyMatches r.value labels))) ⟨n, b, x⟩ := by
  induction labels with
  | nil => rfl
  | cons label rest ih =>
    obtain ⟨hlabel, hrest⟩ := List.forall_mem_cons.mp hlabels
    rw [List.flatMap_cons, List.forall_mem_append] at hholds
    rw [List.map_cons, Case.anyMatch, EStateM.bind_congr_apply (isMatch_apply hlabel hholds.1 hresult hspan),
      Stmt.anyMatches]
    cases Stmt.labelMatches r.value label with
    | error d => rfl
    | ok t =>
      cases t with
      | true => rfl
      | false => exact ih hrest hholds.2

theorem chosen_bind (otherwise : Option Stmt) (hlabels : ∀ arm ∈ arms, ∀ label ∈ arm.1, label.IsConstant)
    (hholds : ∀ arm ∈ arms, ∀ e ∈ arm.1.flatMap CaseLabel.exprs, b.Holds (.eval e))
    (hresult : b.result selector.nodeId = .ok r.value) (hspan : b.span selector.nodeId = selector.span)
    (next : Option NodeId → Stepper Node.Case Step) :
    (Case.chosen selector.nodeId (otherwise.map Stmt.nodeId)
      (arms.map fun (labels, s) => (labels.map CaseLabel.nodeLabel, s.nodeId)) >>= next) ⟨n, b, x⟩ =
      (ofExcept (Stmt.chosen selector.span r.value otherwise arms) >>= fun s? => next (s?.map Stmt.nodeId))
        ⟨n, b, x⟩ := by
  induction arms with
  | nil => rfl
  | cons arm rest ih =>
    obtain ⟨labels, s⟩ := arm
    obtain ⟨hlabel, hlabels⟩ := List.forall_mem_cons.mp hlabels
    obtain ⟨hhold, hholds⟩ := List.forall_mem_cons.mp hholds
    rw [List.map_cons, Case.chosen, bind_assoc,
      EStateM.bind_congr_apply (anyMatch_apply hlabel hhold hresult hspan), Stmt.chosen]
    cases atSpan selector.span (Stmt.anyMatches r.value labels) with
    | error d => rfl
    | ok t =>
      cases t with
      | true => rfl
      | false => exact ih hlabels hholds

end

variable {frames : List Frame}

theorem part_of_selector (hids : (Stmt.case info selector arms otherwise).ids.Nodup) :
    (Stmt.eval selector).Part (.case info selector arms otherwise) := by
  refine ⟨fun cell hcell => List.mem_append_left _ (List.mem_append_left _ ?_), hids⟩
  rwa [Stmt.cells] at hcell

theorem part_of_arm (hids : (Stmt.case info selector arms otherwise).ids.Nodup)
    (h : s ∈ arms.map (·.2) ++ otherwise.toList) : s.Part (.case info selector arms otherwise) := by
  refine ⟨fun cell hcell => ?_, hids⟩
  rcases List.mem_append.mp h with h | h
  · obtain ⟨⟨labels, s⟩, hmem, rfl⟩ := List.mem_map.mp h
    exact List.mem_append_left _ (List.mem_append_right _ ((Stmt.cells_subset_cellsOfArms hmem).2 hcell))
  · obtain rfl : otherwise = some s := Option.mem_toList.mp h
    exact List.mem_append_right _ (by rwa [Stmt.cellsOfOption])

theorem part_of_label (hids : (Stmt.case info selector arms otherwise).ids.Nodup) (harm : (labels, s) ∈ arms)
    (he : e ∈ labels.flatMap CaseLabel.exprs) : (Stmt.eval e).Part (.case info selector arms otherwise) := by
  refine ⟨fun cell hcell => List.mem_append_left _ (List.mem_append_right _ ?_), hids⟩
  rw [Stmt.cells] at hcell
  exact (Stmt.cells_subset_cellsOfArms harm).1 (cells_subset_cellsOfAll he hcell)

/-- The node of a selection steps the statement of the arm that it has chosen. -/
theorem matches_caseBody (hs : Tracks ctx depth s) (hmem : s ∈ arms.map (·.2) ++ otherwise.toList)
    (hids : (Stmt.case info selector arms otherwise).ids.Nodup) (hcurrent : x.cursor.current = ctx.instance?)
    (haround : b.Around (.case info selector arms otherwise)
      (.case { Stmt.caseNode selector arms otherwise with state := .body s.nodeId }) s)
    (h : Suspended b s frames) :
    Matches ctx.env.library (.case info selector arms otherwise) b x
      (restored (Stmt.case info selector arms otherwise).nodeId .case
        (Case.stepBody (Arena.step ctx depth) s.nodeId
          ⟨{ Stmt.caseNode selector arms otherwise with state := .body s.nodeId },
            b.setKind (Stmt.case info selector arms otherwise).nodeId .vacant, x⟩))
      (microStep ctx.env frames x) := by
  rw [Case.stepBody]
  refine .inside hs hcurrent h haround (fun haround h => .arm hmem haround h) fun hrests _ => ?_
  rw [modifyOwn_bind]
  exact .ended hrests hids rfl rfl fun _ => trivial

theorem mem_of_chosen {span : Span} {v : Value} (h : Stmt.chosen span v otherwise arms = .ok (some s)) :
    s ∈ arms.map (·.2) ++ otherwise.toList := by
  induction arms with
  | nil =>
    obtain rfl : otherwise = some s := Except.ok.inj h
    simp
  | cons arm rest ih =>
    obtain ⟨labels, s'⟩ := arm
    rw [Stmt.chosen] at h
    obtain ⟨t, -, h⟩ := Except.bind_eq_ok.mp h
    cases t with
    | true =>
      obtain rfl : s' = s := Option.some.inj (Except.ok.inj h)
      simp
    | false => exact List.mem_cons_of_mem _ (ih h)

theorem tracks_case (hselector : Tracks ctx depth (.eval selector))
    (harms : ∀ s ∈ arms.map (·.2) ++ otherwise.toList, Tracks ctx depth s)
    (hlabels : ∀ arm ∈ arms, ∀ label ∈ arm.1, label.IsConstant)
    (hids : (Stmt.case info selector arms otherwise).ids.Nodup) :
    Tracks ctx (depth + 1) (.case info selector arms otherwise) := by
  let s : Stmt := .case info selector arms otherwise
  have goSelector {b : Arena} {frames : List Frame} {x : Execution} (hcurrent : x.cursor.current = ctx.instance?)
      (haround : b.Around s (.case (Stmt.caseNode selector arms otherwise)) (.eval selector))
      (h : Suspended b (.eval selector) frames) :
      Matches ctx.env.library s b x (Arena.step ctx (depth + 1) s.nodeId ⟨(), b, x⟩)
        (microStep ctx.env (frames ++ [.selector selector arms otherwise]) x) := by
    rw [step_apply haround.owns, stepKind, moving_apply, microStep_append, Case.step, own_bind]
    refine Matches.part hselector hcurrent h haround (fun haround _ h => .selector haround h) ?_
    intro b r x hrests _ hshows hcurrent
    have hpart : (Stmt.eval selector).Part s := haround.part
    have hvacant := hrests.setKind hids .vacant
    have hresult := (result_setKind b s.nodeId selector.nodeId .vacant).trans hshows.result
    have hholds : ∀ arm ∈ arms, ∀ e ∈ arm.1.flatMap CaseLabel.exprs, (b.setKind s.nodeId .vacant).Holds (.eval e) :=
      fun _ harm _ he => hvacant.part (part_of_label hids harm he)
    rw [resumeAll_singleton, resume, executeArms_eq]
    have hchosen := chosen_bind (n := Stmt.caseNode selector arms otherwise) (x := x) otherwise hlabels hholds hresult
      (hvacant.part hpart).span
    refine (congrArg (fun result => Matches _ s b x (restored s.nodeId .case result) _) (hchosen _)).mpr ?_
    refine .checking fun chosen? hchosen => ?_
    cases chosen? with
    | none =>
      rw [Stmt.executeOption]
      exact .ended hrests hids rfl rfl fun _ => trivial
    | some c =>
      have hmem := mem_of_chosen hchosen
      have hpart := part_of_arm hids hmem
      have hrests' := hrests.setKind hids (.case { Stmt.caseNode selector arms otherwise with state := .body c.nodeId })
      rw [Stmt.executeOption, ← microStep_single]
      exact .moved
        (matches_caseBody (harms c hmem) hmem hids hcurrent (hrests'.around hpart) (.start (hrests'.part hpart)))
  intro b frames x h hcurrent
  cases h with
  | start h =>
    have hrests : b.Rests s (.case (Stmt.caseNode selector arms otherwise)) := h.rests_plain rfl
    have hpart : (Stmt.eval selector).Part s := part_of_selector hids
    rw [microStep_single, Stmt.execute]
    refine .starting (fun _ => rfl) ?_
    exact goSelector hcurrent (hrests.around hpart) (.start (hrests.part hpart))
  | selector haround h => exact goSelector hcurrent haround h
  | arm hmem haround h =>
    rw [step_apply haround.owns, stepKind, moving_apply, Case.step, own_bind]
    exact matches_caseBody (harms _ hmem) hmem hids hcurrent haround h

end

end StructuredText
