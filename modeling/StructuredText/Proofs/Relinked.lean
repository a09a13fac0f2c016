-- SUMMARY: Linking the names of a body again changes nothing, but reports the references that became literals.
import StructuredText.Proofs.Coercion
import StructuredText.Proofs.Parsed

/-!
# Linking a body again

A body that is linked already can be linked again with the same pools. What its names stand for stays as it is, and so
does the body. A reference to an enumerated value is a literal by then, which is reported as an error of the interpreter
when the reference is bound again. All else is reported as it was the first time.
-/

namespace StructuredText

namespace Head

/-- A reference, which has no indexes if it is a single name without any. -/
def IsReference : Head → Prop
  | .var _ path indexes => path.isSimple = true → indexes = 0
  | _ => False

theorem IsVar.isReference {h : Head} (hvar : h.IsVar) (hfresh : h.Fresh) : h.IsReference := by
  cases h with
  | var info path indexes => exact hfresh.2.2.2.2
  | literal | operator | call => cases hvar

theorem replace_self {heads : List Head} {h : Head} (hd : Distinct heads) (hh : h ∈ heads) :
    replace h.id h heads = heads := by
  refine (List.map_congr_left fun other hother => ?_).trans (List.map_id heads)
  split
  · next hid => exact hd.eq_of_id hh hother hid.symm
  · rfl

end Head

-- ---------------------------------------------------------------------------
-- Nodes that stay
-- ---------------------------------------------------------------------------

namespace Expr

variable {id : NodeId} {node : Expr} {roots : List Expr}

theorem map_setNode_self (hd : Head.Distinct (headsOfAll roots)) (hnode : nodeOfAll? id roots = some node)
    (h : ∀ root ∈ roots, Head.Distinct root.heads → root.node? id = some node → setNode id node root = root) :
    roots.map (setNode id node) = roots := by
  induction roots with
  | nil => rfl
  | cons root roots ih =>
    rw [headsOfAll_cons] at hd
    rw [List.map_cons]
    obtain hnode | ⟨-, hnode⟩ := nodeOfAll?_eq_some.mp hnode
    · obtain ⟨hhead, rfl⟩ := head_of_node? root hnode
      rw [h root List.mem_cons_self hd.left hnode, map_setNode_of_absent fun h hh heq =>
        hd.ne hhead hh ((id_head node).trans heq.symm)]
    · obtain ⟨root', hroot', hfound⟩ := exists_of_nodeOfAll? hnode
      obtain ⟨hhead, rfl⟩ := head_of_node? root' hfound
      rw [ih hd.right hnode fun root hroot => h root (List.mem_cons_of_mem _ hroot),
        setNode_of_absent root fun h hh heq =>
          hd.ne hh (mem_headsOfAll.mpr ⟨root', hroot', hhead⟩) (heq.trans (id_head node).symm)]

/-- A node that is replaced by itself. -/
theorem setNode_self (root : Expr) :
    Head.Distinct root.heads → root.node? id = some node → setNode id node root = root := by
  refine forall_of_parts (P := fun root => Head.Distinct root.heads → root.node? id = some node →
    setNode id node root = root) (fun root ih hd hnode => ?_) root
  rw [heads_eq] at hd
  rw [node?_eq] at hnode
  rw [setNode_eq]
  split at hnode
  · next hid =>
    cases hnode
    exact if_pos hid
  · next hid =>
    rw [if_neg hid]
    have hsame := map_setNode_self hd.left hnode ih
    exact withParts_eq_self (List.map_inj_left.mp (hsame.trans (List.map_id _).symm))

end Expr

variable {m : Type → Type} [Monad m] [LawfulMonad m] {f : Expr → m Expr}

theorem CaseLabel.mapExprsM_pure (label : CaseLabel) (h : ∀ e ∈ label.exprs, f e = pure e) :
    label.mapExprsM f = pure label := by
  cases label with
  | value e => simp [mapExprsM, h e (by simp [exprs])]
  | range low high => simp [mapExprsM, h low (by simp [exprs]), h high (by simp [exprs])]

theorem List.mapM_pure_of_forall {α : Type} {g : α → m α} {as : List α} (h : ∀ a ∈ as, g a = pure a) :
    as.mapM g = pure as := by
  induction as with
  | nil => simp
  | cons a as ih =>
    obtain ⟨hfirst, hrest⟩ := List.forall_mem_cons.mp h
    simp [hfirst, ih hrest]

namespace Stmt

theorem mapLabelsM_pure (arms : List (List CaseLabel × Stmt)) (h : ∀ e ∈ exprsOfArms arms, f e = pure e) :
    (arms.mapM fun (labels, _) => labels.mapM (CaseLabel.mapExprsM f)) = pure (arms.map (·.1)) := by
  induction arms with
  | nil => simp
  | cons arm arms ih =>
    simp only [exprsOfArms, List.forall_mem_append, List.mem_flatMap] at h
    have hlabels : arm.1.mapM (CaseLabel.mapExprsM f) = pure arm.1 :=
      List.mapM_pure_of_forall fun label hlabel =>
        label.mapExprsM_pure fun e he => h.1.1 e ⟨label, hlabel, he⟩
    simp [hlabels, ih h.2]

mutual

/-- A statement whose expressions are replaced by themselves. -/
theorem mapExprsM_pure : (s : Stmt) → (∀ e ∈ s.exprs, f e = pure e) → s.mapExprsM f = pure s
  | .eval e, h => by
    simp [mapExprsM, h e (by simp [exprs])]
  | .assign info target value, h => by
    simp [mapExprsM, h target (by simp [exprs]), h value (by simp [exprs])]
  | .block info statements, h => by
    simp [mapExprsM, mapAllM_pure statements (by simpa only [exprs] using h)]
  | .ifThen info branches none, h => by
    simp only [exprs, List.append_nil] at h
    simp [mapExprsM, mapBranchesM_pure branches h]
  | .ifThen info branches (some s), h => by
    rw [exprs, List.forall_mem_append] at h
    simp [mapExprsM, mapBranchesM_pure branches h.1, mapExprsM_pure s h.2]
  | .case info selector arms none, h => by
    simp only [exprs, List.append_nil] at h
    obtain ⟨hselector, harms⟩ := List.forall_mem_cons.mp h
    simp [mapExprsM, hselector, mapLabelsM_pure arms harms, mapArmsM_pure arms harms]
  | .case info selector arms (some s), h => by
    rw [exprs, List.forall_mem_append, List.forall_mem_cons] at h
    simp [mapExprsM, h.1.1, mapLabelsM_pure arms h.1.2, mapArmsM_pure arms h.1.2, mapExprsM_pure s h.2]
  | .forLoop info control start stop none body, h => by
    rw [exprs, List.forall_mem_append] at h
    obtain ⟨hbounds, hbody⟩ := h
    simp [mapExprsM, hbounds control, hbounds start, hbounds stop, mapExprsM_pure body hbody]
  | .forLoop info control start stop (some step) body, h => by
    rw [exprs, List.forall_mem_append, List.forall_mem_append] at h
    obtain ⟨⟨hbounds, hstep⟩, hbody⟩ := h
    simp [mapExprsM, hbounds control, hbounds start, hbounds stop, hstep step (by simp), mapExprsM_pure body hbody]
  | .whileLoop info condition body, h => by
    rw [exprs, List.forall_mem_cons] at h
    simp [mapExprsM, h.1, mapExprsM_pure body h.2]
  | .repeatLoop info body condition, h => by
    rw [exprs, List.forall_mem_append, List.forall_mem_singleton] at h
    simp [mapExprsM, mapExprsM_pure body h.1, h.2]
  | .exit info, _ => by simp [mapExprsM]
  | .ret info, _ => by simp [mapExprsM]

theorem mapAllM_pure : (ss : List Stmt) → (∀ e ∈ exprsOfAll ss, f e = pure e) → mapAllM f ss = pure ss
  | [], _ => by simp [mapAllM]
  | s :: ss, h => by
    rw [exprsOfAll, List.forall_mem_append] at h
    simp [mapAllM, mapExprsM_pure s h.1, mapAllM_pure ss h.2]

theorem mapBranchesM_pure : (bs : List (Expr × Stmt)) → (∀ e ∈ exprsOfBranches bs, f e = pure e) →
    mapBranchesM f bs = pure bs
  | [], _ => by simp [mapBranchesM]
  | (condition, s) :: bs, h => by
    rw [exprsOfBranches, List.forall_mem_append, List.forall_mem_cons] at h
    simp [mapBranchesM, h.1.1, mapExprsM_pure s h.1.2, mapBranchesM_pure bs h.2]

theorem mapArmsM_pure : (arms : List (List CaseLabel × Stmt)) → (∀ e ∈ exprsOfArms arms, f e = pure e) →
    mapArmsM f (arms.map (·.1)) arms = pure arms
  | [], _ => by simp [mapArmsM]
  | (labels, s) :: arms, h => by
    rw [exprsOfArms, List.forall_mem_append, List.forall_mem_append] at h
    simp [mapArmsM, mapExprsM_pure s h.1.2, mapArmsM_pure arms h.2]

end

/-- A node that is replaced by itself. -/
theorem setExprNode_self {s : Stmt} {id : NodeId} {node : Expr} (hd : Head.Distinct s.heads)
    (hnode : s.exprNode? id = some node) : s.setExprNode id node = s := by
  have hsame := Expr.map_setNode_self hd hnode fun root _ => Expr.setNode_self root
  have hexprs : ∀ root ∈ s.exprs, Expr.setNode id node root = root :=
    List.map_inj_left.mp (hsame.trans (List.map_id _).symm)
  exact mapExprsM_pure (m := Id) s hexprs

end Stmt

namespace Link

-- ---------------------------------------------------------------------------
-- Binding nodes once
-- ---------------------------------------------------------------------------

section

variable {σ : Type} {target : Head → Prop}
  {bind : Reference NodeId → Option σ → Stmt → Option Diagnostic × Stmt}
  {act : Reference NodeId → Option σ → Head → Option Diagnostic × Head}

/-- Binding a node goes by its head and replaces that head only. -/
structure ActsOn (target : Head → Prop) (bind : Reference NodeId → Option σ → Stmt → Option Diagnostic × Stmt)
    (act : Reference NodeId → Option σ → Head → Option Diagnostic × Head) : Prop where
  id : ∀ r found h, (act r found h).2.id = h.id
  acts : ∀ {r found body node}, Head.Distinct body.heads → body.exprNode? r.referrer = some node → target node.head →
    (bind r found body).1 = (act r found node.head).1 ∧
      (bind r found body).2.heads = Head.replace r.referrer (act r found node.head).2 body.heads

/-- The references are to nodes of their own, of which something holds. -/
structure Aimed (target : Head → Prop) (tasks : List (Reference NodeId × Option σ)) (body : Stmt) : Prop where
  distinct : Head.Distinct body.heads
  referrers : (tasks.map (·.1.referrer)).Nodup
  targets : ∀ task ∈ tasks, ∃ h ∈ body.heads, h.id = task.1.referrer ∧ target h

/-- What the references have made of the nodes of a body. -/
structure Done (act : Reference NodeId → Option σ → Head → Option Diagnostic × Head)
    (tasks : List (Reference NodeId × Option σ)) (body body' : Stmt) : Prop where
  distinct : Head.Distinct body'.heads
  bound : ∀ task ∈ tasks, ∀ h ∈ body.heads, h.id = task.1.referrer → (act task.1 task.2 h).2 ∈ body'.heads
  other : ∀ h ∈ body.heads, h.id ∉ tasks.map (·.1.referrer) → h ∈ body'.heads

variable {tasks : List (Reference NodeId × Option σ)} {task : Reference NodeId × Option σ} {body : Stmt}

/-- The diagnostic of a reference goes by the head of its node. -/
theorem ActsOn.diagnostic (hacts : ActsOn target bind act) (task : Reference NodeId × Option σ)
    (hd : Head.Distinct body.heads) {h : Head} (hh : h ∈ body.heads) (hid : h.id = task.1.referrer)
    (htarget : target h) :
    (bind task.1 task.2 body).1 = (act task.1 task.2 h).1 := by
  obtain ⟨node, hnode, rfl⟩ := Stmt.exists_exprNode? hd hh
  exact (hacts.acts hd (hid ▸ hnode) htarget).1

/-- One more node is bound, and the others are as they were. -/
theorem ActsOn.step (hacts : ActsOn target bind act) (h : Aimed target (task :: tasks) body) :
    Aimed target tasks (bind task.1 task.2 body).2 ∧
      ∃ head ∈ body.heads, head.id = task.1.referrer ∧ target head ∧
        (bind task.1 task.2 body).2.heads = Head.replace task.1.referrer (act task.1 task.2 head).2 body.heads := by
  obtain ⟨⟨head, hhead, hid, htarget⟩, htargets⟩ := List.forall_mem_cons.mp h.targets
  obtain ⟨hnew, hreferrers⟩ := List.nodup_cons.mp h.referrers
  obtain ⟨node, hnode, rfl⟩ := Stmt.exists_exprNode? h.distinct hhead
  have hheads : (bind task.1 task.2 body).2.heads =
      Head.replace task.1.referrer (act task.1 task.2 node.head).2 body.heads :=
    (hacts.acts h.distinct (hid ▸ hnode) htarget).2
  refine ⟨⟨?_, hreferrers, fun other hother => ?_⟩, node.head, hhead, hid, htarget, hheads⟩
  · rw [hheads]
    exact h.distinct.replaced ((hacts.id _ _ _).trans hid)
  · obtain ⟨h', hh', hid', htarget'⟩ := htargets other hother
    refine ⟨h', ?_, hid', htarget'⟩
    rw [hheads]
    refine List.mem_map.mpr ⟨h', hh', if_neg fun heq => hnew ?_⟩
    exact List.mem_map.mpr ⟨other, hother, hid'.symm.trans heq⟩

/-- Each reference is bound by itself. -/
theorem ActsOn.visit (hacts : ActsOn target bind act) (h : Aimed target tasks body) :
    (RefPool.visit (fun task => bind task.1 task.2) tasks body).1 =
        tasks.filterMap (fun task => (bind task.1 task.2 body).1) ∧
      Done act tasks body (RefPool.visit (fun task => bind task.1 task.2) tasks body).2 := by
  induction tasks generalizing body with
  | nil => exact ⟨rfl, h.distinct, by simp, fun _ hh _ => hh⟩
  | cons task tasks ih =>
    obtain ⟨haimed, head, hhead, hid, htarget, hheads⟩ := hacts.step h
    obtain ⟨hds, hdone⟩ := ih haimed
    have hkept {h : Head} (hh : h ∈ body.heads) (hne : h.id ≠ task.1.referrer) :
        h ∈ (bind task.1 task.2 body).2.heads := by
      rw [hheads]
      exact List.mem_map.mpr ⟨h, hh, if_neg hne⟩
    obtain ⟨hnew, -⟩ := List.nodup_cons.mp h.referrers
    have hother {other : Reference NodeId × Option σ} (hmem : other ∈ tasks) : other.1.referrer ≠ task.1.referrer :=
      fun heq => hnew (List.mem_map.mpr ⟨other, hmem, heq⟩)
    refine ⟨?_, hdone.distinct, List.forall_mem_cons.mpr ⟨fun h' hh' hid' => ?_, fun other hmem h' hh' hid' => ?_⟩, ?_⟩
    · have hcons : (RefPool.visit (fun task => bind task.1 task.2) (task :: tasks) body).1 =
          (bind task.1 task.2 body).1.toList ++
            (RefPool.visit (fun task => bind task.1 task.2) tasks (bind task.1 task.2 body).2).1 := rfl
      have hrest : tasks.filterMap (fun other => (bind other.1 other.2 (bind task.1 task.2 body).2).1) =
          tasks.filterMap fun other => (bind other.1 other.2 body).1 := by
        refine List.filterMap_congr fun other hmem => ?_
        obtain ⟨h', hh', hid', htarget'⟩ := h.targets other (List.mem_cons_of_mem task hmem)
        rw [hacts.diagnostic other h.distinct hh' hid' htarget',
          hacts.diagnostic other haimed.distinct (hkept hh' (hid' ▸ hother hmem)) hid' htarget']
      rw [hcons, hds, hrest, List.filterMap_cons]
      cases (bind task.1 task.2 body).1 <;> rfl
    · obtain rfl := h.distinct.eq_of_id hh' hhead (hid'.trans hid.symm)
      refine hdone.other _ ?_ (by rwa [hacts.id, hid])
      rw [hheads]
      exact List.mem_map.mpr ⟨h', hh', if_pos hid⟩
    · exact hdone.bound other hmem h' (hkept hh' (hid' ▸ hother hmem)) hid'
    · intro h' hh' hne
      rw [List.map_cons, List.mem_cons, not_or] at hne
      exact hdone.other h' (hkept hh' hne.1) hne.2

/-- References that change nothing when they are bound to a body. -/
theorem visit_fixed {report : Reference NodeId × Option σ → Option Diagnostic}
    (h : ∀ task ∈ tasks, bind task.1 task.2 body = (report task, body)) :
    RefPool.visit (fun task => bind task.1 task.2) tasks body = (tasks.filterMap report, body) := by
  induction tasks with
  | nil => rfl
  | cons task tasks ih =>
    obtain ⟨hfirst, hrest⟩ := List.forall_mem_cons.mp h
    rw [RefPool.visit, hfirst, List.filterMap_cons]
    dsimp only
    rw [ih hrest]
    cases report task <;> rfl

end

-- ---------------------------------------------------------------------------
-- References
-- ---------------------------------------------------------------------------

variable {r : Reference NodeId} {body body' : Stmt}

/-- What a reference makes of the head of its node. -/
def bindHead (r : Reference NodeId) (found : Option Symbol) (h : Head) : Option Diagnostic × Head :=
  match found, h with
  | none, h => (some (notDeclared r), h)
  | some (.root root), .var info path indexes => (none, .var info { path with root := some root } indexes)
  | some (.enumerated type), .var info path indexes =>
    match path.isSimple, path.segments.head? with
    | true, some first =>
      (none, .literal { info with type? := some type, storage := { constant := true } } (.enumeration first.name))
    | _, _ => (some (notDeclared r), .var info path indexes)
  | some _, h => (some (.internal r.span "Variable reference is not a variable node"), h)

theorem acts_bindVariable : ActsOn Head.IsReference bindVariable bindHead where
  id r found h := by
    unfold bindHead
    split <;> try rfl
    split <;> rfl
  acts := by
    intro r found body node hd hnode htarget
    cases node with
    | literal | unary | binary | call => cases htarget
    | var info path indexes =>
      obtain ⟨hhead, hid⟩ := Stmt.head_of_exprNode? hnode
      have hsame : Head.replace r.referrer (.var info path indexes.length) body.heads = body.heads := by
        have hself := Head.replace_self hd hhead
        rwa [Expr.id_head, hid] at hself
      cases found with
      | none => exact ⟨rfl, hsame.symm⟩
      | some symbol =>
        cases symbol with
        | root root =>
          rw [bindVariable, hnode]
          exact ⟨rfl, Stmt.heads_setExprNode hd hnode rfl⟩
        | enumerated type =>
          simp only [bindVariable, hnode, bindNode, bindHead, Expr.head]
          cases hpath : path.isSimple with
          | false => exact ⟨rfl, hsame.symm⟩
          | true =>
            cases path.segments.head? with
            | none => exact ⟨rfl, hsame.symm⟩
            | some first =>
              have hparts : indexes = [] := List.eq_nil_of_length_eq_zero (htarget hpath)
              exact ⟨rfl, Stmt.heads_setExprNode hd hnode hparts.symm⟩

theorem bindHead_literal (r : Reference NodeId) (type : TypeId) (info : NodeInfo) {path : VarPath} (indexes : Nat)
    (hsimple : path.isSimple = true) (hsegments : path.segments ≠ []) :
    bindHead r (some (.enumerated type)) (.var info path indexes) =
      (none, .literal { info with type? := some type, storage := { constant := true } }
        (.enumeration (path.segments.head hsegments).name)) := by
  simp only [bindHead, hsimple, List.head?_eq_some_head hsegments]

theorem bindHead_refused (r : Reference NodeId) (type : TypeId) (info : NodeInfo) {path : VarPath} (indexes : Nat)
    (h : ¬ (path.isSimple = true ∧ path.segments ≠ [])) :
    bindHead r (some (.enumerated type)) (.var info path indexes) = (some (notDeclared r), .var info path indexes) := by
  simp only [bindHead]
  split
  · next hsimple hfirst => exact absurd ⟨hsimple, fun hnil => by rw [hnil] at hfirst; cases hfirst⟩ h
  · rfl

theorem bindNode_refused (r : Reference NodeId) (type : TypeId) (info : NodeInfo) {path : VarPath} (indexes : List Expr)
    (h : ¬ (path.isSimple = true ∧ path.segments ≠ [])) :
    bindNode r (.enumerated type) (some (.var info path indexes)) = .error (notDeclared r) := by
  simp only [bindNode]
  split
  · next hsimple hfirst => exact absurd ⟨hsimple, fun hnil => by rw [hnil] at hfirst; cases hfirst⟩ h
  · rfl

/-- The reference is to an enumerated value, and its node becomes a literal. -/
def becomesLiteral (body : Stmt) (task : Reference NodeId × Option Symbol) : Bool :=
  match task.2 with
  | some (.enumerated _) => (bindVariable task.1 task.2 body).1.isNone
  | _ => false

/-- A reference that is bound again changes nothing. It is reported as it was, unless its node has become a literal. -/
theorem bindVariable_again {task : Reference NodeId × Option Symbol} {h : Head} (hd : Head.Distinct body.heads)
    (hh : h ∈ body.heads) (hid : h.id = task.1.referrer) (htarget : h.IsReference) (hd' : Head.Distinct body'.heads)
    (hbound : (bindHead task.1 task.2 h).2 ∈ body'.heads) :
    bindVariable task.1 task.2 body' =
      (if becomesLiteral body task then
        some (.internal task.1.span "Variable reference is not a variable node")
      else (bindVariable task.1 task.2 body).1, body') := by
  obtain ⟨r, found⟩ := task
  have hfirst := acts_bindVariable.diagnostic (r, found) hd hh hid htarget
  obtain ⟨node, hnode, hhead⟩ := Stmt.exists_exprNode? hd' hbound
  rw [acts_bindVariable.id, hid] at hnode
  unfold becomesLiteral
  rw [hfirst]
  cases h with
  | literal | operator | call => cases htarget
  | var info path indexes =>
    cases found with
    | none => rfl
    | some symbol =>
      cases symbol with
      | root root =>
        cases node with
        | literal | unary | binary | call => cases hhead
        | var info' path' indexes' =>
          cases hhead
          rw [bindVariable, hnode]
          exact congrArg (none, ·) (Stmt.setExprNode_self hd' hnode)
      | enumerated type =>
        by_cases hliteral : path.isSimple = true ∧ path.segments ≠ []
        · have hact := bindHead_literal r type info indexes hliteral.1 hliteral.2
          rw [hact] at hhead ⊢
          cases node with
          | literal =>
            simp only [bindVariable, hnode, bindNode]
            rfl
          | var | unary | binary | call => cases hhead
        · have hact := bindHead_refused r type info indexes hliteral
          rw [hact] at hhead ⊢
          cases node with
          | literal | unary | binary | call => cases hhead
          | var info' path' indexes' =>
            cases hhead
            rw [bindVariable, hnode]
            simp only [bindNode_refused r type info indexes' hliteral]
            rfl

/-- The diagnostics of references that are bound again. -/
def reportedAgain (body : Stmt) (task : Reference NodeId × Option Symbol) : Option Diagnostic :=
  if becomesLiteral body task then some (.internal task.1.span "Variable reference is not a variable node")
  else (bindVariable task.1 task.2 body).1

/-- There is one more report for each node that becomes a literal. -/
theorem length_reportedAgain (tasks : List (Reference NodeId × Option Symbol)) :
    (tasks.filterMap (reportedAgain body)).length =
      (tasks.filterMap fun task => (bindVariable task.1 task.2 body).1).length +
        tasks.countP (becomesLiteral body) := by
  induction tasks with
  | nil => rfl
  | cons task tasks ih =>
    rw [List.filterMap_cons, List.filterMap_cons, List.countP_cons, reportedAgain]
    cases hliteral : becomesLiteral body task with
    | true =>
      have hnone : (bindVariable task.1 task.2 body).1 = none := by
        unfold becomesLiteral at hliteral
        split at hliteral
        · exact Option.isNone_iff_eq_none.mp hliteral
        · cases hliteral
      simp [hnone, ih]
      omega
    | false =>
      cases (bindVariable task.1 task.2 body).1 with
      | none => simpa using ih
      | some d => simp [ih]; omega

-- ---------------------------------------------------------------------------
-- Calls
-- ---------------------------------------------------------------------------

/-- What a call makes of the head of its node. -/
def bindCallHead (r : Reference NodeId) (found : Option Callee) (h : Head) : Option Diagnostic × Head :=
  match found, h with
  | none, h =>
    (some (.of .unresolvedFunction r.span s!"{r.text} is not a function or function block instance"), h)
  | some callee, .call info _ bindings => (none, .call info (some callee) bindings)
  | some _, h => (some (.internal r.span "Call reference is not a call node"), h)

theorem acts_bindCall : ActsOn Head.IsCall bindCall bindCallHead where
  id r found h := by
    unfold bindCallHead
    split <;> rfl
  acts := by
    intro r found body node hd hnode htarget
    cases node with
    | literal | unary | binary | var => cases htarget
    | call info name labels args old bindings =>
      cases found with
      | none =>
        obtain ⟨hhead, hid⟩ := Stmt.head_of_exprNode? hnode
        have hself := Head.replace_self hd hhead
        rw [Expr.id_head, hid] at hself
        exact ⟨rfl, hself.symm⟩
      | some callee =>
        simp only [bindCall, hnode]
        exact ⟨rfl, Stmt.heads_setExprNode hd hnode rfl⟩

/-- A call that is bound again changes nothing and is reported as it was. -/
theorem bindCall_again {task : Reference NodeId × Option Callee} {h : Head} (hd : Head.Distinct body.heads)
    (hh : h ∈ body.heads) (hid : h.id = task.1.referrer) (htarget : h.IsCall) (hd' : Head.Distinct body'.heads)
    (hbound : (bindCallHead task.1 task.2 h).2 ∈ body'.heads) :
    bindCall task.1 task.2 body' = ((bindCall task.1 task.2 body).1, body') := by
  obtain ⟨r, found⟩ := task
  have hfirst := acts_bindCall.diagnostic (r, found) hd hh hid htarget
  obtain ⟨node, hnode, hhead⟩ := Stmt.exists_exprNode? hd' hbound
  rw [acts_bindCall.id, hid] at hnode
  rw [hfirst]
  cases h with
  | literal | operator | var => cases htarget
  | call info old bindings =>
    cases found with
    | none => rfl
    | some callee =>
      cases node with
      | literal | unary | binary | var => cases hhead
      | call info' name labels args callee' bindings' =>
        cases hhead
        simp only [bindCall, hnode]
        exact congrArg (none, ·) (Stmt.setExprNode_self hd' hnode)

-- ---------------------------------------------------------------------------
-- Bodies
-- ---------------------------------------------------------------------------

section

variable (l : Library) (pou : Option Pou)

/-- The references of a body with what they stand for. -/
def references (body : Stmt) : List (Reference NodeId × Option Symbol) :=
  body.pools.vars.lookups (l.symbol? pou)

/-- The calls of a body with what they stand for. -/
def callees (body : Stmt) : List (Reference NodeId × Option Callee) := body.pools.calls.lookups (l.callee? pou)

/-- Links the names in the current form of a body, whose pools are those of the body as it was written. -/
def linkNames (written current : Stmt) : List Diagnostic × List Diagnostic × Stmt :=
  let (ds, current) := linkVariables l pou written.pools.vars current
  let (ds', current) := linkCalls l pou written.pools.calls current
  (ds, ds', current)

theorem linkVariables_eq_visit (written current : Stmt) : linkVariables l pou written.pools.vars current =
    RefPool.visit (fun task => bindVariable task.1 task.2) (references l pou written) current := by
  rw [linkVariables, lookUpVariables, RefPool.resolve_reset, RefPool.trigger_unchecked]
  rfl

theorem linkCalls_eq_visit (written current : Stmt) : linkCalls l pou written.pools.calls current =
    RefPool.visit (fun task => bindCall task.1 task.2) (callees l pou written) current := by
  rw [linkCalls, lookUpCalls, RefPool.resolve_reset, RefPool.trigger_unchecked]
  rfl

variable {l pou}

theorem aimed_references (hbody : Body.IsFresh body) : Aimed Head.IsReference (references l pou body) body := by
  obtain ⟨hd, hfresh⟩ := hbody
  obtain ⟨hreferrers, htargets, -⟩ := collected_tasks (@collects_variables default []) (l.symbol? pou) hd
  rw [← Stmt.pools_vars] at hreferrers htargets
  refine ⟨hd, hreferrers, fun task htask => ?_⟩
  obtain ⟨h, hh, hid, hvar⟩ := htargets task htask
  exact ⟨h, hh, hid, hvar.isReference (hfresh h hh)⟩

theorem aimed_callees (hbody : Body.IsFresh body) : Aimed Head.IsCall (callees l pou body) body := by
  obtain ⟨hreferrers, htargets, -⟩ := collected_tasks (@collects_calls default []) (l.callee? pou) hbody.1
  rw [← Stmt.pools_calls] at hreferrers htargets
  exact ⟨hbody.1, hreferrers, htargets⟩

variable {l' : Library} {pou' : Option Pou}

/-- Calls and references have nodes of their own, so neither touches what the other ones have bound. -/
theorem references_apart (hbody : Body.IsFresh body) :
    ∀ task ∈ references l pou body, ∀ call ∈ callees l' pou' body, task.1.referrer ≠ call.1.referrer := by
  intro task htask call hcall heq
  obtain ⟨h, hh, hid, htarget⟩ := (aimed_references hbody).targets task htask
  obtain ⟨h', hh', hid', htarget'⟩ := (aimed_callees hbody).targets call hcall
  obtain rfl := hbody.1.eq_of_id hh hh' ((hid.trans heq).trans hid'.symm)
  cases h with
  | var => exact htarget'
  | literal | operator | call => exact htarget

/-- The calls are still there once the references are bound. -/
theorem Done.aimed_callees (hdone : Done bindHead (references l pou body) body body') (hbody : Body.IsFresh body) :
    Aimed Head.IsCall (callees l' pou' body) body' := by
  have haimed : Aimed Head.IsCall (callees l' pou' body) body := Link.aimed_callees hbody
  refine ⟨hdone.distinct, haimed.referrers, fun call hcall => ?_⟩
  obtain ⟨h, hh, hid, htarget⟩ := haimed.targets call hcall
  refine ⟨h, hdone.other h hh fun hmem => ?_, hid, htarget⟩
  obtain ⟨task, htask, heq⟩ := List.mem_map.mp hmem
  exact references_apart hbody task htask call hcall (heq.trans hid)

variable {linked : Stmt}

/-- References that are bound still are once the calls are bound. -/
theorem linkVariables_again (hbody : Body.IsFresh body) (hvars : Done bindHead (references l pou body) body body')
    (hcalls : Done bindCallHead (callees l pou body) body' linked) :
    linkVariables l pou body.pools.vars linked =
      ((references l pou body).filterMap (reportedAgain body), linked) := by
  have hbind : ∀ task ∈ references l pou body,
      bindVariable task.1 task.2 linked = (reportedAgain body task, linked) := by
    intro task htask
    obtain ⟨h, hh, hid, htarget⟩ := (aimed_references hbody).targets task htask
    refine bindVariable_again hbody.1 hh hid htarget hcalls.distinct ?_
    refine hcalls.other _ (hvars.bound task htask h hh hid) fun hmem => ?_
    obtain ⟨call, hcall, heq⟩ := List.mem_map.mp hmem
    rw [acts_bindVariable.id, hid] at heq
    exact references_apart hbody task htask call hcall heq.symm
  rw [linkVariables_eq_visit]
  exact visit_fixed hbind

/-- Calls that are bound are bound again. -/
theorem linkCalls_again (haimed : Aimed Head.IsCall (callees l pou body) body')
    (hcalls : Done bindCallHead (callees l pou body) body' linked) :
    linkCalls l pou body.pools.calls linked =
      ((callees l pou body).filterMap (fun call => (bindCall call.1 call.2 body').1), linked) := by
  have hbind : ∀ call ∈ callees l pou body,
      bindCall call.1 call.2 linked = ((bindCall call.1 call.2 body').1, linked) := by
    intro call hcall
    obtain ⟨h, hh, hid, htarget⟩ := haimed.targets call hcall
    exact bindCall_again haimed.distinct hh hid htarget hcalls.distinct (hcalls.bound call hcall h hh hid)
  rw [linkCalls_eq_visit]
  exact visit_fixed hbind

/--
When the names of a body are linked a second time, the body stays as it is and the same calls are reported. The same
references are reported too, and in addition those whose nodes became literals the first time.
-/
theorem linked_again (l : Library) (pou : Option Pou) (hbody : Body.IsFresh body) :
    let once := linkNames l pou body body
    let twice := linkNames l pou body once.2.2
    twice.2 = once.2 ∧
      once.1 = (references l pou body).filterMap (fun task => (bindVariable task.1 task.2 body).1) ∧
      twice.1 = (references l pou body).filterMap (reportedAgain body) ∧
      (twice = once ↔ ∀ task ∈ references l pou body, becomesLiteral body task = false) := by
  intro once twice
  have hnames : Aimed Head.IsReference (references l pou body) body := aimed_references hbody
  obtain ⟨hreported, hvars⟩ := acts_bindVariable.visit hnames
  rw [← linkVariables_eq_visit] at hreported hvars
  have haimed : Aimed Head.IsCall (callees l pou body) _ := hvars.aimed_callees hbody
  obtain ⟨hreported', hcalls⟩ := acts_bindCall.visit haimed
  rw [← linkCalls_eq_visit] at hreported' hcalls
  have htwice : twice = ((references l pou body).filterMap (reportedAgain body), once.2) := by
    have hvariables : linkVariables l pou body.pools.vars once.2.2 = (_, once.2.2) :=
      linkVariables_again hbody hvars hcalls
    have hcalled : linkCalls l pou body.pools.calls once.2.2 = once.2 :=
      (linkCalls_again haimed hcalls).trans (Prod.ext hreported'.symm rfl)
    change linkNames l pou body once.2.2 = _
    rw [linkNames, hvariables]
    exact congrArg (_, ·) hcalled
  refine ⟨by rw [htwice], hreported, by rw [htwice], ?_⟩
  rw [htwice, Prod.ext_iff, and_iff_left rfl, show once.1 = _ from hreported]
  constructor
  · intro heq task htask
    have hlength := congrArg List.length heq
    rw [length_reportedAgain, Nat.add_eq_left, List.countP_eq_zero] at hlength
    exact Bool.eq_false_iff.mpr (hlength task htask)
  · intro hnone
    refine List.filterMap_congr fun task htask => ?_
    rw [reportedAgain, hnone task htask]
    rfl

/-- Declares the values of an enumerated type. -/
def lampSource : String := "TYPE Lamp : (Red, Green); END_TYPE"

/-- A query with an enumerated value is reported when it is linked again. -/
theorem enumerated_reported_again : ∃ unit l q, parseUnit lampSource .anonymous = .ok unit ∧ link [unit] {} = .ok l ∧
    parseQuery "Red" = .ok q ∧
    linkNames l none q.body (linkNames l none q.body q.body).2.2 ≠ linkNames l none q.body q.body := by
  have hrun : (linkSource lampSource).toOption.any (fun l => (parseQuery "Red").toOption.any fun q =>
      (linkNames l none q.body q.body).1.isEmpty &&
        !(linkNames l none q.body (linkNames l none q.body q.body).2.2).1.isEmpty) = true := by
    decide +kernel
  obtain ⟨unit, l, hparse, hlink, hfacts⟩ := exists_of_linkSource hrun
  obtain ⟨q, hquery, hfacts⟩ := exists_of_any hfacts
  simp only [Bool.and_eq_true, Bool.not_eq_true'] at hfacts
  refine ⟨unit, l, q, hparse, hlink, hquery, fun heq => ?_⟩
  rw [heq, hfacts.1] at hfacts
  exact absurd hfacts.2 nofun

/-- A query with a comparison of enumerated values, of which both are reported. -/
theorem linked_again_lamp : ∃ unit l q, parseUnit lampSource .anonymous = .ok unit ∧ link [unit] {} = .ok l ∧
    parseQuery "Red = Green" = .ok q ∧ Body.Unlinked q.body q.pools ∧
    (linkNames l none q.body (linkNames l none q.body q.body).2.2).2 = (linkNames l none q.body q.body).2 ∧
    (linkNames l none q.body q.body).1 =
      (references l none q.body).filterMap (fun task => (bindVariable task.1 task.2 q.body).1) ∧
    (linkNames l none q.body (linkNames l none q.body q.body).2.2).1 =
      (references l none q.body).filterMap (reportedAgain q.body) ∧
    (references l none q.body).countP (becomesLiteral q.body) = 2 := by
  have hrun : (linkSource lampSource).toOption.any (fun l => (parseQuery "Red = Green").toOption.any fun q =>
      (references l none q.body).countP (becomesLiteral q.body) == 2) = true := by
    decide +kernel
  obtain ⟨unit, l, hparse, hlink, hfacts⟩ := exists_of_linkSource hrun
  obtain ⟨q, hquery, hfacts⟩ := exists_of_any hfacts
  have hunlinked := (unlinked_of_parseQuery hquery).2
  obtain ⟨hbody, honce, htwice, -⟩ := linked_again l none hunlinked.fresh
  exact ⟨unit, l, q, hparse, hlink, hquery, hunlinked, hbody, honce, htwice, beq_iff_eq.mp hfacts⟩

end

end Link

end StructuredText
