-- SUMMARY: Linking the names in a body resolves them, or reports those that stand for nothing.
import StructuredText.Link.References
import StructuredText.Proofs.Checked
import StructuredText.Proofs.Heads
import StructuredText.Proofs.Pools

/-!
# Linked names

The references of a body are bound one after the other, and so are its calls. What is bound stays bound, since every
identifier stands for one node. When no name is refused, all names in the body are resolved; a refused name is a
mistake of the program.
-/

namespace StructuredText

open Reporting

-- ---------------------------------------------------------------------------
-- What names stand for
-- ---------------------------------------------------------------------------

def Symbol.Valid (l : Library) (vars : List VarDecl) : Symbol → Prop
  | .root r => r.Valid l vars
  | .enumerated type => l.types.Declares type

theorem getElem?_of_lastIdx? {α : Type} {p : α → Bool} {items : List α} {i : Nat} (h : lastIdx? p items = some i) :
    ∃ a, items[i]? = some a ∧ p a = true := by
  obtain ⟨⟨a, j⟩, hlast, rfl⟩ := Option.map_eq_some_iff.mp h
  obtain ⟨hmem, hp⟩ := List.mem_filter.mp (List.mem_of_getLast? hlast)
  exact ⟨a, List.mem_zipIdx_iff_getElem?.mp hmem, hp⟩

namespace Library

variable {l : Library} {pou : Option Pou} {name : Ident}

theorem own_valid (l : Library) {p : VarDecl → Bool} {i : Nat}
    (h : (do lastIdx? p (← pou).vars) = some i) : (Root.own i).Valid l (varsOf pou) := by
  obtain ⟨u, rfl, h⟩ := Option.bind_eq_some_iff.mp h
  obtain ⟨v, hv, -⟩ := getElem?_of_lastIdx? h
  exact ⟨v, hv⟩

theorem global_valid (vars : List VarDecl) {p : VarDecl → Bool} {i : Nat}
    (h : lastIdx? p l.globals = some i) : (Root.global i).Valid l vars := by
  obtain ⟨v, hv, -⟩ := getElem?_of_lastIdx? h
  exact ⟨v, hv⟩

theorem unitNamed?_kind {kind : PouKind} {i : Nat} (h : l.unitNamed? kind name = some i) :
    ∃ p, l.pous[i]? = some p ∧ p.kind = kind := by
  obtain ⟨p, hp, hkind⟩ := getElem?_of_lastIdx? h
  simp only [Bool.and_eq_true, decide_eq_true_eq] at hkind
  exact ⟨p, hp, hkind.1⟩

/-- A name in a body stands for something that is there. -/
theorem symbol?_valid {s : Symbol} (h : l.symbol? pou name = some s) : s.Valid l (varsOf pou) := by
  unfold symbol? at h
  simp only [Option.orElse_eq_some, Option.map_eq_some_iff] at h
  obtain ⟨i, hi, rfl⟩ | ⟨-, ⟨i, hi, rfl⟩ | ⟨-, ⟨i, hi, rfl⟩ | ⟨-, i, hi, rfl⟩⟩⟩ := h
  · exact own_valid l hi
  · exact global_valid (varsOf pou) hi
  · exact unitNamed?_kind hi
  · obtain ⟨d, hd, -⟩ := getElem?_of_lastIdx? hi
    exact ⟨d, by rw [TypeTable.get?, ← Array.getElem?_toList]; exact hd⟩

/-- The name of a call stands for something that is there. -/
theorem callee?_valid {c : Callee} (h : l.callee? pou name = some c) : c.Valid l (varsOf pou) True := by
  unfold callee? at h
  simp only [Option.orElse_eq_some, Option.map_eq_some_iff] at h
  obtain ⟨i, hi, rfl⟩ | ⟨-, ⟨i, hi, rfl⟩ | ⟨-, ⟨i, hi, rfl⟩ | ⟨-, i, hi, rfl⟩⟩⟩ := h
  · exact ⟨trivial, own_valid l hi⟩
  · exact ⟨trivial, global_valid (varsOf pou) hi⟩
  · obtain ⟨p, hp, hkind⟩ := unitNamed?_kind hi
    exact ⟨trivial, p, hp, by simp [hkind]⟩
  · trivial

end Library

-- ---------------------------------------------------------------------------
-- Names in heads
-- ---------------------------------------------------------------------------

namespace Head

/-- The node is a reference whose names are not looked up, or a call that has no callee yet, or has no names. -/
def Fresh : Head → Prop
  | .literal info v => v.Plain ∧ info.type? = none
  | .var info path indexes =>
    info.type? = none ∧ path.fixed = none ∧ path.root = none ∧ path.segments ≠ [] ∧
      (path.isSimple = true → indexes = 0)
  | .operator info => info.type? = none
  | .call info callee _ => info.type? = none ∧ callee = none

/-- What the names in the node stand for is there, as far as they are linked. -/
def Opened (l : Library) (vars : List VarDecl) : Head → Prop
  | .literal info v => v.Plain ∧ ∀ type, info.type? = some type → l.types.Declares type
  | .var _ path indexes => path.fixed = none ∧ path.segments ≠ [] ∧ (path.isSimple = true → indexes = 0) ∧
    ∀ root, path.root = some root → root.Valid l vars
  | .operator info => info.type? = none
  | .call info callee _ => info.type? = none ∧ ∀ c, callee = some c → c.Valid l vars True

def IsVar : Head → Prop
  | .var .. => True
  | _ => False

def IsCall : Head → Prop
  | .call .. => True
  | _ => False

/-- A reference has the variable that it starts with. -/
def Rooted : Head → Prop
  | .var _ path _ => path.root.isSome
  | _ => True

/-- A call has its callee. -/
def Called : Head → Prop
  | .call _ callee _ => callee.isSome
  | _ => True

variable {l : Library} {vars : List VarDecl} {h : Head}

theorem Fresh.opened (hfresh : h.Fresh) : h.Opened l vars := by
  cases h with
  | literal info v =>
    obtain ⟨hv, htype⟩ := hfresh
    exact ⟨hv, by simp [htype]⟩
  | var info path indexes =>
    obtain ⟨-, hfixed, hroot, hsegments, hsimple⟩ := hfresh
    exact ⟨hfixed, hsegments, hsimple, by simp [hroot]⟩
  | operator info => exact hfresh
  | call info callee bindings =>
    obtain ⟨htype, hcallee⟩ := hfresh
    exact ⟨htype, by simp [hcallee]⟩

/-- A node whose names are linked is resolved. -/
theorem Opened.fulfils (hopened : h.Opened l vars) (hrooted : h.Rooted) (hcalled : h.Called) :
    h.Fulfils (Expr.resolved l vars True) := by
  cases h with
  | literal info v => exact hopened
  | var info path indexes =>
    obtain ⟨root, hroot⟩ := Option.isSome_iff_exists.mp hrooted
    exact ⟨hopened.1, root, hroot, hopened.2.2.2 root hroot⟩
  | operator info => exact hopened
  | call info callee bindings =>
    obtain ⟨c, hc⟩ := Option.isSome_iff_exists.mp hcalled
    exact fun args => ⟨hopened.1, c, hc, hopened.2 c hc⟩

end Head

-- ---------------------------------------------------------------------------
-- Names in nodes
-- ---------------------------------------------------------------------------

/-- What a call calls, and its node. -/
def Expr.called? : Expr → Option (Ident × NodeInfo)
  | .call info name _ _ _ _ => some (name, info)
  | _ => none

theorem Expr.called?_withParts (f : Expr → Expr) (e : Expr) : (e.withParts f).called? = e.called? := by
  cases e <;> rfl

namespace BodyPools

/-- Adds the name in a reference. -/
def registerReference (pool : RefPool NodeId Symbol) : Expr → RefPool NodeId Symbol
  | .var info path _ =>
    match path.segments.head? with
    | some first => pool.add first.name info.id first.span
    | none => pool
  | _ => pool

/-- Adds the name of a call. -/
def registerCall (pool : RefPool NodeId Callee) (e : Expr) : RefPool NodeId Callee :=
  match e.called? with
  | some (name, info) => pool.add name info.id info.span
  | none => pool

/-- Adds the name in a node, if there is one. -/
def register (pools : BodyPools) (e : Expr) : BodyPools :=
  ⟨registerReference pools.vars e, registerCall pools.calls e⟩

end BodyPools

namespace Stmt

/-- The pools that the nodes of a body fill, one after the other. -/
def pools (s : Stmt) : BodyPools := s.exprNodes.foldl BodyPools.register {}

theorem pools_vars (s : Stmt) : s.pools.vars = s.exprNodes.foldl BodyPools.registerReference {} :=
  (List.foldl_hom BodyPools.vars fun _ _ => rfl).symm

theorem pools_calls (s : Stmt) : s.pools.calls = s.exprNodes.foldl BodyPools.registerCall {} :=
  (List.foldl_hom BodyPools.calls fun _ _ => rfl).symm

/-- The calls of bodies are pooled alike if the same is called in them. -/
theorem pools_calls_congr {s s' : Stmt} (h : s'.exprNodes.map Expr.called? = s.exprNodes.map Expr.called?) :
    s'.pools.calls = s.pools.calls := by
  have hnotes (s : Stmt) : s.pools.calls = (s.exprNodes.map Expr.called?).foldl (fun pool note =>
      match note with
      | some (name, info) => pool.add name info.id info.span
      | none => pool) {} := by
    rw [pools_calls, List.foldl_map]
    rfl
  rw [hnotes, hnotes, h]

end Stmt

-- ---------------------------------------------------------------------------
-- Binding nodes
-- ---------------------------------------------------------------------------

namespace Link

section

variable {σ : Type} {valid : σ → Prop} {spec target done : Head → Prop}

/-- The node of a reference is refused with an ordinary error, or replaced by one that is done. -/
def Binds (valid : σ → Prop) (spec target done : Head → Prop)
    (bind : Reference NodeId → Option σ → Stmt → Option Diagnostic × Stmt) : Prop :=
  ∀ r found body node, (∀ s, found = some s → valid s) → body.exprNode? r.referrer = some node →
    spec node.head → target node.head →
      (∃ d, bind r found body = (some d, body) ∧ Ordinary d) ∨
        ∃ e, bind r found body = (none, body.setExprNode r.referrer e) ∧ e.parts = node.parts ∧
          e.called? = node.called? ∧ e.info.id = r.referrer ∧ spec e.head ∧ done e.head

/-- The body while its nodes are being bound, of which those of the references are left. It calls what it called. -/
structure Binding (valid : σ → Prop) (spec target : Head → Prop) (called : List (Option (Ident × NodeInfo)))
    (tasks : List (Reference NodeId × Option σ)) (body : Stmt) : Prop where
  distinct : Head.Distinct body.heads
  heads : ∀ h ∈ body.heads, spec h
  referrers : (tasks.map (·.1.referrer)).Nodup
  targets : ∀ task ∈ tasks, ∃ h ∈ body.heads, h.id = task.1.referrer ∧ target h
  found : ∀ task ∈ tasks, ∀ s, task.2 = some s → valid s
  called : body.exprNodes.map Expr.called? = called

/-- Nodes that are not left are done. -/
def Bound (done : Head → Prop) (tasks : List (Reference NodeId × Option σ)) (body : Stmt) : Prop :=
  ∀ h ∈ body.heads, done h ∨ h.id ∈ tasks.map (·.1.referrer)

variable {bind : Reference NodeId → Option σ → Stmt → Option Diagnostic × Stmt}
  {tasks : List (Reference NodeId × Option σ)} {body : Stmt} {called : List (Option (Ident × NodeInfo))}

/-- One more node is bound. -/
theorem Binding.step (hbind : Binds valid spec target done bind) {task : Reference NodeId × Option σ}
    (h : Binding valid spec target called (task :: tasks) body) :
    RefPool.Passes (Binding valid spec target called tasks)
      (fun body' => Bound done (task :: tasks) body → Bound done tasks body') (bind task.1 task.2 body) := by
  obtain ⟨hd, hheads, hreferrers, htargets, hfound, hcalled⟩ := h
  obtain ⟨hnew, hrest⟩ := List.nodup_cons.mp hreferrers
  obtain ⟨⟨head, hmem, hid, htarget⟩, htargets⟩ := List.forall_mem_cons.mp htargets
  obtain ⟨hvalid, hfound⟩ := List.forall_mem_cons.mp hfound
  obtain ⟨node, hnode, rfl⟩ := Stmt.exists_exprNode? hd hmem
  rw [hid] at hnode
  obtain ⟨d, heq, hordinary⟩ | ⟨e, heq, hparts, hcall, heid, hspec, hdone⟩ :=
    hbind task.1 task.2 body node hvalid hnode (hheads _ hmem) htarget
  · rw [heq]
    exact ⟨⟨hd, hheads, hrest, htargets, hfound, hcalled⟩, hordinary⟩
  · rw [heq]
    have hset := Stmt.heads_setExprNode hd hnode hparts
    have hmem_set {h : Head} (hh : h ∈ (body.setExprNode task.1.referrer e).heads) :
        h = e.head ∨ h ∈ body.heads ∧ h.id ≠ task.1.referrer := by
      rw [hset] at hh
      obtain ⟨old, hold, rfl⟩ := List.mem_map.mp hh
      split
      · exact .inl rfl
      · exact .inr ⟨hold, ‹_›⟩
    refine ⟨⟨?_, ?_, hrest, ?_, hfound, ?_⟩, ?_⟩
    · rw [hset]
      exact hd.replaced ((Expr.id_head e).trans heid)
    · intro h hh
      obtain rfl | ⟨hh, -⟩ := hmem_set hh
      · exact hspec
      · exact hheads h hh
    · intro other hother
      obtain ⟨h, hh, hhid, hhtarget⟩ := htargets other hother
      have hne : h.id ≠ task.1.referrer := fun heq =>
        hnew (List.mem_map.mpr ⟨other, hother, hhid.symm.trans heq⟩)
      refine ⟨h, ?_, hhid, hhtarget⟩
      rw [hset]
      exact List.mem_map.mpr ⟨h, hh, if_neg hne⟩
    · rw [← hcalled, Stmt.exprNodes_setExprNode Expr.called?_withParts hd hnode hparts]
      refine List.map_congr_left fun e' he' => ?_
      split
      · next hsame =>
        obtain ⟨hmem, hid⟩ := Stmt.mem_of_exprNode? hnode
        rw [hcall, Stmt.eq_of_info_id hd hmem he' (hsame.trans hid.symm)]
      · rfl
    · intro hbound h hh
      obtain rfl | ⟨hh, hne⟩ := hmem_set hh
      · exact .inl hdone
      · refine (hbound h hh).imp_right fun hleft => ?_
        exact (List.mem_cons.mp hleft).resolve_left hne

/-- When no reference of the pool is refused, all nodes are done. -/
theorem trigger_binding {pool : RefPool NodeId σ} {lookup : Ident → Option σ}
    (hbind : Binds valid spec target done bind) (h : Binding valid spec target called (pool.lookups lookup) body)
    (hbound : Bound done (pool.lookups lookup) body) :
    let result := (pool.reset.resolve lookup).trigger { resolved := bind } body
    Ordinary result.1 ∧ Head.Distinct result.2.heads ∧ (∀ h ∈ result.2.heads, spec h) ∧
      result.2.exprNodes.map Expr.called? = called ∧ (result.1 = [] → ∀ h ∈ result.2.heads, done h) := by
  obtain ⟨hds, hbinding, hdone⟩ := RefPool.visit_keeps (J := Bound done)
    (fun _ _ _ h => h.step hbind) (pool.lookups lookup) body h
  rw [RefPool.resolve_reset, RefPool.trigger_unchecked]
  refine ⟨hds, hbinding.distinct, hbinding.heads, hbinding.called, fun hnone head hhead => ?_⟩
  exact (hdone hnone hbound head hhead).resolve_right List.not_mem_nil

-- ---------------------------------------------------------------------------
-- The pools of a body
-- ---------------------------------------------------------------------------

/-- A node adds one reference to it, unless it is done. -/
def Collects (spec target done : Head → Prop) (step : RefPool NodeId σ → Expr → RefPool NodeId σ) : Prop :=
  ∀ e, ((∀ pool, step pool e = pool) ∧ (spec e.head → done e.head)) ∨
    ∃ entry, (∀ pool, (step pool e).entries.Perm (pool.entries ++ [entry])) ∧
      entry.reference.referrer = e.info.id ∧ target e.head

/-- The references of the nodes: each one is to a node of its own, and a node without one is done. -/
theorem Collects.foldl {step : RefPool NodeId σ → Expr → RefPool NodeId σ} (h : Collects spec target done step)
    (nodes : List Expr) (pool : RefPool NodeId σ) : ∃ entries : List (RefEntry NodeId),
      (nodes.foldl step pool).entries.Perm (pool.entries ++ entries) ∧
        (entries.map (·.reference.referrer)).Sublist (nodes.map (·.info.id)) ∧
        (∀ entry ∈ entries, ∃ e ∈ nodes, e.info.id = entry.reference.referrer ∧ target e.head) ∧
        ∀ e ∈ nodes, (spec e.head → done e.head) ∨ e.info.id ∈ entries.map (·.reference.referrer) := by
  induction nodes generalizing pool with
  | nil => exact ⟨[], by simp⟩
  | cons e nodes ih =>
    obtain ⟨entries, hperm, hsub, htargets, hdone⟩ := ih (step pool e)
    rw [List.foldl_cons]
    obtain ⟨hsame, hfirst⟩ | ⟨entry, hadd, hid, htarget⟩ := h e
    · rw [hsame] at hperm ⊢
      refine ⟨entries, hperm, hsub.cons _, fun entry hentry => ?_, List.forall_mem_cons.mpr ⟨.inl hfirst, hdone⟩⟩
      obtain ⟨e', he', h⟩ := htargets entry hentry
      exact ⟨e', List.mem_cons_of_mem e he', h⟩
    · refine ⟨entry :: entries, ?_, ?_, ?_, ?_⟩
      · exact (hperm.trans ((hadd pool).append_right _)).trans (by simp)
      · rw [List.map_cons, List.map_cons, hid]
        exact hsub.cons_cons _
      · refine List.forall_mem_cons.mpr ⟨⟨e, List.mem_cons_self, hid.symm, htarget⟩, fun other hother => ?_⟩
        obtain ⟨e', he', h⟩ := htargets other hother
        exact ⟨e', List.mem_cons_of_mem e he', h⟩
      · refine List.forall_mem_cons.mpr ⟨.inr (by simp [hid]), fun e' he' => (hdone e' he').imp_right fun hmem => ?_⟩
        exact List.mem_cons_of_mem _ hmem

variable {step : RefPool NodeId σ → Expr → RefPool NodeId σ} {lookup : Ident → Option σ}

/-- The references in the pool of a body are to nodes of their own, and a node without one is done. -/
theorem collected_tasks (hcollects : Collects spec target done step) (lookup : Ident → Option σ)
    (hd : Head.Distinct body.heads) :
    let tasks := (body.exprNodes.foldl step {}).lookups lookup
    (tasks.map (·.1.referrer)).Nodup ∧
      (∀ task ∈ tasks, ∃ h ∈ body.heads, h.id = task.1.referrer ∧ target h) ∧
      ∀ h ∈ body.heads, (spec h → done h) ∨ h.id ∈ tasks.map (·.1.referrer) := by
  obtain ⟨entries, hperm, hsub, htargets, hdone⟩ := hcollects.foldl body.exprNodes {}
  generalize body.exprNodes.foldl step {} = pool at hperm ⊢
  have hreferrers : ((pool.lookups lookup).map (·.1.referrer)).Perm (entries.map (·.reference.referrer)) := by
    rw [RefPool.referrers_lookups]
    exact hperm.map _
  have hheads : body.heads = body.exprNodes.map Expr.head := rfl
  have hids : body.exprNodes.map (·.info.id) = body.heads.map Head.id := by
    rw [hheads, List.map_map]
    exact List.map_congr_left fun e _ => (Expr.id_head e).symm
  refine ⟨hreferrers.nodup_iff.mpr ((hids ▸ hsub).nodup hd), fun task htask => ?_, fun h hh => ?_⟩
  · obtain ⟨entry, hentry, hreferrer⟩ := List.mem_map.mp (hreferrers.subset (List.mem_map_of_mem htask))
    obtain ⟨e, he, hid, htarget⟩ := htargets entry hentry
    exact ⟨e.head, List.mem_map_of_mem he, (Expr.id_head e).trans (hid.trans hreferrer), htarget⟩
  · obtain ⟨e, he, rfl⟩ := List.mem_map.mp (hheads ▸ hh)
    refine (hdone e he).imp_right fun hmem => ?_
    rw [Expr.id_head]
    exact hreferrers.symm.subset hmem

/-- When no name in a body is refused, all nodes are done. -/
theorem trigger_collected (hcollects : Collects spec target done step) (hbind : Binds valid spec target done bind)
    (hvalid : ∀ name s, lookup name = some s → valid s) (hd : Head.Distinct body.heads)
    (hspec : ∀ h ∈ body.heads, spec h) :
    let result := ((body.exprNodes.foldl step {}).reset.resolve lookup).trigger { resolved := bind } body
    Ordinary result.1 ∧ Head.Distinct result.2.heads ∧ (∀ h ∈ result.2.heads, spec h) ∧
      result.2.exprNodes.map Expr.called? = body.exprNodes.map Expr.called? ∧
        (result.1 = [] → ∀ h ∈ result.2.heads, done h) := by
  obtain ⟨hreferrers, htargets, hdone⟩ := collected_tasks hcollects lookup hd
  refine trigger_binding hbind ⟨hd, hspec, hreferrers, htargets, ?_, rfl⟩ fun h hh =>
    (hdone h hh).imp_left fun h => h (hspec _ hh)
  intro task htask s hs
  obtain ⟨name, hname⟩ := RefPool.found_of_mem_lookups htask
  exact hvalid name s (hname.symm.trans hs)

end

-- ---------------------------------------------------------------------------
-- References
-- ---------------------------------------------------------------------------

variable {l : Library} {vars : List VarDecl}

theorem collects_variables :
    Collects (Head.Opened l vars) Head.IsVar Head.Rooted BodyPools.registerReference := by
  intro e
  cases e with
  | var info path indexes =>
    dsimp only [BodyPools.registerReference]
    cases hfirst : path.segments.head? with
    | none => exact .inl ⟨fun _ => rfl, fun h => absurd (List.head?_eq_none_iff.mp hfirst) h.2.1⟩
    | some first => exact .inr ⟨_, fun pool => RefPool.entries_add pool _ _ _ _, rfl, trivial⟩
  | literal | unary | binary | call => exact .inl ⟨fun _ => rfl, fun _ => trivial⟩

theorem binds_variables : Binds (Symbol.Valid l vars) (Head.Opened l vars) Head.IsVar Head.Rooted bindVariable := by
  intro r found body node hvalid hnode hspec htarget
  cases found with
  | none => exact .inl ⟨_, rfl, nofun⟩
  | some symbol =>
    cases node with
    | var info path indexes =>
      have hid : info.id = r.referrer := (Stmt.head_of_exprNode? hnode).2
      obtain ⟨hfixed, hsegments, hsimple, -⟩ := hspec
      rw [bindVariable, hnode]
      cases symbol with
      | root root =>
        refine .inr ⟨.var info { path with root := some root } indexes, rfl, rfl, rfl, hid,
          ⟨hfixed, hsegments, hsimple, ?_⟩, rfl⟩
        rintro root ⟨⟩
        exact hvalid _ rfl
      | enumerated type =>
        simp only [bindNode]
        cases hpath : path.isSimple with
        | false => exact .inl ⟨_, rfl, nofun⟩
        | true =>
          cases path.segments.head? with
          | none => exact .inl ⟨_, rfl, nofun⟩
          | some first =>
            have hindexes : indexes = [] := List.eq_nil_of_length_eq_zero (hsimple hpath)
            subst hindexes
            refine .inr ⟨_, rfl, rfl, rfl, hid, ⟨trivial, ?_⟩, trivial⟩
            rintro type ⟨⟩
            exact hvalid _ rfl
    | literal | unary | binary | call => cases htarget

/-- Linking the references of a body binds them, or reports those that are not declared. -/
theorem linkVariables_names (l : Library) (pou : Option Pou) {body : Stmt} (hd : Head.Distinct body.heads)
    (hspec : ∀ h ∈ body.heads, h.Opened l (varsOf pou)) :
    let result := linkVariables l pou body.pools.vars body
    Ordinary result.1 ∧ Head.Distinct result.2.heads ∧ (∀ h ∈ result.2.heads, h.Opened l (varsOf pou)) ∧
      result.2.pools.calls = body.pools.calls ∧ (result.1 = [] → ∀ h ∈ result.2.heads, h.Rooted) := by
  rw [Stmt.pools_vars]
  obtain ⟨hordinary, hdistinct, hspec, hcalled, hdone⟩ :=
    trigger_collected collects_variables binds_variables (fun _ _ => Library.symbol?_valid) hd hspec
  exact ⟨hordinary, hdistinct, hspec, Stmt.pools_calls_congr hcalled, hdone⟩

-- ---------------------------------------------------------------------------
-- Calls
-- ---------------------------------------------------------------------------

/-- The names in a node are linked, those of calls apart. -/
def Located (l : Library) (vars : List VarDecl) (h : Head) : Prop := h.Opened l vars ∧ h.Rooted

theorem collects_calls : Collects (Located l vars) Head.IsCall Head.Called BodyPools.registerCall := by
  intro e
  cases e with
  | call info name labels args callee bindings => exact .inr ⟨_, fun pool => RefPool.entries_add pool _ _ _ _, rfl, trivial⟩
  | literal | var | unary | binary => exact .inl ⟨fun _ => rfl, fun _ => trivial⟩

theorem binds_calls : Binds (Callee.Valid l vars True) (Located l vars) Head.IsCall Head.Called bindCall := by
  intro r found body node hvalid hnode hspec htarget
  cases found with
  | none => exact .inl ⟨_, rfl, nofun⟩
  | some callee =>
    cases node with
    | call info name labels args old bindings =>
      have hid : info.id = r.referrer := (Stmt.head_of_exprNode? hnode).2
      rw [bindCall]
      simp only [hnode]
      refine .inr ⟨_, rfl, rfl, rfl, hid, ⟨⟨hspec.1.1, ?_⟩, trivial⟩, rfl⟩
      rintro c ⟨⟩
      exact hvalid _ rfl
    | literal | var | unary | binary => cases htarget

/-- Linking the calls of a body binds them, or reports those that stand for nothing. -/
theorem linkCalls_names (l : Library) (pou : Option Pou) {body : Stmt} (hd : Head.Distinct body.heads)
    (hspec : ∀ h ∈ body.heads, Located l (varsOf pou) h) :
    let result := linkCalls l pou body.pools.calls body
    Ordinary result.1 ∧ Head.Distinct result.2.heads ∧ (∀ h ∈ result.2.heads, Located l (varsOf pou) h) ∧
      (result.1 = [] → ∀ h ∈ result.2.heads, h.Called) := by
  rw [Stmt.pools_calls]
  obtain ⟨hordinary, hdistinct, hspec, -, hdone⟩ :=
    trigger_collected collects_calls binds_calls (fun _ _ => Library.callee?_valid) hd hspec
  exact ⟨hordinary, hdistinct, hspec, hdone⟩

/-- A body whose references and calls are bound is resolved. -/
theorem resolved_of_names {body : Stmt} (hspec : ∀ h ∈ body.heads, Located l vars h)
    (hcalled : ∀ h ∈ body.heads, h.Called) : body.Satisfies (Expr.resolved l vars True) :=
  Stmt.satisfies_of_heads fun h hh => (hspec h hh).1.fulfils (hspec h hh).2 (hcalled h hh)

end Link

end StructuredText
