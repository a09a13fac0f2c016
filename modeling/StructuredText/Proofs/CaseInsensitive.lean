-- SUMMARY: Sources that differ in the case of letters are read as the same unit.
import StructuredText.Proofs.GrammarCase
import StructuredText.Proofs.Numbered
import StructuredText.Proofs.Parsed

/-!
# Case-insensitive sources

The declarations of a tree whose names are spelled in another way become the same unit with those names in the other
spelling. With what is known about tokens and about the grammar, it follows that two sources that only differ in the
case of letters have the same tokens at the same places, that both or neither of them can be read, and that their units
are the same when names are compared as names are.
-/

namespace StructuredText

-- ---------------------------------------------------------------------------
-- Bodies
-- ---------------------------------------------------------------------------

/-- The other spelling of a name has the same key. -/
def KeepsKeys (f : String → String) : Prop := ∀ s, Text.lowercase (f s) = Text.lowercase s

section

variable {f : String → String}

namespace RefPool

variable {ρ σ : Type}

/-- Names with other spellings of the same keys are put in the same groups. -/
theorem addEntry_respell (hf : KeepsKeys f) (name : Ident) (entry : RefEntry ρ) (groups : List (RefGroup ρ σ)) :
    addEntry (name.respell f) (entry.respell f) (groups.map (·.respell f)) =
      (addEntry name entry groups).map (·.respell f) := by
  induction groups with
  | nil => rfl
  | cons g groups ih =>
    have hkey (i : Ident) : (i.respell f).key = i.key := hf i.text
    have hsame : ((g.respell f).name == name.respell f) = (g.name == name) := by
      rw [Bool.eq_iff_iff, Ident.beq_iff, Ident.beq_iff, RefGroup.respell, hkey, hkey]
    simp only [List.map_cons, addEntry, hsame, ih]
    split <;> simp [RefGroup.respell]

theorem add_respell (hf : KeepsKeys f) (p : RefPool ρ σ) (name : Ident) (referrer : ρ) (span : Span) :
    (p.respell f).add (name.respell f) referrer span = (p.add name referrer span).respell f := by
  simp only [add, respell, ← addEntry_respell hf]
  rfl

end RefPool

theorem BodyPools.register_respell (hf : KeepsKeys f) (pools : BodyPools) (e : Expr) :
    (pools.respell f).register (e.respell f) = (pools.register e).respell f := by
  cases e with
  | var info path indexes =>
    obtain ⟨segments, root, selectors, fixed⟩ := path
    cases segments with
    | nil => rfl
    | cons first rest =>
      exact congrArg (BodyPools.mk · _) (RefPool.add_respell hf pools.vars first.name info.id first.span)
  | call info name labels args callee bindings =>
    exact congrArg (BodyPools.mk _) (RefPool.add_respell hf pools.calls name info.id info.span)
  | literal | unary | binary => rfl

namespace Body

/-- The draft with another spelling of all names. -/
def Draft.respell (f : String → String) (d : Draft) : Draft := { d with pools := d.pools.respell f }

/-- When names are spelled in another way, the same is built with these names. -/
def Respells (f : String → String) {α : Type} (g : α → α) (m m' : Drafting α) : Prop :=
  ∀ d : Draft, m' (d.respell f) = (g (m d).1, (m d).2.respell f)

namespace Respells

variable {α β : Type} {g : α → α} {m m' : Drafting α}

theorem pure {a a' : α} (h : a' = g a) : Respells f g (Pure.pure a) (Pure.pure a') := fun _ => h ▸ rfl

theorem bind {h : β → β} {k k' : α → Drafting β} (hm : Respells f g m m') (hk : ∀ a, Respells f h (k a) (k' (g a))) :
    Respells f h (m >>= k) (m' >>= k') := by
  intro d
  change k' (m' (d.respell f)).1 (m' (d.respell f)).2 = _
  rw [hm d]
  exact hk _ _

theorem node {span : Span} {k k' : NodeInfo → Drafting α} (hk : ∀ info, Respells f g (k info) (k' info)) :
    Respells f g (Body.node span >>= k) (Body.node span >>= k') :=
  fun d => hk { id := d.next, span } { d with next := d.next + 1 }

theorem mapM {τ : Type} {t : τ → τ} {k : τ → Drafting α} {as : List τ} (h : ∀ a, Respells f g (k a) (k (t a))) :
    Respells f (List.map g) (as.mapM k) ((as.map t).mapM k) := by
  induction as with
  | nil => exact .pure rfl
  | cons a as ih =>
    rw [List.map_cons, List.mapM_cons, List.mapM_cons]
    exact .bind (h a) fun b => .bind ih fun bs => .pure rfl

/-- The node of an expression is added with its name in the other spelling. -/
theorem expr (hf : KeepsKeys f) {m m' : Drafting Expr} {span : Span} {e e' : NodeInfo → Expr} (hm : Adds m span e)
    (hm' : Adds m' span e') (h : ∀ info, e' info = (e info).respell f) : Respells f (·.respell f) m m' := by
  intro d
  rw [hm d, hm' (d.respell f), h]
  exact congrArg (fun pools => (_, (⟨d.next + 1, pools⟩ : Draft))) (BodyPools.register_respell hf d.pools _)

end Respells

theorem label_respell (arg : Tree.Arg) : label (arg.respell f) = (label arg).respell f := by
  cases arg
  rfl

theorem segment_respell (s : Tree.Segment) : segment (s.respell f) = (segment s).respell f := by
  cases s
  simp [segment, Segment.respell]

mutual

theorem expr_respell (hf : KeepsKeys f) (e : Tree.Expr) : Respells f (·.respell f) (expr e) (expr (e.respell f)) := by
  cases e with
  | constant value span =>
    simp only [expr, Tree.Expr.respell]
    exact .expr hf (adds_node fun _ _ => rfl) (adds_node fun _ _ => rfl) fun _ => by simp [Expr.respell]
  | typed type value span =>
    simp only [expr, Tree.Expr.respell]
    exact .expr hf (adds_node fun _ _ => rfl) (adds_node fun _ _ => rfl) fun _ => by simp [Expr.respell]
  | var p =>
    simp only [expr, Tree.Expr.respell]
    exact path_respell hf p
  | unary op operand span =>
    simp only [expr, Tree.Expr.respell]
    refine .bind (expr_respell hf operand) fun e => ?_
    exact .expr hf (adds_node fun _ _ => rfl) (adds_node fun _ _ => rfl) fun _ => by simp [Expr.respell]
  | binary op left right span =>
    simp only [expr, Tree.Expr.respell]
    refine .bind (expr_respell hf left) fun l => .bind (expr_respell hf right) fun r => ?_
    exact .expr hf (adds_node fun _ _ => rfl) (adds_node fun _ _ => rfl) fun _ => by simp [Expr.respell]
  | call name args span =>
    simp only [expr, Tree.Expr.respell, Tree.Arg.respellAll_eq]
    refine .bind (arguments_respell hf args) fun es => .expr hf (adds_addCall _ _ _ _) (adds_addCall _ _ _ _) fun _ => ?_
    simp [Expr.respell, Expr.respellAll_eq, label_respell, Function.comp_def]

theorem path_respell (hf : KeepsKeys f) (p : Tree.Path) : Respells f (·.respell f) (path p) (path (p.respell f)) := by
  obtain ⟨segments, span⟩ := p
  simp only [path, Tree.Path.respell, Tree.Segment.respellAll_eq]
  refine .bind (segmentIndexes_respell hf segments) fun es => ?_
  refine .expr hf (adds_addReference _ _ _) (adds_addReference _ _ _) fun _ => ?_
  simp [Expr.respell, Expr.respellAll_eq, VarPath.respell, segment_respell, Function.comp_def]

theorem segmentIndexes_respell (hf : KeepsKeys f) (segments : List Tree.Segment) :
    Respells f (List.map (·.respell f)) (segmentIndexes segments) (segmentIndexes (segments.map (·.respell f))) := by
  match segments with
  | [] => exact .pure rfl
  | .mk name indexes span :: rest =>
    simp only [segmentIndexes, List.map_cons, Tree.Segment.respell_mk]
    exact .bind (exprs_respell hf indexes) fun first => .bind (segmentIndexes_respell hf rest) fun es => .pure (by simp)

theorem exprs_respell (hf : KeepsKeys f) (es : List Tree.Expr) :
    Respells f (List.map (·.respell f)) (exprs es) (exprs (es.map (·.respell f))) := by
  match es with
  | [] => exact .pure rfl
  | e :: es =>
    simp only [exprs, List.map_cons]
    exact .bind (expr_respell hf e) fun e => .bind (exprs_respell hf es) fun es => .pure rfl

theorem arguments_respell (hf : KeepsKeys f) (args : List Tree.Arg) :
    Respells f (List.map (·.respell f)) (arguments args) (arguments (args.map (·.respell f))) := by
  match args with
  | [] => exact .pure rfl
  | .mk name value output :: rest =>
    simp only [arguments, List.map_cons, Tree.Arg.respell_mk]
    exact .bind (expr_respell hf value) fun e => .bind (arguments_respell hf rest) fun es => .pure rfl

end

theorem call_respell (hf : KeepsKeys f) (name : Ident) (args : List Tree.Arg) (span : Span) :
    Respells f (·.respell f) (call name args span) (call (name.respell f) (args.map (·.respell f)) span) := by
  refine .bind (arguments_respell hf args) fun es => .expr hf (adds_addCall _ _ _ _) (adds_addCall _ _ _ _) fun _ => ?_
  simp [Expr.respell, Expr.respellAll_eq, label_respell, Function.comp_def]

theorem caseLabel_respell (hf : KeepsKeys f) (l : Tree.CaseLabel) :
    Respells f (·.respell f) (caseLabel l) (caseLabel (l.respell f)) := by
  cases l with
  | value e => exact .bind (expr_respell hf e) fun e => .pure rfl
  | range low high => exact .bind (expr_respell hf low) fun l => .bind (expr_respell hf high) fun h => .pure rfl

theorem blockSpan_respell (whole : Span) (ss : List Tree.Stmt) :
    blockSpan whole (ss.map (·.respell f)) = blockSpan whole ss := by
  simp only [blockSpan, List.head?_map, List.getLast?_map]
  cases ss.head? <;> cases ss.getLast? <;> simp

mutual

theorem stmt_respell (hf : KeepsKeys f) (s : Tree.Stmt) : Respells f (·.respell f) (stmt s) (stmt (s.respell f)) := by
  cases s with
  | assign target value span =>
    simp only [stmt, Tree.Stmt.respell]
    refine .bind (path_respell hf target) fun t => .bind (expr_respell hf value) fun v => ?_
    exact .node fun info => .pure (by simp [Stmt.respell])
  | call name args span =>
    simp only [stmt, Tree.Stmt.respell]
    exact .bind (call_respell hf name args span) fun e => .pure (by simp [Stmt.respell])
  | ifThen bs otherwise span =>
    cases otherwise with
    | none =>
      simp only [stmt, Tree.Stmt.respell, Tree.Stmt.respellBranches_eq, Tree.Stmt.respellOption_eq, Option.map_none,
        pure_bind]
      refine .bind (branches_respell hf span bs) fun bs => .node fun info => .pure ?_
      simp [Stmt.respell, Stmt.respellBranches_eq, Stmt.respellOption_eq]
    | some ss =>
      simp only [stmt, Tree.Stmt.respell, Tree.Stmt.respellBranches_eq, Tree.Stmt.respellOption_eq, Option.map_some,
        pure_bind, blockSpan_respell]
      refine .bind (branches_respell hf span bs) fun bs => .bind (stmts_respell hf ss) fun inner => ?_
      refine .node fun block => .node fun info => .pure ?_
      simp [Stmt.respell, Stmt.respellBranches_eq, Stmt.respellOption_eq, Stmt.respellAll_eq]
  | case selector as otherwise span =>
    cases otherwise with
    | none =>
      simp only [stmt, Tree.Stmt.respell, Tree.Stmt.respellArms_eq, Tree.Stmt.respellOption_eq, Option.map_none,
        pure_bind]
      refine .bind (expr_respell hf selector) fun e => .bind (arms_respell hf span as) fun as => .node fun info => .pure ?_
      simp [Stmt.respell, Stmt.respellArms_eq, Stmt.respellOption_eq]
    | some ss =>
      simp only [stmt, Tree.Stmt.respell, Tree.Stmt.respellArms_eq, Tree.Stmt.respellOption_eq, Option.map_some,
        pure_bind, blockSpan_respell]
      refine .bind (expr_respell hf selector) fun e => .bind (arms_respell hf span as) fun as => ?_
      refine .bind (stmts_respell hf ss) fun inner => .node fun block => .node fun info => .pure ?_
      simp [Stmt.respell, Stmt.respellArms_eq, Stmt.respellOption_eq, Stmt.respellAll_eq]
  | forLoop control start stop step ss span =>
    simp only [stmt, Tree.Stmt.respell, Tree.Stmt.respellAll_eq, blockSpan_respell]
    refine .bind (path_respell hf control) fun c => .bind (expr_respell hf start) fun e => ?_
    refine .bind (expr_respell hf stop) fun e' => .bind (g := Option.map (·.respell f)) ?_ fun step => ?_
    · cases step with
      | none => exact .pure rfl
      | some t =>
        change Respells f _ (expr t >>= fun e => Pure.pure (some e)) (expr (t.respell f) >>= fun e => Pure.pure (some e))
        exact .bind (expr_respell hf t) fun e => .pure rfl
    · refine .bind (stmts_respell hf ss) fun inner => .node fun block => .node fun info => .pure ?_
      simp [Stmt.respell, Stmt.respellAll_eq]
  | whileLoop condition ss span =>
    simp only [stmt, Tree.Stmt.respell, Tree.Stmt.respellAll_eq, blockSpan_respell]
    refine .bind (expr_respell hf condition) fun c => .bind (stmts_respell hf ss) fun inner => ?_
    exact .node fun block => .node fun info => .pure (by simp [Stmt.respell, Stmt.respellAll_eq])
  | repeatLoop ss condition span =>
    simp only [stmt, Tree.Stmt.respell, Tree.Stmt.respellAll_eq, blockSpan_respell]
    refine .bind (stmts_respell hf ss) fun inner => .node fun block => .bind (expr_respell hf condition) fun c => ?_
    exact .node fun info => .pure (by simp [Stmt.respell, Stmt.respellAll_eq])
  | exit span => exact .node fun info => .pure (by simp [Stmt.respell])
  | ret span => exact .node fun info => .pure (by simp [Stmt.respell])

theorem stmts_respell (hf : KeepsKeys f) (ss : List Tree.Stmt) :
    Respells f (List.map (·.respell f)) (stmts ss) (stmts (ss.map (·.respell f))) := by
  match ss with
  | [] => exact .pure rfl
  | s :: ss =>
    simp only [stmts, List.map_cons]
    exact .bind (stmt_respell hf s) fun s => .bind (stmts_respell hf ss) fun ss => .pure rfl

theorem branches_respell (hf : KeepsKeys f) (whole : Span) (bs : List (Tree.Expr × List Tree.Stmt)) :
    Respells f (List.map (Prod.map (·.respell f) (·.respell f))) (branches whole bs)
      (branches whole (bs.map (Prod.map (·.respell f) (List.map (·.respell f))))) := by
  match bs with
  | [] => exact .pure rfl
  | (condition, ss) :: rest =>
    simp only [branches, List.map_cons, Prod.map_apply, blockSpan_respell]
    refine .bind (expr_respell hf condition) fun c => .bind (stmts_respell hf ss) fun inner => .node fun block => ?_
    exact .bind (branches_respell hf whole rest) fun bs => .pure (by simp [Stmt.respell, Stmt.respellAll_eq])

theorem arms_respell (hf : KeepsKeys f) (whole : Span) (as : List (List Tree.CaseLabel × List Tree.Stmt)) :
    Respells f (List.map (Prod.map (List.map (·.respell f)) (·.respell f))) (arms whole as)
      (arms whole (as.map (Prod.map (List.map (·.respell f)) (List.map (·.respell f))))) := by
  match as with
  | [] => exact .pure rfl
  | (labels, ss) :: rest =>
    simp only [arms, List.map_cons, Prod.map_apply, blockSpan_respell]
    refine .bind (.mapM (caseLabel_respell hf)) fun labels => .bind (stmts_respell hf ss) fun inner => ?_
    refine .node fun block => .bind (arms_respell hf whole rest) fun as => .pure ?_
    simp [Stmt.respell, Stmt.respellAll_eq]

end

/-- The nodes of a body and the groups of names in it do not depend on the spelling of the names. -/
theorem ofStatements_respell (hf : KeepsKeys f) (ss : List Tree.Stmt) (whole : Span) :
    ofStatements (ss.map (·.respell f)) whole =
      ((ofStatements ss whole).1.respell f, (ofStatements ss whole).2.respell f) := by
  have hbuild : Respells f (·.respell f) (statementsBody ss whole) (statementsBody (ss.map (·.respell f)) whole) := by
    simp only [statementsBody, blockSpan_respell]
    refine .bind (stmts_respell hf ss) fun inner => .node fun block => .pure ?_
    simp [Stmt.respell, Stmt.respellAll_eq]
  have hrun := hbuild {}
  exact congrArg (fun r : Stmt × Draft => (r.1, r.2.pools)) hrun

end Body

end

-- ---------------------------------------------------------------------------
-- Declarations
-- ---------------------------------------------------------------------------

namespace CompilationUnit

open Text

variable {α β γ : Type}

/--
Units that only differ in the case of letters still only do so after the computations. What these result in has the
same image under the two functions.
-/
def Alike (h : α → γ) (i : β → γ) (x : Building α) (y : Building β) : Prop :=
  ∀ u u' : CompilationUnit, u.respell lower = u'.respell lower →
    h (x u).1 = i (y u').1 ∧ (x u).2.respell lower = (y u').2.respell lower

namespace Alike

variable {h : α → γ} {i : β → γ} {x : Building α} {y : Building β}

protected theorem pure {a : α} {b : β} (hab : h a = i b) : Alike h i (pure a) (pure b) := fun _ _ hu => ⟨hab, hu⟩

protected theorem bind {α₁ β₁ γ₁ : Type} {h₁ : α₁ → γ₁} {i₁ : β₁ → γ₁} {k : α → Building α₁} {l : β → Building β₁}
    (hx : Alike h i x y) (hk : ∀ a b, h a = i b → Alike h₁ i₁ (k a) (l b)) : Alike h₁ i₁ (x >>= k) (y >>= l) := by
  intro u u' hu
  obtain ⟨hab, hv⟩ := hx u u' hu
  exact hk _ _ hab _ _ hv

protected theorem modify {f f' : CompilationUnit → CompilationUnit}
    (hf : ∀ u u', u.respell lower = u'.respell lower → (f u).respell lower = (f' u').respell lower) :
    Alike id id (modify f) (modify f') :=
  fun u u' hu => ⟨rfl, hf u u' hu⟩

/-- Two lists of the same length are gone through side by side. -/
protected theorem mapM {δ : Type} {g : δ → δ} {k : δ → Building α} {l : δ → Building β}
    (hk : ∀ d, Alike h i (k d) (l (g d))) (ds : List δ) :
    Alike (List.map h) (List.map i) (ds.mapM k) ((ds.map g).mapM l) := by
  induction ds with
  | nil => exact .pure rfl
  | cons d ds ih =>
    rw [List.map_cons, List.mapM_cons, List.mapM_cons]
    refine (hk d).bind fun a b hab => ih.bind fun as bs habs => .pure ?_
    rw [List.map_cons, List.map_cons, hab, habs]

protected theorem forM {δ : Type} {g : δ → δ} {k l : δ → Building Unit} (hk : ∀ d, Alike id id (k d) (l (g d)))
    (ds : List δ) : Alike id id (ds.forM k) ((ds.map g).forM l) := by
  induction ds with
  | nil => exact .pure rfl
  | cons d ds ih => exact (hk d).bind fun _ _ _ => ih

protected theorem forIn {δ : Type} {g : δ → δ} {k : δ → Building α} {l : δ → Building β} {m : α → Building Unit}
    {n : β → Building Unit} (hk : ∀ d, Alike h i (k d) (l (g d))) (hm : ∀ a b, h a = i b → Alike id id (m a) (n b))
    (ds : List δ) :
    Alike id id
      (ForIn.forIn ds ⟨⟩ fun d (_ : PUnit) => do
        m (← k d)
        pure (.yield ⟨⟩))
      (ForIn.forIn (ds.map g) ⟨⟩ fun d (_ : PUnit) => do
        n (← l d)
        pure (.yield ⟨⟩)) := by
  induction ds with
  | nil => exact .pure rfl
  | cons d ds ih =>
    rw [List.map_cons, List.forIn_cons, List.forIn_cons]
    simp only [bind_assoc, pure_bind]
    exact (hk d).bind fun a b hab => (hm a b hab).bind fun _ _ _ => ih

end Alike

section

variable {name name' : Ident} (hname : name.respell lower = name'.respell lower)

include hname

theorem span_eq_of_respell : name.span = name'.span := congrArg (·.span) hname

theorem addType_alike {kind kind' : TypeKind} (hkind : kind.respell lower = kind'.respell lower) :
    Alike id id (addType name kind) (addType name' kind') := by
  refine .modify fun u u' hu => ?_
  have hspan := span_eq_of_respell hname
  simp_all [CompilationUnit.respell, TypeDecl.respell]

theorem addUse_alike {target target' : Ident} (htarget : target.respell lower = target'.respell lower)
    (slot : TypeSlot) (span : Span) : Alike id id (addUse target name slot span) (addUse target' name' slot span) := by
  refine .modify fun u u' hu => ?_
  simp_all [CompilationUnit.respell, TypeUse.respell]

theorem addAlias_alike (parent : Ident) (initial : Option Value) :
    Alike id id (addAlias name parent initial)
      (addAlias name' (parent.respell lower) (initial.map (·.respell lower))) := by
  rw [addAlias, addAlias, span_eq_of_respell hname]
  refine .bind (addUse_alike hname (by simp) _ _) fun _ _ _ => addType_alike hname ?_
  simp [TypeKind.respell, TypeRef.respell, Function.comp_def]

theorem addSubrange_alike (base : Ident) (min max : Int) (initial : Option Value) :
    Alike id id (addSubrange name base min max initial)
      (addSubrange name' (base.respell lower) min max (initial.map (·.respell lower))) := by
  rw [addSubrange, addSubrange, span_eq_of_respell hname]
  refine .bind (addUse_alike hname (by simp) _ _) fun _ _ _ => addType_alike hname ?_
  simp [TypeKind.respell, TypeRef.respell, Function.comp_def]

theorem addArray_alike {element element' : Ident} (helement : element.respell lower = element'.respell lower)
    (dimensions : List Dimension) (initial : Option Value) :
    Alike id id (addArray name element dimensions initial)
      (addArray name' element' dimensions (initial.map (·.respell lower))) := by
  rw [addArray, addArray, span_eq_of_respell hname]
  refine .bind (addUse_alike hname helement _ _) fun _ _ _ => addType_alike hname ?_
  simp [TypeKind.respell, TypeRef.respell, Function.comp_def, helement]

theorem scopedName_alike {scope scope' : String} (hscope : lower scope = lower scope') :
    (scopedName scope name).respell lower = (scopedName scope' name').respell lower := by
  have hspan := span_eq_of_respell hname
  have htext : lower name.text = lower name'.text := congrArg (·.text) hname
  simp [scopedName, Ident.respell, hscope, htext, hspan]

theorem elementName_alike :
    (⟨name.text ++ ".element", name.span⟩ : Ident).respell lower =
      (⟨name'.text ++ ".element", name'.span⟩ : Ident).respell lower := by
  have hspan := span_eq_of_respell hname
  have htext : lower name.text = lower name'.text := congrArg (·.text) hname
  simp [Ident.respell, htext, hspan]

end

theorem typeName_alike {name name' : Ident} (hname : name.respell lower = name'.respell lower) (t : Tree.TypeExpr) :
    Alike (Ident.respell lower) (Ident.respell lower) (typeName name t) (typeName name' (t.respell lower)) := by
  induction t generalizing name name' with
  | named type => exact .pure (by simp)
  | subrange base min max => exact .bind (addSubrange_alike hname base min max none) fun _ _ _ => .pure hname
  | array element dimensions ih =>
    exact .bind (ih (elementName_alike hname)) fun e e' he =>
      .bind (addArray_alike hname he dimensions none) fun _ _ _ => .pure hname

theorem addMembers_alike (type : Ident) (ms : List (Tree.Member × Nat)) :
    Alike (List.map (StructMember.respell lower)) (List.map (StructMember.respell lower)) (addMembers type ms)
      (addMembers (type.respell lower) (ms.map (Prod.map (Tree.Member.respell lower) id))) := by
  induction ms with
  | nil => exact .pure rfl
  | cons entry ms ih =>
    obtain ⟨m, position⟩ := entry
    have htype : lower type.text = lower (type.respell lower).text := (lower_lower type.text).symm
    have hmember : m.name.respell lower = (m.name.respell lower).respell lower := by simp
    have hname := scopedName_alike hmember htype
    refine .bind (typeName_alike hname m.type) fun target target' htarget => ?_
    refine .bind (addUse_alike (by simp) htarget _ _) fun _ _ _ => ih.bind fun rest rest' hrest => .pure ?_
    have hspan : m.name.span = (m.name.respell lower).span := rfl
    simp [StructMember.respell, TypeRef.respell, Tree.Member.respell, htarget, hrest, ← hspan, Function.comp_def]

theorem addTypeDecl_alike (d : Tree.TypeDecl) : Alike id id (addTypeDecl d) (addTypeDecl (d.respell lower)) := by
  obtain ⟨name, body⟩ := d
  have hname : name.respell lower = (name.respell lower).respell lower := by simp
  cases body with
  | «alias» parent initial => exact addAlias_alike hname parent initial
  | enumeration values initial =>
    refine addType_alike hname ?_
    simp [TypeKind.respell, Function.comp_def]
  | subrange base min max initial => exact addSubrange_alike hname base min max initial
  | array element dimensions initial =>
    exact .bind (typeName_alike (elementName_alike hname) element) fun e e' he =>
      addArray_alike hname he dimensions initial
  | struct members =>
    have hmembers : (members.map (·.respell lower)).zipIdx =
        members.zipIdx.map (Prod.map (Tree.Member.respell lower) id) := List.zipIdx_map ..
    simp only [addTypeDecl, Tree.TypeDecl.respell, Tree.TypeBody.respell, hmembers]
    refine (addMembers_alike name members.zipIdx).bind fun ms ms' hms => addType_alike hname ?_
    simp [TypeKind.respell, hms]

-- ---------------------------------------------------------------------------
-- Variables
-- ---------------------------------------------------------------------------

def PendingVar.respell (f : String → String) (v : PendingVar) : PendingVar :=
  { v with name := v.name.respell f, type := v.type.respell f, initial := v.initial.map (·.respell f) }

theorem address_alike (location : Option (String × Span)) :
    Alike id id (address location) (address (location.map (Prod.map lower id))) := by
  cases location with
  | none => exact .pure rfl
  | some place =>
    obtain ⟨text, span⟩ := place
    simp only [address, Option.map_some, Prod.map_apply, id, Address.read?_lower]
    cases Address.read? text with
    | some a => exact .pure rfl
    | none =>
      refine .bind (.modify fun u u' hu => ?_) fun _ _ _ => .pure rfl
      simp_all [CompilationUnit.respell, Diagnostic.respell, Diagnostic.of, Label.respell, toString]

theorem blockVars_alike (b : Tree.VarBlock) :
    Alike (List.map (PendingVar.respell lower)) id (blockVars b) (blockVars (b.respell lower)) := by
  unfold blockVars
  refine .bind (h := List.map (List.map (PendingVar.respell lower))) (i := List.map id) (.mapM (fun line => ?_) b.lines)
    fun lines lines' hlines => .pure ?_
  · refine (address_alike line.address).bind fun a a' ha => .pure ?_
    obtain rfl : a = a' := ha
    simp [Tree.VarLine.respell, PendingVar.respell, Tree.VarBlock.respell, Function.comp_def]
  · rw [List.map_id] at hlines
    rw [← hlines, List.map_flatten, id]

/-- A global scope has a name in capital letters, but it is the same for both. -/
theorem declare_alike {scope scope' : String} (hscope : lower scope = lower scope') (v : PendingVar) :
    Alike (VarDecl.respell lower) (VarDecl.respell lower) (declare scope v) (declare scope' (v.respell lower)) := by
  have hvar : v.name.respell lower = (v.name.respell lower).respell lower := by simp
  have hname := scopedName_alike hvar hscope
  refine (typeName_alike hname v.type).bind fun type type' htype => ?_
  by_cases hsection : v.section = .external
  · have hsection' : (v.respell lower).section = .external := hsection
    simp only [if_pos hsection, if_pos hsection']
    apply Alike.pure
    simp [VarDecl.respell, TypeRef.respell, PendingVar.respell, htype, Function.comp_def]
  · have hsection' : ¬ (v.respell lower).section = .external := hsection
    have haddress : (v.respell lower).address = v.address := rfl
    rw [if_neg hsection, if_neg hsection', haddress]
    cases v.address <;> apply Alike.pure <;>
      simp [VarDecl.respell, TypeRef.respell, PendingVar.respell, htype, Function.comp_def]

theorem addGlobals_alike (b : Tree.VarBlock) : Alike id id (addGlobals b) (addGlobals (b.respell lower)) := by
  refine (blockVars_alike b).bind fun vs vs' hvs => ?_
  obtain rfl : vs.map (PendingVar.respell lower) = vs' := hvs
  refine .bind (.forIn (fun v => declare_alike rfl v) (fun decl decl' hdecl => ?_) vs) fun _ _ _ => .pure rfl
  refine .modify fun u u' hu => ?_
  simp_all [CompilationUnit.respell]

-- ---------------------------------------------------------------------------
-- Units
-- ---------------------------------------------------------------------------

/-- Declares the variables of a unit and adds it. -/
def addPouWith (p : Tree.Pou) (vars : List PendingVar) : Building Unit := do
  let vars ← vars.mapM (declare p.name.text)
  let built := Body.ofStatements p.body p.name.span
  let pou : Pou := { name := p.name, kind := p.kind, vars, body := built.1, pools := built.2 }
  modify fun u => { u with pous := u.pous ++ [pou] }

theorem addPouWith_alike (p : Tree.Pou) (vars : List PendingVar) :
    Alike id id (addPouWith p vars) (addPouWith (p.respell lower) (vars.map (PendingVar.respell lower))) := by
  have hscope : lower p.name.text = lower (p.respell lower).name.text := (lower_lower p.name.text).symm
  refine .bind (.mapM (declare_alike hscope) vars) fun decls decls' hdecls => .modify fun u u' hu => ?_
  have hbody : Body.ofStatements (p.respell lower).body (p.respell lower).name.span =
      ((Body.ofStatements p.body p.name.span).1.respell lower, (Body.ofStatements p.body p.name.span).2.respell lower) :=
    Body.ofStatements_respell lowercase_lower p.body p.name.span
  rw [hbody]
  simp_all [CompilationUnit.respell, Pou.respell, Tree.Pou.respell]

theorem addPou_alike (p : Tree.Pou) : Alike id id (addPou p) (addPou (p.respell lower)) := by
  refine .bind (.mapM blockVars_alike p.blocks) fun blocks blocks' hblocks => ?_
  rw [List.map_id] at hblocks
  subst hblocks
  have hvars (result : List PendingVar) :
      Alike id id (addPouWith p (blocks.flatten ++ result))
        (addPouWith (p.respell lower)
          ((blocks.map (List.map (PendingVar.respell lower))).flatten ++ result.map (PendingVar.respell lower))) := by
    rw [← List.map_flatten, ← List.map_append]
    exact addPouWith_alike p _
  obtain ⟨kind, name, returns, _, body⟩ := p
  cases returns with
  | none => exact hvars []
  | some type => exact hvars [{ name, «section» := .result, type }]

theorem addElement_alike (e : Tree.Element) : Alike id id (addElement e) (addElement (e.respell lower)) := by
  cases e with
  | types declarations => exact .forM addTypeDecl_alike declarations
  | globals block => exact addGlobals_alike block
  | pou p => exact addPou_alike p

theorem ofElements_respell (file : FileId) {diagnostics diagnostics' : List Diagnostic}
    (hdiagnostics : diagnostics.map (·.respell lower) = diagnostics'.map (·.respell lower))
    (elements : List Tree.Element) :
    (ofElements file diagnostics elements).respell lower =
      (ofElements file diagnostics' (elements.map (·.respell lower))).respell lower := by
  refine (Alike.forM addElement_alike elements _ _ ?_).2
  simp [CompilationUnit.respell, hdiagnostics]

end CompilationUnit

-- ---------------------------------------------------------------------------
-- Sources
-- ---------------------------------------------------------------------------

open Text

theorem syntaxError_caseless (tokens : List Token) (failure : Failure) :
    (syntaxError (tokens.map Token.caseless) failure).respell lower = (syntaxError tokens failure).respell lower := by
  simp only [syntaxError, List.length_map, List.getElem?_map, List.getLast?_map]
  cases tokens[tokens.length - failure.remaining]? with
  | none => cases tokens.getLast? <;> simp
  | some t => simp [Token.quoted, Diagnostic.respell, Diagnostic.of, Label.respell, toString]

/-- What a source is read as, with another spelling of all names and messages. -/
def respellReply (f : String → String) :
    Except (List Diagnostic) CompilationUnit → Except (List Diagnostic) CompilationUnit
  | .ok u => .ok (u.respell f)
  | .error ds => .error (ds.map (·.respell f))

/-- The unit of the tokens of a source, with the reports of the text that is no token. -/
def unitOfTokens (file : FileId) (tokens : List Token) (errors : List Diagnostic) :
    Except (List Diagnostic) CompilationUnit :=
  let invalid := Literal.check tokens
  if !invalid.isEmpty then .error (errors ++ invalid)
  else
    match parseTokens Grammar.source tokens with
    | .error e => .error (errors ++ [e])
    | .ok elements => .ok (.ofElements file errors elements)

theorem parseUnit_eq (source : String) (file : FileId) :
    parseUnit source file = unitOfTokens file (tokenize source file).1 (tokenize source file).2 := rfl

/-- Tokens in lower case are read as the tokens themselves are. -/
theorem unitOfTokens_caseless (file : FileId) (tokens : List Token) {errors errors' : List Diagnostic}
    (herrors : errors.map (·.respell lower) = errors'.map (·.respell lower)) :
    respellReply lower (unitOfTokens file tokens errors) =
      respellReply lower (unitOfTokens file (tokens.map Token.caseless) errors') := by
  have hcheck := Literal.check_caseless tokens
  have hempty : (Literal.check (tokens.map Token.caseless)).isEmpty = (Literal.check tokens).isEmpty := by
    simpa using congrArg List.isEmpty hcheck
  unfold unitOfTokens
  simp only [hempty]
  split
  · simp [respellReply, hcheck, herrors]
  · rw [parseTokens, parseTokens, Grammar.source_agrees.parseAll]
    cases Parser.parseAll Grammar.source tokens with
    | error failure => simp [Except.map, Except.mapError, respellReply, syntaxError_caseless, herrors]
    | ok elements =>
      exact congrArg Except.ok (CompilationUnit.ofElements_respell file herrors elements)

/-- Sources that are the same but for case are read as the same unit, or refused with the same reports. -/
theorem SameButCase.respellReply_lower {source source' : String} (h : SameButCase source source') (file : FileId) :
    respellReply lower (parseUnit source file) = respellReply lower (parseUnit source' file) := by
  rw [parseUnit_eq, parseUnit_eq, unitOfTokens_caseless file _ (h.diagnostics file), h.tokens file,
    ← unitOfTokens_caseless file _ rfl]

/-- Of equal units in lower case, all names have equal keys. -/
theorem toOption_respell_eq {r r' : Except (List Diagnostic) CompilationUnit}
    (h : respellReply lower r = respellReply lower r') :
    r.toOption.map (·.respell lowercase) = r'.toOption.map (·.respell lowercase) := by
  have hkeys (u : CompilationUnit) : (u.respell lower).respell lowercase = u.respell lowercase := by
    rw [CompilationUnit.respell_respell, show lowercase ∘ lower = lowercase from funext lowercase_lower]
  cases r with
  | error ds =>
    cases r' with
    | error ds' => rfl
    | ok u' => cases h
  | ok u =>
    cases r' with
    | error ds' => cases h
    | ok u' =>
      have hlower : u.respell lower = u'.respell lower := Except.ok.inj h
      have hkeyed : u.respell lowercase = u'.respell lowercase := by
        rw [← hkeys u, hlower, hkeys u']
      exact congrArg some hkeyed

/--
Structured Text does not depend on the case of letters. Two sources that differ only in the case of ASCII letters
outside of strings have tokens of the same kinds at the same places, the same problems with text that is none, and
either both of them are refused, or both are read as units that are equal when every name is replaced by the key that
names are compared by.
-/
theorem sources_ignore_case {source source' : String} (h : SameButCase source source') (file : FileId) :
    (tokenize source file).1.map (fun t => (t.kind, t.span)) =
        (tokenize source' file).1.map (fun t => (t.kind, t.span)) ∧
      (tokenize source file).2.map (fun d => (d.problem.code, d.primary.span)) =
        (tokenize source' file).2.map (fun d => (d.problem.code, d.primary.span)) ∧
      (parseUnit source file).toOption.map (·.respell lowercase) =
        (parseUnit source' file).toOption.map (·.respell lowercase) := by
  refine ⟨?_, ?_, toOption_respell_eq (h.respellReply_lower file)⟩
  · have htokens := congrArg (List.map fun t => (t.kind, t.span)) (h.tokens file)
    simpa [Function.comp_def] using htokens
  · have hproblems := congrArg (List.map fun d => (d.problem.code, d.primary.span)) (h.diagnostics file)
    simpa [Function.comp_def, Diagnostic.respell, Label.respell] using hproblems

/-- A program in capital letters, with a piece of text in it that is no token. -/
def capitalSource : String :=
  "PROGRAM MAIN VAR B AT %QB1 : BYTE := 16#FF; S : STRING := 'aB'; END_VAR %Q; END_PROGRAM"

/-- The same program in small letters, but for its string. -/
def smallSource : String :=
  "program main var b at %qb1 : byte := 16#ff; s : string := 'aB'; end_var %q; end_program"

theorem sources_ignore_case_of_capitals :
    SameButCase capitalSource smallSource ∧ (parseUnit capitalSource .anonymous).isOk = true ∧
      (tokenize capitalSource).1.map (fun t => (t.kind, t.span)) =
        (tokenize smallSource).1.map (fun t => (t.kind, t.span)) ∧
      (tokenize capitalSource).2.map (fun d => (d.problem.code, d.primary.span)) =
        (tokenize smallSource).2.map (fun d => (d.problem.code, d.primary.span)) ∧
      (parseUnit capitalSource .anonymous).toOption.map (·.respell lowercase) =
        (parseUnit smallSource .anonymous).toOption.map (·.respell lowercase) := by
  have hcapital : capitalSource.toList = _ := String.toList_ofList
  have hsmall : smallSource.toList = _ := String.toList_ofList
  have hletters : lower capitalSource = lower smallSource := by
    rw [lower_eq_lower_iff, hcapital, hsmall]
    decide +kernel
  have hstrings : stringTexts (tokenize capitalSource).1 = stringTexts (tokenize smallSource).1 := by
    rw [tokenize_of_toList hcapital, tokenize_of_toList hsmall]
    decide +kernel
  have hsame : SameButCase capitalSource smallSource := ⟨hletters, hstrings⟩
  have hparse : (parseUnit capitalSource .anonymous).isOk = true := by
    rw [parseUnit, tokenize_of_toList hcapital]
    decide +kernel
  exact ⟨hsame, hparse, sources_ignore_case hsame .anonymous⟩

end StructuredText
