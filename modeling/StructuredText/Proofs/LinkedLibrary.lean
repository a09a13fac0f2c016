-- SUMMARY: A library that is linked from fresh units is resolved, and so are the bodies of its units.
import StructuredText.Proofs.LinkedVars
import StructuredText.Proofs.SafeStmt
import StructuredText.Proofs.Prepared

/-!
# Linked libraries

The stages of linking are followed from the merged units to the library that can be executed. Variables get their types
before they get their initial values, and those of function blocks get them before the variables of other units do. The
names in bodies are linked in two steps in between, which only rely on how many variables there are; the bodies are
checked last, when everything that they refer to is resolved.
-/

namespace StructuredText

-- ---------------------------------------------------------------------------
-- Bodies
-- ---------------------------------------------------------------------------

/-- The unit with another body, whose names may have been looked up. -/
def Pou.Rebodied (p p' : Pou) : Prop := p' = { p with body := p'.body, pools := p'.pools }

/-- The units of the library have other bodies, and nothing else is changed. -/
structure Library.Rebodied (l l' : Library) : Prop where
  same : l' = { l with pous := l'.pous }
  pous : List.Forall₂ Pou.Rebodied l.pous l'.pous

/-- The libraries have the same types, and as many variables in the same units. -/
structure Library.Outlined (l l' : Library) : Prop where
  types : l'.types = l.types
  globals : l'.globals.length = l.globals.length
  pous : List.Forall₂ (fun p p' => p'.kind = p.kind ∧ p'.vars.length = p.vars.length) l.pous l'.pous

theorem Library.Rebodied.outlined {l l' : Library} (h : l.Rebodied l') : l.Outlined l' := by
  refine ⟨by rw [h.same], by rw [h.same], h.pous.imp fun p p' hp => ?_⟩
  rw [hp]
  exact ⟨rfl, rfl⟩

theorem Library.Revised.outlined {R : VarDecl → VarDecl → Prop} {select : PouKind → Bool} {l l' : Library}
    (h : l.Revised R select l') : l.Outlined l' :=
  ⟨h.types, by rw [h.globals], h.pous.imp fun _ _ hp => ⟨hp.kind, hp.length⟩⟩

theorem exists_getElem?_of_length {α : Type} {as bs : List α} (h : bs.length = as.length) {i : Nat}
    (ha : ∃ a, as[i]? = some a) : ∃ b, bs[i]? = some b := by
  obtain ⟨a, ha⟩ := ha
  obtain ⟨hlt, -⟩ := List.getElem?_eq_some_iff.mp ha
  exact ⟨_, List.getElem?_eq_getElem (h ▸ hlt)⟩

section

variable {l l' : Library} {vars vars' : List VarDecl} (h : l.Outlined l') (hvars : vars'.length = vars.length)

include h hvars

theorem Root.Valid.outlined {root : Root} (hroot : root.Valid l vars) : root.Valid l' vars' := by
  cases root with
  | own i => exact exists_getElem?_of_length hvars hroot
  | global i => exact exists_getElem?_of_length h.globals hroot
  | program pou =>
    obtain ⟨p, hp, hkind⟩ := hroot
    obtain ⟨p', hp', hkind', -⟩ := TypeTable.exists_getElem?_of_forall₂ h.pous hp
    exact ⟨p', hp', hkind'.trans hkind⟩

theorem Callee.Valid.outlined {inUnit : Prop} {callee : Callee} (hcallee : callee.Valid l vars inUnit) :
    callee.Valid l' vars' inUnit := by
  cases callee with
  | standard f => trivial
  | function pou =>
    obtain ⟨hunit, p, hp, hkind⟩ := hcallee
    obtain ⟨p', hp', hkind', -⟩ := TypeTable.exists_getElem?_of_forall₂ h.pous hp
    exact ⟨hunit, p', hp', hkind' ▸ hkind⟩
  | «instance» root => exact ⟨hcallee.1, hcallee.2.outlined h hvars⟩

theorem Link.Located.outlined {head : Head} (hhead : Located l vars head) : Located l' vars' head := by
  refine ⟨?_, hhead.2⟩
  have hopened := hhead.1
  cases head with
  | literal info v =>
    refine ⟨hopened.1, ?_⟩
    rw [h.types]
    exact hopened.2
  | var info path indexes =>
    obtain ⟨hfixed, hsegments, hsimple, hroot⟩ := hopened
    exact ⟨hfixed, hsegments, hsimple, fun root heq => (hroot root heq).outlined h hvars⟩
  | operator info => exact hopened
  | call info callee bindings => exact ⟨hopened.1, fun c hc => (hopened.2 c hc).outlined h hvars⟩

end

/-- The references in the bodies are linked, their nodes have identifiers of their own, and no call is missing. -/
def Library.References (l : Library) : Prop :=
  ∀ p ∈ l.pous, Head.Distinct p.body.heads ∧ (∀ h ∈ p.body.heads, Link.Located l p.vars h) ∧
    p.pools.calls = p.body.pools.calls

theorem Library.References.revised {R : VarDecl → VarDecl → Prop} {select : PouKind → Bool} {l l' : Library}
    (hl : l.References) (h : l.Revised R select l') : l'.References := by
  intro p' hp'
  obtain ⟨p, hp, hrevised⟩ := TypeTable.exists_of_mem_right h.pous hp'
  obtain ⟨hdistinct, hlocated, hcalls⟩ := hl p hp
  rw [hrevised.body, hrevised.pools]
  exact ⟨hdistinct, fun head hhead => (hlocated head hhead).outlined h.outlined hrevised.length, hcalls⟩

namespace Link

variable {l l' : Library}

theorem linkBodies_eq_nil {step : Pou → List Diagnostic × Pou} (h : linkBodies step l = ([], l')) :
    l' = { l with pous := l.pous.map fun p => (step p).2 } ∧ ∀ p ∈ l.pous, (step p).1 = [] := by
  unfold linkBodies at h
  obtain ⟨hnone, rfl⟩ := Prod.mk.inj h
  refine ⟨by rw [List.map_map]; rfl, fun p hp => ?_⟩
  rw [List.flatMap_map, List.flatMap_eq_nil_iff] at hnone
  exact hnone p hp

theorem rebodied_of_linkBodies {step : Pou → List Diagnostic × Pou} (hstep : ∀ p : Pou, p.Rebodied (step p).2)
    (l : Library) : l.Rebodied (linkBodies step l).2 := by
  simp only [linkBodies, List.map_map]
  exact ⟨rfl, List.forall₂_map_right_iff.mpr (List.forall₂_same.mpr fun p _ => hstep p)⟩

theorem rebodied_of_linkAllVariables (l : Library) : l.Rebodied (linkAllVariables l).2 := by
  unfold linkAllVariables
  refine rebodied_of_linkBodies (fun p => ?_) l
  exact rfl

theorem rebodied_of_linkAllCalls (l : Library) : l.Rebodied (linkAllCalls l).2 := by
  unfold linkAllCalls
  refine rebodied_of_linkBodies (fun p => ?_) l
  exact rfl

/-- All references are linked if none of them was refused. -/
theorem references_of_linkAllVariables (hunlinked : ∀ p ∈ l.pous, Body.Unlinked p.body p.pools)
    (h : linkAllVariables l = ([], l')) : l.Rebodied l' ∧ l'.References := by
  have hrebodied := rebodied_of_linkAllVariables l
  rw [h] at hrebodied
  obtain ⟨rfl, hnone⟩ := linkBodies_eq_nil h
  refine ⟨hrebodied, fun p' hp' => ?_⟩
  obtain ⟨p, hp, rfl⟩ := List.mem_map.mp hp'
  obtain ⟨⟨hdistinct, hheads⟩, hpools⟩ := hunlinked p hp
  have hnone := hnone p hp
  dsimp only at hnone ⊢
  rw [hpools] at hnone ⊢
  obtain ⟨-, hdistinct, hopened, hcalls, hrooted⟩ :=
    linkVariables_names l (some p) hdistinct fun head hhead => (hheads head hhead).opened
  refine ⟨hdistinct, fun head hhead => ?_, hcalls.symm⟩
  have hlocated : Located l p.vars head := ⟨hopened head hhead, hrooted hnone head hhead⟩
  exact hlocated.outlined hrebodied.outlined rfl

/-- All names in the bodies are resolved if no call was refused. -/
theorem resolved_of_linkAllCalls (hl : l.References) (h : linkAllCalls l = ([], l')) :
    l.Rebodied l' ∧ ∀ p ∈ l'.pous, p.body.Satisfies (Expr.resolved l' p.vars True) := by
  have hrebodied := rebodied_of_linkAllCalls l
  rw [h] at hrebodied
  obtain ⟨rfl, hnone⟩ := linkBodies_eq_nil h
  refine ⟨hrebodied, fun p' hp' => ?_⟩
  obtain ⟨p, hp, rfl⟩ := List.mem_map.mp hp'
  obtain ⟨hdistinct, hlocated, hpools⟩ := hl p hp
  have hnone := hnone p hp
  dsimp only at hnone ⊢
  rw [hpools] at hnone ⊢
  obtain ⟨-, -, hlocated, hcalled⟩ := linkCalls_names l (some p) hdistinct hlocated
  exact resolved_of_names (fun head hhead => (hlocated head hhead).outlined hrebodied.outlined rfl) (hcalled hnone)

/-- The second body is what linking the variables of the first one, and then the calls, results in. -/
def NamesLinked (body body' : Stmt) : Prop :=
  ∃ l pou pool l' pou' pool', body' = (linkCalls l' pou' pool' (linkVariables l pou pool body).2).2

end Link

/-- Every body of the second library is one of the first one, with the names in it. -/
def Library.Inherited (l l' : Library) : Prop := ∀ p' ∈ l'.pous, ∃ p ∈ l.pous, p'.body = p.body ∧ p'.pools = p.pools

namespace Library.Inherited

variable {l l' l'' : Library}

theorem trans (h : l.Inherited l') (h' : l'.Inherited l'') : l.Inherited l'' := fun p'' hp'' => by
  obtain ⟨p', hp', hbody', hpools'⟩ := h' p'' hp''
  obtain ⟨p, hp, hbody, hpools⟩ := h p' hp'
  exact ⟨p, hp, hbody'.trans hbody, hpools'.trans hpools⟩

theorem «forall» {Q : Stmt → BodyPools → Prop} (h : l.Inherited l') (hl : ∀ p ∈ l.pous, Q p.body p.pools) :
    ∀ p ∈ l'.pous, Q p.body p.pools := by
  intro p' hp'
  obtain ⟨p, hp, hbody, hpools⟩ := h p' hp'
  rw [hbody, hpools]
  exact hl p hp

end Library.Inherited

theorem Library.Revised.inherited {R : VarDecl → VarDecl → Prop} {select : PouKind → Bool} {l l' : Library}
    (h : l.Revised R select l') : l.Inherited l' := fun _ hp' => by
  obtain ⟨p, hp, hrevised⟩ := TypeTable.exists_of_mem_right h.pous hp'
  exact ⟨p, hp, hrevised.body, hrevised.pools⟩

/-- What happens to a body between the stages that link names is nothing. -/
theorem Link.namesLinked_of_stages {l l₁ l₂ l₃ l' : Library} (h : l.Inherited l₁) (hvariables : linkAllVariables l₁ = ([], l₂))
    (h' : l₂.Inherited l₃) (hcalls : linkAllCalls l₃ = ([], l')) :
    ∀ p' ∈ l'.pous, ∃ p ∈ l.pous, NamesLinked p.body p'.body := by
  obtain ⟨rfl, -⟩ := linkBodies_eq_nil hvariables
  obtain ⟨rfl, -⟩ := linkBodies_eq_nil hcalls
  intro p' hp'
  obtain ⟨p₃, hp₃, rfl⟩ := List.mem_map.mp hp'
  obtain ⟨p₂, hp₂, hbody₃, -⟩ := h' p₃ hp₃
  obtain ⟨p₁, hp₁, rfl⟩ := List.mem_map.mp hp₂
  obtain ⟨p, hp, hbody₁, -⟩ := h p₁ hp₁
  refine ⟨p, hp, l₁, some p₁, p₁.pools.vars, l₃, some p₃, p₃.pools.calls, ?_⟩
  dsimp only at hbody₃ ⊢
  rw [← hbody₁, ← hbody₃]

-- ---------------------------------------------------------------------------
-- Linked bodies
-- ---------------------------------------------------------------------------

section

variable {l l' : Library} (h : l.Rebodied l')

include h

theorem Library.Rebodied.pou {pou : Nat} {p : Pou} (hp : l.pous[pou]? = some p) :
    ∃ p', l'.pous[pou]? = some p' ∧ p'.kind = p.kind ∧ p'.vars = p.vars := by
  obtain ⟨p', hp', hsame⟩ := TypeTable.exists_getElem?_of_forall₂ h.pous hp
  exact ⟨p', hp', by rw [hsame], by rw [hsame]⟩

theorem Library.Rebodied.types : l'.types = l.types := by rw [h.same]

theorem Library.Rebodied.globals : l'.globals = l.globals := by rw [h.same]

theorem Library.Leads.rebodied {type part : TypeId} {selector : Selector} (hleads : l.Leads type selector part) :
    l'.Leads type selector part := by
  cases hleads with
  | member hkind hm hpart => exact .member (h.types ▸ hkind) hm hpart
  | element hkind hpart => exact .element (h.types ▸ hkind) hpart
  | var hkind hp hdecl hpart =>
    obtain ⟨p', hp', -, hvars⟩ := h.pou hp
    exact .var (h.types ▸ hkind) hp' (hvars ▸ hdecl) hpart

theorem Library.Refers.rebodied {vars : List VarDecl} {root : Root} {selectors : List Selector} {type : TypeId}
    (hrefers : l.Refers vars root selectors type) : l'.Refers vars root selectors type := by
  induction hrefers with
  | own hdecl htype => exact .own hdecl htype
  | global hdecl htype => exact .global (h.globals ▸ hdecl) htype
  | program hp hkind hdecl htype =>
    obtain ⟨p', hp', hkind', hvars⟩ := h.pou hp
    exact .program hp' (hkind'.trans hkind) (hvars ▸ hdecl) htype
  | step _ hlead ih => exact .step ih (hlead.rebodied h)

theorem Callee.Links.rebodied {vars : List VarDecl} {inUnit : Prop} {args : List Expr} {bindings : List ArgBinding}
    {callee : Callee} (hlinks : callee.Links l vars inUnit args bindings) :
    callee.Links l' vars inUnit args bindings := by
  have hparam {p p' : Pou} (hvars : p'.vars = p.vars) {b : ArgBinding} (hb : b.Links p args) : b.Links p' args :=
    ⟨hvars ▸ hb.param, hb.arg⟩
  cases callee with
  | standard f => trivial
  | function pou =>
    obtain ⟨hunit, p, hp, hkind, hbindings⟩ := hlinks
    obtain ⟨p', hp', hkind', hvars⟩ := h.pou hp
    exact ⟨hunit, p', hp', hkind' ▸ hkind, fun b hb => hparam hvars (hbindings b hb)⟩
  | «instance» root =>
    obtain ⟨hunit, type, pou, p, hrefers, hkind, hp, hbindings⟩ := hlinks
    obtain ⟨p', hp', -, hvars⟩ := h.pou hp
    exact ⟨hunit, type, pou, p', hrefers.rebodied h, h.types ▸ hkind, hp', fun b hb => hparam hvars (hbindings b hb)⟩

/-- A linked expression stays linked when bodies change. -/
theorem Expr.Linked.rebodied {vars : List VarDecl} {inUnit : Prop} {e : Expr} (he : e.Linked l vars inUnit) :
    e.Linked l' vars inUnit := by
  have himplies : (Expr.linked l vars inUnit).Implies (Expr.linked l' vars inUnit) := by
    refine ⟨id, ?_, id, ?_⟩
    · rintro info path indexes ⟨type, root, hlinks⟩
      exact ⟨type, root, hlinks.typed, h.types ▸ hlinks.declared, hlinks.permanent, hlinks.rooted,
        hlinks.refers.rebodied h, hlinks.fixed⟩
    · rintro info callee args bindings ⟨c, hc, hlinks⟩
      exact ⟨c, hc, hlinks.rebodied h⟩
  exact Expr.Satisfies.mono himplies he

theorem Library.Resolved.rebodied (hl : l.Resolved) : l'.Resolved := by
  refine ⟨?_, ?_, fun id d pou hd hkind => ?_, fun decl hdecl => ?_, fun p' hp' decl hdecl => ?_⟩
  · rw [h.types]
    exact hl.types
  · rw [h.types]
    exact hl.initials
  · obtain ⟨p, hp, hblock⟩ := hl.blocks id d pou (h.types ▸ hd) hkind
    obtain ⟨p', hp', hkind', -⟩ := h.pou hp
    exact ⟨p', hp', hkind'.trans hblock⟩
  · obtain ⟨hexternal, type, hresolved⟩ := hl.globals decl (h.globals ▸ hdecl)
    exact ⟨hexternal, type, hresolved.congr h.types h.globals⟩
  · obtain ⟨p, hp, hsame⟩ := TypeTable.exists_of_mem_right h.pous hp'
    rw [hsame] at hdecl
    obtain ⟨type, hresolved⟩ := hl.vars p hp decl hdecl
    exact ⟨type, hresolved.congr h.types h.globals⟩

end

namespace Body

theorem verify_ne (s : Scope) (body : Stmt) : verify s body ≠ .error [] := by
  unfold verify
  rcases (checkStmt s false body).run.run [] with ⟨_ | checked, _ | ⟨d, ds⟩⟩ <;> simp

theorem prepare_ne (s : Scope) (body : Stmt) : prepare s body ≠ .error [] := by
  unfold prepare
  cases hverify : verify s body with
  | error ds =>
    rintro ⟨⟩
    exact verify_ne s body hverify
  | ok checked =>
    cases hfixed : checked.mapExprsM (·.mapNodesM fixNode) <;> simp [hfixed, Except.mapError, bind, Except.bind]

end Body

namespace Link

variable {l l' : Library}

/-- Preparing the bodies of a library replaces the body of each unit in turn. -/
theorem forall₂_of_prepareBodies {epsilon : Float} (h : prepareBodies epsilon l = .ok l') :
    ∃ pous, l' = { l with pous } ∧ List.Forall₂ (fun (p : Pou) p' =>
      ∃ body, Body.prepare ⟨l, some p, epsilon⟩ p.body = .ok body ∧ p' = { p with body }) l.pous pous := by
  obtain ⟨pous, hpous, h⟩ := Except.bind_eq_ok.mp h
  cases h
  refine ⟨pous, rfl, (forall₂_of_collect (fun p _ => ?_) hpous).imp fun p p' hp => ?_⟩
  · cases hbody : Body.prepare ⟨l, some p, epsilon⟩ p.body with
    | error ds =>
      rintro ⟨⟩
      exact Body.prepare_ne _ _ hbody
    | ok body => nofun
  · obtain ⟨body, hbody, hp⟩ := Except.bind_eq_ok.mp hp
    cases hp
    exact ⟨body, hbody, rfl⟩

/-- Preparing the bodies of a resolved library links them. -/
theorem linked_of_prepareBodies {epsilon : Float} (hl : l.Resolved)
    (hbodies : ∀ p ∈ l.pous, p.body.Satisfies (Expr.resolved l p.vars True))
    (h : prepareBodies epsilon l = .ok l') : l.Rebodied l' ∧ l'.BodiesLinked := by
  obtain ⟨pous, rfl, hprepared⟩ := forall₂_of_prepareBodies h
  have hrebodied : l.Rebodied { l with pous } := ⟨rfl, hprepared.imp fun p p' ⟨body, _, hsame⟩ => hsame ▸ rfl⟩
  refine ⟨hrebodied, fun p' hp' => ?_⟩
  obtain ⟨p, hp, body, hbody, rfl⟩ := TypeTable.exists_of_mem_right hprepared hp'
  have hscope : Body.Scope.Resolved ⟨l, some p, epsilon⟩ := ⟨hl, hl.vars p hp⟩
  exact (Body.prepare_wellFormed hscope (hbodies p hp) hbody).mono fun e he => he.rebodied hrebodied

end Link

-- ---------------------------------------------------------------------------
-- Stages
-- ---------------------------------------------------------------------------

/-- The types and global variables of the library are resolved, and the variables of the units of some kinds. -/
structure Library.Declared (created : PouKind → Bool) (l : Library) : Prop where
  typed : l.Typed
  globals : l.GlobalsResolved
  names : l.pous.Pairwise fun p q => (p.name == q.name) = false
  vars : ∀ p ∈ l.pous, ∀ v ∈ p.vars, v.Headed l.types
  created : ∀ p ∈ l.pous, created p.kind = true → ∀ v ∈ p.vars, ∃ type, v.Resolved l type

namespace Library

variable {R : VarDecl → VarDecl → Prop} {select created : PouKind → Bool} {l l' : Library}

theorem Typed.congr (hl : l.Typed) (htypes : l'.types = l.types)
    (hpous : List.Forall₂ (fun p p' : Pou => p'.kind = p.kind) l.pous l'.pous) : l'.Typed := by
  refine ⟨htypes ▸ hl.types, htypes ▸ hl.initials, fun id d pou hd hkind => ?_⟩
  obtain ⟨p, hp, hblock⟩ := hl.blocks id d pou (htypes ▸ hd) hkind
  obtain ⟨p', hp', hsame⟩ := TypeTable.exists_getElem?_of_forall₂ hpous hp
  exact ⟨p', hp', hsame.trans hblock⟩

theorem Typed.lookup?_declares (hl : l.Typed) (name : Ident) (id : TypeId) (h : l.types.lookup? name = some id) :
    l.types.Declares id := hl.types.lookup?_declares h

theorem GlobalsResolved.congr (hl : l.GlobalsResolved) (htypes : l'.types = l.types)
    (hglobals : l'.globals = l.globals) : l'.GlobalsResolved := by
  intro decl hdecl
  obtain ⟨howned, type, hresolved⟩ := hl decl (hglobals ▸ hdecl)
  exact ⟨howned, type, hresolved.congr htypes hglobals⟩

/-- Variables keep their headers if every one that is revised does. -/
theorem Revised.headed (h : l.Revised R select l') (hR : ∀ v v', R v v' → v.Headed l.types → v'.Headed l.types)
    (hl : ∀ p ∈ l.pous, ∀ v ∈ p.vars, v.Headed l.types) : ∀ p ∈ l'.pous, ∀ v ∈ p.vars, v.Headed l'.types := by
  intro p' hp' v' hv'
  obtain ⟨p, hp, hrevised⟩ := TypeTable.exists_of_mem_right h.pous hp'
  rw [h.types]
  cases hselect : select p.kind with
  | true =>
    obtain ⟨v, hv, hrelated⟩ := TypeTable.exists_of_mem_right (hrevised.vars hselect) hv'
    exact hR v v' hrelated (hl p hp v hv)
  | false =>
    rw [hrevised.kept hselect] at hv'
    exact hl p hp v' hv'

/-- Units whose variables are resolved are left alone while other units are revised. -/
theorem Declared.revised (hl : l.Declared created) (h : l.Revised R select l')
    (hR : ∀ v v', R v v' → v.Headed l.types → v'.Headed l.types)
    (hother : ∀ kind, created kind = true → select kind = false) : l'.Declared created := by
  refine ⟨hl.typed.congr h.types (h.pous.imp fun _ _ hp => hp.kind), hl.globals.congr h.types h.globals,
    h.names hl.names,
    h.headed hR hl.vars, fun p' hp' hcreated v hv => ?_⟩
  obtain ⟨p, hp, hrevised⟩ := TypeTable.exists_of_mem_right h.pous hp'
  rw [hrevised.kind] at hcreated
  rw [hrevised.kept (hother p.kind hcreated)] at hv
  obtain ⟨type, hresolved⟩ := hl.created p hp hcreated v hv
  exact ⟨type, hresolved.congr h.types h.globals⟩

theorem Declared.rebodied (hl : l.Declared created) (h : l.Rebodied l') : l'.Declared created := by
  have hmem {p' : Pou} (hp' : p' ∈ l'.pous) : ∃ p ∈ l.pous, p'.kind = p.kind ∧ p'.vars = p.vars := by
    obtain ⟨p, hp, hsame⟩ := TypeTable.exists_of_mem_right h.pous hp'
    exact ⟨p, hp, by rw [hsame], by rw [hsame]⟩
  refine ⟨hl.typed.congr h.types (h.pous.imp fun p p' hp => by rw [hp]), hl.globals.congr h.types h.globals,
    names_of_forall₂ (fun p p' hp => by rw [hp]) h.pous hl.names, fun p' hp' v hv => ?_, fun p' hp' hcreated v hv => ?_⟩
  · obtain ⟨p, hp, -, hvars⟩ := hmem hp'
    rw [h.types]
    exact hl.vars p hp v (hvars ▸ hv)
  · obtain ⟨p, hp, hkind, hvars⟩ := hmem hp'
    obtain ⟨type, hresolved⟩ := hl.created p hp (hkind ▸ hcreated) v (hvars ▸ hv)
    exact ⟨type, hresolved.congr h.types h.globals⟩

/-- Everything is resolved once the variables of all units are. -/
theorem Declared.resolved (hl : l.Declared created) (hall : ∀ kind, created kind = true) : l.Resolved :=
  ⟨hl.typed.types, hl.typed.initials,
    hl.typed.blocks, hl.globals, fun p hp => hl.created p hp (hall p.kind)⟩

end Library

namespace Link

variable {l l' : Library} {select created : PouKind → Bool}

/-- The variables of the units that get their initial values are resolved. -/
theorem declared_of_createVars (hl : l.Declared created) (hother : ∀ kind, created kind = true → select kind = false)
    (h : createVars select l = .ok l') :
    l'.Declared (fun kind => created kind || select kind) ∧ l.Revised (fun v v' => createVar l v = .ok v') select l' := by
  have hrevised := revised_of_createVars h
  have hdeclared := hl.revised hrevised (fun v v' hv hheaded => createVar_same hv ▸ hheaded.withDefault _) hother
  refine ⟨⟨hdeclared.typed, hdeclared.globals, hdeclared.names, hdeclared.vars, fun p' hp' hkind v' hv' => ?_⟩, hrevised⟩
  obtain hcreated | hselect := Bool.or_eq_true_iff.mp hkind
  · exact hdeclared.created p' hp' hcreated v' hv'
  · obtain ⟨p, hp, hpou⟩ := TypeTable.exists_of_mem_right hrevised.pous hp'
    obtain ⟨v, hv, hvar⟩ := TypeTable.exists_of_mem_right (hpou.vars (hpou.kind ▸ hselect)) hv'
    obtain ⟨type, hresolved⟩ := resolved_of_createVar hl.typed.initials hl.globals (hl.vars p hp v hv) hvar
    exact ⟨type, hresolved.congr hrevised.types hrevised.globals⟩

/-- The variables of the units get declared types. -/
theorem declared_of_linkHeaders (hl : l.Declared created) (hother : ∀ kind, created kind = true → select kind = false)
    (h : linkHeaders (l.pousOf select) l = .ok l') :
    l'.Declared created ∧ l.Revised (VarDecl.Retyped l.types) select l' := by
  have hrevised := revised_of_linkHeaders hl.typed.lookup?_declares hl.names h
  exact ⟨hl.revised hrevised (fun _ _ hv hheaded => hv.headed hheaded) hother, hrevised⟩

/-- The global variables are resolved once they are linked. -/
theorem globals_of_linkGlobals (hl : l.Typed) (hglobals : ∀ v ∈ l.globals, v.Headed l.types ∧ v.isExternal = false)
    (h : linkGlobals l = .ok l') : l' = { l with globals := l'.globals } ∧ l'.GlobalsResolved := by
  unfold linkGlobals at h
  rcases hheader : linkHeader .global l.globals l with ⟨errors, l₁⟩
  simp only [hheader] at h
  obtain ⟨_, hfinish, h⟩ := Except.bind_eq_ok.mp h
  obtain ⟨globals, hcreated, h⟩ := Except.bind_eq_ok.mp h
  cases h
  obtain ⟨rfl, -⟩ := finish_eq_ok.mp hfinish
  obtain ⟨hsame, hretyped⟩ := retyped_of_linkHeader hl.lookup?_declares hheader
  have htypes : l₁.types = l.types := by rw [hsame]
  refine ⟨by rw [hsame], fun decl hdecl => ?_⟩
  obtain ⟨v₁, hv₁, hcreate⟩ := TypeTable.exists_of_mem_right
    (forall₂_of_collect (fun v _ => createValue_ne l₁.types v) hcreated) hdecl
  obtain ⟨v, hv, hvar⟩ := TypeTable.exists_of_mem_right hretyped hv₁
  obtain ⟨hheaded, howned⟩ := hglobals v hv
  have hheaded₁ : v₁.Headed l₁.types := htypes ▸ hvar.headed hheaded
  have howned₁ : v₁.isExternal = false := by obtain rfl | ⟨id, -, rfl⟩ := hvar <;> exact howned
  obtain ⟨type, hresolved⟩ := resolved_of_createValue (l := { l₁ with globals })
    (htypes ▸ hl.initials : l₁.types.Proper _) hheaded₁ howned₁ hcreate
  obtain ⟨_, _, -, -, rfl⟩ := createValue_eq_ok hcreate
  exact ⟨howned₁, type, hresolved⟩

/-- The external variables and the references of all bodies are linked. -/
theorem declared_of_linkReferences (hl : l.Declared fun _ => false) (hunlinked : ∀ p ∈ l.pous, Body.Unlinked p.body p.pools)
    (h : linkReferences l = .ok l') :
    l'.Declared (fun _ => false) ∧ l'.References ∧ ∃ l₁, l.Inherited l₁ ∧ linkAllVariables l₁ = ([], l') := by
  unfold linkReferences at h
  dsimp only at h
  generalize hfold : (List.range l.pous.length).foldl _ _ = result at h
  obtain ⟨errors, l₁⟩ := result
  rcases hvariables : linkAllVariables l₁ with ⟨more, l₂⟩
  simp only [hvariables] at h
  obtain ⟨hnone, rfl⟩ := finish_eq_ok.mp h
  obtain ⟨rfl, rfl⟩ := List.append_eq_nil_iff.mp hnone
  have hshared : KeepsShared l l₁ := by
    have hkept := (foldl_unreported (I := KeepsShared l) (fun i _ s hnone => ?_) (congrArg Prod.fst hfold)).2
      (.refl VarDecl.Shared.refl l)
    · rwa [hfold] at hkept
    · obtain ⟨errors, l₃⟩ := s
      rcases hlink : linkExternals l₃ i with ⟨ds, l₄⟩
      simp only [hlink, List.append_eq_nil_iff] at hnone ⊢
      obtain ⟨rfl, rfl⟩ := hnone
      refine ⟨rfl, fun hI => hI.trans VarDecl.Shared.trans (shared_of_linkExternals (fun p hp v hv => ?_) hlink)⟩
      exact (hI.headed (fun _ _ hv hheaded => hv.headed hheaded) hl.vars p hp v hv).external
  have hdeclared := hl.revised hshared (fun _ _ hv hheaded => hv.headed hheaded) nofun
  have hinherited : l.Inherited l₁ := hshared.inherited
  obtain ⟨hrebodied, hreferences⟩ := references_of_linkAllVariables (hinherited.forall hunlinked) hvariables
  exact ⟨hdeclared.rebodied hrebodied, hreferences, l₁, hinherited, hvariables⟩

/-- The header of every variable is linked before the first initial value is created. -/
theorem declared_of_merged {uses : List TypeUse} {l₁ l₂ l₃ : Library} (hl : l.Merged uses)
    (htypes : linkTypes uses l = .ok l₁) (hheaders : linkHeaders (l₁.pousOf select) l₁ = .ok l₂)
    (hglobals : linkGlobals l₂ = .ok l₃) :
    l₃.Declared (fun _ => false) ∧ l.Inherited l₃ := by
  obtain ⟨htyped, hsame₁⟩ := typed_of_linkTypes hl htypes
  have hpous₁ : l₁.pous = l.pous := by rw [hsame₁]
  have hglobals₁ : l₁.globals = l.globals := by rw [hsame₁]
  have hrevised := revised_of_linkHeaders htyped.lookup?_declares (hpous₁ ▸ hl.names) hheaders
  have htyped₂ := htyped.congr hrevised.types (hrevised.pous.imp fun _ _ hp => hp.kind)
  have hheaded₂ : ∀ v ∈ l₂.globals, v.Headed l₂.types ∧ v.isExternal = false := fun v hv =>
    (hl.globals v (hglobals₁ ▸ hrevised.globals ▸ hv)).imp_left (·.headed)
  obtain ⟨hsame₃, hresolved⟩ := globals_of_linkGlobals htyped₂ hheaded₂ hglobals
  have hpous₃ : l₃.pous = l₂.pous := by rw [hsame₃]
  have htypes₃ : l₃.types = l₂.types := by rw [hsame₃]
  have hheaded := hrevised.headed (fun _ _ hv hheaded => hv.headed hheaded) fun p hp v hv =>
    (hl.vars p (hpous₁ ▸ hp) v hv).headed
  refine ⟨⟨htyped₂.congr htypes₃ (hpous₃ ▸ List.forall₂_same.mpr fun _ _ => rfl), hresolved, ?_, ?_, nofun⟩, fun p hp => ?_⟩
  · rw [hpous₃]
    exact hrevised.names (hpous₁ ▸ hl.names)
  · rw [hpous₃, htypes₃]
    exact hheaded
  · obtain ⟨p₁, hp₁, hsame⟩ := hrevised.inherited p (hpous₃ ▸ hp)
    exact ⟨p₁, hpous₁ ▸ hp₁, hsame⟩

/-- Before the bodies of fresh units are prepared, everything is resolved. -/
theorem unprepared_of_stages {units : List CompilationUnit} {options : Options} (hunits : ∀ u ∈ units, u.Fresh)
    (h : stages units options = .ok l) :
    ∃ l₀ : Library, l₀.Resolved ∧ (∀ p ∈ l₀.pous, p.body.Satisfies (Expr.resolved l₀ p.vars True)) ∧
      (∀ p ∈ l₀.pous, ∃ u ∈ units, ∃ p₀ ∈ u.pous, NamesLinked p₀.body p.body) ∧
        prepareBodies options.realEpsilon l₀ = .ok l := by
  obtain ⟨l₁, hmerge, h⟩ := Except.bind_eq_ok.mp h
  obtain ⟨l₂, htypes, h⟩ := Except.bind_eq_ok.mp h
  obtain ⟨l₃, hblockHeaders, h⟩ := Except.bind_eq_ok.mp h
  obtain ⟨l₄, hglobals, h⟩ := Except.bind_eq_ok.mp h
  obtain ⟨l₅, hreferences, h⟩ := Except.bind_eq_ok.mp h
  obtain ⟨l₆, hblocks, h⟩ := Except.bind_eq_ok.mp h
  obtain ⟨l₇, hheaders, h⟩ := Except.bind_eq_ok.mp h
  obtain ⟨l₈, hvalues, h⟩ := Except.bind_eq_ok.mp h
  obtain ⟨l₉, hcalls, hprepare⟩ := Except.bind_eq_ok.mp h
  obtain ⟨_, -, hblocks⟩ := Except.bind_eq_ok.mp hblocks
  obtain ⟨_, -, hblocks⟩ := Except.bind_eq_ok.mp hblocks
  obtain ⟨hnone, hsame⟩ := finish_eq_ok.mp hcalls
  have hmerged := merged_of_merge hunits hmerge
  obtain ⟨hdeclared₄, hinherited₄⟩ := declared_of_merged hmerged htypes hblockHeaders hglobals
  obtain ⟨hdeclared₅, hnames₅, l₄', hinherited₅, hvariables⟩ :=
    declared_of_linkReferences hdeclared₄ (hinherited₄.forall hmerged.bodies) hreferences
  obtain ⟨hdeclared₆, hrevised₆⟩ := declared_of_createVars hdeclared₅ nofun hblocks
  obtain ⟨hdeclared₇, hrevised₇⟩ := declared_of_linkHeaders hdeclared₆ (by simp) hheaders
  obtain ⟨hdeclared₈, hrevised₈⟩ := declared_of_createVars hdeclared₇ (by simp) hvalues
  have hcalled : linkAllCalls l₈ = ([], l₉) := Prod.ext hnone hsame
  obtain ⟨hrebodied₉, hbodies⟩ := resolved_of_linkAllCalls
    (((hnames₅.revised hrevised₆).revised hrevised₇).revised hrevised₈) hcalled
  refine ⟨l₉, (hdeclared₈.rebodied hrebodied₉).resolved fun kind => by cases kind <;> rfl, hbodies, fun p hp => ?_, hprepare⟩
  have hinherited₈ := (hrevised₆.inherited.trans hrevised₇.inherited).trans hrevised₈.inherited
  obtain ⟨p₁, hp₁, hlinked⟩ := namesLinked_of_stages (hinherited₄.trans hinherited₅) hvariables hinherited₈ hcalled p hp
  obtain ⟨u, hu, hp₁⟩ := mem_units_of_merge hmerge hp₁
  exact ⟨u, hu, p₁, hp₁, hlinked⟩

/-- Linking fresh units results in a library in which everything is resolved. -/
theorem resolved_of_stages {units : List CompilationUnit} {options : Options} (hunits : ∀ u ∈ units, u.Fresh)
    (h : stages units options = .ok l) : l.Resolved ∧ l.BodiesLinked := by
  obtain ⟨l₀, hresolved, hbodies, -, hprepare⟩ := unprepared_of_stages hunits h
  obtain ⟨hrebodied, hlinked⟩ := linked_of_prepareBodies hresolved hbodies hprepare
  exact ⟨hresolved.rebodied hrebodied, hlinked⟩

end Link

/-- What is linked from fresh units is resolved. -/
theorem resolved_of_link {units : List CompilationUnit} {options : Options} {l : Library}
    (hunits : ∀ u ∈ units, u.Fresh) (h : link units options = .ok l) : l.Resolved ∧ l.BodiesLinked :=
  Link.resolved_of_stages hunits (stages_of_link h)

end StructuredText
