-- SUMMARY: Names spelled in another way, in values, trees, bodies and compilation units.
import StructuredText.CompilationUnit

/-!
# Respelling

The names in a tree or in a compilation unit are texts that may be written in more than one way. Below every name is
replaced by another spelling of it, and nothing else changes: not the spans, the constants, the kinds, or the order.
Two units whose names are replaced by the keys that names are compared by are equal when they only differ in spelling.
-/

namespace StructuredText

variable (f g : String → String)

-- ---------------------------------------------------------------------------
-- Names and values
-- ---------------------------------------------------------------------------

/-- The name at its place in another spelling. -/
def Ident.respell (i : Ident) : Ident := ⟨f i.text, i.span⟩

@[simp] theorem Ident.respell_respell (i : Ident) : (i.respell f).respell g = i.respell (g ∘ f) := rfl

namespace Value

mutual

def respell : Value → Value
  | .enumeration name => .enumeration (name.respell f)
  | .array elements => .array (respellAll elements)
  | .struct members => .struct (respellMembers members)
  | .arrayInit items => .arrayInit (respellItems items)
  | v => v

def respellAll : List Value → List Value
  | [] => []
  | v :: vs => v.respell :: respellAll vs

def respellMembers : List (Ident × Value) → List (Ident × Value)
  | [] => []
  | (name, v) :: members => (name.respell f, v.respell) :: respellMembers members

def respellItems : List (Nat × Value) → List (Nat × Value)
  | [] => []
  | (count, v) :: items => (count, v.respell) :: respellItems items

end

@[simp] theorem respellMembers_eq (members : List (Ident × Value)) :
    respellMembers f members = members.map (Prod.map (Ident.respell f) (respell f)) := by
  induction members with
  | nil => rfl
  | cons m members ih => simp [respellMembers, ih, Prod.map]

@[simp] theorem respellItems_eq (items : List (Nat × Value)) :
    respellItems f items = items.map (Prod.map id (respell f)) := by
  induction items with
  | nil => rfl
  | cons item items ih => simp [respellItems, ih, Prod.map]

mutual

@[simp] theorem respell_respell (v : Value) : (v.respell f).respell g = v.respell (g ∘ f) := by
  cases v with
  | enumeration name => simp only [respell, Ident.respell_respell]
  | array elements => simp only [respell, respellAll_respellAll elements]
  | struct members => simp only [respell, respellMembers_respellMembers members]
  | arrayInit items => simp only [respell, respellItems_respellItems items]
  | _ => rfl

theorem respellAll_respellAll (vs : List Value) : respellAll g (respellAll f vs) = respellAll (g ∘ f) vs := by
  cases vs with
  | nil => rfl
  | cons v vs => simp only [respellAll, respell_respell v, respellAll_respellAll vs]

theorem respellMembers_respellMembers (members : List (Ident × Value)) :
    respellMembers g (respellMembers f members) = respellMembers (g ∘ f) members := by
  cases members with
  | nil => rfl
  | cons m members =>
    simp only [respellMembers, Ident.respell_respell, respell_respell m.2, respellMembers_respellMembers members]

theorem respellItems_respellItems (items : List (Nat × Value)) :
    respellItems g (respellItems f items) = respellItems (g ∘ f) items := by
  cases items with
  | nil => rfl
  | cons item items => simp only [respellItems, respell_respell item.2, respellItems_respellItems items]

end

end Value

-- ---------------------------------------------------------------------------
-- Trees
-- ---------------------------------------------------------------------------

namespace Tree

mutual

def Expr.respell : Expr → Expr
  | .constant value span => .constant (value.respell f) span
  | .typed type value span => .typed (type.respell f) (value.respell f) span
  | .var path => .var path.respell
  | .unary op operand span => .unary op operand.respell span
  | .binary op left right span => .binary op left.respell right.respell span
  | .call name args span => .call (name.respell f) (Arg.respellAll args) span

def Path.respell : Path → Path
  | .mk segments span => .mk (Segment.respellAll segments) span

def Segment.respellAll : List Segment → List Segment
  | [] => []
  | .mk name indexes span :: segments =>
    .mk (name.respell f) (Expr.respellAll indexes) span :: Segment.respellAll segments

def Expr.respellAll : List Expr → List Expr
  | [] => []
  | e :: es => e.respell :: Expr.respellAll es

def Arg.respellAll : List Arg → List Arg
  | [] => []
  | .mk name value output :: args => .mk (name.map (·.respell f)) value.respell output :: Arg.respellAll args

end

def Segment.respell : Segment → Segment
  | .mk name indexes span => .mk (name.respell f) (indexes.map (·.respell f)) span

def Arg.respell : Arg → Arg
  | .mk name value output => .mk (name.map (·.respell f)) (value.respell f) output

@[simp] theorem Segment.respell_mk (name : Ident) (indexes : List Expr) (span : Span) :
    (Segment.mk name indexes span).respell f = .mk (name.respell f) (indexes.map (·.respell f)) span := rfl

@[simp] theorem Arg.respell_mk (name : Option Ident) (value : Expr) (output : Bool) :
    (Arg.mk name value output).respell f = .mk (name.map (·.respell f)) (value.respell f) output := rfl

@[simp] theorem Expr.respellAll_eq (es : List Expr) : Expr.respellAll f es = es.map (·.respell f) := by
  induction es with
  | nil => rfl
  | cons e es ih => simp [Expr.respellAll, ih]

@[simp] theorem Segment.respellAll_eq (segments : List Segment) :
    Segment.respellAll f segments = segments.map (·.respell f) := by
  induction segments with
  | nil => rfl
  | cons s segments ih => cases s; simp [Segment.respellAll, ih]

@[simp] theorem Arg.respellAll_eq (args : List Arg) : Arg.respellAll f args = args.map (·.respell f) := by
  induction args with
  | nil => rfl
  | cons arg args ih => cases arg; simp [Arg.respellAll, ih]

@[simp] theorem Path.span_respell (p : Path) : (p.respell f).span = p.span := by
  cases p
  rfl

@[simp] theorem Expr.span_respell (e : Expr) : (e.respell f).span = e.span := by
  cases e with
  | var path => exact path.span_respell f
  | _ => rfl

def CaseLabel.respell : CaseLabel → CaseLabel
  | .value e => .value (e.respell f)
  | .range low high => .range (low.respell f) (high.respell f)

namespace Stmt

mutual

def respell : Stmt → Stmt
  | .assign target value span => .assign (target.respell f) (value.respell f) span
  | .call name args span => .call (name.respell f) (args.map (·.respell f)) span
  | .ifThen branches otherwise span => .ifThen (respellBranches branches) (respellOption otherwise) span
  | .case selector arms otherwise span =>
    .case (selector.respell f) (respellArms arms) (respellOption otherwise) span
  | .forLoop control start stop step body span =>
    .forLoop (control.respell f) (start.respell f) (stop.respell f) (step.map (·.respell f)) (respellAll body) span
  | .whileLoop condition body span => .whileLoop (condition.respell f) (respellAll body) span
  | .repeatLoop body condition span => .repeatLoop (respellAll body) (condition.respell f) span
  | .exit span => .exit span
  | .ret span => .ret span

def respellAll : List Stmt → List Stmt
  | [] => []
  | s :: ss => s.respell :: respellAll ss

def respellOption : Option (List Stmt) → Option (List Stmt)
  | none => none
  | some ss => some (respellAll ss)

def respellBranches : List (Expr × List Stmt) → List (Expr × List Stmt)
  | [] => []
  | (condition, ss) :: branches => (condition.respell f, respellAll ss) :: respellBranches branches

def respellArms : List (List CaseLabel × List Stmt) → List (List CaseLabel × List Stmt)
  | [] => []
  | (labels, ss) :: arms => (labels.map (·.respell f), respellAll ss) :: respellArms arms

end

attribute [simp] respell

@[simp] theorem respellAll_eq (ss : List Stmt) : respellAll f ss = ss.map (·.respell f) := by
  induction ss with
  | nil => rfl
  | cons s ss ih => simp [respellAll, ih]

@[simp] theorem respellOption_eq (otherwise : Option (List Stmt)) :
    respellOption f otherwise = otherwise.map (List.map (·.respell f)) := by
  cases otherwise <;> simp [respellOption]

@[simp] theorem respellBranches_eq (branches : List (Expr × List Stmt)) :
    respellBranches f branches = branches.map (Prod.map (·.respell f) (List.map (·.respell f))) := by
  induction branches with
  | nil => rfl
  | cons branch branches ih => simp [respellBranches, ih, Prod.map]

@[simp] theorem respellArms_eq (arms : List (List CaseLabel × List Stmt)) :
    respellArms f arms = arms.map (Prod.map (List.map (·.respell f)) (List.map (·.respell f))) := by
  induction arms with
  | nil => rfl
  | cons arm arms ih => simp [respellArms, ih, Prod.map]

@[simp] theorem span_respell (s : Stmt) : (s.respell f).span = s.span := by
  cases s <;> rfl

end Stmt

def TypeExpr.respell : TypeExpr → TypeExpr
  | .named name => .named (name.respell f)
  | .subrange base min max => .subrange (base.respell f) min max
  | .array element dimensions => .array element.respell dimensions

def Member.respell (m : Member) : Member := ⟨m.name.respell f, m.type.respell f, m.initial.map (·.respell f)⟩

def TypeBody.respell : TypeBody → TypeBody
  | .alias parent initial => .alias (parent.respell f) (initial.map (·.respell f))
  | .enumeration values initial => .enumeration (values.map (·.respell f)) (initial.map (·.respell f))
  | .subrange base min max initial => .subrange (base.respell f) min max (initial.map (·.respell f))
  | .array element dimensions initial => .array (element.respell f) dimensions (initial.map (·.respell f))
  | .struct members => .struct (members.map (·.respell f))

def TypeDecl.respell (d : TypeDecl) : TypeDecl := ⟨d.name.respell f, d.body.respell f⟩

/-- The text of an address is a name that has more than one spelling, too. -/
def VarLine.respell (l : VarLine) : VarLine :=
  ⟨l.names.map (·.respell f), l.address.map (Prod.map f id), l.type.respell f, l.initial.map (·.respell f)⟩

def VarBlock.respell (b : VarBlock) : VarBlock := { b with lines := b.lines.map (·.respell f) }

def Pou.respell (p : Pou) : Pou :=
  ⟨p.kind, p.name.respell f, p.returns.map (·.respell f), p.blocks.map (·.respell f), p.body.map (·.respell f)⟩

def Element.respell : Element → Element
  | .types declarations => .types (declarations.map (·.respell f))
  | .globals block => .globals (block.respell f)
  | .pou p => .pou (p.respell f)

end Tree

-- ---------------------------------------------------------------------------
-- Bodies
-- ---------------------------------------------------------------------------

def Segment.respell (s : Segment) : Segment := { s with name := s.name.respell f }

def VarPath.respell (p : VarPath) : VarPath := { p with segments := p.segments.map (·.respell f) }

def ArgLabel.respell (l : ArgLabel) : ArgLabel := { l with name := l.name.map (·.respell f) }

namespace Expr

mutual

def respell : Expr → Expr
  | .literal info value type => .literal info (value.respell f) (type.map (·.respell f))
  | .var info path indexes => .var info (path.respell f) (respellAll indexes)
  | .unary info op operand => .unary info op operand.respell
  | .binary info op left right => .binary info op left.respell right.respell
  | .call info name labels args callee bindings =>
    .call info (name.respell f) (labels.map (·.respell f)) (respellAll args) callee bindings

def respellAll : List Expr → List Expr
  | [] => []
  | e :: es => e.respell :: respellAll es

end

theorem respellAll_eq (es : List Expr) : respellAll f es = es.map (·.respell f) := by
  induction es with
  | nil => rfl
  | cons e es ih => simp [respellAll, ih]

end Expr

def CaseLabel.respell : CaseLabel → CaseLabel
  | .value e => .value (e.respell f)
  | .range low high => .range (low.respell f) (high.respell f)

namespace Stmt

mutual

def respell : Stmt → Stmt
  | .eval e => .eval (e.respell f)
  | .assign info target value => .assign info (target.respell f) (value.respell f)
  | .block info statements => .block info (respellAll statements)
  | .ifThen info branches otherwise => .ifThen info (respellBranches branches) (respellOption otherwise)
  | .case info selector arms otherwise =>
    .case info (selector.respell f) (respellArms arms) (respellOption otherwise)
  | .forLoop info control start stop step body =>
    .forLoop info (control.respell f) (start.respell f) (stop.respell f) (step.map (·.respell f)) body.respell
  | .whileLoop info condition body => .whileLoop info (condition.respell f) body.respell
  | .repeatLoop info body condition => .repeatLoop info body.respell (condition.respell f)
  | .exit info => .exit info
  | .ret info => .ret info

def respellAll : List Stmt → List Stmt
  | [] => []
  | s :: ss => s.respell :: respellAll ss

def respellOption : Option Stmt → Option Stmt
  | none => none
  | some s => some s.respell

def respellBranches : List (Expr × Stmt) → List (Expr × Stmt)
  | [] => []
  | (condition, s) :: branches => (condition.respell f, s.respell) :: respellBranches branches

def respellArms : List (List CaseLabel × Stmt) → List (List CaseLabel × Stmt)
  | [] => []
  | (labels, s) :: arms => (labels.map (·.respell f), s.respell) :: respellArms arms

end

theorem respellAll_eq (ss : List Stmt) : respellAll f ss = ss.map (·.respell f) := by
  induction ss with
  | nil => rfl
  | cons s ss ih => simp [respellAll, ih]

theorem respellOption_eq (otherwise : Option Stmt) : respellOption f otherwise = otherwise.map (·.respell f) := by
  cases otherwise <;> rfl

theorem respellBranches_eq (branches : List (Expr × Stmt)) :
    respellBranches f branches = branches.map (Prod.map (·.respell f) (·.respell f)) := by
  induction branches with
  | nil => rfl
  | cons branch branches ih => simp [respellBranches, ih, Prod.map]

theorem respellArms_eq (arms : List (List CaseLabel × Stmt)) :
    respellArms f arms = arms.map (Prod.map (List.map (·.respell f)) (·.respell f)) := by
  induction arms with
  | nil => rfl
  | cons arm arms ih => simp [respellArms, ih, Prod.map]

end Stmt

-- ---------------------------------------------------------------------------
-- Compilation units
-- ---------------------------------------------------------------------------

def TypeRef.respell (r : TypeRef) : TypeRef := { r with name := r.name.respell f }

def StructMember.respell (m : StructMember) : StructMember :=
  { m with name := m.name.respell f, type := m.type.respell f, initial := m.initial.map (·.respell f) }

def TypeKind.respell : TypeKind → TypeKind
  | .elementary e => .elementary e
  | .alias parent initial => .alias (parent.respell f) (initial.map (·.respell f))
  | .enumeration values initial => .enumeration (values.map (·.respell f)) (initial.map (·.respell f))
  | .subrange base min max initial => .subrange (base.respell f) min max (initial.map (·.respell f))
  | .array element dimensions initial => .array (element.respell f) dimensions (initial.map (·.respell f))
  | .struct members => .struct (members.map (·.respell f))
  | .block pou => .block pou

def TypeDecl.respell (d : TypeDecl) : TypeDecl := { d with name := d.name.respell f, kind := d.kind.respell f }

def TypeUse.respell (u : TypeUse) : TypeUse := { u with target := u.target.respell f, holder := u.holder.respell f }

def VarDecl.respell (v : VarDecl) : VarDecl :=
  { v with
    name := v.name.respell f, type := v.type.respell f, initial := v.initial.map (·.respell f)
    default := v.default.respell f }

def Reference.respell {ρ : Type} (r : Reference ρ) : Reference ρ := { r with name := r.name.map (·.respell f) }

def RefEntry.respell {ρ : Type} (e : RefEntry ρ) : RefEntry ρ := { e with reference := e.reference.respell f }

def RefGroup.respell {ρ σ : Type} (g : RefGroup ρ σ) : RefGroup ρ σ :=
  { g with name := g.name.respell f, entries := g.entries.map (·.respell f) }

def RefPool.respell {ρ σ : Type} (p : RefPool ρ σ) : RefPool ρ σ :=
  { groups := p.groups.map (·.respell f), checks := p.checks.map (·.respell f) }

def BodyPools.respell (p : BodyPools) : BodyPools :=
  { vars := p.vars.respell f, calls := p.calls.respell f }

def Pou.respell (p : Pou) : Pou :=
  { p with
    name := p.name.respell f, vars := p.vars.map (·.respell f), body := p.body.respell f
    pools := p.pools.respell f }

def Label.respell (l : Label) : Label := { l with message := f l.message }

/-- The diagnostic with other texts. -/
def Diagnostic.respell (d : Diagnostic) : Diagnostic :=
  { d with
    primary := d.primary.respell f, context := d.context.map (Prod.map id f)
    secondary := d.secondary.map (·.respell f) }

def CompilationUnit.respell (u : CompilationUnit) : CompilationUnit :=
  { u with
    types := u.types.map (·.respell f), uses := u.uses.map (·.respell f), globals := u.globals.map (·.respell f)
    pous := u.pous.map (·.respell f), diagnostics := u.diagnostics.map (·.respell f) }

-- ---------------------------------------------------------------------------
-- One spelling after the other
-- ---------------------------------------------------------------------------

@[simp] theorem Segment.respell_respell (s : Segment) : (s.respell f).respell g = s.respell (g ∘ f) := rfl

@[simp] theorem VarPath.respell_respell (p : VarPath) : (p.respell f).respell g = p.respell (g ∘ f) := by
  simp [VarPath.respell, Function.comp_def]

@[simp] theorem ArgLabel.respell_respell (l : ArgLabel) : (l.respell f).respell g = l.respell (g ∘ f) := by
  simp [ArgLabel.respell, Function.comp_def]

mutual

@[simp] theorem Expr.respell_respell (e : Expr) : (e.respell f).respell g = e.respell (g ∘ f) := by
  cases e with
  | literal info value type => simp [Expr.respell, Function.comp_def]
  | var info path indexes => simp [Expr.respell, Expr.respellAll_respellAll indexes]
  | unary info op operand => simp [Expr.respell, Expr.respell_respell operand]
  | binary info op left right => simp [Expr.respell, Expr.respell_respell left, Expr.respell_respell right]
  | call info name labels args callee bindings =>
    simp [Expr.respell, Expr.respellAll_respellAll args, Function.comp_def]

theorem Expr.respellAll_respellAll (es : List Expr) :
    Expr.respellAll g (Expr.respellAll f es) = Expr.respellAll (g ∘ f) es := by
  cases es with
  | nil => rfl
  | cons e es => simp [Expr.respellAll, Expr.respell_respell e, Expr.respellAll_respellAll es]

end

@[simp] theorem CaseLabel.respell_respell (l : CaseLabel) : (l.respell f).respell g = l.respell (g ∘ f) := by
  cases l <;> simp [CaseLabel.respell]

namespace Stmt

mutual

@[simp] theorem respell_respell (s : Stmt) : (s.respell f).respell g = s.respell (g ∘ f) := by
  cases s with
  | block info ss => simp [respell, respellAll_respellAll ss]
  | ifThen info branches otherwise =>
    simp [respell, respellBranches_respellBranches branches, respellOption_respellOption otherwise]
  | case info selector arms otherwise =>
    simp [respell, respellArms_respellArms arms, respellOption_respellOption otherwise]
  | forLoop info control start stop step body => simp [respell, respell_respell body, Function.comp_def]
  | whileLoop info condition body => simp [respell, respell_respell body]
  | repeatLoop info body condition => simp [respell, respell_respell body]
  | _ => simp [respell]

theorem respellAll_respellAll (ss : List Stmt) : respellAll g (respellAll f ss) = respellAll (g ∘ f) ss := by
  cases ss with
  | nil => rfl
  | cons s ss => simp [respellAll, respell_respell s, respellAll_respellAll ss]

theorem respellOption_respellOption (otherwise : Option Stmt) :
    respellOption g (respellOption f otherwise) = respellOption (g ∘ f) otherwise := by
  cases otherwise with
  | none => rfl
  | some s => simp [respellOption, respell_respell s]

theorem respellBranches_respellBranches (branches : List (Expr × Stmt)) :
    respellBranches g (respellBranches f branches) = respellBranches (g ∘ f) branches := by
  cases branches with
  | nil => rfl
  | cons branch branches =>
    simp [respellBranches, respell_respell branch.2, respellBranches_respellBranches branches]

theorem respellArms_respellArms (arms : List (List CaseLabel × Stmt)) :
    respellArms g (respellArms f arms) = respellArms (g ∘ f) arms := by
  cases arms with
  | nil => rfl
  | cons arm arms =>
    simp [respellArms, respell_respell arm.2, respellArms_respellArms arms, Function.comp_def]

end

end Stmt

@[simp] theorem TypeRef.respell_respell (r : TypeRef) : (r.respell f).respell g = r.respell (g ∘ f) := rfl

@[simp] theorem StructMember.respell_respell (m : StructMember) :
    (m.respell f).respell g = m.respell (g ∘ f) := by
  simp [StructMember.respell, Function.comp_def]

@[simp] theorem TypeKind.respell_respell (k : TypeKind) : (k.respell f).respell g = k.respell (g ∘ f) := by
  cases k <;> simp [TypeKind.respell, Function.comp_def]

@[simp] theorem TypeDecl.respell_respell (d : TypeDecl) : (d.respell f).respell g = d.respell (g ∘ f) := by
  simp [TypeDecl.respell]

@[simp] theorem TypeUse.respell_respell (u : TypeUse) : (u.respell f).respell g = u.respell (g ∘ f) := rfl

@[simp] theorem VarDecl.respell_respell (v : VarDecl) : (v.respell f).respell g = v.respell (g ∘ f) := by
  simp [VarDecl.respell, Function.comp_def]

@[simp] theorem Reference.respell_respell {ρ : Type} (r : Reference ρ) :
    (r.respell f).respell g = r.respell (g ∘ f) := by
  simp [Reference.respell, Function.comp_def]

@[simp] theorem RefEntry.respell_respell {ρ : Type} (e : RefEntry ρ) :
    (e.respell f).respell g = e.respell (g ∘ f) := by
  simp [RefEntry.respell]

@[simp] theorem RefGroup.respell_respell {ρ σ : Type} (r : RefGroup ρ σ) :
    (r.respell f).respell g = r.respell (g ∘ f) := by
  simp [RefGroup.respell, Function.comp_def]

@[simp] theorem RefPool.respell_respell {ρ σ : Type} (p : RefPool ρ σ) :
    (p.respell f).respell g = p.respell (g ∘ f) := by
  simp [RefPool.respell, Function.comp_def]

@[simp] theorem BodyPools.respell_respell (p : BodyPools) : (p.respell f).respell g = p.respell (g ∘ f) := by
  simp [BodyPools.respell]

@[simp] theorem Pou.respell_respell (p : Pou) : (p.respell f).respell g = p.respell (g ∘ f) := by
  simp [Pou.respell, Function.comp_def]

@[simp] theorem Label.respell_respell (l : Label) : (l.respell f).respell g = l.respell (g ∘ f) := rfl

@[simp] theorem Diagnostic.respell_respell (d : Diagnostic) :
    (d.respell f).respell g = d.respell (g ∘ f) := by
  simp [Diagnostic.respell, Function.comp_def]

theorem CompilationUnit.respell_respell (u : CompilationUnit) :
    (u.respell f).respell g = u.respell (g ∘ f) := by
  simp [CompilationUnit.respell, Function.comp_def]

end StructuredText
