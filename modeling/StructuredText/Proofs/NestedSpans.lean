-- SUMMARY: Outlines whose spans nest: what makes the outline of a node nest if those of its parts do.
import StructuredText.Proofs.Outlines
import StructuredText.Proofs.TokenOrder

/-!
# Nested spans

The parts of a node lie within the node, and the statements of a list lie one after the other. An operator between two
operands begins and ends where its operands do, whatever parentheses are around them. A list of statements begins with
its first statement and ends with its last one. Only an empty list has the place of what encloses it.
-/

namespace StructuredText

-- ---------------------------------------------------------------------------
-- Outlines with nested spans
-- ---------------------------------------------------------------------------

/-- The second span starts after the first one, which has ended by then. -/
def Span.Before (a b : Span) : Prop := a.start < b.start ∧ a.stop ≤ b.start

/-- Every node covers a part of the source, the parts of a node lie within it, and statements follow each other. -/
structure Outline.Nests (source : String) (file : FileId) (o : Outline) : Prop where
  covers : ∀ n ∈ o.nodes, n.span.Covers source file
  within : ∀ n ∈ o.nodes, ∀ part ∈ n.parts, n.span.start ≤ part.span.start ∧ part.span.stop ≤ n.span.stop
  ordered : ∀ n ∈ o.nodes, n.isList = true → n.parts.Pairwise fun a b => a.span.Before b.span

variable {source : String} {file : FileId} {lo lo' mid hi hi' : Nat}

namespace Outline

/-- The outline lies between two bytes of the source, and so do the parts of each node between the ends of the node. -/
inductive Fits (source : String) (file : FileId) : (lo hi : Nat) → Outline → Prop
  | node {lo hi : Nat} {span isList parts} (hcovers : span.Covers source file) (hlo : lo ≤ span.start)
    (hhi : span.stop ≤ hi) (hparts : ∀ part ∈ parts, Fits source file span.start span.stop part)
    (hordered : isList = true → parts.Pairwise fun a b => a.span.Before b.span) :
    Fits source file lo hi (.node span isList parts)

namespace Fits

variable {o : Outline}

theorem mono (h : Fits source file lo' hi' o) (hlo : lo ≤ lo') (hhi : hi' ≤ hi) : Fits source file lo hi o := by
  cases h with
  | node hcovers hlo' hhi' hparts hordered => exact .node hcovers (hlo.trans hlo') (hhi'.trans hhi) hparts hordered

theorem covers (h : Fits source file lo hi o) : o.span.Covers source file := by
  cases h
  assumption

theorem start (h : Fits source file lo hi o) : lo ≤ o.span.start := by
  cases h
  assumption

theorem stop (h : Fits source file lo hi o) : o.span.stop ≤ hi := by
  cases h
  assumption

theorem lt (h : Fits source file lo hi o) : lo < hi := (h.start.trans_lt h.covers.nonempty).trans_le h.stop

/-- An outline takes no more than its span. -/
theorem tight (h : Fits source file lo hi o) : Fits source file o.span.start o.span.stop o := by
  cases h with
  | node hcovers _ _ hparts hordered => exact .node hcovers (Nat.le_refl _) (Nat.le_refl _) hparts hordered

theorem before {o' : Outline} (h : Fits source file lo mid o) (h' : Fits source file mid hi o') :
    o.span.Before o'.span :=
  ⟨(h.covers.nonempty.trans_le h.stop).trans_le h'.start, h.stop.trans h'.start⟩

end Fits

theorem mem_nodesOfAll {n : Outline} {os : List Outline} : n ∈ nodesOfAll os ↔ ∃ o ∈ os, n ∈ o.nodes := by
  induction os with
  | nil => simp [nodesOfAll]
  | cons o os ih => simp [nodesOfAll, ih]

/-- Every node of an outline that fits is like the outline itself. -/
theorem Fits.nodes {o : Outline} (h : Fits source file lo hi o) :
    ∀ n ∈ o.nodes, ∃ lo hi, Fits source file lo hi n := by
  induction h with
  | @node lo hi span isList parts hcovers hlo hhi hparts hordered ih =>
    intro n hn
    rw [Outline.nodes, List.mem_append, mem_nodesOfAll, List.mem_singleton] at hn
    obtain ⟨part, hpart, hn⟩ | rfl := hn
    · exact ih part hpart n hn
    · exact ⟨lo, hi, .node hcovers hlo hhi hparts hordered⟩

theorem Fits.nests {o : Outline} (h : Fits source file lo hi o) : o.Nests source file where
  covers n hn := by
    obtain ⟨_, _, hn⟩ := h.nodes n hn
    exact hn.covers
  within n hn := by
    obtain ⟨_, _, hn⟩ := h.nodes n hn
    cases hn with
    | node _ _ _ hparts _ => exact fun part hpart => ⟨(hparts part hpart).start, (hparts part hpart).stop⟩
  ordered n hn := by
    obtain ⟨_, _, hn⟩ := h.nodes n hn
    cases hn with
    | node _ _ _ _ hordered => exact hordered

-- ---------------------------------------------------------------------------
-- Parts of a node
-- ---------------------------------------------------------------------------

/-- The outlines lie between two bytes of the source. -/
def AllFit (source : String) (file : FileId) (lo hi : Nat) (os : List Outline) : Prop :=
  lo ≤ hi ∧ ∀ o ∈ os, Fits source file lo hi o

namespace AllFit

variable {o : Outline} {os os' : List Outline}

theorem nil (h : lo ≤ hi) : AllFit source file lo hi [] := ⟨h, nofun⟩

theorem mono (h : AllFit source file lo' hi' os) (hlo : lo ≤ lo') (hhi : hi' ≤ hi) : AllFit source file lo hi os :=
  ⟨hlo.trans (h.1.trans hhi), fun o ho => (h.2 o ho).mono hlo hhi⟩

theorem append (h : AllFit source file lo mid os) (h' : AllFit source file mid hi os') :
    AllFit source file lo hi (os ++ os') := by
  refine ⟨h.1.trans h'.1, fun o ho => ?_⟩
  obtain ho | ho := List.mem_append.mp ho
  · exact (h.2 o ho).mono (Nat.le_refl lo) h'.1
  · exact (h'.2 o ho).mono h.1 (Nat.le_refl hi)

theorem single (h : Fits source file lo hi o) : AllFit source file lo hi [o] :=
  ⟨h.lt.le, List.forall_mem_singleton.mpr h⟩

theorem cons (h : Fits source file lo mid o) (h' : AllFit source file mid hi os) : AllFit source file lo hi (o :: os) :=
  (single h).append h'

theorem flatMap {α : Type} {f : α → List Outline} {as : List α}
    (h : Chained (fun lo hi a => AllFit source file lo hi (f a)) lo hi as) :
    AllFit source file lo hi (as.flatMap f) := by
  induction h with
  | nil h => exact .nil h
  | cons hlo ha _ ih => exact (ha.mono hlo (Nat.le_refl _)).append ih

end AllFit

/-- A node of which a parser took the tokens from the first one to the last one. -/
theorem Fits.of_reaches {span : Span} {parts : List Outline} (h : span.Reaches source file lo hi)
    (hparts : AllFit source file span.start hi parts) : Fits source file lo hi (.node span false parts) :=
  .node h.covers h.start h.stop.le (h.stop ▸ hparts.2) nofun

theorem Fits.leaf {span : Span} (h : span.Reaches source file lo hi) : Fits source file lo hi (.node span false []) :=
  .of_reaches h (.nil (h.stop ▸ h.covers.nonempty.le))

end Outline

open Outline (Fits AllFit)

namespace Tree

-- ---------------------------------------------------------------------------
-- Outlines of trees
-- ---------------------------------------------------------------------------

theorem Expr.span_outline (e : Expr) : e.outline.span = e.span := by
  cases e with
  | var path =>
    cases path
    rw [Expr.outline, Path.outline]
    rfl
  | _ =>
    rw [Expr.outline]
    rfl

theorem Expr.outlines_eq (es : List Expr) : Expr.outlines es = es.flatMap fun e => [e.outline] := by
  induction es with
  | nil => rw [Expr.outlines, List.flatMap_nil]
  | cons e es ih => rw [Expr.outlines, ih, List.flatMap_cons, List.singleton_append]

theorem Segment.outlines_eq (segments : List Segment) :
    Segment.outlines segments = segments.flatMap fun s => Segment.outlines [s] := by
  induction segments with
  | nil => rw [Segment.outlines, List.flatMap_nil]
  | cons s segments ih =>
    cases s
    rw [Segment.outlines, ih, List.flatMap_cons, Segment.outlines, Segment.outlines, List.append_nil]

theorem Arg.outlines_eq (args : List Arg) : Arg.outlines args = args.flatMap fun arg => Arg.outlines [arg] := by
  induction args with
  | nil => rw [Arg.outlines, List.flatMap_nil]
  | cons arg args ih =>
    cases arg
    rw [Arg.outlines, ih, List.flatMap_cons, Arg.outlines, Arg.outlines, List.singleton_append]

/-- An operator in front of an operand begins with the operator. -/
theorem fits_ofUnary (op : UnaryOp) {start : Span} {operand : Expr} (hstart : start.Reaches source file lo mid)
    (h : operand.outline.Fits source file mid hi) : (Expr.ofUnary op start operand).outline.Fits source file lo hi := by
  have hle : start.start ≤ operand.outline.span.start := (hstart.covers.nonempty.le.trans hstart.stop.le).trans h.start
  rw [Expr.ofUnary, Expr.outline, ← operand.span_outline]
  refine .node (hstart.covers.join h.covers (hle.trans_lt h.covers.nonempty)) hstart.start h.stop ?_ nofun
  exact List.forall_mem_singleton.mpr (h.tight.mono hle (Nat.le_refl _))

/-- An operator between two operands begins with the first operand and ends with the second one. -/
theorem fits_ofBinary (op : BinaryOp) {left right : Expr} (hleft : left.outline.Fits source file lo mid)
    (hright : right.outline.Fits source file mid hi) :
    (Expr.ofBinary op left right).outline.Fits source file lo hi := by
  obtain ⟨hlt, hle⟩ := hleft.before hright
  have hstop : left.outline.span.stop ≤ right.outline.span.stop := hle.trans hright.covers.nonempty.le
  rw [Expr.ofBinary, Expr.outline, ← left.span_outline, ← right.span_outline]
  refine .node (hleft.covers.join hright.covers (hlt.trans hright.covers.nonempty)) hleft.start hright.stop ?_ nofun
  rintro part (_ | ⟨_, _ | ⟨_, ⟨⟩⟩⟩)
  · exact hleft.tight.mono (Nat.le_refl _) hstop
  · exact hright.tight.mono hlt.le (Nat.le_refl _)

-- ---------------------------------------------------------------------------
-- Lists of statements
-- ---------------------------------------------------------------------------

theorem Stmt.span_outline (s : Stmt) : s.outline.span = s.span := by
  cases s <;> rw [Stmt.outline] <;> rfl

theorem Stmt.outlines_eq (ss : List Stmt) : Stmt.outlines ss = ss.flatMap fun s => [s.outline] := by
  induction ss with
  | nil => rw [Stmt.outlines, List.flatMap_nil]
  | cons s ss ih => rw [Stmt.outlines, ih, List.flatMap_cons, List.singleton_append]

theorem Stmt.outlinesOfBranches_eq (whole : Span) (bs : List (Expr × List Stmt)) :
    Stmt.outlinesOfBranches whole bs = bs.flatMap fun b => [b.1.outline, blockOutline whole b.2] := by
  induction bs with
  | nil => rw [Stmt.outlinesOfBranches, List.flatMap_nil]
  | cons b bs ih =>
    rw [Stmt.outlinesOfBranches, ih, List.flatMap_cons]
    rfl

theorem Stmt.outlinesOfArms_eq (whole : Span) (as : List (List CaseLabel × List Stmt)) :
    Stmt.outlinesOfArms whole as =
      as.flatMap fun arm => arm.1.flatMap CaseLabel.outlines ++ [blockOutline whole arm.2] := by
  induction as with
  | nil => rw [Stmt.outlinesOfArms, List.flatMap_nil]
  | cons arm as ih =>
    rw [Stmt.outlinesOfArms, ih, List.flatMap_cons, List.append_assoc]
    rfl

/-- The statements lie one after the other between two bytes. -/
def InOrder (source : String) (file : FileId) : (lo hi : Nat) → List Stmt → Prop :=
  Chained fun lo hi s => s.outline.Fits source file lo hi

namespace InOrder

variable {ss : List Stmt}

theorem le (h : InOrder source file lo hi ss) : lo ≤ hi := Chained.le h fun _ _ _ h => h.lt.le

theorem allFit (h : InOrder source file lo hi ss) : AllFit source file lo hi (Stmt.outlines ss) := by
  rw [Stmt.outlines_eq]
  exact .flatMap (Chained.mono h fun _ _ _ h => .single h)

theorem pairwise (h : InOrder source file lo hi ss) :
    (Stmt.outlines ss).Pairwise fun a b => a.span.Before b.span := by
  induction h with
  | nil =>
    rw [Stmt.outlines]
    exact .nil
  | cons _ ha has ih =>
    rw [Stmt.outlines]
    exact .cons (fun o ho => ha.before ((allFit has).2 o ho)) ih

/-- Statements take no more than from the start of the first to the end of the last one. -/
theorem tight (h : InOrder source file lo hi ss) {first last : Stmt} (hfirst : ss.head? = some first)
    (hlast : ss.getLast? = some last) :
    lo ≤ first.span.start ∧ last.span.stop ≤ hi ∧ InOrder source file first.span.start last.span.stop ss := by
  induction h generalizing first with
  | nil => cases hfirst
  | @cons lo start mid hi s ss hlo ha has ih =>
    cases hfirst
    have hs : s.outline.Fits source file s.span.start s.span.stop := s.span_outline ▸ ha.tight
    have hstart : lo ≤ s.span.start := s.span_outline ▸ hlo.trans ha.start
    have hstop : s.span.stop ≤ mid := s.span_outline ▸ ha.stop
    cases ss with
    | nil =>
      cases hlast
      exact ⟨hstart, hstop.trans (le has), .cons (Nat.le_refl _) hs (.nil (Nat.le_refl _))⟩
    | cons s' ss =>
      obtain ⟨hstart', hlast, hrest⟩ := ih rfl (List.getLast?_cons_cons ▸ hlast)
      exact ⟨hstart, hlast, .cons (Nat.le_refl _) hs (Chained.of_le hrest (hstop.trans hstart'))⟩

end InOrder

/-- A list without parts is empty, and has the place of what encloses it. -/
theorem span_blockOutline_of_parts (whole : Span) {ss : List Stmt} (h : (blockOutline whole ss).parts = []) :
    (blockOutline whole ss).span = whole := by
  cases ss with
  | nil => rfl
  | cons s ss =>
    rw [blockOutline, Stmt.outlines] at h
    cases h

theorem fits_blockOutline_nil {whole : Span} (h : whole.Covers source file) :
    (blockOutline whole []).Fits source file whole.start whole.stop := by
  rw [blockOutline, Stmt.outlines]
  exact .node h (Nat.le_refl _) (Nat.le_refl _) (fun _ hpart => absurd hpart List.not_mem_nil) fun _ => .nil

/-- A list of statements that is not empty lies where its statements lie. -/
theorem fits_blockOutline {ss : List Stmt} (h : InOrder source file lo hi ss) (hne : ss ≠ []) (whole : Span) :
    (blockOutline whole ss).Fits source file lo hi := by
  obtain ⟨first, hfirst⟩ := Option.isSome_iff_exists.mp (List.isSome_head?.mpr hne)
  obtain ⟨last, hlast⟩ := Option.isSome_iff_exists.mp (List.getLast?_isSome.mpr hne)
  obtain ⟨hstart, hstop, htight⟩ := h.tight hfirst hlast
  have hspan : Body.blockSpan whole ss = .join first.span last.span := by
    rw [Body.blockSpan, hfirst, hlast]
  have covers {s : Stmt} (hs : s ∈ ss) : s.span.Covers source file := by
    obtain ⟨_, _, hs⟩ := Chained.exists_of_mem h s hs
    exact s.span_outline ▸ hs.covers
  have hlt : first.span.start < last.span.stop := Chained.lt htight (fun _ _ _ h => h.lt) hne
  rw [blockOutline, hspan]
  exact .node ((covers (List.mem_of_head? hfirst)).join (covers (List.mem_of_getLast? hlast)) hlt) hstart hstop
    htight.allFit.2 fun _ => htight.pairwise

-- ---------------------------------------------------------------------------
-- Parts of a statement
-- ---------------------------------------------------------------------------

/-- The parts of a statement lie between two bytes, or where the whole statement lies if they are empty lists. -/
def Placed (source : String) (file : FileId) (lo hi : Nat) (parts : Span → List Outline) : Prop :=
  lo ≤ hi ∧ ∀ whole : Span, whole.Covers source file → whole.start ≤ lo → hi ≤ whole.stop →
    ∀ o ∈ parts whole, o.Fits source file whole.start whole.stop

namespace Placed

variable {parts parts' : Span → List Outline}

theorem of_allFit {os : List Outline} (h : AllFit source file lo hi os) : Placed source file lo hi fun _ => os :=
  ⟨h.1, fun _ _ hstart hstop o ho => (h.2 o ho).mono hstart hstop⟩

theorem mono (h : Placed source file lo' hi' parts) (hlo : lo ≤ lo') (hhi : hi' ≤ hi) :
    Placed source file lo hi parts :=
  ⟨hlo.trans (h.1.trans hhi), fun whole hwhole hstart hstop =>
    h.2 whole hwhole (hstart.trans hlo) (hhi.trans hstop)⟩

theorem append (h : Placed source file lo mid parts) (h' : Placed source file mid hi parts') :
    Placed source file lo hi fun whole => parts whole ++ parts' whole := by
  refine ⟨h.1.trans h'.1, fun whole hwhole hstart hstop o ho => ?_⟩
  obtain ho | ho := List.mem_append.mp ho
  · exact h.2 whole hwhole hstart (h'.1.trans hstop) o ho
  · exact h'.2 whole hwhole (hstart.trans h.1) hstop o ho

theorem flatMap {α : Type} {f : α → Span → List Outline} {as : List α}
    (h : Chained (fun lo hi a => Placed source file lo hi (f a)) lo hi as) :
    Placed source file lo hi fun whole => as.flatMap fun a => f a whole := by
  induction h with
  | nil h => exact ⟨h, nofun⟩
  | cons hlo ha _ ih => exact (ha.mono hlo (Nat.le_refl _)).append ih

theorem block {ss : List Stmt} (h : InOrder source file lo hi ss) :
    Placed source file lo hi fun whole => [blockOutline whole ss] := by
  refine ⟨h.le, fun whole hwhole hstart hstop => List.forall_mem_singleton.mpr ?_⟩
  by_cases hne : ss = []
  · subst hne
    exact fits_blockOutline_nil hwhole
  · exact (fits_blockOutline h hne whole).mono hstart hstop

end Placed

/-- The statement has parts that lie between two bytes. It still lacks its span. -/
def Fills (source : String) (file : FileId) (lo hi : Nat) (f : Span → Stmt) : Prop :=
  lo < hi ∧ ∃ parts, Placed source file lo hi parts ∧ ∀ whole, (f whole).outline = .node whole false (parts whole)

theorem Fills.fits {f : Span → Stmt} {span : Span} (h : Fills source file span.start hi f)
    (hspan : span.Reaches source file lo hi) : (f span).outline.Fits source file lo hi := by
  obtain ⟨-, parts, hparts, houtline⟩ := h
  rw [houtline]
  exact .node hspan.covers hspan.start hspan.stop.le (hparts.2 span hspan.covers (Nat.le_refl _) hspan.stop.ge) nofun

end Tree

end StructuredText
