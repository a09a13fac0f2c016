-- SUMMARY: In the bodies of a linked library every `EXIT` stands in a loop.
import StructuredText.Link
import StructuredText.Proofs.Replaced
import StructuredText.Proofs.Verified

/-!
# Exits

An `EXIT` leaves the innermost loop of its own unit. Linking accepts it only within a loop, and preparing a
body for execution does not move its statements.
-/

namespace StructuredText

namespace Stmt

mutual

/-- Every `EXIT` of the statement stands in a loop, which may be one around the statement. -/
def ExitsInLoops (inLoop : Prop) : Stmt → Prop
  | .eval _ | .assign .. | .ret _ => True
  | .block _ statements => AllExitInLoops inLoop statements
  | .ifThen _ branches otherwise =>
    BranchesExitInLoops inLoop branches ∧ OptionExitsInLoops inLoop otherwise
  | .case _ _ arms otherwise => ArmsExitInLoops inLoop arms ∧ OptionExitsInLoops inLoop otherwise
  | .forLoop _ _ _ _ _ body | .whileLoop _ _ body | .repeatLoop _ body _ => body.ExitsInLoops True
  | .exit _ => inLoop

def AllExitInLoops (inLoop : Prop) : List Stmt → Prop
  | [] => True
  | s :: rest => s.ExitsInLoops inLoop ∧ AllExitInLoops inLoop rest

def OptionExitsInLoops (inLoop : Prop) : Option Stmt → Prop
  | none => True
  | some s => s.ExitsInLoops inLoop

def BranchesExitInLoops (inLoop : Prop) : List (Expr × Stmt) → Prop
  | [] => True
  | (_, s) :: rest => s.ExitsInLoops inLoop ∧ BranchesExitInLoops inLoop rest

def ArmsExitInLoops (inLoop : Prop) : List (List CaseLabel × Stmt) → Prop
  | [] => True
  | (_, s) :: rest => s.ExitsInLoops inLoop ∧ ArmsExitInLoops inLoop rest

end

end Stmt

namespace Body

open Stmt

-- ---------------------------------------------------------------------------
-- Checking
-- ---------------------------------------------------------------------------

mutual

theorem Verified.exitsInLoops {s : Scope} {inLoop : Bool} {stmt checked : Stmt} :
    Verified s inLoop stmt checked → checked.ExitsInLoops (inLoop = true)
  | .eval _ => trivial
  | .assign h => by
    obtain ⟨t, v, path, -, -, -, -, -, -, rfl⟩ := checkAssign_ok h
    trivial
  | .block h => h.exitsInLoops
  | .ifThen hbranches hotherwise => ⟨hbranches.exitsInLoops, hotherwise.exitsInLoops⟩
  | .case _ harms hotherwise => ⟨harms.exitsInLoops, hotherwise.exitsInLoops⟩
  | .forLoop _ _ _ _ hbody | .whileLoop _ hbody | .repeatLoop hbody _ => by
    simpa [ExitsInLoops] using hbody.exitsInLoops
  | .exit => rfl
  | .ret => trivial

theorem VerifiedAll.exitsInLoops {s : Scope} {inLoop : Bool} {ss checked : List Stmt} :
    VerifiedAll s inLoop ss checked → AllExitInLoops (inLoop = true) checked
  | .nil => trivial
  | .cons hfirst hrest => ⟨hfirst.exitsInLoops, hrest.exitsInLoops⟩

theorem VerifiedOption.exitsInLoops {s : Scope} {inLoop : Bool} {o checked : Option Stmt} :
    VerifiedOption s inLoop o checked → OptionExitsInLoops (inLoop = true) checked
  | .none => trivial
  | .some h => h.exitsInLoops

theorem VerifiedBranches.exitsInLoops {s : Scope} {inLoop : Bool}
    {branches checked : List (Expr × Stmt)} :
    VerifiedBranches s inLoop branches checked → BranchesExitInLoops (inLoop = true) checked
  | .nil => trivial
  | .cons _ hbody hrest => ⟨hbody.exitsInLoops, hrest.exitsInLoops⟩

theorem VerifiedArms.exitsInLoops {s : Scope} {c : Checked} {inLoop : Bool}
    {arms checked : List (List CaseLabel × Stmt)} :
    VerifiedArms s c inLoop arms checked → ArmsExitInLoops (inLoop = true) checked
  | .nil => trivial
  | .cons _ hbody hrest => ⟨hbody.exitsInLoops, hrest.exitsInLoops⟩

end

-- ---------------------------------------------------------------------------
-- Preparing
-- ---------------------------------------------------------------------------

variable {R : Expr → Expr → Prop}

mutual

/-- Replacing the expressions of a statement does not move its `EXIT`s. -/
theorem replaced_exitsInLoops {inLoop : Prop} {stmt stmt' : Stmt} :
    stmt.Replaced R stmt' → stmt.ExitsInLoops inLoop → stmt'.ExitsInLoops inLoop
  | .eval _, _ | .assign .., _ | .ret, _ => trivial
  | .block h, hs => allReplaced_exitInLoops h hs
  | .ifThen hbranches hotherwise, hs =>
    ⟨branchesReplaced_exitInLoops hbranches hs.1, optionReplaced_exitsInLoops hotherwise hs.2⟩
  | .case _ harms hotherwise, hs =>
    ⟨armsReplaced_exitInLoops harms hs.1, optionReplaced_exitsInLoops hotherwise hs.2⟩
  | .forLoop _ _ _ _ hbody, hs | .whileLoop _ hbody, hs | .repeatLoop hbody _, hs => by
    simp only [ExitsInLoops] at hs ⊢
    exact replaced_exitsInLoops hbody hs
  | .exit, hs => hs

theorem allReplaced_exitInLoops {inLoop : Prop} {ss ss' : List Stmt} :
    AllReplaced R ss ss' → AllExitInLoops inLoop ss → AllExitInLoops inLoop ss'
  | .nil, _ => trivial
  | .cons hfirst hrest, hs =>
    ⟨replaced_exitsInLoops hfirst hs.1, allReplaced_exitInLoops hrest hs.2⟩

theorem optionReplaced_exitsInLoops {inLoop : Prop} {o o' : Option Stmt} :
    OptionReplaced R o o' → OptionExitsInLoops inLoop o → OptionExitsInLoops inLoop o'
  | .none, _ => trivial
  | .some h, hs => replaced_exitsInLoops h hs

theorem branchesReplaced_exitInLoops {inLoop : Prop} {bs bs' : List (Expr × Stmt)} :
    BranchesReplaced R bs bs' → BranchesExitInLoops inLoop bs → BranchesExitInLoops inLoop bs'
  | .nil, _ => trivial
  | .cons _ hbody hrest, hs =>
    ⟨replaced_exitsInLoops hbody hs.1, branchesReplaced_exitInLoops hrest hs.2⟩

theorem armsReplaced_exitInLoops {inLoop : Prop} {arms arms' : List (List CaseLabel × Stmt)} :
    ArmsReplaced R arms arms' → ArmsExitInLoops inLoop arms → ArmsExitInLoops inLoop arms'
  | .nil, _ => trivial
  | .cons _ hbody hrest, hs =>
    ⟨replaced_exitsInLoops hbody hs.1, armsReplaced_exitInLoops hrest hs.2⟩

end

theorem prepare_exitsInLoops {s : Scope} {body prepared : Stmt}
    (h : prepare s body = .ok prepared) : prepared.ExitsInLoops False := by
  obtain ⟨checked, hchecked, h⟩ := Except.bind_eq_ok.mp h
  have hexits := (verified_of_verify hchecked).exitsInLoops
  simp only [Bool.false_eq_true] at hexits
  have hmapped := Returning.returns_of_eq_ok (Except.mapError_eq_ok.mp h)
  exact replaced_exitsInLoops (replaced_of_mapExprsM checked hmapped) hexits

end Body

-- ---------------------------------------------------------------------------
-- Linking
-- ---------------------------------------------------------------------------

namespace Link

theorem finish_eq_ok {α : Type} {ds : List Diagnostic} {a b : α} :
    finish ds a = .ok b ↔ ds = [] ∧ a = b := by
  cases ds <;> simp [finish]

theorem mem_collect {α β : Type} {f : α → Except (List Diagnostic) β} {as : List α} {bs : List β}
    (h : collect f as = .ok bs) {b : β} (hb : b ∈ bs) : ∃ a ∈ as, f a = .ok b := by
  obtain ⟨-, rfl⟩ := finish_eq_ok.mp h
  obtain ⟨r, hr, hrb⟩ := List.mem_filterMap.mp hb
  obtain ⟨a, ha, rfl⟩ := List.mem_map.mp hr
  cases hfa : f a with
  | error ds =>
    rw [hfa] at hrb
    cases hrb
  | ok b' =>
    rw [hfa] at hrb
    cases hrb
    exact ⟨a, ha, hfa⟩

/-- The bodies of a linked library have been prepared in it. -/
theorem pou_prepared {epsilon : Float} {l l' : Library} (h : prepareBodies epsilon l = .ok l')
    {pou : Pou} (hpou : pou ∈ l'.pous) :
    ∃ p ∈ l.pous, ∃ body, Body.prepare ⟨l, some p, epsilon⟩ p.body = .ok body ∧
      pou = { p with body } := by
  obtain ⟨pous, hpous, h⟩ := Except.bind_eq_ok.mp h
  cases h
  obtain ⟨p, hp, h⟩ := mem_collect hpous hpou
  obtain ⟨body, hbody, h⟩ := Except.bind_eq_ok.mp h
  cases h
  exact ⟨p, hp, body, hbody, rfl⟩

end Link

/-- What is linked has gone through all stages. -/
theorem stages_of_link {units : List CompilationUnit} {options : Options} {l : Library}
    (h : link units options = .ok l) : Link.stages units options = .ok l := by
  unfold link at h
  split at h
  · cases h
  · split at h
    · cases h
    · exact h

/-- The bodies of what is linked are prepared last. -/
theorem prepared_of_link {units : List CompilationUnit} {options : Options} {l : Library}
    (h : link units options = .ok l) : ∃ l₀, Link.prepareBodies options.realEpsilon l₀ = .ok l := by
  obtain ⟨_, -, h⟩ := Except.bind_eq_ok.mp (stages_of_link h)
  obtain ⟨_, -, h⟩ := Except.bind_eq_ok.mp h
  obtain ⟨_, -, h⟩ := Except.bind_eq_ok.mp h
  obtain ⟨_, -, h⟩ := Except.bind_eq_ok.mp h
  obtain ⟨_, -, h⟩ := Except.bind_eq_ok.mp h
  obtain ⟨_, -, h⟩ := Except.bind_eq_ok.mp h
  obtain ⟨_, -, h⟩ := Except.bind_eq_ok.mp h
  obtain ⟨_, -, h⟩ := Except.bind_eq_ok.mp h
  obtain ⟨l₀, -, h⟩ := Except.bind_eq_ok.mp h
  exact ⟨l₀, h⟩

theorem exitsInLoops_of_link {units : List CompilationUnit} {options : Options} {l : Library}
    (h : link units options = .ok l) {pou : Pou} (hpou : pou ∈ l.pous) :
    pou.body.ExitsInLoops False := by
  obtain ⟨l₀, h⟩ := prepared_of_link h
  obtain ⟨p, -, body, hbody, rfl⟩ := Link.pou_prepared h hpou
  exact Body.prepare_exitsInLoops hbody

end StructuredText
