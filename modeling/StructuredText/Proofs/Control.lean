-- SUMMARY: What FOR and CASE statements perform: the terms of a loop one by one, and the first arm that matches.
import StructuredText.Proofs.BigStep

/-!
# Counted loops and selections

A `FOR` loop evaluates its bounds once, sets its control variable once, and then performs its body once for each of the
terms between the bounds, whatever the body assigns. A `CASE` statement performs its first arm with a label that holds of
the selector. Both only go by the mathematical meaning within limits: the distance of the bounds has to fit 128 bits, and
the labels have to be comparable with the selector by the operations that match them.
-/

/-- A term of a progression lies within a distance if its number is at most the quotient. -/
theorem Int.lt_tdiv_add_one_iff {distance step : Int} (hdistance : 0 ≤ distance) (hstep : 0 < step) (k : Nat) :
    (k : Int) < distance.tdiv step + 1 ↔ k * step ≤ distance := by
  rw [Int.lt_add_one_iff, Int.tdiv_eq_ediv_of_nonneg hdistance, Int.le_ediv_iff_mul_le hstep]

namespace StructuredText

-- ---------------------------------------------------------------------------
-- The number of iterations
-- ---------------------------------------------------------------------------

/-- The term of a `FOR` loop, counted from the start, does not pass the end. -/
def Stmt.Within (start stop step : Int) (k : Nat) : Prop :=
  if 0 < step then start + k * step ≤ stop else stop ≤ start + k * step

/-- The number of iterations is that of the terms between the bounds, as long as their distance fits. -/
theorem Stmt.lt_iterations_iff {start stop step : Int} (hstep : step ≠ 0) (hfits : FitsInteger (-step))
    (hdistance : (stop - start).natAbs < 2 ^ 127 - 1) (k : Nat) :
    (k : Int) < iterations start stop step ↔ Within start stop step k := by
  have hquotient {d e : Int} (hd : 0 ≤ d) (hd' : d < 2 ^ 127 - 1) (he : 0 < e) :
      wrapInteger ((wrapInteger d).tdiv e + 1) = d.tdiv e + 1 := by
    have hle := Int.tdiv_le_self e hd
    have hnonneg := Int.tdiv_nonneg hd (Int.le_of_lt he)
    have hwrap : wrapInteger d = d := wrapInteger_of_fits ⟨by omega, by omega⟩
    rw [hwrap, wrapInteger_of_fits ⟨by omega, by omega⟩]
  unfold iterations Within
  by_cases hup : 0 < step
  · rw [if_pos hup]
    by_cases hle : start ≤ stop
    · rw [if_pos (by simp [hup, hle]), hquotient (by omega) (by omega) hup,
        Int.lt_tdiv_add_one_iff (by omega) hup]
      omega
    · rw [if_neg (by simp [hle]), if_neg (by simp; omega)]
      have := Int.mul_nonneg (Int.natCast_nonneg k) (Int.le_of_lt hup)
      omega
  · rw [if_neg (by simp [hup]), if_neg hup]
    by_cases hle : stop ≤ start
    · rw [if_pos (by simp [hle]; omega), wrapInteger_of_fits hfits, hquotient (by omega) (by omega) (by omega),
        Int.lt_tdiv_add_one_iff (by omega) (by omega), Int.mul_neg]
      omega
    · rw [if_neg (by simp [hle])]
      have := Int.mul_nonneg (Int.natCast_nonneg k) (Int.neg_nonneg.mpr (Int.not_lt.mp hup))
      rw [Int.mul_neg] at this
      omega

/-- A distance that does not fit makes the loop end before its first iteration. -/
example : Stmt.iterations (-1) (2 ^ 127 - 1) 1 < 0 := by decide

-- ---------------------------------------------------------------------------
-- Labels
-- ---------------------------------------------------------------------------

namespace Stmt

/-- The label holds of the value. -/
def Matches (v : Value) (label : CaseLabel) : Prop := labelMatches v label = .ok true

instance (v : Value) (label : CaseLabel) : Decidable (Matches v label) :=
  match h : labelMatches v label with
  | .ok true => .isTrue h
  | .ok false => .isFalse (by simp [Matches, h])
  | .error _ => .isFalse (by simp [Matches, h])

/-- The label can be compared with the value. -/
def Comparable (v : Value) (label : CaseLabel) : Prop := ∃ found, labelMatches v label = .ok found

/-- The label is a constant or a range of integers. -/
inductive Spans : CaseLabel → Int → Int → Prop
  | value {info : NodeInfo} {i : Int} {type : Option Ident} :
    Spans (.value (.literal info (.integer i) type)) i i
  | range {info info' : NodeInfo} {low high : Int} {type type' : Option Ident} :
    Spans (.range (.literal info (.integer low) type) (.literal info' (.integer high) type')) low high

variable {v : Value} {i low high : Int} {label : CaseLabel}

theorem Spans.labelMatches (h : Spans label low high) :
    labelMatches (.integer i) label = .ok (decide (low ≤ i ∧ i ≤ high)) := by
  cases h with
  | value =>
    have heq : (i == low) = decide (low ≤ i ∧ i ≤ low) := by
      rw [Bool.eq_iff_iff]
      simp
      omega
    rw [← heq]
    rfl
  | range =>
    have hlow : (Value.integer i).lesser (.integer low) = .ok (compare i low == .lt) := rfl
    have hhigh : (Value.integer i).greater (.integer high) = .ok (compare i high == .gt) := rfl
    simp only [Stmt.labelMatches, hlow, hhigh]
    by_cases hlt : i < low
    · simp [Int.compare_eq_lt.mpr hlt, pure, Except.pure]
      omega
    · have hne : compare i low ≠ .lt := fun h => hlt (Int.compare_eq_lt.mp h)
      have hgt : (compare i high == .gt) = !decide (i ≤ high) := by
        rw [Bool.eq_iff_iff]
        simp [Int.compare_eq_gt]
      simp [hne, hgt, pure, Except.pure, Int.not_lt.mp hlt]

theorem Spans.comparable (h : Spans label low high) : Comparable (.integer i) label := ⟨_, h.labelMatches⟩

theorem Spans.matches_iff (h : Spans label low high) : Matches (.integer i) label ↔ low ≤ i ∧ i ≤ high := by
  simp [Matches, h.labelMatches]

theorem comparable_enumeration {name other : Ident} {info : NodeInfo} {type : Option Ident} :
    Comparable (.enumeration name) (.value (.literal info (.enumeration other) type)) := ⟨_, rfl⟩

/-- Enumerated values are not ordered, so no range of them can be matched, not even one that was checked. -/
theorem not_comparable_range {name : Ident} {low high : Expr} :
    ¬ Comparable (.enumeration name) (.range low high) := by
  rintro ⟨found, h⟩
  unfold labelMatches at h
  split at h
  · contradiction
  · cases h
  · cases h

/-- Matching labels that can be compared does not fail, and finds whether one of them holds. -/
theorem anyMatches_eq {labels : List CaseLabel} (h : ∀ label ∈ labels, Comparable v label) :
    anyMatches v labels = .ok (labels.any (Matches v ·)) := by
  induction labels with
  | nil => rfl
  | cons label rest ih =>
    obtain ⟨⟨found, hfound⟩, hrest⟩ := List.forall_mem_cons.mp h
    cases found with
    | true => simp [anyMatches, Matches, hfound, pure, Except.pure]
    | false => simp [anyMatches, Matches, hfound, ih hrest]

/-- The first arm with a label that holds of the value. -/
def armFor? (v : Value) (arms : List (List CaseLabel × Stmt)) : Option (List CaseLabel × Stmt) :=
  arms.find? fun arm => arm.1.any (Matches v ·)

end Stmt

namespace BigStep.Context

variable {ctx : Context} {run : Context → Stmt → Evaluating Completion} {fuel : Nat}

-- ---------------------------------------------------------------------------
-- Selections
-- ---------------------------------------------------------------------------

/-- The arms of a `CASE` statement, if all of their labels can be compared with the selector. -/
theorem performArms_eq {span : Span} {v : Value} {otherwise : Evaluating Completion}
    {arms : List (List CaseLabel × Stmt)} (h : ∀ arm ∈ arms, ∀ label ∈ arm.1, Stmt.Comparable v label) :
    ctx.performArms run fuel span v otherwise arms =
      match Stmt.armFor? v arms with
      | some (_, s) => ctx.perform run fuel s
      | none => otherwise := by
  induction arms with
  | nil => rfl
  | cons arm rest ih =>
    obtain ⟨labels, s⟩ := arm
    obtain ⟨hlabels, hrest⟩ := List.forall_mem_cons.mp h
    unfold performArms
    rw [Stmt.anyMatches_eq hlabels, Stmt.armFor?, List.find?_cons]
    cases labels.any (Stmt.Matches v ·) with
    | true => rfl
    | false => exact ih hrest

/--
A `CASE` statement evaluates its selector once and performs the first arm with a label that holds of it, or else the
other statement.
-/
theorem perform_case {info : NodeInfo} {selector : Expr} {arms : List (List CaseLabel × Stmt)}
    {otherwise : Option Stmt} {r : Evaluated} {s s' : Storage} (hselector : ctx.value run selector s = .ok r s')
    (h : ∀ arm ∈ arms, ∀ label ∈ arm.1, Stmt.Comparable r.value label) :
    ctx.perform run fuel (.case info selector arms otherwise) s =
      (match Stmt.armFor? r.value arms with
      | some (_, body) => ctx.perform run fuel body
      | none => ctx.performOption run fuel otherwise) s' := by
  have hperform : ctx.perform run fuel (.case info selector arms otherwise) s =
      ctx.performArms run fuel selector.span r.value (ctx.performOption run fuel otherwise) arms s' := by
    rw [perform, EStateM.bind_apply, hselector]
  rw [hperform, performArms_eq h]

-- ---------------------------------------------------------------------------
-- Loops
-- ---------------------------------------------------------------------------

/-- What a loop of a number of rounds comes to, which only goes on after a round that ends normally. -/
inductive Rounds (body : Evaluating Completion) : Nat → Storage → EStateM.Result Stop Storage Completion → Prop
  | done {s : Storage} : Rounds body 0 s (.ok .normal s)
  | round {n : Nat} {s s' : Storage} {r : EStateM.Result Stop Storage Completion} :
    body s = .ok .normal s' → Rounds body n s' r → Rounds body (n + 1) s r
  | exit {n : Nat} {s s' : Storage} : body s = .ok .exit s' → Rounds body (n + 1) s (.ok .normal s')
  | ret {n : Nat} {s s' : Storage} : body s = .ok .ret s' → Rounds body (n + 1) s (.ok .ret s')
  | failed {n : Nat} {s s' : Storage} {e : Stop} : body s = .error e s' → Rounds body (n + 1) s (.error e s')

theorem times_rounds (body : Evaluating Completion) (n : Nat) (s : Storage) :
    Rounds body n s (times body n s) := by
  induction n generalizing s with
  | zero => exact .done
  | succ n ih =>
    rw [times, EStateM.bind_apply]
    rcases h : body s with ⟨_ | _ | _, s'⟩ | ⟨e, s'⟩
    · exact .round h (ih s')
    · exact .exit h
    · exact .ret h
    · exact .failed h

/-- What a `FOR` loop evaluates when it starts: the place of its control variable, its bounds and its step. -/
def bounds (ctx : Context) (run : Context → Stmt → Evaluating Completion) (loop : ForLoop) :
    Evaluating (Option Place × Int × Int × Int) := do
  let located ← ctx.value run loop.control
  let first ← ctx.value run loop.start
  let last ← ctx.value run loop.stop
  let stride ← match loop.step with
    | some e => some <$> ctx.value run e
    | none => pure none
  let start ← integerOf loop.start first
  let stop ← integerOf loop.stop last
  let step ← match loop.step with
    | some e => integerOf e (stride.getD {})
    | none => pure 1
  pure (located.place?, start, stop, step)

/-- Sets the control variable of a `FOR` loop whose bounds are known. The result is the number of iterations. -/
def count (ctx : Context) (loop : ForLoop) (place? : Option Place) (start stop step : Int) : Evaluating Int := do
  if step = 0 then
    let span := (loop.step.map (·.span)).getD loop.info.span
    fail ((ValueError.invalidArgument "FOR step must not be 0").at span)
  ctx.setControl loop.control place? start
  pure (Stmt.iterations start stop step)

/-- A `FOR` loop only depends on what it evaluates when it starts. -/
theorem perform_forLoop (loop : ForLoop) :
    ctx.perform run fuel (.forLoop loop.info loop.control loop.start loop.stop loop.step loop.body) = (do
      let (place?, start, stop, step) ← ctx.bounds run loop
      let n ← ctx.count loop place? start stop step
      times (ctx.perform run fuel loop.body) n.toNat) := by
  obtain ⟨info, control, start, stop, step, body⟩ := loop
  cases step <;> simp only [perform, bounds, startFor, bind_assoc, pure_bind, map_eq_pure_bind] <;> rfl

variable {loop : ForLoop} {place? : Option Place} {start stop step : Int} {s s' s₀ : Storage}

/-- A step of 0 makes the loop fail before its control variable is set. -/
theorem perform_forLoop_step_zero (h : ctx.bounds run loop s = .ok (place?, start, stop, 0) s') :
    ctx.perform run fuel (.forLoop loop.info loop.control loop.start loop.stop loop.step loop.body) s =
      .error (.failed ((ValueError.invalidArgument "FOR step must not be 0").at
        ((loop.step.map (·.span)).getD loop.info.span))) s' := by
  rw [perform_forLoop, EStateM.bind_apply, h]
  rfl

/--
A `FOR` loop sets its control variable to the start and performs its body for every term that does not pass the end,
whatever the body assigns.
-/
theorem perform_forLoop_rounds (h : ctx.bounds run loop s = .ok (place?, start, stop, step) s') (hstep : step ≠ 0)
    (hfits : FitsInteger (-step)) (hdistance : (stop - start).natAbs < 2 ^ 127 - 1)
    (hset : ctx.setControl loop.control place? start s' = .ok () s₀) :
    ∃ n, (∀ k, k < n ↔ Stmt.Within start stop step k) ∧
      Rounds (ctx.perform run fuel loop.body) n s₀
        (ctx.perform run fuel (.forLoop loop.info loop.control loop.start loop.stop loop.step loop.body) s) := by
  refine ⟨(Stmt.iterations start stop step).toNat, fun k => ?_, ?_⟩
  · rw [Int.lt_toNat, Stmt.lt_iterations_iff hstep hfits hdistance]
  · have hcount : ctx.count loop place? start stop step s' = .ok (Stmt.iterations start stop step) s₀ := by
      simp [count, hstep, hset]
    rw [perform_forLoop, EStateM.bind_apply, h]
    dsimp only
    rw [EStateM.bind_apply, hcount]
    exact times_rounds _ _ _

end BigStep.Context

end StructuredText
