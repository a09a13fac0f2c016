-- SUMMARY: Operators and standard functions are regular, keep integers within 128 bits and make no function blocks.
import StructuredText.Proofs.Inhabits
import StructuredText.Proofs.Regular
import StructuredText.StandardFunction

/-!
# Proper results

Operators and standard functions fail with ordinary errors only, and what they result in for proper values is
proper: integers are checked to fit where they are computed, and a value with function blocks is at most passed
on.
-/

namespace StructuredText

open Reporting

variable {bound : BlockRef → Prop}

-- ---------------------------------------------------------------------------
-- Integers
-- ---------------------------------------------------------------------------

theorem fitInteger_regular (operation : Operation) (i : Int) :
    Regular (fitInteger operation i) FitsInteger := by
  unfold fitInteger
  exact .ite (fun h => .ok h) fun _ => .error nofun

theorem integerPower_regular {base : Int} (hbase : FitsInteger base) (exponent : Nat) :
    Regular (integerPower base exponent) FitsInteger := by
  unfold integerPower
  refine .ite (fun _ => .error nofun) fun _ => .ite (fun _ => fitInteger_regular _ _) fun _ => ?_
  refine .ite (fun _ => .ok hbase) fun _ => .ite (fun _ => ?_) fun _ => .error nofun
  refine .ok ?_
  split <;> decide

theorem fitsInteger_tmod {a : Int} (ha : FitsInteger a) (b : Int) : FitsInteger (a.tmod b) := by
  have hlt : (a.tmod b).natAbs ≤ a.natAbs := by
    rw [Int.natAbs_tmod]
    exact Nat.mod_le _ _
  have hpositive : 0 ≤ a → 0 ≤ a.tmod b := Int.tmod_nonneg b
  have hnegative : 0 ≤ -a → 0 ≤ -a.tmod b := by
    intro hle
    rw [← Int.neg_tmod]
    exact Int.tmod_nonneg b hle
  unfold FitsInteger at *
  omega

/-- The operations that numbers are combined by. -/
def Operation.IsArithmetic (operation : Operation) : Prop :=
  operation ∈ [.plus, .minus, .multiply, .divide, .modulus, .power]

theorem integerArithmetic_regular {operation : Operation} (hop : operation.IsArithmetic) {a : Int}
    (ha : FitsInteger a) (b : Int) : Regular (integerArithmetic operation a b) FitsInteger := by
  unfold integerArithmetic
  split
  · exact fitInteger_regular _ _
  · exact fitInteger_regular _ _
  · exact fitInteger_regular _ _
  · exact .ite (fun _ => .error nofun) fun _ => fitInteger_regular _ _
  · refine .ite (fun _ => .error nofun) fun _ => ?_
    exact .bind (fitInteger_regular _ _) fun _ _ => .ok (fitsInteger_tmod ha b)
  · exact .ite (fun _ => .error nofun) fun _ => integerPower_regular ha _
  · simp_all [Operation.IsArithmetic]

theorem realArithmetic_orderly {operation : Operation} (hop : operation.IsArithmetic)
    (hmodulus : operation ≠ .modulus) (a b : Float) : Orderly (realArithmetic operation a b) := by
  unfold realArithmetic
  split
  · exact .ok trivial
  · exact .ok trivial
  · exact .ok trivial
  · exact .ite (fun _ => .error nofun) fun _ => .ok trivial
  · refine .ite (fun _ => .error nofun) fun _ => ?_
    exact .ite (fun _ => .error nofun) fun _ => .ok trivial
  · simp_all [Operation.IsArithmetic]

-- ---------------------------------------------------------------------------
-- Durations
-- ---------------------------------------------------------------------------

theorem orOverflow_orderly {α : Type} (operation : Operation) (result : Option α) :
    Orderly (orOverflow operation result) := by
  cases result with
  | some a => exact .ok trivial
  | none => exact .error nofun

theorem scaleDuration_orderly (operation : Operation) (d : Duration) (factor : Value) :
    Orderly (scaleDuration operation d factor) := by
  have scaled (nanos : Float) : Orderly (do
      fitDuration operation (← orOverflow operation (realNanos? nanos))) :=
    .bind (orOverflow_orderly _ _) fun _ _ => orOverflow_orderly _ _
  unfold scaleDuration
  split
  · exact orOverflow_orderly _ _
  · exact .ite (fun _ => .error nofun) fun _ => orOverflow_orderly _ _
  · exact scaled _
  · exact .ite (fun _ => .error nofun) fun _ => scaled _
  · exact .error nofun

namespace Value

-- ---------------------------------------------------------------------------
-- Contents
-- ---------------------------------------------------------------------------

theorem ordinary_notSupported (v : Value) (operation : Operation) :
    Ordinary (v.notSupported operation) := nofun

theorem ordinary_incompatible (v w : Value) (operation : Operation) :
    Ordinary (v.incompatible operation w) := nofun

theorem require_orderly (v : Value) (operation : Operation) : Orderly (v.require operation) := by
  unfold require
  exact .ite (fun _ => .ok trivial) fun _ => .error (v.ordinary_notSupported operation)

theorem toInteger_regular {v : Value} (hv : v.Proper bound) : Regular v.toInteger FitsInteger := by
  cases v with
  | integer j => exact .ok hv
  | bits b =>
    have hle : 2 ^ min b.width 64 ≤ 2 ^ 64 := Nat.pow_le_pow_right (by decide) (Nat.min_le_right _ _)
    have hb := b.fits
    refine .ok ?_
    unfold FitsInteger
    omega
  | _ => exact .error (ordinary_notSupported _ _)

theorem toInteger_orderly (v : Value) : Orderly v.toInteger := by
  cases v <;> first | exact .ok trivial | exact .error (ordinary_notSupported _ _)

theorem toReal_orderly (v : Value) : Orderly v.toReal := by
  cases v <;> first | exact .ok trivial | exact .error (ordinary_notSupported _ _)

theorem toBool_orderly (v : Value) : Orderly v.toBool := by
  cases v <;> first | exact .ok trivial | exact .error (ordinary_notSupported _ _)

theorem display_orderly (v : Value) : Orderly v.display :=
  .bind (v.require_orderly _) fun _ _ => .ok trivial

-- ---------------------------------------------------------------------------
-- Comparison
-- ---------------------------------------------------------------------------

theorem equals_orderly (a b : Value) (epsilon : Float) : Orderly (a.equals b epsilon) := by
  refine .bind (a.require_orderly _) fun _ _ => ?_
  split <;> try exact .ok trivial
  refine .ite (fun _ => ?_) fun _ => .fail (ordinary_incompatible _ _ _)
  exact .bind (toReal_orderly _) fun _ _ => .bind (toReal_orderly _) fun _ _ => .ok trivial

theorem compareReals_orderly (a b : Float) : Orderly (compareReals a b) := by
  unfold compareReals
  refine .ite (fun _ => .ok trivial) fun _ => .ite (fun _ => .ok trivial) fun _ => ?_
  exact .ite (fun _ => .ok trivial) fun _ => .error nofun

theorem ordering_orderly (a b : Value) : Orderly (a.ordering b) := by
  refine .bind (a.require_orderly _) fun _ _ => ?_
  split <;> try exact .ok trivial
  refine .ite (fun _ => ?_) fun _ => .fail (ordinary_incompatible _ _ _)
  exact .bind (toReal_orderly _) fun _ _ => .bind (toReal_orderly _) fun _ _ =>
    compareReals_orderly _ _

theorem greater_orderly (a b : Value) : Orderly (a.greater b) :=
  .bind (ordering_orderly a b) fun _ _ => .ok trivial

theorem lesser_orderly (a b : Value) : Orderly (a.lesser b) :=
  .bind (ordering_orderly a b) fun _ _ => .ok trivial

-- ---------------------------------------------------------------------------
-- Arithmetic and logic
-- ---------------------------------------------------------------------------

theorem negate_regular (v : Value) : Regular v.negate (·.Proper bound) := by
  refine .bind (v.require_orderly _) fun _ _ => ?_
  split
  · exact .map (fitInteger_regular _ _)
  · exact .ok trivial
  · exact .map (orOverflow_orderly _ _)
  · exact .fail (ordinary_notSupported _ _)

theorem complement_regular (v : Value) : Regular v.complement (·.Proper bound) := by
  refine .bind (v.require_orderly _) fun _ _ => ?_
  split
  · exact .ok trivial
  · exact .ok trivial
  · exact .fail (ordinary_notSupported _ _)

theorem combineBits_orderly {operation : Operation} (hop : operation ∈ [.and, .or, .xor])
    (a b : Nat) : Orderly (combineBits operation a b) := by
  unfold combineBits
  split <;> first | exact .ok trivial | simp_all

theorem logical_regular {operation : Operation} (hop : operation ∈ [.and, .or, .xor]) (a b : Value) :
    Regular (logical operation a b) (·.Proper bound) := by
  refine .bind (a.require_orderly _) fun _ _ => ?_
  split
  · exact .bind (combineBits_orderly hop _ _) fun _ _ => .ok trivial
  · exact .bind (combineBits_orderly hop _ _) fun _ _ => .ok trivial
  · refine .ite (fun _ => .fail (ordinary_incompatible _ _ _)) fun _ => ?_
    exact .bind (combineBits_orderly hop _ _) fun _ _ => .ok trivial
  · exact .fail (ordinary_incompatible _ _ _)

theorem arithmetic_regular {operation : Operation} (hop : operation.IsArithmetic) {a : Value}
    (ha : a.Proper bound) (b : Value) : Regular (arithmetic operation a b) (·.Proper bound) := by
  have elapsed_regular (x y : Int) : Regular (elapsed x y) (·.Proper bound) :=
    .map (orOverflow_orderly _ _)
  refine .bind (a.require_orderly _) fun _ _ => ?_
  split
  · exact .map (integerArithmetic_regular hop ha _)
  · split
    · exact .map (orOverflow_orderly _ _)
    · exact .map (orOverflow_orderly _ _)
    · exact .fail (ordinary_incompatible _ _ _)
  · exact .map (scaleDuration_orderly _ _ _)
  · exact .map (scaleDuration_orderly _ _ _)
  · split
    · exact .ok trivial
    · exact .ok trivial
    · exact .fail (ordinary_incompatible _ _ _)
  · split
    · exact .map (orOverflow_orderly _ _)
    · exact .map (orOverflow_orderly _ _)
    · exact .fail (ordinary_incompatible _ _ _)
  · exact .ite (fun _ => elapsed_regular _ _) fun _ => .fail (ordinary_incompatible _ _ _)
  · exact .ite (fun _ => elapsed_regular _ _) fun _ => .fail (ordinary_incompatible _ _ _)
  · exact .ite (fun _ => elapsed_regular _ _) fun _ => .fail (ordinary_incompatible _ _ _)
  · refine .ite (fun h => ?_) fun _ => .fail (ordinary_incompatible _ _ _)
    have hmodulus : operation ≠ .modulus := by simp_all
    refine .bind (toReal_orderly _) fun _ _ => .bind (toReal_orderly _) fun _ _ => ?_
    exact .map (realArithmetic_orderly hop hmodulus _ _)

end Value

-- ---------------------------------------------------------------------------
-- Operators and standard functions
-- ---------------------------------------------------------------------------

theorem UnaryOp.evaluate_regular (op : UnaryOp) (v : Value) :
    Regular (op.evaluate v) (·.Proper bound) := by
  cases op with
  | negate => exact v.negate_regular
  | not => exact v.complement_regular

theorem BinaryOp.evaluate_regular (op : BinaryOp) {a : Value} (ha : a.Proper bound) (b : Value)
    (epsilon : Float) : Regular (op.evaluate a b epsilon) (·.Proper bound) := by
  cases op with
  | eq => exact .bind (a.equals_orderly b epsilon) fun _ _ => .ok trivial
  | ne => exact .bind (a.equals_orderly b epsilon) fun _ _ => .ok trivial
  | lt => exact .bind (a.lesser_orderly b) fun _ _ => .ok trivial
  | gt => exact .bind (a.greater_orderly b) fun _ _ => .ok trivial
  | le => exact .bind (a.greater_orderly b) fun _ _ => .ok trivial
  | ge => exact .bind (a.lesser_orderly b) fun _ _ => .ok trivial
  | and => exact Value.logical_regular (by decide) a b
  | or => exact Value.logical_regular (by decide) a b
  | xor => exact Value.logical_regular (by decide) a b
  | _ => exact Value.arithmetic_regular (by simp [Operation.IsArithmetic, operation]) ha b

namespace StandardFunction

/-- The least or the greatest of values, by a comparison, is one of them. -/
theorem foldlM_regular {choose : Value → Value → Except ValueError Bool}
    (hchoose : ∀ a b, Orderly (choose a b)) {vs : List Value} {first : Value}
    (hfirst : first.Proper bound) (hvs : ∀ v ∈ vs, v.Proper bound) :
    Regular (vs.foldlM (fun best v => do pure (if ← choose v best then v else best)) first)
      (·.Proper bound) := by
  refine .foldlM hfirst fun v hv best hbest => .bind (hchoose v best) fun chosen _ => .pure ?_
  split
  · exact hvs v hv
  · exact hbest

theorem absolute_regular (v : Value) : Regular (absolute v) (·.Proper bound) := by
  unfold absolute
  split
  · exact .map (fitInteger_regular _ _)
  · exact .ok trivial
  · exact .error nofun

theorem evaluate_regular (f : StandardFunction) {args : List Value}
    (hargs : ∀ v ∈ args, v.Proper bound) : Regular (f.evaluate args) (·.Proper bound) := by
  unfold evaluate
  split
  · exact absolute_regular _
  · refine .bind (Value.toReal_orderly _) fun _ _ => ?_
    exact .ite (fun _ => .fail nofun) fun _ => .ok trivial
  · exact foldlM_regular Value.lesser_orderly (hargs _ (by simp)) fun v hv => hargs v (by simp_all)
  · exact foldlM_regular Value.greater_orderly (hargs _ (by simp)) fun v hv => hargs v (by simp_all)
  · refine .bind (Value.lesser_orderly _ _) fun _ _ => .ite (fun _ => .ok (hargs _ (by simp))) fun _ => ?_
    exact .bind (Value.greater_orderly _ _) fun _ _ =>
      .ite (fun _ => .ok (hargs _ (by simp))) fun _ => .ok (hargs _ (by simp))
  · refine .bind (Value.toBool_orderly _) fun chosen _ => .pure ?_
    split
    · exact hargs _ (by simp)
    · exact hargs _ (by simp)
  · exact .error nofun

end StandardFunction

end StructuredText
