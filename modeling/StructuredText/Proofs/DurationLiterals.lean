-- SUMMARY: Every part of a duration literal and its opposite are in range, and only the sum of the parts can leave it.
import StructuredText.Proofs.Digits

/-!
# Durations that are read

Every part of a duration literal is a duration that is not negative, however many digits its number has. It is the number
of its seconds, rounded to nanoseconds. Since no part is negative, the sums only grow, so a literal has a value exactly
when all of it can be read and the whole sum is in range, and its opposite is then in range as well. A sum that leaves the
range is the only overflow that there is.
-/

namespace StructuredText

open Binary64 Float.Model UnpackedFloat

-- ---------------------------------------------------------------------------
-- Seconds
-- ---------------------------------------------------------------------------

theorem Duration.eq_of_nanos {d d' : Duration} (h : d.nanos = d'.nanos) : d = d' := by
  cases d
  cases h
  rfl

namespace Binary64

theorem Is.isFinite {x : Float} {s : Sign} {a : ℚ} (h : Is x s a) : x.isFinite = true := by
  change x.toModel.unpack.isFinite = true
  unfold Is at h
  generalize x.toModel.unpack = u at h
  cases h <;> rfl

/-- A billion is a number. -/
theorem is_billion : Is 1000000000 .positive (10 ^ 9) := by
  have h : (1000000000 : Float).toModel.unpack = .finite .positive (10 ^ 9 * 2 ^ 23) (-23) (by decide) := by rfl
  have hsized : Sized (.finite .positive (10 ^ 9 * 2 ^ 23) (-23) (by decide)) .positive _ := .finite (by decide)
  unfold Is
  rw [h]
  norm_num at hsized ⊢
  exact hsized

end Binary64

namespace Literal

/-- How far the duration that is read can be from the number of seconds, in nanoseconds. -/
def roundingError : ℚ := 1 / 2 + 2 ^ (-24 : Int)

/-- What is left of a number without its integer part, in nanoseconds. -/
theorem exists_nanos {x : Float} {a : ℚ} (hx : Is x .positive a) : ∃ n : Nat,
    roundAway (fraction x * 1000000000) = n ∧ |(n : ℚ) - Int.fract a * 10 ^ 9| ≤ roundingError ∧
      (Int.fract a = 0 → n = 0) := by
  have hfract := is_fraction hx
  have hlt : Int.fract a * 10 ^ 9 < 2 ^ (30 : Int) :=
    calc Int.fract a * 10 ^ 9 < 1 * 10 ^ 9 := mul_lt_mul_of_pos_right (Int.fract_lt_one a) (by positivity)
      _ < 2 ^ (30 : Int) := by norm_num
  obtain ⟨v, hv, hrounds⟩ := is_mul hfract is_billion (hlt.le.trans (two_zpow_le_largest (by norm_num)))
  have herror := hrounds.error hlt (by norm_num)
  refine ⟨⌊v + 1 / 2⌋₊, roundAway_eq hv, ?_, fun hzero => ?_⟩
  · have hfloor : |(⌊v + 1 / 2⌋₊ : ℚ) - v| ≤ 1 / 2 := by
      have hle := Nat.floor_le (a := v + 1 / 2) (by linarith [hv.nonneg])
      have hge := Nat.lt_floor_add_one (v + 1 / 2)
      rw [abs_le]
      constructor <;> linarith
    calc |(⌊v + 1 / 2⌋₊ : ℚ) - Int.fract a * 10 ^ 9|
        = |((⌊v + 1 / 2⌋₊ : ℚ) - v) + (v - Int.fract a * 10 ^ 9)| := by rw [sub_add_sub_cancel]
      _ ≤ |(⌊v + 1 / 2⌋₊ : ℚ) - v| + |v - Int.fract a * 10 ^ 9| := abs_add_le _ _
      _ ≤ roundingError := add_le_add hfloor herror
  · rw [hzero, zero_mul] at hrounds
    have hv : v = (0 : Nat) * 2 ^ (0 : Int) := Rounds.exact (by simpa using hrounds) (by norm_num) (by norm_num)
    rw [hv]
    norm_num

/-- The nanoseconds of a number of seconds are the whole seconds, cut off, and what is left, rounded. -/
theorem ofSeconds?_eq {x : Float} {a : ℚ} (hx : Is x .positive a) : ∃ n : Nat,
    ofSeconds? x = Duration.ofNanos? (min (⌊a⌋₊ : Int) secondsLimit * 10 ^ 9 + n) ∧
      |(n : ℚ) - Int.fract a * 10 ^ 9| ≤ roundingError ∧ (Int.fract a = 0 → n = 0) := by
  obtain ⟨n, hn, herror⟩ := exists_nanos hx
  have hwhole : truncate x = (⌊a⌋₊ : Int) := truncate_eq hx
  refine ⟨n, ?_, herror⟩
  unfold ofSeconds?
  rw [if_pos hx.isFinite, hn, hwhole]

/-- A number of seconds is a duration, which is rounded to nanoseconds. -/
theorem exists_ofSeconds? {x : Float} {a : ℚ} (hx : Is x .positive a) (ha : a < 2 ^ 53) :
    ∃ d, ofSeconds? x = some d ∧ 0 ≤ d.nanos ∧ |(d.nanos : ℚ) - a * 10 ^ 9| ≤ roundingError := by
  obtain ⟨n, hn, herror, -⟩ := ofSeconds?_eq hx
  have hwhole : ⌊a⌋₊ < 2 ^ 53 := (Nat.floor_lt hx.nonneg).mpr (by exact_mod_cast ha)
  have hbound : n ≤ 10 ^ 9 + 1 := by
    have hfract := Int.fract_lt_one a
    have hle := (abs_le.mp herror).2
    unfold roundingError at hle
    norm_num at hle
    have hle : (n : ℚ) ≤ 1000000001 := by linarith
    exact_mod_cast hle
  have hmin : min (⌊a⌋₊ : Int) secondsLimit = ⌊a⌋₊ := by
    unfold secondsLimit
    omega
  have hrange : IsDuration ((⌊a⌋₊ : Int) * 10 ^ 9 + n) := by
    unfold IsDuration
    omega
  refine ⟨⟨_, hrange⟩, ?_, ?_, ?_⟩
  · rw [hn, hmin]
    exact dif_pos hrange
  · dsimp only
    omega
  · have hsplit : a = ⌊a⌋₊ + Int.fract a := by
      rw [natCast_floor_eq_intCast_floor hx.nonneg]
      exact (Int.floor_add_fract a).symm
    have hrest : (((⌊a⌋₊ : Int) * 10 ^ 9 + n : Int) : ℚ) - a * 10 ^ 9 = n - Int.fract a * 10 ^ 9 := by
      push_cast
      linear_combination (-10 ^ 9 : ℚ) * hsplit
    rw [hrest]
    exact herror

/-- A large number of seconds is whole, and it is cut off. -/
theorem exists_ofSeconds?_of_le {x : Float} {a : ℚ} (hx : Is x .positive a) (ha : 2 ^ 53 ≤ a) :
    ∃ d, ofSeconds? x = some d ∧ d.nanos = min (⌊a⌋₊ : Int) secondsLimit * 10 ^ 9 := by
  obtain ⟨n, hn, -, hzero⟩ := ofSeconds?_eq hx
  have hrange : IsDuration (min (⌊a⌋₊ : Int) secondsLimit * 10 ^ 9) := by
    unfold IsDuration secondsLimit
    omega
  refine ⟨⟨_, hrange⟩, ?_, rfl⟩
  rw [hn, hzero (hx.fract_eq_zero ha), Nat.cast_zero, add_zero]
  exact dif_pos hrange

/-- The unit of a part is positive. -/
theorem signed_unit? {cs rest : List Char} {unit : Float} (h : unit? cs = some (unit, rest)) :
    Signed .positive unit.toModel.unpack := by
  unfold unit? at h
  split at h <;> cases h <;> rfl

theorem signed_ofRatio (n d : Nat) : Signed .positive (ofRatio false n d).toModel.unpack :=
  (ofRatio_unpack false n d).2

theorem signed_ofDecimal (digits : Nat) (exponent : Int) :
    Signed .positive (ofDecimal false digits exponent).toModel.unpack := by
  unfold ofDecimal
  generalize 2 ^ 1024 = beyond
  dsimp only
  split
  · exact signed_ofRatio _ _
  · split
    · exact signed_ofRatio _ _
    · split
      · exact signed_ofRatio _ _
      · exact signed_ofRatio _ _

/-- What is read from digits and points has no negative sign. -/
theorem signed_read? {cs : List Char} (hcs : ∀ c ∈ cs, isNumberChar c = true) {x : Float}
    (h : Binary64.read? (String.ofList cs) = some x) : Signed .positive x.toModel.unpack := by
  have hnan : (0.0 / 0.0 : Float).toModel.unpack = .notANumber := rfl
  have decimal {whole places tail : List Char} (h : (if whole.isEmpty && places.isEmpty then none else do
      let exponent ← readExponent? tail
      some (ofDecimal false (digitsValue (whole ++ places)) (exponent - places.length))) = some x) :
      Signed .positive x.toModel.unpack := by
    split at h
    · cases h
    · obtain ⟨exponent, -, hx⟩ := Option.bind_eq_some_iff.mp h
      cases hx
      exact signed_ofDecimal _ _
  unfold read? at h
  rw [String.toList_ofList, splitSign_of_number hcs] at h
  dsimp only at h
  split at h
  · rw [← Option.some.inj h]
    exact signed_ofRatio _ _
  · split at h
    · cases h
      rw [hnan]
      trivial
    · split at h
      · exact decimal h
      · exact decimal h

theorem quantity_eq_ok {cs rest : List Char} {x : Float} (h : quantity cs = .ok (x, rest)) :
    ∃ value unit, read? (String.ofList ((cs.dropWhile (· = '_')).takeWhile isNumberChar)) = some value ∧
      unit? ((cs.dropWhile (· = '_')).dropWhile isNumberChar) = some (unit, rest) ∧ x = value * unit := by
  unfold quantity at h
  obtain ⟨-, h⟩ := Except.ite_error_eq_ok.mp h
  obtain ⟨value, hvalue, h⟩ := Except.bind_eq_ok.mp h
  obtain ⟨⟨unit, left⟩, hunit, h⟩ := Except.bind_eq_ok.mp h
  cases h
  exact ⟨value, unit, orError_eq_ok.mp hvalue, orError_eq_ok.mp hunit, rfl⟩

/-- The number of seconds of a part has no negative sign. -/
theorem signed_quantity {cs rest : List Char} {x : Float} (h : quantity cs = .ok (x, rest)) :
    Signed .positive x.toModel.unpack := by
  obtain ⟨value, unit, hvalue, hunit, rfl⟩ := quantity_eq_ok h
  have hsigned := signed_read? (fun c hc => (List.mem_takeWhile_imp hc)) hvalue
  exact signed_pack (hsigned.mul (signed_unit? hunit))

/-- Every part that can be read is a duration that is not negative. -/
theorem exists_part {cs rest : List Char} {x : Float} (h : quantity cs = .ok (x, rest)) :
    ∃ d, ofSeconds? x = some d ∧ 0 ≤ d.nanos := by
  have hsigned := signed_quantity h
  cases hfinite : x.isFinite with
  | false =>
    -- A number that is too large for a real counts as the limit.
    have hrange : IsDuration (secondsLimit * 10 ^ 9) := by decide
    refine ⟨⟨secondsLimit * 10 ^ 9, hrange⟩, ?_, show (0 : Int) ≤ secondsLimit * 10 ^ 9 by decide⟩
    unfold ofSeconds?
    rw [hfinite, if_neg Bool.false_ne_true]
    exact dif_pos hrange
  | true =>
    obtain ⟨a, ha⟩ := hsigned.exists_is hfinite
    rcases lt_or_ge a (2 ^ 53) with hlt | hle
    · obtain ⟨d, hd, hnonneg, -⟩ := exists_ofSeconds? ha hlt
      exact ⟨d, hd, hnonneg⟩
    · obtain ⟨d, hd, hnanos⟩ := exists_ofSeconds?_of_le ha hle
      refine ⟨d, hd, ?_⟩
      rw [hnanos]
      unfold secondsLimit
      omega

-- ---------------------------------------------------------------------------
-- The parts
-- ---------------------------------------------------------------------------

/-- The durations are the parts at the front of the text, which leave the other text. -/
inductive Reads : List Char → List Duration → List Char → Prop
  | nil {cs} : Reads cs [] cs
  | cons {cs rest left x d ds} (hquantity : quantity cs = .ok (x, rest)) (hd : ofSeconds? x = some d)
    (hrest : Reads rest ds left) : Reads cs (d :: ds) left

/-- The nanoseconds of all parts. -/
def sum (ds : List Duration) : Int := (ds.map (·.nanos)).sum

theorem nonneg_of_quantity {cs rest : List Char} {x : Float} {d : Duration} (hquantity : quantity cs = .ok (x, rest))
    (hd : ofSeconds? x = some d) : 0 ≤ d.nanos := by
  obtain ⟨d', hd', hnonneg⟩ := exists_part hquantity
  cases hd'.symm.trans hd
  exact hnonneg

theorem Reads.nonneg {cs left : List Char} {ds : List Duration} (h : Reads cs ds left) : 0 ≤ sum ds := by
  induction h with
  | nil => exact Int.le_refl 0
  | cons hquantity hd _ ih => exact Int.add_nonneg (nonneg_of_quantity hquantity hd) ih

theorem quantity_error {cs : List Char} {e : LiteralError} (h : quantity cs = .error e) : e ≠ .durationRange := by
  have missing {α : Type} {o : Option α} {e e' : LiteralError} (h : orError e o = .error e') : e' = e := by
    cases o with
    | none => exact (Except.error.inj h).symm
    | some a => cases h
  have hkind : e = .durationUnit ∨ e = .durationValue := by
    unfold quantity at h
    dsimp only at h
    split at h
    · exact .inl (Except.error.inj h).symm
    · cases hvalue : orError .durationValue
          (read? (String.ofList ((cs.dropWhile (· = '_')).takeWhile isNumberChar))) with
      | error e' =>
        rw [hvalue] at h
        cases h
        exact .inr (missing hvalue)
      | ok value =>
        rw [hvalue] at h
        cases hunit : orError .durationUnit (unit? ((cs.dropWhile (· = '_')).dropWhile isNumberChar)) with
        | error e' =>
          rw [Except.ok_bind, hunit] at h
          cases h
          exact .inl (missing hunit)
        | ok unit =>
          rw [Except.ok_bind, hunit] at h
          cases h
  obtain rfl | rfl := hkind <;> exact nofun

theorem durationParts_nil (total : Duration) : durationParts total [] = .ok total := by
  rw [durationParts]
  rfl

/-- One more part is added, unless that leaves the range. -/
theorem durationParts_cons {cs rest : List Char} (total : Duration) {d : Duration} {x : Float}
    (hquantity : quantity cs = .ok (x, rest)) (hd : ofSeconds? x = some d) : durationParts total cs =
      orError .durationRange (total.add? d) >>= fun total => durationParts total rest := by
  have hcs : cs.isEmpty = false := by
    cases cs with
    | nil => exact absurd (length_of_quantity hquantity) (Nat.not_lt_zero _)
    | cons c cs => rfl
  rw [durationParts, hcs, if_neg Bool.false_ne_true]
  split
  · next h => cases h.symm.trans hquantity
  · next h =>
    cases h.symm.trans hquantity
    rw [hd, Option.bind_some]

theorem durationParts_of_error {cs : List Char} (total : Duration) {e : LiteralError} (hcs : cs ≠ [])
    (h : quantity cs = .error e) : durationParts total cs = .error e := by
  rw [durationParts, if_neg (by simpa using hcs)]
  split
  · next h' =>
    cases h'.symm.trans h
    rfl
  · next h' => cases h'.symm.trans h

theorem sum_cons (d : Duration) (ds : List Duration) : sum (d :: ds) = d.nanos + sum ds := List.sum_cons

theorem add?_eq_some {a b : Duration} (h : IsDuration (a.nanos + b.nanos)) : a.add? b = some ⟨_, h⟩ := dif_pos h

theorem add?_eq_none {a b : Duration} (h : ¬ IsDuration (a.nanos + b.nanos)) : a.add? b = none := dif_neg h

/-- The part of a sum of durations that are not negative is in range if the sum is. -/
theorem isDuration_of_le {n m : Int} (hn : 0 ≤ n) (hle : n ≤ m) (h : IsDuration m) : IsDuration n := by
  unfold IsDuration at *
  omega

/-- Parts whose sum is in range are added. -/
theorem Reads.durationParts {cs left : List Char} {ds : List Duration} (h : Reads cs ds left) {total : Duration}
    (htotal : 0 ≤ total.nanos) (hrange : IsDuration (total.nanos + sum ds)) :
    ∃ t, t.nanos = total.nanos + sum ds ∧ durationParts total cs = durationParts t left := by
  induction h generalizing total with
  | nil => exact ⟨total, by simp [sum], rfl⟩
  | @cons cs rest left x d ds hquantity hd hrest ih =>
    have hpart := nonneg_of_quantity hquantity hd
    have hlater := hrest.nonneg
    rw [sum_cons, ← add_assoc] at hrange
    -- The parts that follow only add to this total, so it is in range because the whole sum is.
    have hfirst : IsDuration (total.nanos + d.nanos) := isDuration_of_le (by omega) (by omega) hrange
    have hnext : 0 ≤ Duration.nanos ⟨_, hfirst⟩ := Int.add_nonneg htotal hpart
    obtain ⟨t, hsum, ht⟩ := ih hnext hrange
    refine ⟨t, by rw [hsum, sum_cons, add_assoc], ?_⟩
    rw [durationParts_cons total hquantity hd, add?_eq_some hfirst]
    exact ht

/-- Parts whose sum is not in range are too many. -/
theorem Reads.durationRange {cs left : List Char} {ds : List Duration} (h : Reads cs ds left) {total : Duration}
    (htotal : 0 ≤ total.nanos) (hrange : ¬ IsDuration (total.nanos + sum ds)) :
    Literal.durationParts total cs = .error .durationRange := by
  induction h generalizing total with
  | nil => exact absurd total.inRange (by simpa [sum] using hrange)
  | @cons cs rest left x d ds hquantity hd hrest ih =>
    have hpart := nonneg_of_quantity hquantity hd
    rw [sum_cons, ← add_assoc] at hrange
    rw [durationParts_cons total hquantity hd]
    by_cases hfirst : IsDuration (total.nanos + d.nanos)
    · have hnext : 0 ≤ Duration.nanos ⟨_, hfirst⟩ := Int.add_nonneg htotal hpart
      rw [add?_eq_some hfirst]
      exact ih hnext hrange
    · rw [add?_eq_none hfirst]
      rfl

/-- Parts can be read up to some place. -/
theorem exists_reads (cs : List Char) : ∃ ds left e, Reads cs ds left ∧ quantity left = .error e := by
  cases hquantity : quantity cs with
  | error e => exact ⟨[], cs, e, .nil, hquantity⟩
  | ok part =>
    obtain ⟨x, rest⟩ := part
    have hshorter := length_of_quantity hquantity
    obtain ⟨d, hd, -⟩ := exists_part hquantity
    obtain ⟨ds, left, e, hreads, hleft⟩ := exists_reads rest
    exact ⟨d :: ds, left, e, .cons hquantity hd hreads, hleft⟩
termination_by cs.length

section

variable {cs : List Char} {total t : Duration} (htotal : 0 ≤ total.nanos)

include htotal

/-- The parts have a sum exactly if all of the text can be read and the sum is in range. -/
theorem durationParts_eq_ok :
    durationParts total cs = .ok t ↔ ∃ ds, Reads cs ds [] ∧ t.nanos = total.nanos + sum ds := by
  constructor
  · intro h
    obtain ⟨ds, left, e, hreads, hleft⟩ := exists_reads cs
    by_cases hrange : IsDuration (total.nanos + sum ds)
    · obtain ⟨t', ht', hparts⟩ := hreads.durationParts htotal hrange
      rcases eq_or_ne left [] with rfl | hne
      · rw [hparts, durationParts_nil] at h
        cases h
        exact ⟨ds, hreads, ht'⟩
      · rw [hparts, durationParts_of_error t' hne hleft] at h
        cases h
    · rw [hreads.durationRange htotal hrange] at h
      cases h
  · rintro ⟨ds, hreads, ht⟩
    obtain ⟨t', ht', hparts⟩ := hreads.durationParts htotal (ht ▸ t.inRange)
    rw [hparts, durationParts_nil]
    obtain ⟨_, _⟩ := t
    obtain ⟨_, _⟩ := t'
    simp_all

/-- The sum is found to leave the range exactly if that of some parts at the front does. -/
theorem durationParts_eq_durationRange : durationParts total cs = .error .durationRange ↔
    ∃ ds left, Reads cs ds left ∧ ¬ IsDuration (total.nanos + sum ds) := by
  constructor
  · intro h
    obtain ⟨ds, left, e, hreads, hleft⟩ := exists_reads cs
    refine ⟨ds, left, hreads, fun hrange => ?_⟩
    obtain ⟨t', -, hparts⟩ := hreads.durationParts htotal hrange
    rcases eq_or_ne left [] with rfl | hne
    · rw [hparts, durationParts_nil] at h
      cases h
    · rw [hparts, durationParts_of_error t' hne hleft] at h
      exact quantity_error hleft (Except.error.inj h)
  · rintro ⟨ds, left, hreads, hrange⟩
    exact hreads.durationRange htotal hrange

/-- Any other error is that of a part that cannot be read, and the parts before it have a sum in range. -/
theorem durationParts_eq_error {e : LiteralError} (he : e ≠ .durationRange) : durationParts total cs = .error e ↔
    ∃ ds left, Reads cs ds left ∧ IsDuration (total.nanos + sum ds) ∧ left ≠ [] ∧ quantity left = .error e := by
  constructor
  · intro h
    obtain ⟨ds, left, e', hreads, hleft⟩ := exists_reads cs
    by_cases hrange : IsDuration (total.nanos + sum ds)
    · obtain ⟨t', -, hparts⟩ := hreads.durationParts htotal hrange
      rcases eq_or_ne left [] with rfl | hne
      · rw [hparts, durationParts_nil] at h
        cases h
      · rw [hparts, durationParts_of_error t' hne hleft] at h
        cases h
        exact ⟨ds, left, hreads, hrange, hne, hleft⟩
    · rw [hreads.durationRange htotal hrange] at h
      exact absurd (Except.error.inj h).symm he
  · rintro ⟨ds, left, hreads, hrange, hne, hleft⟩
    obtain ⟨t', -, hparts⟩ := hreads.durationParts htotal hrange
    rw [hparts, durationParts_of_error t' hne hleft]

end

-- ---------------------------------------------------------------------------
-- The literal
-- ---------------------------------------------------------------------------

/-- The duration forward has an opposite. -/
theorem exists_opposite {d : Duration} (h : 0 ≤ d.nanos) : ∃ d', Duration.ofNanos? (-d.nanos) = some d' := by
  have hrange := d.inRange
  have hopposite : IsDuration (-d.nanos) := by
    unfold IsDuration at *
    omega
  exact ⟨_, dif_pos hopposite⟩

/-- The sign in front of the parts. -/
def splitMinus : List Char → Bool × List Char
  | '-' :: rest => (true, rest)
  | rest => (false, rest)

/-- The sign of a duration literal, and its parts. -/
def signedParts (cs : List Char) : Bool × List Char := splitMinus ((afterTag cs).map Char.toLower)

theorem duration_eq (cs : List Char) : duration cs =
    if (signedParts cs).2.isEmpty then .error .duration
    else durationParts .zero (signedParts cs).2 >>= fun total =>
      if (signedParts cs).1 then orError .durationRange (Duration.ofNanos? (-total.nanos)) else .ok total := by
  unfold duration signedParts
  dsimp only
  generalize (afterTag cs).map Char.toLower = text
  split
  · next rest => cases rest <;> rfl
  · next hsign =>
    have hsplit : splitMinus text = (false, text) := by
      unfold splitMinus
      split
      · next rest => exact absurd rfl (hsign rest)
      · rfl
    rw [hsplit]
    cases text <;> rfl

/-- The sign at the end overflows nothing. -/
theorem exists_duration {cs : List Char} {total : Duration} (hparts : (signedParts cs).2 ≠ [])
    (h : durationParts .zero (signedParts cs).2 = .ok total) (htotal : 0 ≤ total.nanos) :
    ∃ d, duration cs = .ok d ∧ d.nanos = if (signedParts cs).1 then -total.nanos else total.nanos := by
  rw [duration_eq, if_neg (by simpa using hparts), h, Except.ok_bind]
  cases (signedParts cs).1 with
  | false => exact ⟨total, rfl, rfl⟩
  | true =>
    obtain ⟨d, hd⟩ := exists_opposite htotal
    refine ⟨d, ?_, Duration.ofNanos?_eq_some hd⟩
    rw [if_pos rfl, hd]
    rfl

/-- The parts are added up from nothing. -/
theorem durationParts_zero_eq_ok {cs : List Char} {t : Duration} :
    durationParts .zero cs = .ok t ↔ ∃ ds, Reads cs ds [] ∧ t.nanos = sum ds := by
  have h : durationParts .zero cs = .ok t ↔ ∃ ds, Reads cs ds [] ∧ t.nanos = 0 + sum ds :=
    durationParts_eq_ok (Int.le_refl 0)
  simpa using h

/-- A literal is a duration exactly if all of its parts can be read and their sum is in range. -/
theorem duration_eq_ok {cs : List Char} {d : Duration} : duration cs = .ok d ↔
    (signedParts cs).2 ≠ [] ∧ ∃ ds, Reads (signedParts cs).2 ds [] ∧ IsDuration (sum ds) ∧
      d.nanos = if (signedParts cs).1 then -sum ds else sum ds := by
  constructor
  · intro h
    have hparts := h
    rw [duration_eq] at hparts
    obtain ⟨hne, hparts⟩ := Except.ite_error_eq_ok.mp hparts
    obtain ⟨total, htotal, -⟩ := Except.bind_eq_ok.mp hparts
    have hne : (signedParts cs).2 ≠ [] := by simpa using hne
    obtain ⟨ds, hreads, hsum⟩ := durationParts_zero_eq_ok.mp htotal
    obtain ⟨d', hd', hnanos⟩ := exists_duration hne htotal (hsum ▸ hreads.nonneg)
    cases hd'.symm.trans h
    rw [hsum] at hnanos
    exact ⟨hne, ds, hreads, hsum ▸ total.inRange, hnanos⟩
  · rintro ⟨hne, ds, hreads, hrange, hnanos⟩
    have htotal : durationParts .zero (signedParts cs).2 = .ok ⟨sum ds, hrange⟩ :=
      durationParts_zero_eq_ok.mpr ⟨ds, hreads, rfl⟩
    obtain ⟨d', hd', hnanos'⟩ := exists_duration hne htotal hreads.nonneg
    rw [hd', Duration.eq_of_nanos (hnanos'.trans hnanos.symm)]

/-- A literal overflows exactly if the sum of some parts at its front does. -/
theorem duration_eq_durationRange {cs : List Char} : duration cs = .error .durationRange ↔
    ∃ ds left, Reads (signedParts cs).2 ds left ∧ ¬ IsDuration (sum ds) := by
  have hparts : durationParts .zero (signedParts cs).2 = .error .durationRange ↔
      ∃ ds left, Reads (signedParts cs).2 ds left ∧ ¬ IsDuration (0 + sum ds) :=
    durationParts_eq_durationRange (Int.le_refl 0)
  simp only [Int.zero_add] at hparts
  rw [← hparts, duration_eq]
  constructor
  · intro h
    split at h
    · cases h
    · cases htotal : durationParts .zero (signedParts cs).2 with
      | error e =>
        rw [htotal] at h
        exact h
      | ok total =>
        obtain ⟨ds, hreads, hsum⟩ := durationParts_zero_eq_ok.mp htotal
        obtain ⟨d, hd⟩ := exists_opposite (hsum ▸ hreads.nonneg)
        rw [htotal, Except.ok_bind, hd] at h
        split at h <;> cases h
  · intro h
    have hne : (signedParts cs).2 ≠ [] := by
      intro hnil
      rw [hnil, durationParts_nil] at h
      cases h
    rw [if_neg (by simpa using hne), h]
    rfl

/-- A literal of one part never overflows. -/
theorem duration_of_single {cs : List Char} {x : Float} (h : quantity (signedParts cs).2 = .ok (x, [])) :
    ∃ d, duration cs = .ok d := by
  obtain ⟨d, hd, hnonneg⟩ := exists_part h
  have hne : (signedParts cs).2 ≠ [] := List.ne_nil_of_length_pos (Nat.zero_lt_of_lt (length_of_quantity h))
  have hsum : sum [d] = d.nanos := by simp [sum]
  have htotal : durationParts .zero (signedParts cs).2 = .ok d :=
    durationParts_zero_eq_ok.mpr ⟨[d], .cons h hd .nil, hsum.symm⟩
  obtain ⟨d', hd', -⟩ := exists_duration hne htotal hnonneg
  exact ⟨d', hd'⟩

end Literal

end StructuredText
