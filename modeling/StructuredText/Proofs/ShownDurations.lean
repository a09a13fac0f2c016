-- SUMMARY: A duration is shown as a literal of itself exactly if it is whole milliseconds, unless it has too many days.
import StructuredText.Proofs.ShownLiterals

/-!
# Durations that are shown

A duration is shown as its days, hours, minutes, seconds, milliseconds and microseconds. A literal has no microseconds, so
it has the duration that is shown exactly if that is whole milliseconds. This is so as long as the seconds of the days are
a number that a real can have, for they are multiplied as reals. With that, it is known of all literals but reals which of
their values are shown as literals again.
-/

namespace StructuredText

open Text Lexer Binary64 Float.Model UnpackedFloat

-- ---------------------------------------------------------------------------
-- Units
-- ---------------------------------------------------------------------------

namespace Binary64

theorem is_of_unpack {x : Float} {m : Nat} {e : Int} (hm : 0 < m) (h : x.toModel.unpack = .finite .positive m e hm) :
    Is x .positive (m * 2 ^ e) := by
  unfold Is
  rw [h]
  exact .finite hm

/-- The seconds of the units of a second and more. -/
theorem is_unit : ∀ u ∈ [((86400 : Float), 86400), (3600, 3600), (60, 60), ((1 : Float), 1)], Is u.1 .positive (u.2 : Nat) := by
  have hd : Is 86400 .positive ((86400 * 2 ^ 36 : Nat) * 2 ^ (-36 : Int)) := is_of_unpack (by decide) rfl
  have hh : Is 3600 .positive ((3600 * 2 ^ 41 : Nat) * 2 ^ (-41 : Int)) := is_of_unpack (by decide) rfl
  have hm : Is 60 .positive ((60 * 2 ^ 47 : Nat) * 2 ^ (-47 : Int)) := is_of_unpack (by decide) rfl
  have hs : Is 1 .positive ((1 * 2 ^ 52 : Nat) * 2 ^ (-52 : Int)) := is_of_unpack (by decide) rfl
  norm_num at hd hh hm hs
  simp [hd, hh, hm, hs]

/-- A thousandth is close to one. -/
theorem exists_is_thousandth : ∃ v, Is 0.001 .positive v ∧ |v - 1 / 10 ^ 3| ≤ 2 ^ (-63 : Int) := by
  have h : Is 0.001 .positive ((4611686018427388 : Nat) * 2 ^ (-62 : Int)) := is_of_unpack (by decide) rfl
  refine ⟨_, h, ?_⟩
  rw [abs_le]
  constructor <;> norm_num

end Binary64

namespace Literal

/-- A number of units that are whole seconds is read as it is, if a real can have its seconds. -/
theorem ofSeconds?_whole {x u : Float} {n k m f : Nat} (hx : Is x .positive n) (hu : Is u .positive k)
    (hseconds : n * k = m * 2 ^ f) (hm : m < 2 ^ 53) (hlimit : (n * k : Int) ≤ secondsLimit) :
    ∃ d, ofSeconds? (x * u) = some d ∧ d.nanos = n * (k * 10 ^ 9) := by
  have hnat : n * k ≤ 2 ^ 63 := by
    unfold secondsLimit at hlimit
    omega
  have hlargest : (n * k : ℚ) ≤ largest := by
    have hle : (n * k : ℚ) ≤ 2 ^ (63 : Int) := by exact_mod_cast hnat
    exact hle.trans (two_zpow_le_largest (by norm_num))
  obtain ⟨v, hv, hrounds⟩ := is_mul hx hu hlargest
  have hexact : v = (n * k : Nat) := by
    have hvalue : (n * k : ℚ) = m * 2 ^ (f : Int) := by exact_mod_cast hseconds
    rw [hvalue] at hrounds
    rw [hrounds.exact hm (by omega), ← hvalue]
    push_cast
    rfl
  rw [hexact] at hv
  obtain ⟨nanos, hnanos, -, hwhole⟩ := ofSeconds?_eq hv
  have hrange : IsDuration ((n * k : Nat) * 10 ^ 9) := by
    unfold IsDuration
    unfold secondsLimit at hlimit
    omega
  rw [hwhole (Int.fract_natCast _), Nat.floor_natCast, min_eq_left (by exact_mod_cast hlimit), Nat.cast_zero,
    add_zero] at hnanos
  refine ⟨⟨_, hrange⟩, hnanos.trans (dif_pos hrange), ?_⟩
  push_cast
  ring

/-- Milliseconds below a second are read as they are. -/
theorem ofSeconds?_milli {x : Float} {n : Nat} (hx : Is x .positive n) (hn : n < 1000) :
    ∃ d, ofSeconds? (x * 0.001) = some d ∧ d.nanos = n * 10 ^ 6 := by
  obtain ⟨w, hw, hclose⟩ := exists_is_thousandth
  have hcount : (n : ℚ) ≤ 999 := by exact_mod_cast Nat.le_of_lt_succ hn
  -- The thousandth is not exact, but the error stays far below half a nanosecond.
  have hproduct : |n * w - n / 10 ^ 3| ≤ 2 ^ (-53 : Int) :=
    calc |n * w - n / 10 ^ 3| = |(n : ℚ) * (w - 1 / 10 ^ 3)| := congrArg (|·|) (by ring)
      _ = (n : ℚ) * |w - 1 / 10 ^ 3| := by rw [abs_mul, Nat.abs_cast]
      _ ≤ 999 * 2 ^ (-63 : Int) := by gcongr
      _ ≤ 2 ^ (-53 : Int) := by norm_num
  have hlt : n * w < 2 ^ (0 : Int) := by
    have hupper := (abs_le.mp hproduct).2
    norm_num at hupper ⊢
    linarith
  obtain ⟨v, hv, hrounds⟩ := is_mul hx hw (hlt.le.trans (two_zpow_le_largest (by norm_num)))
  have hclose : |v - n / 10 ^ 3| ≤ 2 ^ (-52 : Int) :=
    calc |v - n / 10 ^ 3| = |(v - n * w) + (n * w - n / 10 ^ 3)| := by rw [sub_add_sub_cancel]
      _ ≤ |v - n * w| + |n * w - n / 10 ^ 3| := abs_add_le _ _
      _ ≤ 2 ^ (0 - 54 : Int) + 2 ^ (-53 : Int) := add_le_add (hrounds.error hlt (by norm_num)) hproduct
      _ ≤ 2 ^ (-52 : Int) := by norm_num
  have hbounds := abs_le.mp hclose
  norm_num at hbounds
  obtain ⟨d, hd, -, hnanos⟩ := exists_ofSeconds? hv (by linarith)
  have hrounding := abs_le.mp hnanos
  unfold roundingError at hrounding
  norm_num at hrounding
  have hbelow : (d.nanos : ℚ) < n * 1000000 + 1 := by linarith
  have habove : (n * 1000000 : ℚ) < d.nanos + 1 := by linarith
  have hbelow : d.nanos < n * 1000000 + 1 := by exact_mod_cast hbelow
  have habove : n * 1000000 < d.nanos + 1 := by exact_mod_cast habove
  exact ⟨d, hd, by omega⟩

-- ---------------------------------------------------------------------------
-- Parts
-- ---------------------------------------------------------------------------

/-- The unit stands behind a number, and it has so many seconds. -/
structure IsUnit (unit : String) (seconds : Float) : Prop where
  ne_nil : unit.toList ≠ []
  head : ∀ c ∈ unit.toList.head?, isNumberChar c = false
  read : ∀ rest, (∀ c ∈ rest.head?, c ≠ 's') → unit? (unit.toList ++ rest) = some (seconds, rest)

/-- The units that a literal can have. The minutes are not taken for milliseconds. -/
theorem isUnit_of_mem : ∀ p ∈ [("d", (86400 : Float)), ("h", 3600), ("m", 60), ("s", 1), ("ms", 0.001)], IsUnit p.1 p.2 := by
  have hminutes : ∀ rest : List Char, (∀ c ∈ rest.head?, c ≠ 's') → unit? ('m' :: rest) = some (60, rest) := by
    intro rest hrest
    unfold unit?
    split <;> simp_all
  simp only [List.forall_mem_cons]
  refine ⟨⟨by simp, ?_, fun _ _ => rfl⟩, ⟨by simp, ?_, fun _ _ => rfl⟩, ⟨by simp, ?_, hminutes⟩, ⟨by simp, ?_, fun _ _ => rfl⟩,
    ⟨by simp, ?_, fun _ _ => rfl⟩, nofun⟩
  all_goals
    rintro c ⟨⟩
    rfl

/-- The number with the unit is a part of a literal, and the unit has so many nanoseconds. -/
def IsPart (p : Nat × String) (nanos : Nat) : Prop :=
  ∃ seconds d, IsUnit p.2 seconds ∧ ofSeconds? (ofDecimal false p.1 0 * seconds) = some d ∧ d.nanos = p.1 * nanos

/-- How the number and the unit are written. A part of nothing is left out. -/
def partText (p : Nat × String) : List Char := if p.1 = 0 then [] else digits 0 p.1 ++ p.2.toList

theorem isPart_whole {n k m f : Nat} {unit : String} {u : Float} (hunit : IsUnit unit u) (hu : Is u .positive k)
    (hn : n < 2 ^ 53) (hseconds : n * k = m * 2 ^ f) (hm : m < 2 ^ 53) (hlimit : (n * k : Int) ≤ secondsLimit) :
    IsPart (n, unit) (k * 10 ^ 9) := by
  obtain ⟨d, hd, hnanos⟩ := ofSeconds?_whole (is_ofDecimal hn) hu hseconds hm hlimit
  exact ⟨u, d, hunit, hd, by exact_mod_cast hnanos⟩

/-- The number of a unit that is below the next one can always be read. -/
theorem isPart_within {n k : Nat} {unit : String} {u : Float} (hunit : IsUnit unit u) (hu : Is u .positive k)
    (hn : n < 60) (hk : k ≤ 3600) : IsPart (n, unit) (k * 10 ^ 9) := by
  have hseconds : n * k ≤ 60 * 3600 := Nat.mul_le_mul hn.le hk
  refine isPart_whole (m := n * k) (f := 0) hunit hu ?_ ?_ ?_ ?_
  · omega
  · rw [pow_zero, mul_one]
  · omega
  · unfold secondsLimit
    omega

/-- Digits are the number of a part, whatever stands behind them. -/
theorem quantity_digits (n : Nat) {tail : List Char} (hne : tail ≠ []) (htail : ∀ c ∈ tail.head?, isNumberChar c = false) :
    quantity (digits 0 n ++ tail) =
      orError .durationUnit (unit? tail) >>= fun found => pure (ofDecimal false n 0 * found.1, found.2) := by
  have hnumber : ∀ c ∈ digits 0 n, isNumberChar c = true := fun c hc => by
    simp [isNumberChar, isDigit_of_mem_digits hc]
  have hbars : (digits 0 n ++ tail).dropWhile (· = '_') = digits 0 n ++ tail := by
    obtain ⟨c, rest, hdigits⟩ := List.exists_cons_of_ne_nil (digits_ne_nil 0 n)
    have hc : c ≠ '_' := by
      rintro rfl
      exact absurd (isDigit_of_mem_digits (hdigits ▸ List.mem_cons_self)) (by decide)
    simp [hdigits, hc]
  unfold quantity
  dsimp only
  rw [hbars, takeWhile_front hnumber htail, dropWhile_front hnumber htail, read?_digits, if_neg (by simpa using hne)]
  rfl

theorem quantity_part {n : Nat} {unit : String} {u : Float} (hunit : IsUnit unit u) {rest : List Char}
    (hrest : ∀ c ∈ rest.head?, c ≠ 's') :
    quantity (digits 0 n ++ (unit.toList ++ rest)) = .ok (ofDecimal false n 0 * u, rest) := by
  rw [quantity_digits, hunit.read _ hrest]
  · rfl
  · simp [hunit.ne_nil]
  · rw [List.head?_append_of_ne_nil _ hunit.ne_nil]
    exact hunit.head

/-- Microseconds are no part of a literal. -/
theorem quantity_micros (n : Nat) : quantity (digits 0 n ++ "us".toList) = .error .durationUnit :=
  quantity_digits n (by simp) (by rintro c ⟨⟩; rfl)

/-- Where there are parts, they start with a digit. -/
theorem head_parts {ps : List (Nat × String)} {left : List Char} :
    ∀ c ∈ (ps.flatMap partText ++ left).head?, c.isDigit = true ∨ c ∈ left.head? := by
  induction ps with
  | nil => exact fun c hc => .inr hc
  | cons p ps ih =>
    rw [List.flatMap_cons, List.append_assoc]
    unfold partText
    split
    · exact ih
    · rw [List.append_assoc, List.head?_append_of_ne_nil _ (digits_ne_nil 0 p.1)]
      exact fun c hc => .inl (isDigit_of_mem_digits (List.mem_of_mem_head? hc))

/-- Parts are read, whatever follows them that does not go on with the last unit. -/
theorem exists_reads_parts {ps : List ((Nat × String) × Nat)} (hps : ∀ p ∈ ps, p.1.1 ≠ 0 → IsPart p.1 p.2)
    {left : List Char} (hleft : ∀ c ∈ left.head?, c ≠ 's') :
    ∃ ds, Reads ((ps.map (·.1)).flatMap partText ++ left) ds left ∧
      sum ds = ((ps.map fun p => p.1.1 * p.2).sum : Nat) := by
  induction ps with
  | nil => exact ⟨[], .nil, rfl⟩
  | cons p ps ih =>
    obtain ⟨hp, hps⟩ := List.forall_mem_cons.mp hps
    obtain ⟨ds, hreads, hsum⟩ := ih hps
    obtain ⟨⟨n, unit⟩, nanos⟩ := p
    rw [List.map_cons, List.flatMap_cons, List.map_cons, List.sum_cons, List.append_assoc]
    by_cases hzero : n = 0
    · refine ⟨ds, ?_, ?_⟩
      · rw [partText, if_pos hzero]
        exact hreads
      · rw [hsum, hzero]
        simp
    · obtain ⟨u, d, hunit, hd, hnanos⟩ := hp hzero
      refine ⟨d :: ds, ?_, ?_⟩
      · rw [partText, if_neg hzero, List.append_assoc]
        refine .cons (quantity_part hunit fun c hc => ?_) hd hreads
        obtain hdigit | hc := head_parts c hc
        · rintro rfl
          exact absurd hdigit (by decide)
        · exact hleft c hc
      · rw [sum_cons, hsum, hnanos]
        push_cast
        rfl

end Literal

-- ---------------------------------------------------------------------------
-- Durations
-- ---------------------------------------------------------------------------

namespace Duration

open Literal

/-- The parts that a literal can have, with the nanoseconds of their units. -/
def parts (nanos : Nat) : List ((Nat × String) × Nat) :=
  [((nanos / (86400 * 10 ^ 9), "d"), 86400 * 10 ^ 9), ((nanos / (3600 * 10 ^ 9) % 24, "h"), 3600 * 10 ^ 9),
   ((nanos / (60 * 10 ^ 9) % 60, "m"), 60 * 10 ^ 9), ((nanos / (1 * 10 ^ 9) % 60, "s"), 1 * 10 ^ 9),
   ((nanos / 10 ^ 6 % 1000, "ms"), 10 ^ 6)]

/-- The microseconds are shown after the other parts. -/
theorem units_eq (nanos : Nat) : units nanos = (parts nanos).map (·.1) ++ [(nanos / 1000 % 1000, "us")] := by
  unfold units parts
  rw [List.map_cons, List.map_cons, List.map_cons, List.map_cons, List.map_cons, List.map_nil]
  simp only [List.cons_append, List.nil_append]

/-- The parts make up the whole milliseconds. -/
theorem sum_parts (nanos : Nat) : ((parts nanos).map fun p => p.1.1 * p.2).sum = nanos / 10 ^ 6 * 10 ^ 6 := by
  unfold parts
  rw [List.map_cons, List.map_cons, List.map_cons, List.map_cons, List.map_cons, List.map_nil]
  rw [List.sum_cons, List.sum_cons, List.sum_cons, List.sum_cons, List.sum_cons, List.sum_nil]
  dsimp only
  omega

/-- The seconds of the days are a number that a real can have. -/
def HasExactDays (nanos : Nat) : Prop := nanos / (86400 * 10 ^ 9) * 675 < 2 ^ 53

theorem isPart_of_mem {nanos : Nat} (h : HasExactDays nanos) : ∀ p ∈ parts nanos, p.1.1 ≠ 0 → IsPart p.1 p.2 := by
  have hhours : nanos / (3600 * 10 ^ 9) % 24 < 24 := Nat.mod_lt _ (by decide)
  have hminutes : nanos / (60 * 10 ^ 9) % 60 < 60 := Nat.mod_lt _ (by decide)
  have hseconds : nanos / (1 * 10 ^ 9) % 60 < 60 := Nat.mod_lt _ (by decide)
  have hmillis : nanos / 10 ^ 6 % 1000 < 1000 := Nat.mod_lt _ (by decide)
  unfold HasExactDays at h
  unfold parts
  generalize nanos / (86400 * 10 ^ 9) = days at *
  generalize nanos / (3600 * 10 ^ 9) % 24 = hours at *
  generalize nanos / (60 * 10 ^ 9) % 60 = minutes at *
  generalize nanos / (1 * 10 ^ 9) % 60 = seconds at *
  generalize nanos / 10 ^ 6 % 1000 = millis at *
  obtain ⟨hd, hh, hm, hs⟩ : Is 86400 .positive (86400 : Nat) ∧ Is 3600 .positive (3600 : Nat) ∧
      Is 60 .positive (60 : Nat) ∧ Is 1 .positive (1 : Nat) := by simpa using is_unit
  have hunits := isUnit_of_mem
  simp only [List.forall_mem_cons] at hunits ⊢
  obtain ⟨hdu, hhu, hmu, hsu, hmsu, -⟩ := hunits
  refine ⟨fun _ => ?_, fun _ => ?_, fun _ => ?_, fun _ => ?_, fun _ => ?_, nofun⟩
  · refine isPart_whole (m := days * 675) (f := 7) hdu hd ?_ ?_ h ?_
    · omega
    · omega
    · unfold secondsLimit
      omega
  · exact isPart_within hhu hh (by omega) (by decide)
  · exact isPart_within hmu hm hminutes (by decide)
  · exact isPart_within hsu hs hseconds (by decide)
  · obtain ⟨d, hread, hnanos⟩ := ofSeconds?_milli (is_ofDecimal (show millis < 2 ^ 53 by omega)) hmillis
    exact ⟨0.001, d, hmsu, hread, hnanos⟩


/-- The sign and the parts that are shown. -/
def sign (d : Duration) : List Char := if d.nanos < 0 then ['-'] else []

/-- The parts that are shown. -/
def shown (nanos : Nat) : List Char := if nanos = 0 then ['0', 's'] else (units nanos).flatMap partText

theorem toList_text {d : Duration} (h : HasExactDays d.nanos.natAbs) :
    d.text.toList = ['T'] ++ '#' :: (d.sign ++ shown d.nanos.natAbs) := by
  have hsize : min d.nanos.natAbs ((2 ^ 63 - 1) * 10 ^ 9 + 999999999) = d.nanos.natAbs := by
    unfold HasExactDays at h
    omega
  have hpart (p : Nat × String) : (if p.1 = 0 then "" else s!"{p.1}{p.2}").toList = partText p := by
    unfold partText
    split
    · rfl
    · rw [← toList_toString]
      exact String.toList_append
  have hparts (f : Nat × String → String) (hf : ∀ p, (f p).toList = partText p) (ps : List (Nat × String)) :
      (String.join (ps.map f)).toList = ps.flatMap partText := by
    rw [String.toList_join, List.flatMap_map]
    exact List.flatMap_congr fun p _ => hf p
  unfold text shown sign
  dsimp only
  rw [hsize, List.append_cons, String.toList_append, String.toList_append, List.append_assoc, apply_ite String.toList,
    apply_ite String.toList, hparts _ hpart]
  rfl

/-- The microseconds at the end of the parts. -/
def microsText (nanos : Nat) : List Char := partText (nanos / 1000 % 1000, "us")

theorem shown_eq {nanos : Nat} (h : nanos ≠ 0) :
    shown nanos = ((parts nanos).map (·.1)).flatMap partText ++ microsText nanos := by
  rw [shown, if_neg h, units_eq, List.flatMap_append, List.flatMap_singleton]
  rfl

/-- The parts are read as the whole milliseconds, up to the microseconds. -/
theorem exists_reads_shown {nanos : Nat} (hexact : HasExactDays nanos) :
    ∃ ds, Reads (shown nanos) ds (microsText nanos) ∧ Literal.sum ds = (nanos / 10 ^ 6 * 10 ^ 6 : Nat) := by
  rcases eq_or_ne nanos 0 with rfl | hne
  · have hunits := isUnit_of_mem
    have hseconds := is_unit
    simp only [List.forall_mem_cons] at hunits hseconds
    obtain ⟨-, -, -, hunit, -⟩ := hunits
    obtain ⟨-, -, -, hsecond, -⟩ := hseconds
    have hread : Is (ofDecimal false 0 0) .positive (0 : Nat) := is_ofDecimal (by decide)
    obtain ⟨d, hd, hnanos⟩ := ofSeconds?_whole (m := 0) (f := 0) hread hsecond rfl (by decide) (by decide)
    have htext : shown 0 = digits 0 0 ++ ("s".toList ++ []) := rfl
    refine ⟨[d], ?_, ?_⟩
    · rw [htext]
      exact .cons (quantity_part hunit nofun) hd .nil
    · rw [sum_cons, hnanos]
      rfl
  · rw [shown_eq hne, ← sum_parts]
    refine exists_reads_parts (isPart_of_mem hexact) fun c hc => ?_
    have htext : microsText nanos = [(nanos / 1000 % 1000, "us")].flatMap partText ++ [] := by
      rw [List.flatMap_singleton, List.append_nil]
      rfl
    have hhead : c.isDigit = true ∨ c ∈ ([] : List Char).head? := head_parts c (htext ▸ hc)
    obtain hdigit | hnone := hhead
    · rintro rfl
      exact absurd hdigit (by decide)
    · cases hnone

/-- A duration of whole milliseconds is shown with a part. -/
theorem shown_ne_nil {nanos : Nat} (hexact : HasExactDays nanos) (hmillis : 10 ^ 6 ∣ nanos) : shown nanos ≠ [] := by
  intro hnil
  obtain ⟨ds, hreads, hsum⟩ := exists_reads_shown hexact
  generalize microsText nanos = left at hreads
  rw [hnil] at hreads
  cases hreads with
  | nil =>
    rw [Nat.div_mul_cancel hmillis] at hsum
    rw [Int.natCast_eq_zero.mp hsum.symm] at hnil
    cases hnil
  | cons hquantity => exact absurd (length_of_quantity hquantity) (Nat.not_lt_zero _)

/-- The parts start with a digit. -/
theorem isDigit_head_shown {nanos : Nat} : ∀ c ∈ (shown nanos).head?, c.isDigit = true := by
  unfold shown
  split
  · rintro c ⟨⟩
    rfl
  · intro c hc
    have hhead : c.isDigit = true ∨ c ∈ ([] : List Char).head? := head_parts c (by rwa [List.append_nil])
    obtain hdigit | hnone := hhead
    · exact hdigit
    · cases hnone

/-- All characters of the parts belong to a duration, and none is a capital. -/
theorem isDurationChar_of_mem_shown {nanos : Nat} : ∀ c ∈ shown nanos, isDurationChar c = true ∧ c.toLower = c := by
  intro c hc
  have hletters : ∀ c ∈ ['0', 's'] ++ ['d', 'h', 'm', 's', 'm', 's', 'u', 's'], isDurationChar c = true ∧ c.toLower = c := by
    have hall : (['0', 's'] ++ ['d', 'h', 'm', 's', 'm', 's', 'u', 's']).all
        (fun c => isDurationChar c && c.toLower = c) = true := by decide
    simpa using hall
  have hunits : (units nanos).map (·.2) = ["d", "h", "m", "s", "ms", "us"] := rfl
  have hchars : ["d", "h", "m", "s", "ms", "us"].flatMap String.toList = ['d', 'h', 'm', 's', 'm', 's', 'u', 's'] := by decide
  unfold shown at hc
  split at hc
  · exact hletters c (List.mem_append_left _ hc)
  · obtain ⟨p, hp, hc⟩ := List.mem_flatMap.mp hc
    unfold partText at hc
    split at hc
    · cases hc
    · obtain hc | hc := List.mem_append.mp hc
      · have hdigit : c.isDigit = true := isDigit_of_mem_digits hc
        simp [isDurationChar, Char.isAlphanum, hdigit, toLower_of_isDigit]
      · have hunit : c ∈ ((units nanos).map (·.2)).flatMap String.toList :=
          List.mem_flatMap.mpr ⟨p.2, List.mem_map_of_mem hp, hc⟩
        rw [hunits, hchars] at hunit
        exact hletters c (List.mem_append_right _ hunit)

/-- The text of a duration that is shown. -/
def literalText (d : Duration) : List Char := ['T'] ++ '#' :: (d.sign ++ shown d.nanos.natAbs)

/-- The sign and the parts that are shown are those of the literal. -/
theorem signedParts_literalText (d : Duration) :
    signedParts d.literalText = (decide (d.nanos < 0), shown d.nanos.natAbs) := by
  have hparts : (shown d.nanos.natAbs).map Char.toLower = shown d.nanos.natAbs := by
    rw [List.map_congr_left fun c hc => (isDurationChar_of_mem_shown c hc).2, List.map_id']
  have hsplit : splitMinus (shown d.nanos.natAbs) = (false, shown d.nanos.natAbs) := by
    unfold splitMinus
    split
    · next heq => exact absurd (isDigit_head_shown '-' (by rw [heq]; rfl)) (by decide)
    · rfl
  rw [signedParts, literalText, afterTag_tagged (by simp), List.map_append, hparts]
  unfold sign
  split
  · next hneg =>
    rw [decide_eq_true hneg]
    rfl
  · next hneg =>
    rw [decide_eq_false hneg]
    exact hsplit

variable {d : Duration} (hexact : HasExactDays d.nanos.natAbs)

include hexact

theorem isDuration_of_hasExactDays {n : Nat} (h : n ≤ d.nanos.natAbs) : IsDuration n := by
  unfold HasExactDays at hexact
  unfold IsDuration
  omega

/-- The literal is read as the whole milliseconds if there are no microseconds. -/
theorem exists_duration_literalText (hne : shown d.nanos.natAbs ≠ []) (hmicros : microsText d.nanos.natAbs = []) :
    ∃ d', Literal.duration d.literalText = .ok d' ∧
      d'.nanos = (if d.nanos < 0 then -1 else 1) * (d.nanos.natAbs / 10 ^ 6 * 10 ^ 6 : Nat) := by
  obtain ⟨ds, hreads, hsum⟩ := exists_reads_shown hexact
  have hrange : IsDuration (sum ds) := hsum ▸ isDuration_of_hasExactDays hexact (Nat.div_mul_le_self _ _)
  rw [hmicros] at hreads
  have hparts := signedParts_literalText d
  have htotal : durationParts .zero (signedParts d.literalText).2 = .ok ⟨sum ds, hrange⟩ := by
    rw [hparts]
    exact durationParts_zero_eq_ok.mpr ⟨ds, hreads, rfl⟩
  obtain ⟨d', hd', hnanos⟩ := exists_duration (by rwa [hparts]) htotal hreads.nonneg
  refine ⟨d', hd', ?_⟩
  rw [hnanos, hparts, ← hsum]
  simp only [decide_eq_true_eq]
  split
  · rw [neg_one_mul]
  · rw [one_mul]

/-- A literal with microseconds is not read. -/
theorem duration_literalText_error (hmicros : microsText d.nanos.natAbs ≠ []) :
    Literal.duration d.literalText = .error .durationUnit := by
  obtain ⟨ds, hreads, hsum⟩ := exists_reads_shown hexact
  have hrange : IsDuration (0 + sum ds) := by
    rw [Int.zero_add, hsum]
    exact isDuration_of_hasExactDays hexact (Nat.div_mul_le_self _ _)
  have hquantity : quantity (microsText d.nanos.natAbs) = .error .durationUnit := by
    unfold microsText partText at *
    split at hmicros
    · exact absurd rfl hmicros
    · next hzero =>
      rw [if_neg hzero]
      exact quantity_micros _
  have htotal : durationParts .zero (shown d.nanos.natAbs) = .error .durationUnit :=
    (durationParts_eq_error (Int.le_refl 0) (e := .durationUnit) (by decide)).mpr ⟨ds, _, hreads, hrange, hmicros, hquantity⟩
  have hne : shown d.nanos.natAbs ≠ [] := by
    intro hnil
    rw [hnil, durationParts_nil] at htotal
    cases htotal
  rw [duration_eq, signedParts_literalText, if_neg (by simpa using hne), htotal]
  rfl

end Duration

/-- A duration that is shown with a part is one token. -/
theorem isToken_literalText {d : Duration} (hne : Duration.shown d.nanos.natAbs ≠ []) :
    IsToken .duration d.literalText := by
  obtain ⟨c, rest, hshown⟩ := List.exists_cons_of_ne_nil hne
  have hc : c.isDigit = true := Duration.isDigit_head_shown c (by rw [hshown]; rfl)
  have hminus : c ≠ '-' := by
    rintro rfl
    exact absurd hc (by decide)
  have hchars : ∀ c' ∈ rest, isDurationChar c' = true := fun c' hc' =>
    (Duration.isDurationChar_of_mem_shown c' (hshown ▸ List.mem_cons_of_mem c hc')).1
  rw [Duration.literalText, hshown]
  refine isToken_tagged (by simp) (by simp) ?_
  unfold Duration.sign
  split <;> simp [tagged?, hc, runLength_eq_length hchars, hminus] <;> omega

/-- A text that starts with a name is no constant. -/
theorem not_denotes_of_identifier {text : String} {c : Char} {rest : List Char} {n : Nat} {v : Value}
    (htext : text.toList = c :: rest) (h : lexeme c rest = (.token .identifier, n)) : ¬ Denotes text v := by
  rintro ⟨tokens, htokens, hparse⟩
  unfold tokenize at htokens
  rw [htext, scan, h] at htokens
  rw [← (Prod.mk.inj htokens).1] at hparse
  have hconstant := Parser.parse_of_parseAll hparse
  simp [Grammar.constant, Grammar.unsignedConstant, Grammar.real, Grammar.integer, Grammar.literal] at hconstant

/-- A duration is shown as a literal of its value exactly if it is whole milliseconds, unless it has too many days. -/
theorem denotes_duration_iff {d : Duration} (hexact : Duration.HasExactDays d.nanos.natAbs) :
    Denotes (Value.duration d).text (.duration d) ↔ 10 ^ 6 ∣ d.nanos := by
  have htext : (Value.duration d).text.toList = d.literalText := Duration.toList_text hexact
  by_cases hne : Duration.shown d.nanos.natAbs = []
  -- Without parts, the tag is taken for a name.
  · have hname : ¬ Denotes (Value.duration d).text (.duration d) := by
      rw [Duration.literalText, hne] at htext
      refine not_denotes_of_identifier (n := 0) htext ?_
      unfold Duration.sign
      split <;> rfl
    refine iff_of_false hname fun hmillis => ?_
    exact Duration.shown_ne_nil hexact (Int.natCast_dvd.mp hmillis) hne
  have htoken := isToken_literalText hne
  rw [← htext] at htoken
  constructor
  · intro h
    obtain ⟨span, hvalue⟩ := h.value?_of_isToken (by decide) htoken
    change some ((Literal.duration (Value.duration d).text.toList).map Value.duration) = _ at hvalue
    obtain ⟨d', hd', hv⟩ := Literal.map_eq_some_ok hvalue
    cases hv
    rw [htext] at hd'
    by_cases hmicros : Duration.microsText d.nanos.natAbs = []
    · obtain ⟨d', hsame, hnanos⟩ := Duration.exists_duration_literalText hexact hne hmicros
      cases hsame.symm.trans hd'
      split at hnanos <;> omega
    · cases (Duration.duration_literalText_error hexact hmicros).symm.trans hd'
  · intro hmillis
    have hmicros : Duration.microsText d.nanos.natAbs = [] := if_pos (by dsimp only; omega)
    obtain ⟨d', hd', hnanos⟩ := Duration.exists_duration_literalText hexact hne hmicros
    have hsame : d' = d := by
      apply Duration.eq_of_nanos
      split at hnanos <;> omega
    refine denotes_of_isToken .duration (by decide) htoken fun span => ?_
    change some ((Literal.duration (Value.duration d).text.toList).map Value.duration) = _
    rw [htext, hd', hsame]
    rfl

-- ---------------------------------------------------------------------------
-- All literals
-- ---------------------------------------------------------------------------

/-- A date that is read is not before the year zero. -/
theorem Literal.year_of_civilDate {fields : List (List Char)} {d : Date} (h : civilDate fields = .ok d) : 0 ≤ d.year := by
  unfold civilDate at h
  split at h
  · obtain ⟨year, -, h⟩ := Except.bind_eq_ok.mp h
    obtain ⟨month, -, h⟩ := Except.bind_eq_ok.mp h
    obtain ⟨day, -, h⟩ := Except.bind_eq_ok.mp h
    obtain ⟨-, h⟩ := Except.ite_error_eq_ok.mp h
    obtain ⟨hvalid, hd⟩ := Option.dite_none_right_eq_some.mp (orError_eq_ok.mp h)
    cases hd
    exact Int.natCast_nonneg year
  · cases h

theorem Literal.year_of_dateAndTime {cs : List Char} {t : DateAndTime} (h : dateAndTime cs = .ok t) : 0 ≤ t.date.year := by
  unfold dateAndTime at h
  split at h
  · obtain ⟨date, hdate, h⟩ := Except.bind_eq_ok.mp h
    obtain ⟨time, -, h⟩ := Except.bind_eq_ok.mp h
    cases h
    exact year_of_civilDate hdate
  · cases h

namespace Value

/-- What a text of the value has to leave nothing out. -/
def IsShown : Value → Prop
  | .string s => IsPlainText s
  | .duration d => 10 ^ 6 ∣ d.nanos
  | .timeOfDay t => 10 ^ 6 ∣ t.nanos
  | .dateAndTime t => 10 ^ 6 ∣ t.time.nanos
  | _ => True

/-- A duration has no more days than can be read. -/
def HasExactDays : Value → Prop
  | .duration d => Duration.HasExactDays d.nanos.natAbs
  | _ => True

end Value

/-- The value of a literal that is no real is shown as a literal of the same value exactly if nothing of it is left out. -/
theorem denotes_text_iff {t : Token} {v : Value} (hkind : t.kind ≠ .real) (h : Literal.value? t = some (.ok v))
    (hexact : v.HasExactDays) : Denotes v.text v ↔ v.IsShown := by
  have number {i : Int} (h : 0 ≤ i ∧ i < 2 ^ 127) : Denotes (Value.integer i).text (.integer i) := by
    obtain ⟨n, rfl⟩ := Int.eq_ofNat_of_zero_le h.1
    refine denotes_integer ?_
    unfold Literal.integerLimit
    omega
  unfold Literal.value? at h
  dsimp only at h
  split at h
  case h_1 =>
    obtain ⟨i, hi, rfl⟩ := Literal.map_eq_some_ok h
    exact iff_of_true (number (Literal.integerInBase_range (Literal.orError_eq_ok.mp hi))) trivial
  case h_2 =>
    obtain ⟨i, hi, rfl⟩ := Literal.map_eq_some_ok h
    obtain ⟨base, -, hdigits⟩ := Option.bind_eq_some_iff.mp (Literal.orError_eq_ok.mp hi)
    exact iff_of_true (number (Literal.integerInBase_range hdigits)) trivial
  case h_3 hreal => exact absurd hreal hkind
  case h_4 =>
    obtain ⟨s, -, rfl⟩ := Literal.map_eq_some_ok h
    exact denotes_string_iff
  case h_5 =>
    obtain ⟨d, -, rfl⟩ := Literal.map_eq_some_ok h
    exact denotes_duration_iff hexact
  case h_6 =>
    obtain ⟨d, hd, rfl⟩ := Literal.map_eq_some_ok h
    exact iff_of_true (denotes_date (Literal.year_of_civilDate hd)) trivial
  case h_7 =>
    obtain ⟨d, -, rfl⟩ := Literal.map_eq_some_ok h
    exact denotes_timeOfDay_iff
  case h_8 =>
    obtain ⟨d, hd, rfl⟩ := Literal.map_eq_some_ok h
    exact denotes_dateAndTime_iff (Literal.year_of_dateAndTime hd)
  case h_9 => cases h

end StructuredText
