-- SUMMARY: Numbers are read back from their digits, with zeros in front and with a fraction behind them.
import StructuredText.Calendar
import StructuredText.Proofs.LetterCase
import StructuredText.Proofs.ReadConstants
import StructuredText.Proofs.RealOperations
import StructuredText.Text.Numeral

/-!
# Numbers and their digits

A number is written as its digits, with zeros in front of them up to a width. It is read back from them whether it is
read as a natural number or as a real one. A real number that has digits behind a point is read as the number nearest
to it.
-/

namespace StructuredText

namespace Text

-- ---------------------------------------------------------------------------
-- The front of a text
-- ---------------------------------------------------------------------------

section

variable {p : Char → Bool} {cs rest : List Char} (hcs : ∀ c ∈ cs, p c = true) (hrest : ∀ c ∈ rest.head?, p c = false)

include hcs hrest

theorem takeWhile_front : (cs ++ rest).takeWhile p = cs := by
  rw [List.takeWhile_append_of_pos hcs]
  cases rest with
  | nil => simp
  | cons c rest => simp [hrest c rfl]

theorem dropWhile_front : (cs ++ rest).dropWhile p = rest := by
  rw [List.dropWhile_append_of_pos hcs]
  cases rest with
  | nil => rfl
  | cons c rest => simp [hrest c rfl]

end

-- ---------------------------------------------------------------------------
-- Natural numbers
-- ---------------------------------------------------------------------------

/-- The digits of a number with zeros in front of them up to a width. -/
def digits (width n : Nat) : List Char :=
  List.replicate (width - (Nat.toDigits 10 n).length) '0' ++ Nat.toDigits 10 n

variable {width n : Nat} {c : Char}

theorem digits_zero (n : Nat) : digits 0 n = Nat.toDigits 10 n := by simp [digits]

theorem digits_ne_nil (width n : Nat) : digits width n ≠ [] := List.append_ne_nil_of_right_ne_nil _ Nat.toDigits_ne_nil

theorem isDigit_of_mem_digits (h : c ∈ digits width n) : c.isDigit = true := by
  obtain h | h := List.mem_append.mp h
  · rw [List.eq_of_mem_replicate h]
    rfl
  · exact Nat.isDigit_of_mem_toDigits (by omega) (by omega) h

theorem length_digits (hwidth : 0 < width) (h : n < 10 ^ width) : (digits width n).length = width := by
  have hle := (Nat.length_toDigits_le_iff (by omega) hwidth).mpr h
  rw [digits, List.length_append, List.length_replicate]
  omega

theorem digitsValue_eq (cs : List Char) : Binary64.digitsValue cs = Nat.ofDigitChars 10 cs 0 :=
  Nat.ofDigitChars_eq_foldl.symm

/-- Zeros in front of digits do not count. -/
theorem digitsValue_digits (width n : Nat) : Binary64.digitsValue (digits width n) = n := by
  rw [digitsValue_eq, digits, Nat.ofDigitChars_append, Nat.ofDigitChars_replicate_zero, Nat.mul_zero,
    Nat.ofDigitChars_ten_toDigits]

theorem digitsValue_append (width n width' m : Nat) : Binary64.digitsValue (digits width n ++ digits width' m) =
    n * 10 ^ (digits width' m).length + m := by
  rw [digitsValue_eq, Nat.ofDigitChars_append, Nat.ofDigitChars_eq_ofDigitChars_zero, ← digitsValue_eq, ← digitsValue_eq,
    digitsValue_digits, digitsValue_digits, Nat.mul_comm]

theorem digits?_digits (width n : Nat) : digits? 10 (digits width n) = some n := by
  rw [digits?_foldl (digits_ne_nil width n) fun _ => isDigit_of_mem_digits]
  exact congrArg some (digitsValue_digits width n)

theorem number?_digits {limit : Nat} (h : n ≤ limit) : number? limit (digits width n) = some n := by
  unfold number?
  dsimp only
  split
  · next rest hdigits =>
    have hmem : '+' ∈ digits width n := by simp [hdigits]
    exact absurd (isDigit_of_mem_digits hmem) (by decide)
  · rw [digits?_digits]
    simp [h]

/-- What is in front of a separator is a field. -/
theorem fields_append {separator : Char} {cs : List Char} (h : separator ∉ cs) (rest : List Char) :
    fields separator (cs ++ separator :: rest) = cs :: fields separator rest := by
  induction cs with
  | nil => simp [fields]
  | cons c cs ih =>
    obtain ⟨hc, hcs⟩ := List.ne_and_not_mem_of_not_mem_cons h
    rw [List.cons_append, fields, if_neg (Ne.symm hc), ih hcs]

theorem fields_of_not_mem {separator : Char} {cs : List Char} (h : separator ∉ cs) : fields separator cs = [cs] := by
  induction cs with
  | nil => rfl
  | cons c cs ih =>
    obtain ⟨hc, hcs⟩ := List.ne_and_not_mem_of_not_mem_cons h
    rw [fields, if_neg (Ne.symm hc), ih hcs]

theorem not_mem_digits {separator : Char} (h : separator.isDigit = false) : separator ∉ digits width n := fun hmem => by
  rw [isDigit_of_mem_digits hmem] at h
  cases h

end Text

theorem toList_toString (n : Nat) : (toString n).toList = Text.digits 0 n := by
  rw [Nat.toString_eq_ofList_toDigits, String.toList_ofList, Text.digits_zero]

theorem toList_padded (width n : Nat) : (padded width n).toList = Text.digits width n := by
  have hpushn (k : Nat) : ("".pushn '0' k).toList = List.replicate k '0' := by
    induction k with
    | zero => rfl
    | succ k ih =>
      rw [List.replicate_succ', ← ih]
      exact String.toList_push _
  unfold padded
  rw [String.toList_append, hpushn, toList_toString, Text.digits_zero, ← String.length_toList, toList_toString,
    Text.digits_zero]
  rfl

-- ---------------------------------------------------------------------------
-- Real numbers
-- ---------------------------------------------------------------------------

namespace Binary64

open Float.Model UnpackedFloat Text

theorem splitSign_of_number {cs : List Char} (hcs : ∀ c ∈ cs, Literal.isNumberChar c = true) :
    splitSign cs = (false, cs) := by
  unfold splitSign
  split
  · exact absurd (hcs '-' (by simp)) (by decide)
  · exact absurd (hcs '+' (by simp)) (by decide)
  · rfl

/-- Digits and points are no word. -/
theorem lowered_ne_word {cs : List Char} (hcs : ∀ c ∈ cs, Literal.isNumberChar c = true) (word : String) (c : Char)
    (hc : c ∈ word.toList) (hletter : Literal.isNumberChar c = false) :
    String.ofList (cs.map Char.toLower) ≠ word := by
  have hlower : cs.map Char.toLower = cs := by
    refine (List.map_congr_left fun c hc => ?_).trans (List.map_id cs)
    have hnumber := hcs c hc
    rw [Literal.isNumberChar, Bool.or_eq_true, decide_eq_true_eq] at hnumber
    obtain hdigit | rfl := hnumber
    · exact Text.toLower_of_isDigit hdigit
    · rfl
  rintro rfl
  rw [hlower, String.toList_ofList] at hc
  rw [hcs c hc] at hletter
  cases hletter

/-- Digits and points are read as the digits in front and the digits after a point. -/
theorem read?_of_number {cs : List Char} (hcs : ∀ c ∈ cs, Literal.isNumberChar c = true) :
    read? (String.ofList cs) =
      let whole := cs.takeWhile Char.isDigit
      let (places, tail) :=
        match cs.dropWhile Char.isDigit with
        | '.' :: rest => (rest.takeWhile Char.isDigit, rest.dropWhile Char.isDigit)
        | rest => ([], rest)
      if whole.isEmpty && places.isEmpty then none
      else (readExponent? tail).bind fun exponent =>
        some (ofDecimal false (digitsValue (whole ++ places)) (exponent - places.length)) := by
  have hinf := lowered_ne_word hcs "inf" 'i' (by decide) rfl
  have hinfinity := lowered_ne_word hcs "infinity" 'i' (by decide) rfl
  have hnan := lowered_ne_word hcs "nan" 'n' (by decide) rfl
  unfold read?
  rw [String.toList_ofList, splitSign_of_number hcs]
  simp only [hinf, hinfinity, hnan, decide_false, Bool.or_self, Bool.false_eq_true, if_false]
  rfl

theorem read?_digits (width n : Nat) : read? (String.ofList (digits width n)) = some (ofDecimal false n 0) := by
  have hnumber : ∀ c ∈ digits width n, Literal.isNumberChar c = true := fun c hc => by
    simp [Literal.isNumberChar, isDigit_of_mem_digits hc]
  have htake : (digits width n).takeWhile Char.isDigit = digits width n :=
    List.takeWhile_eq_self_iff.mpr fun _ => isDigit_of_mem_digits
  have hdrop : (digits width n).dropWhile Char.isDigit = [] :=
    List.dropWhile_eq_nil_iff.mpr fun _ => isDigit_of_mem_digits
  rw [read?_of_number hnumber, htake, hdrop]
  simp [digits_ne_nil, readExponent?, digitsValue_digits]

theorem read?_fraction (width n width' m : Nat) :
    read? (String.ofList (digits width n ++ '.' :: digits width' m)) =
      some (ofDecimal false (n * 10 ^ (digits width' m).length + m) (-(digits width' m).length)) := by
  have hnumber : ∀ c ∈ digits width n ++ '.' :: digits width' m, Literal.isNumberChar c = true := by
    intro c hc
    rw [List.mem_append, List.mem_cons] at hc
    obtain hc | rfl | hc := hc
    · simp [Literal.isNumberChar, isDigit_of_mem_digits hc]
    · rfl
    · simp [Literal.isNumberChar, isDigit_of_mem_digits hc]
  have hpoint : ∀ c ∈ ('.' :: digits width' m).head?, c.isDigit = false := by
    rintro c ⟨⟩
    rfl
  have hdigits : ∀ c ∈ digits width n, c.isDigit = true := fun _ => isDigit_of_mem_digits
  have htake := takeWhile_front hdigits hpoint
  have hdrop := dropWhile_front hdigits hpoint
  have hplaces : (digits width' m).takeWhile Char.isDigit = digits width' m :=
    List.takeWhile_eq_self_iff.mpr fun _ => isDigit_of_mem_digits
  have htail : (digits width' m).dropWhile Char.isDigit = [] :=
    List.dropWhile_eq_nil_iff.mpr fun _ => isDigit_of_mem_digits
  rw [read?_of_number hnumber, htake, hdrop]
  simp [digits_ne_nil, readExponent?, hplaces, htail, digitsValue_append]

/-- A decimal is a quotient. -/
theorem ofDecimal_eq {n : Nat} {e : Int} (hn : n < 10 ^ 20) (he : -300 ≤ e) (he' : e ≤ 300) : ofDecimal false n e =
    if e < 0 then ofRatio false n (10 ^ (-e).toNat) else ofRatio false (n * 10 ^ e.toNat) 1 := by
  have hsize : (Nat.toDigits 10 n).length ≤ 20 := (Nat.length_toDigits_le_iff (by omega) (by omega)).mpr hn
  have hbelow : ¬ ((Nat.toDigits 10 n).length + e < -400) := by omega
  have habove : ¬ ((Nat.toDigits 10 n).length + e > 400) := by omega
  have hzero (d d' : Nat) : ofRatio false 0 d = ofRatio false 0 d' := by
    unfold ofRatio
    rw [if_pos rfl, if_pos rfl]
  unfold ofDecimal
  simp only [hbelow, habove, decide_false, Bool.or_false, decide_eq_true_eq, if_false]
  split
  · next hn =>
    rw [hn, Nat.zero_mul]
    split
    · exact hzero _ _
    · rfl
  · rfl

/-- A decimal without a fraction is the number. -/
theorem is_ofDecimal {n : Nat} (h : n < 2 ^ 53) : Is (ofDecimal false n 0) .positive n := by
  have hlargest : (n : ℚ) / (1 : Nat) ≤ largest := by
    have hn : (n : ℚ) ≤ 2 ^ (53 : Int) := by exact_mod_cast h.le
    rw [Nat.cast_one, div_one]
    exact hn.trans (two_zpow_le_largest (by norm_num))
  obtain ⟨v, hv, hrounds⟩ := is_ofRatio false n one_pos hlargest
  rw [ofDecimal_eq (by omega) (by omega) (by omega), if_neg (by omega), Int.toNat_zero, pow_zero, mul_one]
  have hexact : v = n * 2 ^ (0 : Int) := Rounds.exact (by simpa using hrounds) h (by norm_num)
  rw [zpow_zero, mul_one] at hexact
  rwa [hexact] at hv

/-- A decimal with a fraction is rounded. -/
theorem is_ofDecimal_neg {n k : Nat} (hn : n < 2 ^ 53) (hk : 0 < k) (hk' : k ≤ 300) :
    ∃ v, Is (ofDecimal false n (-k)) .positive v ∧ Rounds (n / 10 ^ k) v := by
  have hlargest : (n : ℚ) / (10 ^ k : Nat) ≤ largest := by
    have hn : (n : ℚ) ≤ 2 ^ (53 : Int) := by exact_mod_cast hn.le
    have hone : (1 : ℚ) ≤ (10 ^ k : Nat) := by exact_mod_cast Nat.one_le_pow _ _ (by omega)
    exact (div_le_self (by positivity) hone).trans (hn.trans (two_zpow_le_largest (by norm_num)))
  rw [ofDecimal_eq (by omega) (by omega) (by omega), if_pos (by omega), neg_neg, Int.toNat_natCast]
  have his := is_ofRatio false n (pow_pos (by omega) k) hlargest
  push_cast at his
  exact his

end Binary64

end StructuredText
