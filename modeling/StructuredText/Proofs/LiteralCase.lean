-- SUMMARY: The value of a literal does not depend on the case of its letters.
import StructuredText.Proofs.LetterCase

/-!
# Literals in either case

Letters occur in tags, in the digits of a based integer, in exponents, in the units of durations and in direct
addresses. Wherever they are read, those of either case count as the same.
-/

namespace StructuredText

-- ---------------------------------------------------------------------------
-- Numerals
-- ---------------------------------------------------------------------------

namespace Text

@[simp] theorem digit?_toLower (base : Nat) (c : Char) : digit? base c.toLower = digit? base c := by
  unfold digit?
  apply congrArg (Option.filter fun digit => decide (digit < base))
  exact apply_toLower
    (p := fun c =>
      if c.isDigit then some (c.toNat - '0'.toNat)
      else if 'a' ≤ c && c ≤ 'f' then some (10 + (c.toNat - 'a'.toNat))
      else if 'A' ≤ c && c ≤ 'F' then some (10 + (c.toNat - 'A'.toNat))
      else none)
    (by decide) c

@[simp] theorem digits?_map_toLower (base : Nat) (cs : List Char) :
    digits? base (cs.map Char.toLower) = digits? base cs := by
  simp only [digits?, List.isEmpty_map, List.foldlM_map, digit?_toLower]

@[simp] theorem number?_map_toLower (limit : Nat) (cs : List Char) :
    number? limit (cs.map Char.toLower) = number? limit cs := by
  rcases cs with _ | ⟨c, rest⟩
  · rfl
  · by_cases hc : c = '+'
    · subst hc
      simp [number?]
    · have hrest := digits?_map_toLower 10 (c :: rest)
      rw [List.map_cons] at hrest
      simp [number?, hc, hrest]

theorem fields_map_toLower {separator : Char} (h : separator.isAlpha = false) (cs : List Char) :
    fields separator (cs.map Char.toLower) = (fields separator cs).map (List.map Char.toLower) := by
  induction cs with
  | nil => rfl
  | cons c cs ih =>
    by_cases hc : c = separator
    · simp [fields, hc, h, ih]
    · rw [List.map_cons, fields, fields, if_neg (by simpa [h] using hc), if_neg hc, ih]
      cases fields separator cs <;> rfl

end Text

-- ---------------------------------------------------------------------------
-- Real numbers
-- ---------------------------------------------------------------------------

namespace Binary64

open Text

theorem splitSign_map_toLower (cs : List Char) :
    splitSign (cs.map Char.toLower) = Prod.map id (List.map Char.toLower) (splitSign cs) := by
  rcases cs with _ | ⟨c, rest⟩
  · rfl
  · by_cases hminus : c = '-'
    · subst hminus
      rfl
    · by_cases hplus : c = '+'
      · subst hplus
        rfl
      · simp [splitSign, hminus, hplus]

theorem map_toLower_takeWhile_isDigit (cs : List Char) :
    (cs.map Char.toLower).takeWhile Char.isDigit = cs.takeWhile Char.isDigit := by
  have hdigits : ∀ c ∈ cs.takeWhile Char.isDigit, c.toLower = c :=
    fun c hc => toLower_of_isDigit (List.all_eq_true.mp List.all_takeWhile c hc)
  rw [List.takeWhile_map, isDigit_comp_toLower, List.map_congr_left hdigits, List.map_id']

theorem dropWhile_isDigit_map_toLower (cs : List Char) :
    (cs.map Char.toLower).dropWhile Char.isDigit = (cs.dropWhile Char.isDigit).map Char.toLower := by
  rw [List.dropWhile_map, isDigit_comp_toLower]

theorem readExponent?_map_toLower (cs : List Char) : readExponent? (cs.map Char.toLower) = readExponent? cs := by
  rcases cs with _ | ⟨e, rest⟩
  · rfl
  · have hmark : (decide (e.toLower = 'e') || decide (e.toLower = 'E')) = (decide (e = 'e') || decide (e = 'E')) :=
      apply_toLower (p := fun e => decide (e = 'e') || decide (e = 'E')) (by decide) e
    simp only [List.map_cons, readExponent?, hmark, splitSign_map_toLower]
    obtain ⟨negative, digits⟩ := splitSign rest
    by_cases hdigits : digits.all Char.isDigit = true
    · have hsame : digits.map Char.toLower = digits := by
        rw [List.map_congr_left fun c hc => toLower_of_isDigit (List.all_eq_true.mp hdigits c hc), List.map_id']
      simp only [Prod.map_apply, id, hsame]
    · simp [Prod.map_apply, List.all_map, hdigits]

@[simp] theorem read?_lower (text : String) : read? (Text.lower text) = read? text := by
  unfold read?
  rw [toList_lower, splitSign_map_toLower]
  obtain ⟨negative, cs⟩ := splitSign text.toList
  simp only [Prod.map_apply, id, List.map_map, toLower_comp_toLower, map_toLower_takeWhile_isDigit,
    dropWhile_isDigit_map_toLower]
  generalize ofRatio negative (2 ^ 1024) 1 = infinity
  rcases cs.dropWhile Char.isDigit with _ | ⟨c, rest⟩
  · rfl
  · by_cases hpoint : c = '.'
    · subst hpoint
      simp [map_toLower_takeWhile_isDigit, dropWhile_isDigit_map_toLower, readExponent?_map_toLower]
    · have hrest := readExponent?_map_toLower (c :: rest)
      rw [List.map_cons] at hrest
      simp [hpoint, hrest]

end Binary64

-- ---------------------------------------------------------------------------
-- Addresses
-- ---------------------------------------------------------------------------

namespace Address

open Text

theorem bitPlace?_map_toLower (cs : List Char) : bitPlace? (cs.map Char.toLower) = bitPlace? cs := by
  have hpoint : (fun c => decide (c ≠ '.')) ∘ Char.toLower = fun c => decide (c ≠ '.') := by
    funext c
    simp
  unfold bitPlace?
  simp only [List.takeWhile_map, hpoint, List.length_map, ← List.map_drop, number?_map_toLower]
  cases cs.drop (cs.takeWhile fun c => decide (c ≠ '.')).length <;> simp

@[simp] theorem read?_lower (text : String) : read? (Text.lower text) = read? text := by
  unfold read?
  rw [toList_lower]
  rcases text.toList with _ | ⟨c, _ | ⟨area, _ | ⟨first, rest⟩⟩⟩
  · rfl
  · simp
  · simp
  · by_cases hc : c = '%'
    · subst hc
      have hplace : bitPlace? (first.toLower :: rest.map Char.toLower) = bitPlace? (first :: rest) :=
        bitPlace?_map_toLower (first :: rest)
      rw [List.map_cons, List.map_cons, List.map_cons, show '%'.toLower = '%' from rfl]
      simp [Area.ofLetter?, AddressSize.ofLetter?, hplace, bitPlace?_map_toLower]
    · simp [hc]

end Address

-- ---------------------------------------------------------------------------
-- Literals
-- ---------------------------------------------------------------------------

namespace Literal

open Text

theorem significant_map_toLower (cs : List Char) :
    significant (cs.map Char.toLower) = (significant cs).map Char.toLower := by
  have hbar : (fun c => decide (c ≠ '_')) ∘ Char.toLower = fun c => decide (c ≠ '_') := by
    funext c
    simp
  rw [significant, List.filter_map, hbar, significant]

theorem isHash_toLower : (fun c => decide (c ≠ '#')) ∘ Char.toLower = fun c => decide (c ≠ '#') := by
  funext c
  simp

theorem afterTag_map_toLower (cs : List Char) : afterTag (cs.map Char.toLower) = (afterTag cs).map Char.toLower := by
  rw [afterTag, List.dropWhile_map, isHash_toLower, ← List.map_drop, afterTag]

theorem integerInBase_map_toLower (base : Nat) (cs : List Char) :
    integerInBase base (cs.map Char.toLower) = integerInBase base cs := by
  rw [integerInBase, significant_map_toLower, digits?_map_toLower, integerInBase]

theorem integer_map_toLower (cs : List Char) : integer (cs.map Char.toLower) = integer cs := by
  rw [integer, integerInBase_map_toLower, integer]

theorem basedInteger_map_toLower (cs : List Char) : basedInteger (cs.map Char.toLower) = basedInteger cs := by
  rw [basedInteger, List.takeWhile_map, isHash_toLower, digits?_map_toLower, afterTag_map_toLower]
  simp only [integerInBase_map_toLower]
  rfl

theorem real_map_toLower (cs : List Char) : real (cs.map Char.toLower) = real cs := by
  rw [real, significant_map_toLower, ← lower_ofList, Binary64.read?_lower, real]

theorem duration_map_toLower (cs : List Char) : duration (cs.map Char.toLower) = duration cs := by
  rw [duration, afterTag_map_toLower, List.map_map, toLower_comp_toLower, duration]

theorem civilDate_map_toLower (fields : List (List Char)) :
    civilDate (fields.map (List.map Char.toLower)) = civilDate fields := by
  rcases fields with _ | ⟨year, _ | ⟨month, _ | ⟨day, _ | ⟨more, rest⟩⟩⟩⟩ <;> simp [civilDate]

theorem clockTime_map_toLower (cs : List Char) : clockTime (cs.map Char.toLower) = clockTime cs := by
  rw [clockTime, fields_map_toLower rfl, clockTime]
  rcases fields ':' cs with _ | ⟨hour, _ | ⟨minute, _ | ⟨second, _ | ⟨more, rest⟩⟩⟩⟩ <;> simp [← lower_ofList]

theorem date_map_toLower (cs : List Char) : date (cs.map Char.toLower) = date cs := by
  rw [date, afterTag_map_toLower, fields_map_toLower rfl, civilDate_map_toLower, date]

theorem timeOfDay_map_toLower (cs : List Char) : timeOfDay (cs.map Char.toLower) = timeOfDay cs := by
  rw [timeOfDay, afterTag_map_toLower, clockTime_map_toLower, timeOfDay]

theorem dateAndTime_map_toLower (cs : List Char) : dateAndTime (cs.map Char.toLower) = dateAndTime cs := by
  rw [dateAndTime, afterTag_map_toLower, fields_map_toLower rfl, dateAndTime]
  rcases fields '-' (afterTag cs) with _ | ⟨year, _ | ⟨month, _ | ⟨day, _ | ⟨clock, _ | ⟨more, rest⟩⟩⟩⟩⟩
  · rfl
  · rfl
  · rfl
  · rfl
  · have hdate := civilDate_map_toLower [year, month, day]
    simp only [List.map_cons, List.map_nil] at hdate ⊢
    rw [hdate, clockTime_map_toLower]
  · rfl

/-- A literal has the same value in lower case. The letters of a string are kept. -/
@[simp] theorem value?_caseless (t : Token) : value? t.caseless = value? t := by
  obtain ⟨kind, text, span⟩ := t
  cases kind <;> simp [value?, Token.caseless, Token.lower, integer_map_toLower, basedInteger_map_toLower,
    real_map_toLower, duration_map_toLower, date_map_toLower, timeOfDay_map_toLower, dateAndTime_map_toLower]

/-- The same literals have no value, and the reports differ in the letters that they quote. -/
theorem check_caseless (tokens : List Token) :
    (check (tokens.map Token.caseless)).map (·.respell Text.lower) = (check tokens).map (·.respell Text.lower) := by
  induction tokens with
  | nil => rfl
  | cons t ts ih =>
    have herror : error? t.caseless = error? t := by
      rw [error?, value?_caseless, error?]
    simp only [check] at ih ⊢
    rw [List.map_cons, List.filterMap_cons, List.filterMap_cons, herror]
    cases error? t with
    | none => exact ih
    | some e =>
      simp only [Option.map_some, List.map_cons, ih]
      simp [Diagnostic.respell, Diagnostic.of, Label.respell, toString]

end Literal

end StructuredText
