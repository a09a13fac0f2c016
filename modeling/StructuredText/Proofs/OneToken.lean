-- SUMMARY: Texts that are one token: digits, quoted texts, and words with groups of digits behind their mark.
import StructuredText.Proofs.Digits
import StructuredText.Token.Lexer

/-!
# Texts that are one token

The lexer takes a text as one token when the lexeme at its front reaches to its end. It does so for digits, for a quoted
text without quotes and dollar signs inside, and for groups of digits behind a tag such as `D#`.
-/

namespace StructuredText.Lexer

open Text

-- ---------------------------------------------------------------------------
-- One lexeme
-- ---------------------------------------------------------------------------

/-- The lexeme at the front of the text is a token of the kind and reaches to the end. -/
def IsToken (kind : TokenKind) (cs : List Char) : Prop :=
  ∃ c rest, cs = c :: rest ∧ lexeme c rest = (.token kind, rest.length)

theorem IsToken.tokenize {kind : TokenKind} {text : String} (h : IsToken kind text.toList) (file : FileId) :
    ∃ span, tokenize text file = ([⟨kind, text, span⟩], []) := by
  obtain ⟨c, rest, htext, hlexeme⟩ := h
  refine ⟨⟨0, 0 + byteSize (c :: rest), file⟩, ?_⟩
  have hofList : String.ofList (c :: rest) = text := by rw [← htext, String.ofList_toList]
  unfold StructuredText.tokenize
  rw [htext, scan, hlexeme]
  simp only [List.take_length, List.drop_length, scan, hofList]

-- ---------------------------------------------------------------------------
-- Runs and groups of digits
-- ---------------------------------------------------------------------------

/-- The text does not go on with a digit. -/
def EndsDigits (cs : List Char) : Prop := ∀ c ∈ cs.head?, c.isDigit = false

theorem runLength_append {p : Char → Bool} {cs rest : List Char} (hcs : ∀ c ∈ cs, p c = true)
    (hrest : ∀ c ∈ rest.head?, p c = false) : runLength p (cs ++ rest) = cs.length :=
  congrArg List.length (takeWhile_front hcs hrest)

theorem runLength_eq_length {p : Char → Bool} {cs : List Char} (hcs : ∀ c ∈ cs, p c = true) :
    runLength p cs = cs.length := by
  have h : runLength p (cs ++ []) = cs.length := runLength_append hcs (by simp)
  rwa [List.append_nil] at h

/-- Groups of digits, each with a separator in front. -/
def separated (groups : List (Char × List Char)) : List Char := groups.flatMap fun g => g.1 :: g.2

/-- A separator and the digits behind it. -/
def IsGroup (g : Char × List Char) : Prop := g.1.isDigit = false ∧ g.2 ≠ [] ∧ ∀ c ∈ g.2, c.isDigit = true

theorem isGroup_digits {separator : Char} (h : separator.isDigit = false) (width n : Nat) :
    IsGroup (separator, digits width n) := ⟨h, digits_ne_nil width n, fun _ => isDigit_of_mem_digits⟩

/-- Groups that are separated as they should be are all there. -/
theorem digitGroups_separated {first rest : List Char} {groups : List (Char × List Char)}
    (hfirst : ∀ c ∈ first, c.isDigit = true) (hgroups : ∀ g ∈ groups, IsGroup g) (hrest : EndsDigits rest) :
    digitGroups (groups.map (·.1)) (first ++ separated groups ++ rest) = ((first ++ separated groups).length, true) := by
  induction groups generalizing first with
  | nil =>
    rw [separated, List.flatMap_nil, List.append_nil]
    exact congrArg (·, true) (runLength_append hfirst hrest)
  | cons g groups ih =>
    obtain ⟨sep, digits⟩ := g
    obtain ⟨⟨hsep, hne, hdigits⟩, hbehind⟩ := List.forall_mem_cons.mp hgroups
    obtain ⟨d, digits, rfl⟩ := List.exists_cons_of_ne_nil hne
    have hd : d.isDigit = true := hdigits d List.mem_cons_self
    have htext : first ++ separated ((sep, d :: digits) :: groups) ++ rest =
        first ++ sep :: d :: (digits ++ separated groups ++ rest) := by simp [separated]
    have hrun : runLength Char.isDigit (first ++ sep :: d :: (digits ++ separated groups ++ rest)) = first.length :=
      runLength_append hfirst fun c hc => by
        cases hc
        exact hsep
    have hbehind := ih hdigits hbehind
    rw [List.cons_append, List.cons_append] at hbehind
    rw [List.map_cons, htext, digitGroups]
    simp only [hrun, List.drop_left, hd, hbehind, decide_true, Bool.and_self, if_true]
    simp [separated]
    omega

-- ---------------------------------------------------------------------------
-- Numbers and strings
-- ---------------------------------------------------------------------------

theorem not_isNameStart_of_isDigit {c : Char} (h : c.isDigit = true) : isNameStart c = false := by
  have halpha : c.isAlpha = false := by
    simp only [Char.isDigit, Bool.and_eq_true, decide_eq_true_eq, ge_iff_le, UInt32.le_iff_toNat_le] at h
    simp only [Char.isAlpha, Char.isUpper, Char.isLower, Bool.or_eq_false_iff, Bool.and_eq_false_iff, decide_eq_false_iff_not,
      ge_iff_le, UInt32.le_iff_toNat_le]
    have hlast : '9'.val.toNat = 57 := rfl
    have hupper : 'A'.val.toNat = 65 := rfl
    have hlower : 'a'.val.toNat = 97 := rfl
    omega
  have hbar : c ≠ '_' := by
    rintro rfl
    cases h
  simp [isNameStart, halpha, hbar]

/-- A digit starts a number. -/
theorem lexeme_of_isDigit {c : Char} (h : c.isDigit = true) (rest : List Char) :
    lexeme c rest = ((number (c :: rest)).1, (number (c :: rest)).2 - 1) := by
  have hblank : isBlank c = false := by
    refine Bool.eq_false_iff.mpr fun hblank => ?_
    simp only [isBlank, Bool.or_eq_true, decide_eq_true_eq] at hblank
    obtain (((rfl | rfl) | rfl) | rfl) | rfl := hblank <;> cases h
  unfold lexeme
  simp only [hblank, not_isNameStart_of_isDigit h, h, Bool.false_eq_true, if_false, if_true]

theorem isToken_digits (width n : Nat) : IsToken .integer (digits width n) := by
  obtain ⟨c, rest, hcs⟩ := List.exists_cons_of_ne_nil (digits_ne_nil width n)
  have hdigits : ∀ c ∈ digits width n, isDigitOrBar c = true := fun c hc => by
    simp [isDigitOrBar, isDigit_of_mem_digits hc]
  have hrun := runLength_eq_length hdigits
  have hc : c.isDigit = true := isDigit_of_mem_digits (hcs ▸ List.mem_cons_self)
  refine ⟨c, rest, hcs, ?_⟩
  rw [hcs] at hrun
  rw [lexeme_of_isDigit hc]
  unfold number
  simp only [hrun, List.drop_length]
  rfl

/-- A text without quotes and dollar signs is a string when it is put in quotes. -/
theorem isToken_quoted {cs : List Char} (h : ∀ c ∈ cs, c ≠ '$' ∧ c ≠ '\'') : IsToken .string ('\'' :: (cs ++ ['\''])) := by
  have hrest : stringRest (cs ++ ['\'']) = (cs.length + 1, true) := by
    induction cs with
    | nil => rfl
    | cons c cs ih =>
      obtain ⟨⟨hdollar, hquote⟩, hcs⟩ := List.forall_mem_cons.mp h
      rw [List.cons_append, stringRest, if_neg hquote, ih hcs]
      · rfl
      · exact fun hc => absurd hc hdollar
      · exact fun _ _ hc => absurd hc hdollar
  refine ⟨'\'', _, rfl, ?_⟩
  unfold lexeme
  rw [hrest, List.length_append]
  rfl

-- ---------------------------------------------------------------------------
-- Words with a tag
-- ---------------------------------------------------------------------------

/-- A tag in front of a text makes one token with it, if it does so for the text behind the mark. -/
theorem isToken_tagged {tag : List Char} {body : List Char} {kind : TokenKind} (htag : tag ≠ [])
    (hletters : ∀ c ∈ tag, c.isAlpha = true)
    (h : tagged? (String.ofList (tag.map Char.toLower)) body = some (.token kind, body.length)) :
    IsToken kind (tag ++ '#' :: body) := by
  obtain ⟨c, rest, rfl⟩ := List.exists_cons_of_ne_nil htag
  have hc := hletters c List.mem_cons_self
  have hrun : runLength isNameChar (c :: rest ++ '#' :: body) = (c :: rest).length := by
    refine runLength_append (fun c hc => ?_) ?_
    · simp [isNameChar, Char.isAlphanum, hletters c hc]
    · rintro c ⟨⟩
      rfl
  have hblank : isBlank c = false := by
    refine Bool.eq_false_iff.mpr fun hblank => ?_
    simp only [isBlank, Bool.or_eq_true, decide_eq_true_eq] at hblank
    obtain (((rfl | rfl) | rfl) | rfl) | rfl := hblank <;> cases hc
  have hword : word (c :: rest ++ '#' :: body) = (.token kind, (c :: rest).length + 1 + body.length) := by
    unfold word
    simp only [hrun, List.drop_left, List.take_left, h]
  refine ⟨c, rest ++ '#' :: body, rfl, ?_⟩
  unfold lexeme
  simp only [hblank, isNameStart, hc, Bool.true_or, Bool.false_eq_true, if_false, if_true]
  rw [← List.cons_append, hword]
  simp
  omega

/-- Groups of digits behind a tag that calls for them, which may have a fraction. -/
theorem tagged?_of_groups {tag : String} {kind : TokenKind} {fraction : Bool} {width n : Nat}
    {groups : List (Char × List Char)} {rest : List Char}
    (htag : (tag, kind, groups.map (·.1), fraction) ∈ [("d", TokenKind.date, ['-', '-'], false),
      ("tod", .timeOfDay, [':', ':'], true), ("dt", .dateAndTime, ['-', '-', '-', ':', ':'], true)])
    (hgroups : ∀ g ∈ groups, IsGroup g) (hrest : EndsDigits rest)
    (hfraction : rest.length = if fraction then fractionLength rest else 0) :
    tagged? tag (digits width n ++ separated groups ++ rest) =
      some (.token kind, (digits width n ++ separated groups ++ rest).length) := by
  have hdigits : digitGroups (groups.map (·.1)) (digits width n ++ separated groups ++ rest) =
      ((digits width n ++ separated groups).length, true) :=
    digitGroups_separated (fun _ => isDigit_of_mem_digits) hgroups hrest
  have hfirst : ((digits width n ++ separated groups ++ rest).head?.map Char.isDigit).getD false = true := by
    obtain ⟨c, cs, hcs⟩ := List.exists_cons_of_ne_nil (digits_ne_nil width n)
    have hc : c.isDigit = true := isDigit_of_mem_digits (hcs ▸ List.mem_cons_self)
    simp [hcs, hc]
  generalize digits width n ++ separated groups = body at *
  simp only [List.mem_cons, Prod.mk.injEq, List.not_mem_nil, or_false] at htag
  obtain ⟨rfl, rfl, hmarks, rfl⟩ | ⟨rfl, rfl, hmarks, rfl⟩ | ⟨rfl, rfl, hmarks, rfl⟩ := htag
  all_goals
    rw [hmarks] at hdigits
    simpa [tagged?, hdigits, hfraction] using hfirst

end StructuredText.Lexer
