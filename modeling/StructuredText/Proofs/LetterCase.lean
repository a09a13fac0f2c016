-- SUMMARY: The case of ASCII letters makes no difference to how a text is split into tokens.
import Mathlib.Data.List.Find
import StructuredText.Proofs.Respelling
import StructuredText.Source

/-!
# The case of letters

A source text may be written with ASCII letters of either case. Where one lexeme ends and the next one begins, and what
kind of token it is, is the same for the text in lower case, because every test that is made of a character is. Only the
text of a token keeps the case in which it is written.
-/

namespace StructuredText

-- ---------------------------------------------------------------------------
-- Characters
-- ---------------------------------------------------------------------------

namespace Text

/-- The characters that have another one as their lower case in ASCII. -/
def capitals : List Char := (List.range 26).map fun n => Char.ofNat ('A'.toNat + n)

theorem toLower_of_not_mem {c : Char} (h : c ∉ capitals) : c.toLower = c := by
  unfold Char.toLower
  split
  · next hc =>
    have hlow : 65 ≤ c.toNat := hc.1
    have hhigh : c.toNat ≤ 90 := hc.2
    refine absurd (List.mem_map.mpr ⟨c.toNat - 65, List.mem_range.mpr (by omega), ?_⟩) h
    rw [show 'A'.toNat + (c.toNat - 65) = c.toNat from Nat.add_sub_cancel' hlow, Char.ofNat_toNat]
  · rfl

/-- What is the same for each capital letter and its lower case does not depend on the case. -/
theorem apply_toLower {α : Type} {p : Char → α} (h : capitals.map (p ∘ Char.toLower) = capitals.map p) (c : Char) :
    p c.toLower = p c := by
  by_cases hc : c ∈ capitals
  · exact List.map_inj_left.mp h c hc
  · rw [toLower_of_not_mem hc]

theorem toLower_eq_self {p : Char → Bool} (h : capitals.any p = false) {c : Char} (hc : p c = true) :
    c.toLower = c := by
  apply toLower_of_not_mem
  intro hmem
  exact List.any_eq_false.mp h c hmem hc

@[simp] theorem toLower_eq_iff {c d : Char} (h : d.isAlpha = false) : c.toLower = d ↔ c = d := by
  by_cases hc : c ∈ capitals
  · have hletters : capitals.all (fun c => c.isAlpha && c.toLower.isAlpha) = true := by decide
    obtain ⟨hupper, hlower⟩ := Bool.and_eq_true_iff.mp (List.all_eq_true.mp hletters c hc)
    constructor
    · rintro rfl
      exact absurd (h.symm.trans hlower) Bool.false_ne_true
    · rintro rfl
      exact absurd (h.symm.trans hupper) Bool.false_ne_true
  · rw [toLower_of_not_mem hc]

@[simp] theorem toLower_toLower (c : Char) : c.toLower.toLower = c.toLower := apply_toLower (by decide) c

@[simp] theorem toUpper_toLower (c : Char) : c.toLower.toUpper = c.toUpper := apply_toLower (by decide) c

@[simp] theorem isDigit_toLower (c : Char) : c.toLower.isDigit = c.isDigit := apply_toLower (by decide) c

@[simp] theorem toLower_comp_toLower : Char.toLower ∘ Char.toLower = Char.toLower := funext toLower_toLower

@[simp] theorem isDigit_comp_toLower : Char.isDigit ∘ Char.toLower = Char.isDigit := funext isDigit_toLower

theorem toLower_of_isDigit {c : Char} (h : c.isDigit = true) : c.toLower = c := toLower_eq_self (by decide) h

-- ---------------------------------------------------------------------------
-- Texts
-- ---------------------------------------------------------------------------

/-- The text with ASCII letters in lower case. -/
def lower (s : String) : String := s.map Char.toLower

@[simp] theorem toList_lower (s : String) : (lower s).toList = s.toList.map Char.toLower := String.toList_map

theorem lower_ofList (cs : List Char) : lower (String.ofList cs) = String.ofList (cs.map Char.toLower) := by
  simp [← String.toList_inj]

@[simp] theorem lower_append (s s' : String) : lower (s ++ s') = lower s ++ lower s' := by
  simp [← String.toList_inj]

theorem lower_eq_lower_iff {s s' : String} :
    lower s = lower s' ↔ s.toList.map Char.toLower = s'.toList.map Char.toLower := by
  rw [← String.toList_inj, toList_lower, toList_lower]

@[simp] theorem lower_lower (s : String) : lower (lower s) = lower s := by
  simp [← String.toList_inj]

@[simp] theorem lower_comp_lower : lower ∘ lower = lower := funext lower_lower

@[simp] theorem lowerChar_toLower (c : Char) : lowerChar c.toLower = lowerChar c := apply_toLower (by decide) c

theorem isCased_toLower (c : Char) : isCased c.toLower = isCased c := apply_toLower (by decide) c

theorem isCaseIgnorable_toLower (c : Char) : isCaseIgnorable c.toLower = isCaseIgnorable c :=
  apply_toLower (by decide) c

@[simp] theorem meetsCased_map_toLower (cs : List Char) : meetsCased (cs.map Char.toLower) = meetsCased cs := by
  have hignorable : isCaseIgnorable ∘ Char.toLower = isCaseIgnorable := funext isCaseIgnorable_toLower
  unfold meetsCased
  rw [List.dropWhile_map, hignorable]
  cases cs.dropWhile isCaseIgnorable <;> simp [isCased_toLower]

theorem lowerFrom_map_toLower (before cs : List Char) :
    lowerFrom (before.map Char.toLower) (cs.map Char.toLower) = lowerFrom before cs := by
  induction cs generalizing before with
  | nil => rfl
  | cons c cs ih =>
    have hrest : lowerFrom (c.toLower :: before.map Char.toLower) (cs.map Char.toLower) = lowerFrom (c :: before) cs :=
      ih (c :: before)
    simp [lowerFrom, hrest]

/-- The form in which names are compared does not depend on the case of ASCII letters. -/
@[simp] theorem lowercase_lower (s : String) : lowercase (lower s) = lowercase s := by
  have hascii (c : Char) : decide (c.toLower.toNat < 0x80) = decide (c.toNat < 0x80) :=
    apply_toLower (p := fun c => decide (c.toNat < 0x80)) (by decide) c
  have hchars : ((lower s).toList.all fun c => decide (c.toNat < 0x80)) =
      s.toList.all fun c => decide (c.toNat < 0x80) := by
    simp only [toList_lower, List.all_map, Function.comp_def, hascii]
  unfold lowercase
  rw [hchars, toList_lower]
  split
  · exact lower_lower s
  · exact congrArg String.ofList (lowerFrom_map_toLower [] s.toList)

end Text

-- ---------------------------------------------------------------------------
-- Parts of a lexeme
-- ---------------------------------------------------------------------------

namespace Lexer

open Text

@[simp] theorem isBlank_toLower (c : Char) : isBlank c.toLower = isBlank c := apply_toLower (by decide) c

@[simp] theorem isNameStart_toLower (c : Char) : isNameStart c.toLower = isNameStart c := apply_toLower (by decide) c

@[simp] theorem isNameChar_toLower (c : Char) : isNameChar c.toLower = isNameChar c := apply_toLower (by decide) c

@[simp] theorem isDigitOrBar_toLower (c : Char) : isDigitOrBar c.toLower = isDigitOrBar c :=
  apply_toLower (by decide) c

@[simp] theorem isHexOrBar_toLower (c : Char) : isHexOrBar c.toLower = isHexOrBar c := apply_toLower (by decide) c

@[simp] theorem isDurationChar_toLower (c : Char) : isDurationChar c.toLower = isDurationChar c :=
  apply_toLower (by decide) c

@[simp] theorem standsFor_toLower (c letter : Char) : standsFor c.toLower letter = standsFor c letter := by
  simp [standsFor]

theorem isExponentMark_toLower (c : Char) :
    (c.toLower = 'e' ∨ c.toLower = 'E') ↔ (c = 'e' ∨ c = 'E') :=
  decide_eq_decide.mp (apply_toLower (p := fun c => decide (c = 'e' ∨ c = 'E')) (by decide) c)

theorem runLength_map_toLower {p : Char → Bool} (h : ∀ c, p c.toLower = p c) (cs : List Char) :
    runLength p (cs.map Char.toLower) = runLength p cs := by
  have hp : p ∘ Char.toLower = p := funext h
  rw [runLength, runLength, List.takeWhile_map, List.length_map, hp]

@[simp] theorem runLength_isDigit (cs : List Char) :
    runLength Char.isDigit (cs.map Char.toLower) = runLength Char.isDigit cs :=
  runLength_map_toLower isDigit_toLower cs

@[simp] theorem fractionLength_map_toLower (cs : List Char) :
    fractionLength (cs.map Char.toLower) = fractionLength cs := by
  rcases cs with _ | ⟨c, _ | ⟨d, rest⟩⟩
  · rfl
  · simp [fractionLength]
  · by_cases hc : c = '.'
    · subst hc
      simp [fractionLength]
    · simp [fractionLength, hc]

@[simp] theorem exponentLength_map_toLower (cs : List Char) :
    exponentLength (cs.map Char.toLower) = exponentLength cs := by
  rcases cs with _ | ⟨e, _ | ⟨s, rest⟩⟩
  · rfl
  · rfl
  · simp [exponentLength, isExponentMark_toLower]

/-- The separators between groups of digits are marks. -/
theorem digitGroups_map_toLower {separators : List Char} (h : separators.any Char.isAlpha = false) (cs : List Char) :
    digitGroups separators (cs.map Char.toLower) = digitGroups separators cs := by
  induction separators generalizing cs with
  | nil => simp [digitGroups]
  | cons sep seps ih =>
    obtain ⟨hsep, hseps⟩ := Bool.or_eq_false_iff.mp h
    rw [digitGroups, digitGroups]
    simp only [runLength_isDigit, ← List.map_drop]
    rcases cs.drop (runLength Char.isDigit cs) with _ | ⟨c, _ | ⟨d, rest⟩⟩
    · rfl
    · rfl
    · have hrest := ih hseps (d :: rest)
      rw [List.map_cons] at hrest
      simp [hsep, hrest]

@[simp] theorem stringRest_map_toLower (cs : List Char) : stringRest (cs.map Char.toLower) = stringRest cs := by
  fun_induction stringRest cs with
  | case1 => rfl
  | case2 => rfl
  | case3 rest => simp [stringRest]
  | case4 c rest hline n closed hrest ih => simp [stringRest, hline, hrest, ih]
  | case5 rest => simp [stringRest]
  | case6 c rest hlast hescape hquote n closed hrest ih =>
    have hdollar : c ≠ '$' := by
      rintro rfl
      cases rest with
      | nil => exact hlast rfl rfl
      | cons d rest => exact hescape d rest rfl rfl
    simp [stringRest, hdollar, hquote, hrest, ih]

@[simp] theorem commentRest?_map_toLower (cs : List Char) : commentRest? (cs.map Char.toLower) = commentRest? cs := by
  induction cs with
  | nil => rfl
  | cons c rest ih =>
    simp [commentRest?, ih]

@[simp] theorem keyword?_map_toLower (cs : List Char) : keyword? (cs.map Char.toLower) = keyword? cs := by
  simp only [keyword?, ← List.map_take, List.length_map, List.zip_map_left, List.all_map, Function.comp_def,
    Prod.map_fst, Prod.map_snd, standsFor_toLower, id]

-- ---------------------------------------------------------------------------
-- Lexemes
-- ---------------------------------------------------------------------------

@[simp] theorem tagged?_map_toLower (tag : String) (cs : List Char) :
    tagged? tag (cs.map Char.toLower) = tagged? tag cs := by
  have hdashes : ['-', '-'].any Char.isAlpha = false := rfl
  have hcolons : [':', ':'].any Char.isAlpha = false := rfl
  have hboth : ['-', '-', '-', ':', ':'].any Char.isAlpha = false := rfl
  unfold tagged?
  simp only [digitGroups_map_toLower hdashes, digitGroups_map_toLower hcolons, digitGroups_map_toLower hboth,
    List.head?_map, Option.map_map, isDigit_comp_toLower, ← List.map_drop, fractionLength_map_toLower]
  have hsign : cs.head?.map Char.toLower = some '-' ↔ cs.head? = some '-' := by
    cases cs <;> simp
  simp only [hsign]
  congr 1
  rcases cs.drop (if cs.head? = some '-' then 1 else 0) with _ | ⟨d, rest⟩
  · rfl
  · simp [runLength_map_toLower isDurationChar_toLower]

@[simp] theorem word_map_toLower (cs : List Char) : word (cs.map Char.toLower) = word cs := by
  unfold word
  simp only [runLength_map_toLower isNameChar_toLower, ← List.map_take, ← List.map_drop, keyword?_map_toLower,
    List.map_map, toLower_comp_toLower]
  rcases cs.drop (runLength isNameChar cs) with _ | ⟨c, rest⟩
  · rfl
  · by_cases hc : c = '#'
    · subst hc
      simp
    · simp [hc]

/-- The base of a number is written in digits. -/
theorem map_toLower_take_digits (cs : List Char) :
    (cs.take (runLength isDigitOrBar cs)).map Char.toLower = cs.take (runLength isDigitOrBar cs) := by
  have hprefix : cs.takeWhile isDigitOrBar = cs.take (runLength isDigitOrBar cs) :=
    List.prefix_iff_eq_take.mp (List.takeWhile_prefix isDigitOrBar)
  have hdigits : ∀ c ∈ cs.takeWhile isDigitOrBar, c.toLower = c := by
    intro c hc
    have hdigit : isDigitOrBar c = true := List.all_eq_true.mp List.all_takeWhile c hc
    exact toLower_eq_self (by decide) hdigit
  rw [← hprefix, List.map_congr_left hdigits, List.map_id']

@[simp] theorem number_map_toLower (cs : List Char) : number (cs.map Char.toLower) = number cs := by
  unfold number
  simp only [runLength_map_toLower isDigitOrBar_toLower, ← List.map_take, ← List.map_drop, map_toLower_take_digits]
  rcases cs.drop (runLength isDigitOrBar cs) with _ | ⟨c, _ | ⟨d, rest⟩⟩
  · rfl
  · simp
  · by_cases hhash : c = '#'
    · subst hhash
      simp [runLength_map_toLower isHexOrBar_toLower]
    · by_cases hpoint : c = '.'
      · subst hpoint
        simp [runLength_map_toLower isDigitOrBar_toLower, ← List.map_drop]
      · simp [hhash, hpoint]

@[simp] theorem addressRest_map_toLower (cs : List Char) : addressRest (cs.map Char.toLower) = addressRest cs := by
  rcases cs with _ | ⟨area, _ | ⟨next, rest⟩⟩
  · rfl
  · rfl
  · have hdigits (sized : Bool) : (if sized = true then rest.map Char.toLower else next.toLower :: rest.map Char.toLower) =
        (if sized = true then rest else next :: rest).map Char.toLower := by
      cases sized <;> rfl
    simp only [addressRest, List.map_cons, toUpper_toLower, hdigits, runLength_isDigit, ← List.map_drop,
      fractionLength_map_toLower]

/-- A text without letters has no other spelling. -/
theorem map_toLower_eq_iff {cs marks : List Char} (h : marks.any Char.isAlpha = false) :
    cs.map Char.toLower = marks ↔ cs = marks := by
  induction cs generalizing marks with
  | nil => rfl
  | cons c cs ih =>
    cases marks with
    | nil => simp
    | cons d marks =>
      obtain ⟨hd, hmarks⟩ := Bool.or_eq_false_iff.mp h
      rw [List.map_cons, List.cons_eq_cons, List.cons_eq_cons, toLower_eq_iff hd, ih hmarks]

theorem find_symbol_map_toLower (cs : List Char) :
    TokenKind.symbols.find? (·.1 = String.ofList (cs.map Char.toLower)) =
      TokenKind.symbols.find? (·.1 = String.ofList cs) := by
  apply List.find?_congr
  intro symbol hsymbol
  have hsymbols : TokenKind.symbols.any (fun symbol => symbol.1.toList.any Char.isAlpha) = false := by decide
  have hmarks : symbol.1.toList.any Char.isAlpha = false := by
    simpa using List.any_eq_false.mp hsymbols symbol hsymbol
  have hsame : cs.map Char.toLower = symbol.1.toList ↔ cs = symbol.1.toList := map_toLower_eq_iff hmarks
  rw [eq_comm, eq_comm (a := cs)] at hsame
  rw [decide_eq_decide, ← String.toList_inj, ← String.toList_inj, String.toList_ofList, String.toList_ofList, hsame]

@[simp] theorem symbol_map_toLower (cs : List Char) : symbol (cs.map Char.toLower) = symbol cs := by
  unfold symbol
  simp only [← List.map_take, find_symbol_map_toLower]

@[simp] theorem lexeme_map_toLower (c : Char) (rest : List Char) :
    lexeme c.toLower (rest.map Char.toLower) = lexeme c rest := by
  have hnext (d : Char) (hd : d.isAlpha = false) : (rest.map Char.toLower).head? = some d ↔ rest.head? = some d := by
    cases rest <;> simp [hd]
  have hline : runLength (fun c => c ≠ '\r' && c ≠ '\n') (rest.map Char.toLower) =
      runLength (fun c => c ≠ '\r' && c ≠ '\n') rest :=
    runLength_map_toLower (by simp) rest
  unfold lexeme
  simp only [isBlank_toLower, isNameStart_toLower, isDigit_toLower, ← List.map_cons, word_map_toLower,
    number_map_toLower, symbol_map_toLower, keyword?_map_toLower, stringRest_map_toLower, addressRest_map_toLower,
    ← List.map_drop, commentRest?_map_toLower, List.length_map, runLength_map_toLower isBlank_toLower,
    hline, toLower_eq_iff (d := '\'') rfl, toLower_eq_iff (d := '%') rfl,
    toLower_eq_iff (d := '(') rfl, toLower_eq_iff (d := '/') rfl, hnext '*' rfl, hnext '/' rfl]

end Lexer

-- ---------------------------------------------------------------------------
-- Tokens
-- ---------------------------------------------------------------------------

namespace Token

/-- The token with its text in lower case. -/
def lower (t : Token) : Token := { t with text := Text.lower t.text }

/-- The token with its text in lower case, unless it is a string, in which the case of letters counts. -/
def caseless (t : Token) : Token := if t.kind = .string then t else t.lower

@[simp] theorem caseless_kind (t : Token) : t.caseless.kind = t.kind := by
  unfold caseless lower
  split <;> rfl

@[simp] theorem caseless_span (t : Token) : t.caseless.span = t.span := by
  unfold caseless lower
  split <;> rfl

@[simp] theorem lower_caseless_text (t : Token) : Text.lower t.caseless.text = Text.lower t.text := by
  unfold caseless lower
  split <;> simp

end Token

/-- The texts of the strings among the tokens. -/
def stringTexts (tokens : List Token) : List String := (tokens.filter (·.kind = .string)).map (·.text)

/-- Tokens whose strings are the same differ only in the case of other letters. -/
theorem map_caseless_eq {tokens tokens' : List Token} (h : tokens.map Token.lower = tokens'.map Token.lower)
    (hstrings : stringTexts tokens = stringTexts tokens') : tokens.map Token.caseless = tokens'.map Token.caseless := by
  induction tokens generalizing tokens' with
  | nil => simp_all
  | cons t ts ih =>
    cases tokens' with
    | nil => simp at h
    | cons t' ts' =>
      obtain ⟨hhead, htail⟩ := List.cons_eq_cons.mp h
      have hkind : t.kind = t'.kind := congrArg (·.kind) hhead
      have hspan : t.span = t'.span := congrArg (·.span) hhead
      rw [List.map_cons, List.map_cons]
      by_cases hstring : t.kind = .string
      · have hstring' : t'.kind = .string := hkind ▸ hstring
        simp only [stringTexts, List.filter_cons, hstring, hstring', decide_true, if_true, List.map_cons,
          List.cons_eq_cons] at hstrings
        have ht : t = t' := by
          cases t
          cases t'
          simp_all
        rw [ht, ih htail hstrings.2]
      · have hstring' : ¬ t'.kind = .string := hkind ▸ hstring
        simp only [stringTexts, List.filter_cons, hstring, hstring', decide_false, Bool.false_eq_true, if_false] at hstrings
        rw [Token.caseless, Token.caseless, if_neg hstring, if_neg hstring', hhead, ih htail hstrings]

namespace Lexer

theorem byteSize_map_toLower (cs : List Char) : byteSize (cs.map Char.toLower) = byteSize cs := by
  have hsize (c : Char) : c.toLower.utf8Size = c.utf8Size := Text.apply_toLower (by decide) c
  simp only [byteSize, List.foldl_map, hsize]

theorem invalidText_respell (span : Span) (text : String) :
    (invalidText span (Text.lower text)).respell Text.lower = (invalidText span text).respell Text.lower := by
  simp [invalidText, Diagnostic.respell, Diagnostic.of, Label.respell, toString]

/-- The first lexeme of a text ends where it does in lower case. -/
theorem scan_cons_toLower (file : FileId) (offset : Nat) (c : Char) (rest : List Char) :
    scan file offset ((c :: rest).map Char.toLower) =
      let (what, more) := lexeme c rest
      let text := c :: rest.take more
      let span : Span := ⟨offset, offset + byteSize text, file⟩
      let (tokens, diagnostics) := scan file span.stop ((rest.drop more).map Char.toLower)
      match what with
      | .skipped => (tokens, diagnostics)
      | .token kind => (⟨kind, Text.lower (String.ofList text), span⟩ :: tokens, diagnostics)
      | .invalid => (tokens, invalidText span (Text.lower (String.ofList text)) :: diagnostics) := by
  rw [List.map_cons, scan, lexeme_map_toLower]
  obtain ⟨what, more⟩ := lexeme c rest
  cases what <;>
    simp only [← List.map_take, ← List.map_cons, ← List.map_drop, byteSize_map_toLower, Text.lower_ofList]

/-- The text in lower case has the same tokens at the same places, in lower case, and the same text that is none. -/
theorem scan_map_toLower (file : FileId) (offset : Nat) (cs : List Char) :
    (scan file offset (cs.map Char.toLower)).1 = (scan file offset cs).1.map Token.lower ∧
      (scan file offset (cs.map Char.toLower)).2.map (·.respell Text.lower) =
        (scan file offset cs).2.map (·.respell Text.lower) := by
  fun_induction scan file offset cs with
  | case1 => simp [scan]
  | case2 offset c rest more text stop tokens diagnostics hrest hlexeme ih =>
    rw [scan_cons_toLower, hlexeme]
    exact hrest ▸ ih
  | case3 offset c rest more text stop span tokens diagnostics hrest kind hlexeme ih =>
    rw [hrest] at ih
    rw [scan_cons_toLower, hlexeme]
    exact ⟨congrArg (_ :: ·) ih.1, ih.2⟩
  | case4 offset c rest more text stop span tokens diagnostics hrest hlexeme ih =>
    rw [hrest] at ih
    rw [scan_cons_toLower, hlexeme]
    refine ⟨ih.1, ?_⟩
    rw [List.map_cons, List.map_cons, invalidText_respell]
    exact congrArg (_ :: ·) ih.2

/-- The file only tells where the strings are. -/
theorem stringTexts_scan (file file' : FileId) (offset : Nat) (cs : List Char) :
    stringTexts (scan file offset cs).1 = stringTexts (scan file' offset cs).1 := by
  fun_induction scan file offset cs with
  | case1 => simp [scan]
  | case2 offset c rest more text stop tokens diagnostics hrest hlexeme ih =>
    rw [hrest] at ih
    rw [scan, hlexeme]
    exact ih
  | case3 offset c rest more text stop span tokens diagnostics hrest kind hlexeme ih =>
    rw [hrest] at ih
    rw [scan, hlexeme]
    by_cases hkind : kind = .string
    · simpa [stringTexts, hkind, text] using ih
    · simpa [stringTexts, hkind] using ih
  | case4 offset c rest more text stop span tokens diagnostics hrest hlexeme ih =>
    rw [hrest] at ih
    rw [scan, hlexeme]
    exact ih

end Lexer

-- ---------------------------------------------------------------------------
-- Sources
-- ---------------------------------------------------------------------------

/-- Both sources are the same, but for the case of the ASCII letters that are not in strings. -/
structure SameButCase (source source' : String) : Prop where
  letters : Text.lower source = Text.lower source'
  strings : stringTexts (tokenize source).1 = stringTexts (tokenize source').1

namespace SameButCase

variable {source source' : String}

theorem map_lower_tokens (h : Text.lower source = Text.lower source') (file : FileId) :
    (tokenize source file).1.map Token.lower = (tokenize source' file).1.map Token.lower := by
  have hlower (s : String) : (tokenize s file).1.map Token.lower = (tokenize (Text.lower s) file).1 := by
    rw [tokenize, tokenize, Text.toList_lower, (Lexer.scan_map_toLower file 0 s.toList).1]
  rw [hlower source, hlower source', h]

theorem tokens (h : SameButCase source source') (file : FileId) :
    (tokenize source file).1.map Token.caseless = (tokenize source' file).1.map Token.caseless := by
  apply map_caseless_eq (map_lower_tokens h.letters file)
  calc stringTexts (tokenize source file).1
    _ = stringTexts (tokenize source).1 := Lexer.stringTexts_scan ..
    _ = stringTexts (tokenize source').1 := h.strings
    _ = stringTexts (tokenize source' file).1 := Lexer.stringTexts_scan ..

theorem diagnostics (h : SameButCase source source') (file : FileId) :
    (tokenize source file).2.map (·.respell Text.lower) = (tokenize source' file).2.map (·.respell Text.lower) := by
  have hlower (s : String) : (tokenize s file).2.map (·.respell Text.lower) =
      (tokenize (Text.lower s) file).2.map (·.respell Text.lower) := by
    rw [tokenize, tokenize, Text.toList_lower, (Lexer.scan_map_toLower file 0 s.toList).2]
  rw [hlower source, hlower source', h.letters]

end SameButCase

end StructuredText
