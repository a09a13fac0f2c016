-- SUMMARY: Integers, plain strings, dates and times that are shown are literals of the same values.
import StructuredText.Proofs.DurationLiterals
import StructuredText.Proofs.OneToken

/-!
# Literals that are shown

An integer, a string, a date or a time is shown as a literal. The literal has the value that is shown, if it is an integer
that fits a literal, a string without quotes and dollar signs, or a date that is not before the year zero. The literal of a
time of day has its whole milliseconds only.
-/

namespace StructuredText

open Text Lexer Binary64 Float.Model UnpackedFloat

/-- The text is a constant with the value. -/
def Denotes (text : String) (v : Value) : Prop :=
  ∃ tokens, tokenize text = (tokens, []) ∧ Parser.parseAll Grammar.constant tokens = .ok v

theorem Denotes.unique {text : String} {v w : Value} (hv : Denotes text v) (hw : Denotes text w) : v = w := by
  obtain ⟨tokens, htokens, hv⟩ := hv
  obtain ⟨tokens', htokens', hw⟩ := hw
  cases htokens.symm.trans htokens'
  exact Except.ok.inj (hv.symm.trans hw)

/-- The kinds of literals that are no reals. -/
def TokenKind.exact : List TokenKind := [.integer, .string, .duration, .date, .timeOfDay, .dateAndTime]

namespace Literal

/-- The value of a literal token that has one. -/
def result? (t : Token) : Option Value := (value? t).bind Except.toOption

theorem result?_eq_some {t : Token} {v : Value} : result? t = some v ↔ value? t = some (.ok v) := by
  unfold result?
  rcases value? t with _ | e | w <;> simp [Except.toOption]

end Literal

namespace Grammar

theorem parse_literal {k : TokenKind} {t : Token} {rest : List Token} :
    Parser.parse (literal k) (t :: rest) = if t.kind = k then (Literal.result? t).map (·, rest) else none := by
  unfold literal Literal.result?
  rw [Parser.parse_bind, Parser.parse_token_cons]
  split
  · rw [Option.bind_some]
    rcases Literal.value? t with _ | e | v <;> rfl
  · rfl

/-- A constant that is one literal has its value. -/
theorem parse_constant_literal {t : Token} {rest : List Token} (hkind : t.kind ∈ TokenKind.exact) :
    Parser.parse constant (t :: rest) = (Literal.result? t).map (·, rest) := by
  have hinteger (h : t.kind = .integer) : Literal.result? t = (Literal.integer t.text.toList).toOption.map .integer := by
    unfold Literal.result? Literal.value?
    rw [h]
    dsimp only
    cases Literal.integer t.text.toList <;> rfl
  obtain ⟨kind, text, span⟩ := t
  simp only [TokenKind.exact, List.mem_cons, List.not_mem_nil, or_false] at hkind
  obtain rfl | rfl | rfl | rfl | rfl | rfl := hkind
  case inl =>
    cases hi : Literal.integer text.toList <;>
      simp [constant, unsignedConstant, real, integer, parse_literal, hinteger, hi, Except.toOption]
  all_goals simp [constant, unsignedConstant, real, integer, parse_literal]

end Grammar

/-- A text that is one token denotes the value of the token. -/
theorem denotes_of_isToken {text : String} {v : Value} (kind : TokenKind) (hkind : kind ∈ TokenKind.exact)
    (htoken : IsToken kind text.toList) (hvalue : ∀ span, Literal.value? ⟨kind, text, span⟩ = some (.ok v)) :
    Denotes text v := by
  obtain ⟨span, htokenize⟩ := htoken.tokenize .anonymous
  refine ⟨_, htokenize, Parser.parseAll_eq_ok ?_⟩
  rw [Grammar.parse_constant_literal hkind, Literal.result?_eq_some.mpr (hvalue span)]
  rfl

theorem Parser.parse_of_parseAll {α : Type} {p : Parser α} {ts : List Token} {a : α} (h : parseAll p ts = .ok a) :
    parse p ts = some (a, []) := by
  unfold parseAll at h
  dsimp only at h
  split at h
  · next a' hresult =>
    cases h
    exact hresult
  · cases h
  · cases h

/-- A literal that is a constant has the value of its token. -/
theorem value?_of_parseAll {t : Token} {rest : List Token} {v : Value} (hkind : t.kind ∈ TokenKind.exact)
    (h : Parser.parseAll Grammar.constant (t :: rest) = .ok v) : Literal.value? t = some (.ok v) := by
  have hparse := Parser.parse_of_parseAll h
  rw [Grammar.parse_constant_literal hkind] at hparse
  obtain ⟨w, hw, hv⟩ := Option.map_eq_some_iff.mp hparse
  cases hv
  exact Literal.result?_eq_some.mp hw

/-- A text that is one token denotes no other value. -/
theorem Denotes.value?_of_isToken {text : String} {v : Value} (h : Denotes text v) {kind : TokenKind}
    (hkind : kind ∈ TokenKind.exact) (htoken : IsToken kind text.toList) :
    ∃ span, Literal.value? ⟨kind, text, span⟩ = some (.ok v) := by
  obtain ⟨tokens, htokens, hparse⟩ := h
  obtain ⟨span, htokenize⟩ := htoken.tokenize .anonymous
  cases htokenize.symm.trans htokens
  exact ⟨span, value?_of_parseAll hkind hparse⟩

theorem Literal.afterTag_tagged {tag : List Char} (h : '#' ∉ tag) (body : List Char) :
    afterTag (tag ++ '#' :: body) = body := by
  have htag : ∀ c ∈ tag, (decide (c ≠ '#')) = true := fun c hc =>
    decide_eq_true fun heq => h (heq ▸ hc)
  rw [afterTag, List.dropWhile_append_of_pos htag]
  rfl

-- ---------------------------------------------------------------------------
-- Integers
-- ---------------------------------------------------------------------------

/-- An integer is shown as a literal if it fits one. -/
theorem denotes_integer {n : Nat} (h : n < Literal.integerLimit) :
    Denotes (Value.integer n).text (.integer n) := by
  have htext : (Value.integer n).text.toList = digits 0 n := toList_toString n
  refine denotes_of_isToken .integer (by decide) ?_ fun span => ?_
  · rw [htext]
    exact isToken_digits 0 n
  · change some ((Literal.integer (Value.integer n).text.toList).map Value.integer) = _
    rw [htext, digits_zero, Literal.integer_toDigits h]
    rfl

-- ---------------------------------------------------------------------------
-- Strings
-- ---------------------------------------------------------------------------

/-- The string has no characters that end a literal or start an escape. -/
def IsPlainText (s : String) : Prop := ∀ c ∈ s.toList, c ≠ '$' ∧ c ≠ '\''

theorem unquoted_plain {cs : List Char} (h : ∀ c ∈ cs, c ≠ '$' ∧ c ≠ '\'') :
    Literal.unquoted (cs ++ ['\'']) = .ok cs := by
  induction cs with
  | nil => rfl
  | cons c cs ih =>
    obtain ⟨⟨hdollar, hquote⟩, hcs⟩ := List.forall_mem_cons.mp h
    rw [List.cons_append, Literal.unquoted, ih hcs]
    · rfl
    · exact fun hc => absurd hc hquote
    · exact fun _ _ hc => absurd hc hdollar

theorem toList_quoted (s : String) : (Value.string s).text.toList = '\'' :: (s.toList ++ ['\'']) := by
  change ("'" ++ s ++ "'").toList = _
  rw [String.toList_append, String.toList_append]
  rfl

theorem denotes_string {s : String} (h : IsPlainText s) : Denotes (Value.string s).text (.string s) := by
  refine denotes_of_isToken .string (by decide) ?_ fun span => ?_
  · rw [toList_quoted]
    exact isToken_quoted h
  · change some ((Literal.string (Value.string s).text.toList).map Value.string) = _
    rw [toList_quoted, Literal.string, unquoted_plain h, Except.ok_bind, String.ofList_toList]
    rfl

/-- Reading a string drops the quote at its end, and the dollar signs. -/
theorem length_of_unquoted {cs out : List Char} (h : Literal.unquoted cs = .ok out) :
    out.length < cs.length ∧ ('$' ∈ cs → out.length + 1 < cs.length) := by
  induction cs using Literal.unquoted.induct generalizing out with
  | case1 => cases h
  | case2 =>
    cases h
    exact ⟨by simp, by simp⟩
  | case3 c rest ih =>
    rw [Literal.unquoted] at h
    obtain ⟨e, -, h⟩ := Except.bind_eq_ok.mp h
    obtain ⟨out', hout, h⟩ := Except.bind_eq_ok.mp h
    cases h
    obtain ⟨hlt, -⟩ := ih hout
    simp only [List.length_cons]
    omega
  | case4 c rest hquote hescape ih =>
    rw [Literal.unquoted] at h
    · obtain ⟨out', hout, h⟩ := Except.bind_eq_ok.mp h
      cases h
      obtain ⟨hlt, hdollar⟩ := ih hout
      refine ⟨by simpa using hlt, fun hmem => ?_⟩
      have hrest : '$' ∈ rest := by
        obtain rfl | hrest := List.mem_cons.mp hmem
        · cases rest with
          | nil => cases hout
          | cons d rest => exact absurd rfl (hescape d rest rfl)
        · exact hrest
      have hlonger := hdollar hrest
      simp only [List.length_cons]
      omega
    · exact hquote
    · exact hescape

/-- The quote that closes a text without dollar signs is the first one. -/
theorem not_mem_of_stringRest {cs : List Char} {n : Nat} (h : stringRest (cs ++ ['\'']) = (n, true))
    (hn : cs.length < n) (hdollar : '$' ∉ cs) : '\'' ∉ cs := by
  induction cs generalizing n with
  | nil => exact List.not_mem_nil
  | cons c cs ih =>
    have hc : c ≠ '$' := fun hc => hdollar (hc ▸ List.mem_cons_self)
    obtain ⟨m, closed, hm⟩ : ∃ m closed, stringRest (cs ++ ['\'']) = (m, closed) := ⟨_, _, rfl⟩
    rw [List.cons_append, stringRest, hm] at h
    · split at h
      · cases h
        exact absurd hn (by simp)
      · next hquote =>
        cases h
        have hrest := ih hm (by simpa using hn) fun hmem => hdollar (List.mem_cons_of_mem c hmem)
        exact List.not_mem_cons_of_ne_of_not_mem (Ne.symm hquote) hrest
    · exact fun hc' => absurd hc' hc
    · exact fun _ _ hc' => absurd hc' hc

/-- A string is shown as a literal of its value exactly if it is plain. -/
theorem denotes_string_iff {s : String} : Denotes (Value.string s).text (.string s) ↔ IsPlainText s := by
  refine ⟨?_, denotes_string⟩
  rintro ⟨tokens, htokenize, hparse⟩
  obtain ⟨n, closed, hrest⟩ : ∃ n closed, stringRest (s.toList ++ ['\'']) = (n, closed) := ⟨_, _, rfl⟩
  have hlexeme : lexeme '\'' (s.toList ++ ['\'']) = (if closed then .token .string else .invalid, n) := by
    unfold lexeme
    rw [hrest]
    rfl
  unfold tokenize at htokenize
  rw [toList_quoted, scan, hlexeme] at htokenize
  cases closed with
  | false => cases (Prod.mk.inj htokenize).2
  | true =>
    rw [← (Prod.mk.inj htokenize).1] at hparse
    have hvalue := value?_of_parseAll (t := ⟨.string, _, _⟩) (.tail _ (.head _)) hparse
    change some ((Literal.string (String.ofList ('\'' :: (s.toList ++ ['\'']).take n)).toList).map Value.string) = _ at hvalue
    obtain ⟨s', hs', hv⟩ := Literal.map_eq_some_ok hvalue
    cases hv
    rw [String.toList_ofList, Literal.string] at hs'
    obtain ⟨out, hout, hs'⟩ := Except.bind_eq_ok.mp hs'
    cases hs'
    rw [String.toList_ofList] at hrest hout
    obtain ⟨hlt, hdollar⟩ := length_of_unquoted hout
    -- As many characters are left as the string has, so the literal is all of the text and has no escapes.
    have hn : out.length < n := by
      rw [List.length_take] at hlt
      omega
    rw [List.take_of_length_le (by simpa using hn)] at hdollar
    have hplain : '$' ∉ out := fun hmem => by
      have hlonger := hdollar (List.mem_append_left _ hmem)
      simp at hlonger
    intro c hc
    rw [String.toList_ofList] at hc
    exact ⟨fun h => hplain (h ▸ hc), fun h => not_mem_of_stringRest hrest hn hplain (h ▸ hc)⟩

-- ---------------------------------------------------------------------------
-- Dates
-- ---------------------------------------------------------------------------

/-- The separated digits of a date. -/
def Date.groups (d : Date) : List (Char × List Char) := [('-', digits 2 d.month), ('-', digits 2 d.day)]

theorem Date.toList_text {d : Date} (h : 0 ≤ d.year) : d.text.toList = digits 4 d.year.toNat ++ separated d.groups := by
  have hyear : (if d.year < 0 then "-" ++ padded 3 d.year.natAbs else padded 4 d.year.natAbs) = padded 4 d.year.toNat := by
    rw [if_neg (Int.not_lt.mpr h), show d.year.natAbs = d.year.toNat by omega]
  unfold Date.text
  dsimp only
  rw [hyear]
  simp only [String.toList_append, toList_padded]
  simp [separated, Date.groups]

theorem daysInMonth_le (year : Int) (month : Nat) : daysInMonth year month ≤ 31 := by
  unfold daysInMonth
  split
  · split <;> omega
  · split <;> omega

theorem civilDate_digits {d : Date} (h : 0 ≤ d.year) :
    Literal.civilDate [digits 4 d.year.toNat, digits 2 d.month, digits 2 d.day] = .ok d := by
  obtain ⟨year, month, day, hvalid⟩ := d
  obtain ⟨-, hyear, hmonth, hmonth', -, hday⟩ := id hvalid
  have hdays := daysInMonth_le year month
  obtain ⟨n, rfl⟩ := Int.eq_ofNat_of_zero_le h
  have hofCivil : Date.ofCivil? n month day = some ⟨n, month, day, hvalid⟩ := dif_pos hvalid
  unfold Literal.civilDate
  dsimp only
  rw [Int.toNat_natCast, number?_digits (by omega), number?_digits (by omega), number?_digits (by omega)]
  simp only [Literal.orError, Except.ok_bind, hofCivil]
  rw [if_neg (by simp; omega)]

/-- The fields of a date are its groups of digits. -/
theorem Date.fields_text (d : Date) (year : Nat) (rest : List Char) :
    fields '-' (digits 4 year ++ separated d.groups ++ rest) =
      digits 4 year :: digits 2 d.month :: fields '-' (digits 2 d.day ++ rest) := by
  have htext : digits 4 year ++ separated d.groups ++ rest =
      digits 4 year ++ '-' :: (digits 2 d.month ++ '-' :: (digits 2 d.day ++ rest)) := by simp [separated, Date.groups]
  rw [htext, fields_append (not_mem_digits rfl), fields_append (not_mem_digits rfl)]

theorem Date.isGroup_of_mem {d : Date} : ∀ g ∈ d.groups, IsGroup g :=
  List.forall_mem_cons.mpr ⟨isGroup_digits rfl 2 d.month, List.forall_mem_singleton.mpr (isGroup_digits rfl 2 d.day)⟩

/-- A date is shown as a literal if it is not before the year zero. -/
theorem denotes_date {d : Date} (h : 0 ≤ d.year) : Denotes (Value.date d).text (.date d) := by
  have htext : (Value.date d).text.toList = ['D'] ++ '#' :: (digits 4 d.year.toNat ++ separated d.groups ++ []) := by
    change ("D#" ++ d.text).toList = _
    rw [String.toList_append, Date.toList_text h, List.append_nil]
    rfl
  refine denotes_of_isToken .date (by decide) ?_ fun span => ?_
  · rw [htext]
    refine isToken_tagged (by simp) (by simp) ?_
    exact tagged?_of_groups (.head _) Date.isGroup_of_mem nofun rfl
  · change some ((Literal.date (Value.date d).text.toList).map Value.date) = _
    rw [htext, Literal.date, Literal.afterTag_tagged (by simp), Date.fields_text, List.append_nil,
      fields_of_not_mem (not_mem_digits rfl), civilDate_digits h]
    rfl

-- ---------------------------------------------------------------------------
-- Times of day
-- ---------------------------------------------------------------------------

namespace TimeOfDay

/-- The time without what is left of it below a millisecond. -/
def cut (t : TimeOfDay) : TimeOfDay := ⟨t.nanos / 10 ^ 6 * 10 ^ 6, by
  have := t.inDay
  omega⟩

theorem cut_eq_iff {t : TimeOfDay} : t.cut = t ↔ 10 ^ 6 ∣ t.nanos := by
  obtain ⟨nanos, _⟩ := t
  simp only [cut, TimeOfDay.mk.injEq]
  omega

/-- The milliseconds within the second. -/
def milli (t : TimeOfDay) : Nat := t.nano / 10 ^ 6

/-- The separated digits of a time. -/
def groups (t : TimeOfDay) : List (Char × List Char) := [(':', digits 2 t.minute), (':', digits 2 t.second)]

/-- The digits of the milliseconds, if there are any. -/
def decimals (t : TimeOfDay) : List Char := if t.milli = 0 then [] else '.' :: digits 3 t.milli

theorem milli_lt (t : TimeOfDay) : t.milli < 1000 := by
  unfold milli nano
  omega

theorem hour_lt (t : TimeOfDay) : t.hour < 24 := by
  have hday := t.inDay
  unfold nanosPerDay at hday
  unfold hour
  omega

theorem minute_lt (t : TimeOfDay) : t.minute < 60 := Nat.mod_lt _ (by omega)

theorem second_lt (t : TimeOfDay) : t.second < 60 := Nat.mod_lt _ (by omega)

/-- The parts that are shown make up the time without what is left below a millisecond. -/
theorem ofClock?_cut (t : TimeOfDay) : ofClock? t.hour t.minute t.second (t.milli * 10 ^ 6) = some t.cut := by
  have hmilli := t.milli_lt
  have hnanos : ((t.hour * 60 + t.minute) * 60 + t.second) * 10 ^ 9 + t.milli * 10 ^ 6 = t.nanos / 10 ^ 6 * 10 ^ 6 := by
    unfold hour minute second milli nano
    omega
  unfold ofClock?
  rw [dif_pos ⟨t.hour_lt, t.minute_lt, t.second_lt, by omega⟩]
  simp only [hnanos]
  rfl

theorem toList_text (t : TimeOfDay) : t.text.toList = digits 2 t.hour ++ separated t.groups ++ t.decimals := by
  have hdecimals : (if t.milli = 0 then "" else "." ++ padded 3 t.milli).toList = t.decimals := by
    unfold decimals
    split
    · rfl
    · rw [String.toList_append, toList_padded]
      rfl
  have htext : t.text = padded 2 t.hour ++ ":" ++ padded 2 t.minute ++ ":" ++ padded 2 t.second ++
      (if t.milli = 0 then "" else "." ++ padded 3 t.milli) := rfl
  rw [htext, String.toList_append, hdecimals]
  simp only [String.toList_append, toList_padded]
  simp [separated, groups]

theorem not_mem_decimals (t : TimeOfDay) {c : Char} (hpoint : c ≠ '.') (hdigit : c.isDigit = false) : c ∉ t.decimals := by
  unfold decimals
  split
  · exact List.not_mem_nil
  · exact List.not_mem_cons_of_ne_of_not_mem hpoint (not_mem_digits hdigit)

/-- A number that is close to seconds and milliseconds is taken for them. -/
theorem split_of_close {x : Float} {v : ℚ} (hx : Is x .positive v) {second milli : Nat} (hpos : 0 < milli)
    (hlt : milli < 1000) (hclose : |v - (second + milli / 10 ^ 3)| ≤ 2 ^ (-48 : Int)) :
    truncate x = second ∧ roundAway (Binary64.fraction x * 1000000000) = (milli * 10 ^ 6 : Nat) := by
  have hlow : (1 : ℚ) ≤ milli := by exact_mod_cast hpos
  have hhigh : (milli : ℚ) ≤ 999 := by exact_mod_cast Nat.le_of_lt_succ hlt
  have hbounds := abs_le.mp hclose
  norm_num at hbounds
  have hfloor : ⌊v⌋₊ = second := (Nat.floor_eq_iff hx.nonneg).mpr ⟨by linarith, by linarith⟩
  refine ⟨by rw [truncate_eq hx, hfloor]; rfl, ?_⟩
  obtain ⟨n, hn, herror, -⟩ := Literal.exists_nanos hx
  have hfract : Int.fract v = v - second := by
    rw [← hfloor, natCast_floor_eq_intCast_floor hx.nonneg, Int.fract]
  have hrounding := abs_le.mp herror
  rw [hfract, Literal.roundingError] at hrounding
  norm_num at hrounding
  have hbelow : (n : ℚ) < milli * 1000000 + 1 := by linarith
  have habove : (milli * 1000000 : ℚ) < n + 1 := by linarith
  have hbelow : n < milli * 1000000 + 1 := by exact_mod_cast hbelow
  have habove : milli * 1000000 < n + 1 := by exact_mod_cast habove
  rw [hn, show n = milli * 10 ^ 6 by omega]

/-- The seconds of a time are read back with their milliseconds. -/
theorem exists_read (t : TimeOfDay) : ∃ x, read? (String.ofList (digits 2 t.second ++ t.decimals)) = some x ∧
    x.isFinite = true ∧ truncate x = t.second ∧
      roundAway (Binary64.fraction x * 1000000000) = (t.milli * 10 ^ 6 : Nat) := by
  have hsecond := t.second_lt
  have hmilli := t.milli_lt
  unfold decimals
  split
  · next hzero =>
    rw [List.append_nil, read?_digits]
    have his : Is (ofDecimal false t.second 0) .positive t.second := is_ofDecimal (by omega)
    obtain ⟨n, hn, -, hwhole⟩ := Literal.exists_nanos his
    have hfloor : truncate (ofDecimal false t.second 0) = (⌊(t.second : ℚ)⌋₊ : Int) := truncate_eq his
    rw [Nat.floor_natCast] at hfloor
    refine ⟨_, rfl, his.isFinite, hfloor, ?_⟩
    rw [hn, hwhole (Int.fract_natCast _), hzero, Nat.zero_mul]
  · next hne =>
    rw [read?_fraction, length_digits (by omega) hmilli]
    obtain ⟨v, his, hrounds⟩ : ∃ v, Is (ofDecimal false (t.second * 10 ^ 3 + t.milli) (-(3 : Nat))) .positive v ∧ _ :=
      is_ofDecimal_neg (by omega) (by omega) (by omega)
    have hvalue : ((t.second * 10 ^ 3 + t.milli : Nat) : ℚ) / 10 ^ 3 = t.second + t.milli / 10 ^ 3 := by
      push_cast
      ring
    have hlt : (t.second + t.milli / 10 ^ 3 : ℚ) < 2 ^ (6 : Int) := by
      have hseconds : (t.second : ℚ) ≤ 59 := by exact_mod_cast Nat.le_of_lt_succ hsecond
      have hmillis : (t.milli : ℚ) ≤ 999 := by exact_mod_cast Nat.le_of_lt_succ hmilli
      norm_num
      linarith
    rw [hvalue] at hrounds
    have hclose : |v - (t.second + t.milli / 10 ^ 3)| ≤ 2 ^ (6 - 54 : Int) := hrounds.error hlt (by norm_num)
    exact ⟨_, rfl, his.isFinite, split_of_close his (Nat.pos_of_ne_zero hne) hmilli (hclose.trans_eq (by norm_num))⟩

/-- A time of day is read from its digits, but for what is below a millisecond. -/
theorem clockTime_digits (t : TimeOfDay) :
    Literal.clockTime (digits 2 t.hour ++ separated t.groups ++ t.decimals) = .ok t.cut := by
  have htext : digits 2 t.hour ++ separated t.groups ++ t.decimals =
      digits 2 t.hour ++ ':' :: (digits 2 t.minute ++ ':' :: (digits 2 t.second ++ t.decimals)) := by
    simp [separated, groups]
  have hdecimals : ':' ∉ digits 2 t.second ++ t.decimals :=
    List.not_mem_append (not_mem_digits rfl) (t.not_mem_decimals (by decide) rfl)
  have hfields : fields ':' (digits 2 t.hour ++ separated t.groups ++ t.decimals) =
      [digits 2 t.hour, digits 2 t.minute, digits 2 t.second ++ t.decimals] := by
    rw [htext, fields_append (not_mem_digits rfl), fields_append (not_mem_digits rfl), fields_of_not_mem hdecimals]
  obtain ⟨x, hread, hfinite, hseconds, hnanos⟩ := t.exists_read
  have hhour := t.hour_lt
  have hminute := t.minute_lt
  unfold Literal.clockTime
  rw [hfields]
  dsimp only
  rw [number?_digits (by omega), number?_digits (by omega), hread]
  simp only [Literal.orError, Except.ok_bind, hfinite, hseconds, hnanos, Int.toNat_natCast, t.ofClock?_cut]
  rfl

theorem isGroup_of_mem {t : TimeOfDay} : ∀ g ∈ t.groups, IsGroup g :=
  List.forall_mem_cons.mpr ⟨isGroup_digits rfl 2 t.minute, List.forall_mem_singleton.mpr (isGroup_digits rfl 2 t.second)⟩

theorem endsDigits_decimals (t : TimeOfDay) : EndsDigits t.decimals := by
  unfold decimals
  split
  · exact nofun
  · rintro c ⟨⟩
    rfl

theorem fractionLength_decimals (t : TimeOfDay) : fractionLength t.decimals = t.decimals.length := by
  unfold decimals
  split
  · rfl
  · obtain ⟨c, rest, hdigits⟩ := List.exists_cons_of_ne_nil (digits_ne_nil 3 t.milli)
    have hall : ∀ d ∈ c :: rest, d.isDigit = true := hdigits ▸ fun _ => isDigit_of_mem_digits
    obtain ⟨hc, hrest⟩ := List.forall_mem_cons.mp hall
    rw [hdigits, fractionLength, if_pos hc, runLength_eq_length hrest]
    simp only [List.length_cons]
    omega

end TimeOfDay

/-- A time of day is shown as a literal of its whole milliseconds. -/
theorem denotes_timeOfDay (t : TimeOfDay) : Denotes (Value.timeOfDay t).text (.timeOfDay t.cut) := by
  have htext : (Value.timeOfDay t).text.toList =
      ['T', 'O', 'D'] ++ '#' :: (digits 2 t.hour ++ separated t.groups ++ t.decimals) := by
    change ("TOD#" ++ t.text).toList = _
    rw [String.toList_append, t.toList_text]
    rfl
  refine denotes_of_isToken .timeOfDay (by decide) ?_ fun span => ?_
  · rw [htext]
    refine isToken_tagged (by simp) (by simp) ?_
    exact tagged?_of_groups (.tail _ (.head _)) TimeOfDay.isGroup_of_mem t.endsDigits_decimals
      t.fractionLength_decimals.symm
  · change some ((Literal.timeOfDay (Value.timeOfDay t).text.toList).map Value.timeOfDay) = _
    rw [htext, Literal.timeOfDay, Literal.afterTag_tagged (by simp), t.clockTime_digits]
    rfl

/-- A time of day is shown as a literal of its value exactly if it is whole milliseconds. -/
theorem denotes_timeOfDay_iff {t : TimeOfDay} :
    Denotes (Value.timeOfDay t).text (.timeOfDay t) ↔ 10 ^ 6 ∣ t.nanos := by
  rw [← TimeOfDay.cut_eq_iff]
  constructor
  · intro h
    exact Value.timeOfDay.inj ((denotes_timeOfDay t).unique h)
  · intro h
    have hshown := denotes_timeOfDay t
    rwa [h] at hshown

-- ---------------------------------------------------------------------------
-- Dates with times
-- ---------------------------------------------------------------------------

/-- A date and time is shown as a literal of its whole milliseconds, if it is not before the year zero. -/
theorem denotes_dateAndTime {t : DateAndTime} (h : 0 ≤ t.date.year) :
    Denotes (Value.dateAndTime t).text (.dateAndTime ⟨t.date, t.time.cut⟩) := by
  obtain ⟨date, time⟩ := t
  have htext : (Value.dateAndTime ⟨date, time⟩).text.toList = ['D', 'T'] ++ '#' ::
      (digits 4 date.year.toNat ++ separated date.groups ++
        '-' :: (digits 2 time.hour ++ separated time.groups ++ time.decimals)) := by
    change ("DT#" ++ (date.text ++ "-" ++ time.text)).toList = _
    rw [String.toList_append, String.toList_append, String.toList_append, Date.toList_text h, time.toList_text,
      List.append_assoc]
    rfl
  have hgroups : digits 4 date.year.toNat ++ separated date.groups ++
        '-' :: (digits 2 time.hour ++ separated time.groups ++ time.decimals) =
      digits 4 date.year.toNat ++ separated (date.groups ++ ('-', digits 2 time.hour) :: time.groups) ++
        time.decimals := by
    simp [separated]
  refine denotes_of_isToken .dateAndTime (by decide) ?_ fun span => ?_
  · rw [htext, hgroups]
    refine isToken_tagged (by simp) (by simp) ?_
    refine tagged?_of_groups (.tail _ (.tail _ (.head _))) ?_ time.endsDigits_decimals
      time.fractionLength_decimals.symm
    exact List.forall_mem_append.mpr ⟨Date.isGroup_of_mem,
      List.forall_mem_cons.mpr ⟨isGroup_digits rfl 2 time.hour, TimeOfDay.isGroup_of_mem⟩⟩
  · have hclock : '-' ∉ digits 2 time.hour ++ separated time.groups ++ time.decimals := by
      simp [separated, TimeOfDay.groups, time.not_mem_decimals, not_mem_digits]
    change some ((Literal.dateAndTime (Value.dateAndTime ⟨date, time⟩).text.toList).map Value.dateAndTime) = _
    rw [htext, Literal.dateAndTime, Literal.afterTag_tagged (by simp), Date.fields_text,
      fields_append (not_mem_digits rfl), fields_of_not_mem hclock]
    dsimp only
    rw [civilDate_digits h, time.clockTime_digits]
    rfl

/-- A date and time is shown as a literal of its value exactly if it is whole milliseconds. -/
theorem denotes_dateAndTime_iff {t : DateAndTime} (h : 0 ≤ t.date.year) :
    Denotes (Value.dateAndTime t).text (.dateAndTime t) ↔ 10 ^ 6 ∣ t.time.nanos := by
  obtain ⟨date, time⟩ := t
  rw [← TimeOfDay.cut_eq_iff]
  constructor
  · intro hshown
    have hsame := (denotes_dateAndTime h).unique hshown
    exact (DateAndTime.mk.inj (Value.dateAndTime.inj hsame)).2
  · intro hcut
    have hshown := denotes_dateAndTime h
    rwa [hcut] at hshown

end StructuredText
