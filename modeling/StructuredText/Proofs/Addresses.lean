-- SUMMARY: Direct addresses are read back from their texts, and which texts are read as which address.
import StructuredText.Proofs.Digits
import StructuredText.Proofs.Layout
import StructuredText.Proofs.LiteralCase

/-!
# Texts of addresses

An address can be spelled in several ways: its letters in either case, a bit with or without its size letter, and
numbers with zeros or a plus sign in front. A text is read as an address exactly if it is one of these spellings, and
the text that is written for an address is the one spelling that all of them come down to.
-/

namespace StructuredText

namespace Text

theorem toUpper_of_isDigit {c : Char} (h : c.isDigit = true) : c.toUpper = c := by
  have hdigit : c.toNat ≤ 57 := (Bool.and_eq_true_iff.mp h).2 |> of_decide_eq_true
  unfold Char.toUpper
  split
  · next hc =>
    have hlow : 97 ≤ c.toNat := hc.1
    omega
  · rfl

variable {n limit : Nat} {cs : List Char}

-- ---------------------------------------------------------------------------
-- Numbers
-- ---------------------------------------------------------------------------

/-- The text is digits of the number, of which there may be too many. -/
structure Decimal (n : Nat) (cs : List Char) : Prop where
  nonempty : cs ≠ []
  digits : ∀ c ∈ cs, c.isDigit = true
  value : Nat.ofDigitChars 10 cs 0 = n

/-- The text is digits of the number, with a plus sign in front or without one. -/
inductive Numeral (n : Nat) : List Char → Prop
  | bare {ds : List Char} (h : Decimal n ds) : Numeral n ds
  | plus {ds : List Char} (h : Decimal n ds) : Numeral n ('+' :: ds)

theorem decimal_digits (width n : Nat) : Decimal n (digits width n) where
  nonempty := digits_ne_nil width n
  digits _ := isDigit_of_mem_digits
  value := by rw [← digitsValue_eq, digitsValue_digits]

theorem isDigit_of_digit? {c : Char} (h : (digit? 10 c).isSome = true) : c.isDigit = true := by
  by_contra hdigit
  have hletter : ∀ d ∈ digit? 10 c, False := by
    intro d hd
    obtain ⟨hvalue, hlimit⟩ := Option.filter_eq_some_iff.mp hd
    have hlimit : d < 10 := of_decide_eq_true hlimit
    -- the value of a letter is at least ten
    split_ifs at hvalue <;> cases hvalue <;> omega
  obtain ⟨d, hd⟩ := Option.isSome_iff_exists.mp h
  exact hletter d hd

/-- Only digits add up to a number. -/
theorem isDigit_of_foldlM {start : Nat}
    (h : cs.foldlM (fun n c => (digit? 10 c).map (10 * n + ·)) start = some n) : ∀ c ∈ cs, c.isDigit = true := by
  induction cs generalizing start with
  | nil => nofun
  | cons c cs ih =>
    rw [List.foldlM_cons] at h
    obtain ⟨m, hm, h⟩ := Option.bind_eq_some_iff.mp h
    obtain ⟨d, hd, -⟩ := Option.map_eq_some_iff.mp hm
    exact List.forall_mem_cons.mpr ⟨isDigit_of_digit? (by rw [hd]; rfl), ih h⟩

theorem digits?_eq_some : digits? 10 cs = some n ↔ Decimal n cs := by
  have hvalue (hne : cs ≠ []) (hdigits : ∀ c ∈ cs, c.isDigit = true) :
      digits? 10 cs = some (Nat.ofDigitChars 10 cs 0) := by
    rw [digits?_foldl hne hdigits, ← Nat.ofDigitChars_eq_foldl]
  constructor
  · intro h
    have hne : cs ≠ [] := by
      rintro rfl
      cases h
    have hdigits : ∀ c ∈ cs, c.isDigit = true := by
      rw [digits?, if_neg (by simpa using hne)] at h
      exact isDigit_of_foldlM h
    rw [hvalue hne hdigits] at h
    exact ⟨hne, hdigits, Option.some.inj h⟩
  · rintro ⟨hne, hdigits, rfl⟩
    exact hvalue hne hdigits

theorem Decimal.head (h : Decimal n cs) : ∃ c rest, cs = c :: rest ∧ c.isDigit = true := by
  obtain ⟨c, rest, rfl⟩ := List.exists_cons_of_ne_nil h.nonempty
  exact ⟨c, rest, rfl, h.digits c List.mem_cons_self⟩

/-- A text is read as a number within the limit exactly if it is a numeral of it. -/
theorem number?_eq_some : number? limit cs = some n ↔ n ≤ limit ∧ Numeral n cs := by
  have hfilter (ds : List Char) : (digits? 10 ds).filter (· ≤ limit) = some n ↔ n ≤ limit ∧ Decimal n ds := by
    rw [Option.filter_eq_some_iff, digits?_eq_some, decide_eq_true_eq, and_comm]
  unfold number?
  split
  · next rest =>
    rw [hfilter]
    refine and_congr_right fun _ => ⟨.plus, fun h => ?_⟩
    cases h with
    | bare h => exact absurd (h.digits '+' List.mem_cons_self) (by decide)
    | plus h => exact h
  · next hsign =>
    rw [hfilter]
    refine and_congr_right fun _ => ⟨.bare, fun h => ?_⟩
    cases h with
    | bare h => exact h
    | plus h => exact absurd rfl (hsign _)

theorem Numeral.not_mem {separator : Char} (h : Numeral n cs) (hdigit : separator.isDigit = false)
    (hplus : separator ≠ '+') : separator ∉ cs := by
  have hbare {ds : List Char} (h : Decimal n ds) : separator ∉ ds := fun hmem => by
    simp [h.digits separator hmem] at hdigit
  cases h with
  | bare h => exact hbare h
  | plus h => simpa [hplus] using hbare h

end Text

open Text

-- ---------------------------------------------------------------------------
-- Letters
-- ---------------------------------------------------------------------------

@[simp] theorem Area.toUpper_letter (a : Area) : a.letter.toUpper = a.letter := by cases a <;> rfl

@[simp] theorem AddressSize.toUpper_letter (s : AddressSize) : s.letter.toUpper = s.letter := by cases s <;> rfl

theorem Area.ofLetter?_eq_some {c : Char} {a : Area} : Area.ofLetter? c = some a ↔ c.toUpper = a.letter := by
  unfold Area.ofLetter?
  split <;> cases a <;> simp_all [Area.letter]

theorem AddressSize.ofLetter?_eq_some {c : Char} {s : AddressSize} :
    AddressSize.ofLetter? c = some s ↔ c.toUpper = s.letter ∧ ∀ position, s ≠ .bit position := by
  unfold AddressSize.ofLetter?
  split <;> cases s <;> simp_all [AddressSize.letter]

/-- A digit stands where the letter of a bit is left out. -/
theorem AddressSize.ofLetter?_of_isDigit {c : Char} (h : c.isDigit = true) : AddressSize.ofLetter? c = none := by
  cases hsize : AddressSize.ofLetter? c with
  | none => rfl
  | some s =>
    have hletter := (AddressSize.ofLetter?_eq_some.mp hsize).1
    rw [toUpper_of_isDigit h] at hletter
    rw [hletter] at h
    cases s <;> cases h

namespace Address

-- ---------------------------------------------------------------------------
-- Spellings
-- ---------------------------------------------------------------------------

/-- The texts that stand for an address. -/
inductive Spelling : Address → List Char → Prop
  /-- Bytes, such as `%QB2` and `%mw04`. -/
  | bytes {area size n} {areaLetter sizeLetter : Char} {byte : List Char} (harea : areaLetter.toUpper = area.letter)
    (hsize : sizeLetter.toUpper = size.letter) (hbytes : ∀ position, size ≠ .bit position) (hbyte : Numeral n byte) :
    Spelling ⟨area, size, n⟩ ('%' :: areaLetter :: sizeLetter :: byte)
  /-- A bit of a byte, such as `%IX0.1` and `%ix00.1`. -/
  | bit {area position n} {areaLetter sizeLetter : Char} {byte bit : List Char}
    (harea : areaLetter.toUpper = area.letter) (hsize : sizeLetter.toUpper = (AddressSize.bit position).letter)
    (hbyte : Numeral n byte) (hbit : Numeral position.val bit) :
    Spelling ⟨area, .bit position, n⟩ ('%' :: areaLetter :: sizeLetter :: (byte ++ '.' :: bit))
  /-- A bit of a byte without the letter, such as `%I0.1`. No plus sign stands in place of the letter. -/
  | bareBit {area position n} {areaLetter : Char} {byte bit : List Char}
    (harea : areaLetter.toUpper = area.letter) (hbyte : Decimal n byte) (hbit : Numeral position.val bit) :
    Spelling ⟨area, .bit position, n⟩ ('%' :: areaLetter :: (byte ++ '.' :: bit))

/-- The numeral in front of a separator is what is read up to the first one. -/
theorem takeWhile_of_numeral {n : Nat} {byte bit : List Char} (h : Numeral n byte) :
    (byte ++ '.' :: bit).takeWhile (· ≠ '.') = byte :=
  takeWhile_front (fun _ hc => by simpa using fun heq => h.not_mem rfl (by decide) (heq ▸ hc)) (by simp)

theorem le_pred_byteLimit {n : Nat} : n ≤ byteLimit - 1 ↔ n < byteLimit := by
  unfold byteLimit
  omega

theorem bitPlace?_eq_some {cs : List Char} {n : Nat} {position : Fin 8} :
    bitPlace? cs = some (n, position) ↔ n < byteLimit ∧
      ∃ byte bit, cs = byte ++ '.' :: bit ∧ Numeral n byte ∧ Numeral position.val bit := by
  constructor
  · intro h
    unfold bitPlace? at h
    dsimp only at h
    split at h
    · next c bit hdrop =>
      obtain ⟨n', hn, h⟩ := Option.bind_eq_some_iff.mp h
      obtain ⟨p, hp, h⟩ := Option.bind_eq_some_iff.mp h
      split at h
      · cases h
        obtain ⟨hn, hbyte⟩ := number?_eq_some.mp hn
        obtain ⟨-, hbit⟩ := number?_eq_some.mp hp
        have hrest : cs.dropWhile (· ≠ '.') = c :: bit := by
          rw [← hdrop]
          exact (Lexer.drop_runLength (fun c => decide (c ≠ '.')) cs).symm
        have hhead : c ∈ (cs.dropWhile (· ≠ '.')).head? := by
          rw [hrest]
          rfl
        have hc : c = '.' := by simpa using Lexer.not_of_mem_head?_dropWhile hhead
        subst hc
        refine ⟨le_pred_byteLimit.mp hn, _, bit, ?_, hbyte, hbit⟩
        rw [← hrest, List.takeWhile_append_dropWhile]
      · cases h
    · cases h
  · rintro ⟨hn, byte, bit, rfl, hbyte, hbit⟩
    have hread : number? (byteLimit - 1) byte = some n := number?_eq_some.mpr ⟨le_pred_byteLimit.mpr hn, hbyte⟩
    have hread' : number? 255 bit = some position.val := number?_eq_some.mpr ⟨by omega, hbit⟩
    unfold bitPlace?
    dsimp only
    rw [takeWhile_of_numeral hbyte, List.drop_left]
    simp [hread, hread']

/-- A text is read as an address exactly if it is a spelling of it. -/
theorem read?_eq_some {text : String} {a : Address} :
    read? text = some a ↔ a.byte < byteLimit ∧ Spelling a text.toList := by
  constructor
  · intro h
    unfold read? at h
    split at h
    · next areaLetter first rest htext =>
      rw [htext]
      obtain ⟨area, harea, h⟩ := Option.bind_eq_some_iff.mp h
      have harea := Area.ofLetter?_eq_some.mp harea
      split at h
      · next size hsize =>
        obtain ⟨n, hn, h⟩ := Option.bind_eq_some_iff.mp h
        cases h
        obtain ⟨hsize, hbytes⟩ := AddressSize.ofLetter?_eq_some.mp hsize
        obtain ⟨hn, hbyte⟩ := number?_eq_some.mp hn
        exact ⟨le_pred_byteLimit.mp hn, .bytes harea hsize hbytes hbyte⟩
      · dsimp only at h
        simp only [Option.bind_eq_bind, Option.bind_some, Option.bind_none] at h
        split_ifs at h with hletter hdigit
        · obtain ⟨⟨n, position⟩, hplace, h⟩ := Option.bind_eq_some_iff.mp h
          cases h
          obtain ⟨hn, byte, bit, rfl, hbyte, hbit⟩ := bitPlace?_eq_some.mp hplace
          exact ⟨hn, .bit harea hletter hbyte hbit⟩
        · obtain ⟨⟨n, position⟩, hplace, h⟩ := Option.bind_eq_some_iff.mp h
          cases h
          obtain ⟨hn, byte, bit, hrest, hbyte, hbit⟩ := bitPlace?_eq_some.mp hplace
          rw [hrest]
          cases hbyte with
          | bare hbyte => exact ⟨hn, .bareBit harea hbyte hbit⟩
          | plus hbyte =>
            -- a sign is no digit, so the size letter may not be left out in front of it
            obtain rfl := (List.cons.inj hrest).1
            exact absurd hdigit (by decide)
    · cases h
  · rintro ⟨hn, h⟩
    unfold read?
    generalize text.toList = cs at h
    cases h with
    | bytes harea hsize hbytes hbyte =>
      have hread := number?_eq_some.mpr ⟨le_pred_byteLimit.mpr hn, hbyte⟩
      simp [Area.ofLetter?_eq_some.mpr harea, AddressSize.ofLetter?_eq_some.mpr ⟨hsize, hbytes⟩, hread]
    | @bit area position n areaLetter sizeLetter byte bit harea hsize hbyte hbit =>
      have hread := bitPlace?_eq_some.mpr ⟨hn, byte, bit, rfl, hbyte, hbit⟩
      have hletter : sizeLetter.toUpper = 'X' := hsize
      simp [Area.ofLetter?_eq_some.mpr harea, AddressSize.ofLetter?, hletter, hread]
    | @bareBit area position n areaLetter byte bit harea hbyte hbit =>
      have hread := bitPlace?_eq_some.mpr ⟨hn, byte, bit, rfl, .bare hbyte, hbit⟩
      obtain ⟨first, rest, rfl, hfirst⟩ := hbyte.head
      have hletter : first.toUpper ≠ 'X' := by
        rw [toUpper_of_isDigit hfirst]
        rintro rfl
        cases hfirst
      rw [List.cons_append] at hread
      simp [Area.ofLetter?_eq_some.mpr harea, AddressSize.ofLetter?_of_isDigit hfirst, hletter, hfirst, hread]

-- ---------------------------------------------------------------------------
-- The text of an address
-- ---------------------------------------------------------------------------

theorem toList_text (a : Address) : a.text.toList = '%' :: a.area.letter :: a.size.letter :: (digits 0 a.byte ++
    match a.size with
    | .bit position => '.' :: digits 0 position.val
    | _ => []) := by
  obtain ⟨area, size, byte⟩ := a
  have hplace (letter : Char) : s!"%{area.letter}{letter}{byte}".toList =
      '%' :: area.letter :: letter :: digits 0 byte := by
    change ("%" ++ String.singleton area.letter ++ String.singleton letter ++ toString byte).toList = _
    rw [String.toList_append, toList_toString]
    simp
  have hbit (place : String) (n : Nat) : s!"{place}.{n}".toList = place.toList ++ '.' :: digits 0 n := by
    change (place ++ "." ++ toString n).toList = _
    rw [String.toList_append, toList_toString]
    simp
  unfold text
  cases size with
  | bit position =>
    dsimp only
    rw [hbit, hplace]
    rfl
  | _ =>
    dsimp only
    rw [hplace, List.append_nil]

/-- The text of an address is the spelling without signs, without zeros in front and with the size letter. -/
theorem spelling_text (a : Address) : Spelling a a.text.toList := by
  have hdigits (n : Nat) : Numeral n (digits 0 n) := .bare (decimal_digits 0 n)
  rw [toList_text]
  obtain ⟨area, size, byte⟩ := a
  cases size with
  | bit position => exact .bit area.toUpper_letter rfl (hdigits byte) (hdigits position)
  | _ =>
    dsimp only
    rw [List.append_nil]
    exact .bytes area.toUpper_letter rfl nofun (hdigits byte)

theorem read_eq_ok {text : String} {a : Address} : read text = .ok a ↔ read? text = some a := by
  unfold read
  cases read? text <;> simp

theorem read_text {a : Address} (h : a.byte < byteLimit) : read a.text = .ok a :=
  read_eq_ok.mpr (read?_eq_some.mpr ⟨h, a.spelling_text⟩)

theorem byte_lt_of_read {text : String} {a : Address} (h : read text = .ok a) : a.byte < byteLimit :=
  (read?_eq_some.mp (read_eq_ok.mp h)).1

/-- Every address whose byte has a position is read back from its text. A text is read as an address exactly if it is
one of its spellings, and so is the same text with letters of the other case. The address is then read back from the
text that is written for it, and two texts are read as the same address exactly if the same text is written for
both. -/
theorem text_canonical :
    (∀ a : Address, a.byte < byteLimit → read a.text = .ok a) ∧
    (∀ (text : String) (a : Address), read text = .ok a ↔ a.byte < byteLimit ∧ Spelling a text.toList) ∧
    (∀ (text other : String) (a : Address), Text.lower text = Text.lower other → read text = .ok a →
      read other = .ok a) ∧
    (∀ (text : String) (a : Address), read text = .ok a → read a.text = .ok a) ∧
    ∀ (text other : String) (a b : Address), read text = .ok a → read other = .ok b → (a = b ↔ a.text = b.text) := by
  refine ⟨fun a => read_text, fun text a => read_eq_ok.trans read?_eq_some, fun text other a hcase h => ?_,
    fun text a h => read_text (byte_lt_of_read h), fun text other a b ha hb => ⟨congrArg Address.text, fun htext => ?_⟩⟩
  · rw [read_eq_ok] at h ⊢
    rw [← read?_lower, ← hcase, read?_lower, h]
  · have hread : read a.text = .ok b := by
      rw [htext]
      exact read_text (byte_lt_of_read hb)
    rw [read_text (byte_lt_of_read ha)] at hread
    exact Except.ok.inj hread

/-- A bit of the inputs, with letters of either case and without the size letter. -/
theorem text_canonical_bit :
    read "%IX7.3" = .ok ⟨.inputs, .bit 3, 7⟩ ∧ read "%ix7.3" = .ok ⟨.inputs, .bit 3, 7⟩ ∧
      read "%i07.+3" = .ok ⟨.inputs, .bit 3, 7⟩ := by
  obtain ⟨hback, hspelling, hcase, -, -⟩ := text_canonical
  have hread : read "%IX7.3" = .ok ⟨.inputs, .bit 3, 7⟩ := hback ⟨.inputs, .bit 3, 7⟩ (by decide)
  have hbyte : Decimal 7 ['0', '7'] := ⟨nofun, by simp, rfl⟩
  have hbit : Numeral (3 : Fin 8).val ['+', '3'] := .plus ⟨nofun, by simp, rfl⟩
  have hletters : Text.lower "%IX7.3" = Text.lower "%ix7.3" :=
    lower_eq_lower_iff.mpr (by simp only [String.reduceToList]; decide)
  exact ⟨hread, hcase _ _ _ hletters hread, (hspelling _ _).mpr ⟨by decide, .bareBit rfl hbyte hbit⟩⟩

end Address

end StructuredText
