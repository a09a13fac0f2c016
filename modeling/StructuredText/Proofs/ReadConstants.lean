-- SUMMARY: Constants, initial values and types are read back from their printed words.
import StructuredText.Proofs.Parsed
import StructuredText.Proofs.Parsing

/-!
# Reading back constants and types

What a rule of the grammar yields is read back by the same rule from its printed words, whatever follows them that may
follow such a thing. This is shown for each rule by following it: what its parts yield is read back from their words,
and no alternative before the one that was taken can take the words.
-/

namespace StructuredText

open Word (mark ident number)

-- ---------------------------------------------------------------------------
-- Numerals
-- ---------------------------------------------------------------------------

namespace Text

theorem digit?_ten {c : Char} (h : c.isDigit = true) : digit? 10 c = some (c.toNat - '0'.toNat) := by
  have hlt : c.toNat - '0'.toNat < 10 := by
    simp only [Char.isDigit, Bool.and_eq_true, decide_eq_true_eq, ge_iff_le, UInt32.le_iff_toNat_le] at h
    change c.val.toNat - '0'.val.toNat < 10
    have h9 : '9'.val.toNat = 57 := rfl
    have h0 : '0'.val.toNat = 48 := rfl
    omega
  simpa [digit?, h] using hlt

theorem digits?_foldl {cs : List Char} (hne : cs ≠ []) (h : ∀ c ∈ cs, c.isDigit = true) :
    digits? 10 cs = some (cs.foldl (fun n c => 10 * n + (c.toNat - '0'.toNat)) 0) := by
  have hfold (start : Nat) : cs.foldlM (fun n c => (digit? 10 c).map (10 * n + ·)) start =
      some (cs.foldl (fun n c => 10 * n + (c.toNat - '0'.toNat)) start) := by
    clear hne
    induction cs generalizing start with
    | nil => rfl
    | cons c cs ih =>
      rw [List.foldlM_cons, digit?_ten (h c (by simp)), List.foldl_cons]
      exact ih (fun c' hc' => h c' (by simp [hc'])) _
  simp [digits?, hne, hfold]

/-- A number is read from the digits that it is written with. -/
theorem digits?_toDigits (n : Nat) : digits? 10 (Nat.toDigits 10 n) = some n := by
  rw [digits?_foldl Nat.toDigits_ne_nil fun c hc => Nat.isDigit_of_mem_toDigits (by omega) (by omega) hc]
  rw [← Nat.ofDigitChars_eq_foldl, Nat.ofDigitChars_ten_toDigits]

end Text

theorem Literal.integer_toDigits {n : Nat} (h : n < integerLimit) : integer (Nat.toDigits 10 n) = .ok n := by
  have hsignificant : significant (Nat.toDigits 10 n) = Nat.toDigits 10 n := by
    refine List.filter_eq_self.mpr fun c hc => ?_
    have hne : c ≠ '_' := by
      rintro rfl
      exact Nat.underscore_not_in_toDigits hc
    simp [hne]
  rw [integer, orError_eq_ok, integerInBase, hsignificant, Text.digits?_toDigits]
  simp [h]

namespace Grammar

open StructuredText.Parser

-- ---------------------------------------------------------------------------
-- Names and numbers
-- ---------------------------------------------------------------------------

theorem parse_identifier_none {passes : TokenKind → Bool} {ts : List Token} (h : Before passes ts)
    (hname : passes .identifier = false) : parse identifier ts = none := by
  simp [identifier, h.parse_token hname]

@[simp] theorem parse_identifier (n : Ident) (rest : List Token) :
    parse identifier ((ident n).token :: rest) = some (n.erase, rest) := by
  simp [identifier, Ident.erase]

/-- Items in marks are read when each of them is read before a comma and before the closing mark. -/
theorem parse_listed {α β : Type} {p : Parser α} (words : β → List Word) (read : β → α) (passes : TokenKind → Bool)
    {items : List β} (opening closing : TokenKind) (hitems : items ≠ [])
    (hread : ∀ x ∈ items, ∀ after, Before passes after → parse p (tokens (words x) ++ after) = some (read x, after))
    (hcomma : passes .comma = true) (hclosing : passes closing = true) (hne : closing ≠ .comma) (rest : List Token) :
    parse (listed opening closing p) (tokens (between opening closing (joined .comma (items.map words))) ++ rest) =
      some (items.map read, rest) := by
  have hsep : parse (sepBy1 p (token .comma)) (tokens (joined .comma (items.map words)) ++ (mark closing).token :: rest) =
      some (items.map read, (mark closing).token :: rest) :=
    parse_sepBy1 words read passes hitems hread hcomma (by simpa using hclosing) (by simp [hne])
  simp [listed, between, hsep]

theorem parse_integer {n : Nat} (h : n < Literal.integerLimit) (rest : List Token) :
    parse integer ((number n).token :: rest) = some ((n : Int), rest) := by
  simp [integer, literal, Literal.value?, number, Word.token, Literal.integer_toDigits h, Except.map]

theorem parse_signedInteger {i : Int} (h : i.natAbs < Literal.integerLimit) (rest : List Token) :
    parse signedInteger (tokens (integerWords i) ++ rest) = some (i, rest) := by
  obtain ⟨n, hn⟩ : ∃ n, i.natAbs = n := ⟨_, rfl⟩
  rw [hn] at h
  by_cases hneg : i < 0
  · have hi : -(n : Int) = i := by omega
    simp [signedInteger, integerWords, hneg, hn, parse_integer h, hi]
  · have hi : (n : Int) = i := by omega
    simp [signedInteger, integerWords, hneg, hn, parse_integer h, hi]

theorem integer_bounded : Yields integer fun i => 0 ≤ i ∧ i.natAbs < Literal.integerLimit := by
  refine integer_yields.mono fun i hi => ⟨hi.1, ?_⟩
  have hlimit : i < 2 ^ 127 := hi.2.2
  simp only [Literal.integerLimit]
  omega

theorem signedInteger_bounded : Yields signedInteger fun i => i.natAbs < Literal.integerLimit := by
  refine .orElse (.skip fun _ => integer_bounded.bind fun i hi => .pure ?_)
    (.skip fun _ => integer_bounded.mono fun _ h => h.2)
  rw [Int.natAbs_neg]
  exact hi.2

-- ---------------------------------------------------------------------------
-- Constants
-- ---------------------------------------------------------------------------

/-- A boolean or a number. -/
inductive IsConstant : Value → Prop
  | bool (b : Bool) : IsConstant (.bool b)
  | integer {i : Int} (h : i.natAbs < Literal.integerLimit) : IsConstant (.integer i)

/-- The kinds of tokens that a printed constant starts with. -/
def startsConstant : TokenKind → Bool
  | .minus | .integer | .kwTrue | .kwFalse => true
  | _ => false

theorem IsConstant.starts {v : Value} (h : IsConstant v) (rest : List Token) :
    Before startsConstant (tokens v.words ++ rest) := by
  cases h with
  | bool b => cases b <;> simp [Value.words, startsConstant]
  | @integer i h => by_cases hneg : i < 0 <;> simp [Value.words, integerWords, hneg, startsConstant]

theorem literal_basic {k : TokenKind} (hk : k ≠ .integer) (hbased : k ≠ .basedInteger) {Q : Value → Prop} :
    Yields (literal k) fun v => v.isBasic = true → Q v := by
  have hkind : Yields (token k) fun t => t.kind = k := by
    intro ts t rest h
    cases ts with
    | nil => cases h
    | cons t' ts =>
      have h : parse (token k) (t' :: ts) = some (t, rest) := h
      rw [parse_token_cons] at h
      split at h
      · cases h
        assumption
      · cases h
  refine hkind.bind fun t ht => ?_
  subst ht
  split
  · next v hv =>
    refine .pure fun hbasic => ?_
    unfold Literal.value? at hv
    dsimp only at hv
    split at hv
    · exact absurd ‹_› hk
    · exact absurd ‹_› hbased
    all_goals first
      | obtain ⟨a, -, rfl⟩ := Literal.map_eq_some_ok hv
        simp [Value.isBasic] at hbasic
      | cases hv
  · exact .fail

/-- A constant without a sign is a boolean or a number that is not negative. -/
theorem unsignedConstant_basic :
    Yields unsignedConstant fun v => v.isBasic = true → IsConstant v ∧ ∀ i, v = .integer i → 0 ≤ i := by
  refine .orElse (.map (.mono .any fun _ _ h => by simp [Value.isBasic] at h)) ?_
  refine .orElse (.map (integer_bounded.mono fun i hi _ => ⟨.integer hi.2, ?_⟩)) ?_
  · rintro j ⟨⟩
    exact hi.1
  refine .orElse (.skip fun _ => .pure fun _ => ⟨.bool _, nofun⟩) ?_
  refine .orElse (.skip fun _ => .pure fun _ => ⟨.bool _, nofun⟩) ?_
  refine .orElse (literal_basic ?_ ?_) (.orElse (literal_basic ?_ ?_) (.orElse (literal_basic ?_ ?_)
    (.orElse (literal_basic ?_ ?_) (literal_basic ?_ ?_))))
  all_goals decide

theorem constant_basic : Yields constant fun v => v.isBasic = true → IsConstant v := by
  refine .orElse (.skip fun _ => .skip fun _ => .pure fun h => by simp [Value.isBasic] at h) (.orElse ?_ ?_)
  · refine .skip fun _ => integer_bounded.bind fun i hi => .pure fun _ => .integer ?_
    rw [Int.natAbs_neg]
    exact hi.2
  · exact .skip fun _ => unsignedConstant_basic.mono fun v hv hbasic => (hv hbasic).1

theorem parse_unsignedConstant {v : Value} (h : IsConstant v) (hsign : ∀ i, v = .integer i → 0 ≤ i) (rest : List Token) :
    parse unsignedConstant (tokens v.words ++ rest) = some (v.erase, rest) := by
  cases h with
  | bool b => cases b <;> simp [unsignedConstant, real, integer, literal, Value.words, Value.erase]
  | @integer i h =>
    obtain ⟨n, hn⟩ : ∃ n, i.natAbs = n := ⟨_, rfl⟩
    rw [hn] at h
    have hneg : ¬ i < 0 := Int.not_lt.mpr (hsign i rfl)
    have hi : (n : Int) = i := by omega
    have hreal : parse real ((number n).token :: rest) = none := by simp [real, literal]
    simp [unsignedConstant, Value.words, Value.erase, integerWords, hneg, hn, hreal, parse_integer h, hi]

theorem parse_constant {v : Value} (h : IsConstant v) (rest : List Token) :
    parse constant (tokens v.words ++ rest) = some (v.erase, rest) := by
  have hunsigned : (∀ i, v = .integer i → 0 ≤ i) → parse constant (tokens v.words ++ rest) = some (v.erase, rest) := by
    intro hsign
    have hread := parse_unsignedConstant h hsign rest
    cases h with
    | bool b => cases b <;> simpa [constant, Value.words] using hread
    | @integer i h =>
      have hneg : ¬ i < 0 := Int.not_lt.mpr (hsign i rfl)
      simpa [constant, Value.words, integerWords, hneg] using hread
  cases h with
  | bool b => exact hunsigned nofun
  | @integer i h =>
    by_cases hneg : i < 0
    · obtain ⟨n, hn⟩ : ∃ n, i.natAbs = n := ⟨_, rfl⟩
      rw [hn] at h
      have hi : -(n : Int) = i := by omega
      have hreal : parse real ((number n).token :: rest) = none := by simp [real, literal]
      simp [constant, Value.words, Value.erase, integerWords, hneg, hn, hreal, parse_integer h, hi]
    · exact hunsigned fun j hj => by
        cases hj
        omega

theorem parse_constant_ident (n : Ident) (rest : List Token) : parse constant ((ident n).token :: rest) = none := by
  simp [constant, unsignedConstant, real, integer, literal]

-- ---------------------------------------------------------------------------
-- Initial values
-- ---------------------------------------------------------------------------

/-- The kinds of tokens that may follow an initial value. -/
def endsValue : TokenKind → Bool
  | .comma | .rightBracket | .rightParen | .semicolon => true
  | _ => false

theorem initialValueWithin_succ (depth : Nat) : initialValueWithin (depth + 1) =
    (Value.arrayInit <$> listed .leftBracket .rightBracket (arrayItem (initialValueWithin depth))
      <|> Value.struct <$> listed .leftParen .rightParen (memberItem (initialValueWithin depth))
      <|> Prod.snd <$> typedLiteral <|> constant <|> enumerated) := rfl

/-- The initial value is read from the words, and it is not taken for a repeat count. -/
structure InitialReadsAs (ws : List Word) (v : Value) : Prop where
  reads (depth : Nat) (rest : List Token) (hdepth : ws.length < depth) (hrest : Before endsValue rest) :
    parse (initialValueWithin depth) (tokens ws ++ rest) = some (v.erase, rest)
  uncounted (rest : List Token) (hrest : Before endsValue rest) :
    parse (integer >>= fun _ => token .leftParen) (tokens ws ++ rest) = none

/-- The initial value is read back from its words. -/
abbrev InitialReads (v : Value) : Prop := InitialReadsAs v.words v

theorem initialReadsAs_constant {v : Value} (h : IsConstant v) : InitialReadsAs v.words v where
  reads depth rest hdepth hrest := by
    obtain ⟨depth, rfl⟩ : ∃ d, depth = d + 1 := Nat.exists_eq_add_one_of_ne_zero (by omega)
    have hbracket : parse (token .leftBracket) (tokens v.words ++ rest) = none := (h.starts rest).parse_token rfl
    have hparen : parse (token .leftParen) (tokens v.words ++ rest) = none := (h.starts rest).parse_token rfl
    have hname : parse identifier (tokens v.words ++ rest) = none := parse_identifier_none (h.starts rest) rfl
    simp [initialValueWithin_succ, listed, typedLiteral, hbracket, hparen, hname, parse_constant h rest]
  uncounted rest hrest := by
    have hopen : parse (token .leftParen) rest = none := hrest.parse_token rfl
    cases h with
    | bool b => cases b <;> simp [integer, literal, Value.words]
    | @integer i h =>
      by_cases hneg : i < 0
      · simp [integer, literal, Value.words, integerWords, hneg]
      · simp [Value.words, integerWords, hneg, parse_integer h, hopen]

theorem initialReadsAs_enumeration (n : Ident) : InitialReadsAs [ident n] (.enumeration n) where
  reads depth rest hdepth hrest := by
    obtain ⟨depth, rfl⟩ : ∃ d, depth = d + 1 := Nat.exists_eq_add_one_of_ne_zero (by omega)
    have hhash : parse (token .hash) rest = none := hrest.parse_token rfl
    simp [initialValueWithin_succ, listed, typedLiteral, enumerated, Value.erase, parse_constant_ident, hhash]
  uncounted rest hrest := by
    simp [integer, literal]

/-- A repeat count fits if it is read, and a single value is no repeat count. -/
theorem parse_arrayItem {count depth : Nat} {ws : List Word} {v : Value} {rest : List Token} (hv : InitialReadsAs ws v)
    (hcount : count ≤ maxCount) (hdepth : (itemWords count ws).length < depth) (hrest : Before endsValue rest) :
    parse (arrayItem (initialValueWithin depth)) (tokens (itemWords count ws) ++ rest) = some ((count, v.erase), rest) := by
  by_cases hone : count = 1
  · subst hone
    simp only [itemWords, ↓reduceIte] at hdepth ⊢
    have huncounted := hv.uncounted rest hrest
    rw [parse_bind] at huncounted
    simp only [arrayItem, parse_orElse, parse_bind, hv.reads depth rest hdepth hrest]
    cases hinteger : parse integer (tokens ws ++ rest) with
    | none => simp
    | some found =>
      rw [hinteger, Option.bind_some] at huncounted
      simp [huncounted]
  · have hlimit : count < Literal.integerLimit := Nat.lt_of_le_of_lt hcount (by decide)
    simp only [itemWords, hone, ↓reduceIte, between, List.length_cons, List.length_append, List.length_nil] at hdepth
    have hread := hv.reads depth ((mark .rightParen).token :: rest) (by omega) (by simp [endsValue])
    simp [arrayItem, itemWords, hone, between, parse_integer hlimit, hread, hcount]

theorem arrayItem_basic {p : Parser Value} (hp : Yields p fun v => v.isBasic = true → InitialReads v) :
    Yields (arrayItem p) fun item => item.1 ≤ maxCount ∧ (item.2.isBasic = true → InitialReads item.2) := by
  refine .orElse (.skip fun count => .skip fun _ => hp.bind fun v hv => .skip fun _ => ?_)
    (hp.bind fun v hv => .pure ⟨(by decide : 1 ≤ maxCount), hv⟩)
  split
  · exact .pure ⟨‹_›, hv⟩
  · exact .failExpecting

theorem initialReadsAs_array {words : Value → List Word} {items : List (Nat × Value)} (hitems : items ≠ [])
    (h : ∀ item ∈ items, item.1 ≤ maxCount ∧ InitialReadsAs (words item.2) item.2) :
    InitialReadsAs
      (between .leftBracket .rightBracket (joined .comma (items.map fun item => itemWords item.1 (words item.2))))
      (.arrayInit items) where
  reads depth rest hdepth hrest := by
    obtain ⟨depth, rfl⟩ : ∃ d, depth = d + 1 := Nat.exists_eq_add_one_of_ne_zero (by omega)
    let itemWords := fun item : Nat × Value => itemWords item.1 (words item.2)
    have hread : ∀ item ∈ items, ∀ after, Before endsValue after →
        parse (arrayItem (initialValueWithin depth)) (tokens (itemWords item) ++ after) =
          some ((item.1, item.2.erase), after) := by
      intro item hitem after hafter
      have hlength : (itemWords item).length ≤ _ := length_le_joined .comma (List.mem_map_of_mem hitem)
      simp only [between, List.length_cons, List.length_append, itemWords] at hdepth hlength
      exact parse_arrayItem (h item hitem).2 (h item hitem).1 (by omega) hafter
    have hlisted := parse_listed itemWords (fun item => (item.1, item.2.erase)) endsValue .leftBracket .rightBracket hitems
      hread rfl rfl (by decide) rest
    simp [initialValueWithin_succ, Value.erase, hlisted, itemWords]
  uncounted rest hrest := by
    simp [integer, literal, between]

theorem initialReadsAs_struct {words : Value → List Word} {members : List (Ident × Value)} (hmembers : members ≠ [])
    (h : ∀ member ∈ members, InitialReadsAs (words member.2) member.2) :
    InitialReadsAs
      (between .leftParen .rightParen
        (joined .comma (members.map fun member => ident member.1 :: mark .assignment :: words member.2)))
      (.struct members) where
  reads depth rest hdepth hrest := by
    obtain ⟨depth, rfl⟩ : ∃ d, depth = d + 1 := Nat.exists_eq_add_one_of_ne_zero (by omega)
    let memberWords := fun member : Ident × Value => ident member.1 :: mark .assignment :: words member.2
    have hread : ∀ member ∈ members, ∀ after, Before endsValue after →
        parse (memberItem (initialValueWithin depth)) (tokens (memberWords member) ++ after) =
          some ((member.1.erase, member.2.erase), after) := by
      intro member hmember after hafter
      have hlength : (memberWords member).length ≤ _ := length_le_joined .comma (List.mem_map_of_mem hmember)
      simp only [between, List.length_cons, List.length_append, memberWords] at hdepth hlength
      simp [memberItem, memberWords, (h member hmember).reads depth after (by omega) hafter]
    have hlisted := parse_listed memberWords (fun member => (member.1.erase, member.2.erase)) endsValue .leftParen
      .rightParen hmembers hread rfl rfl (by decide) rest
    have hbracket : parse (listed .leftBracket .rightBracket (arrayItem (initialValueWithin depth)))
        (tokens (between .leftParen .rightParen (joined .comma (members.map memberWords))) ++ rest) = none := by
      simp [listed, between]
    rw [initialValueWithin_succ, parse_orElse, parse_map, hbracket]
    simp [Value.erase, hlisted, memberWords]
  uncounted rest hrest := by
    simp [integer, literal, between]

theorem initialValueWithin_basic (depth : Nat) :
    Yields (initialValueWithin depth) fun v => v.isBasic = true → InitialReads v := by
  have hconstant : Yields Grammar.constant fun v => v.isBasic = true → InitialReads v :=
    constant_basic.mono fun v hv hbasic => initialReadsAs_constant (hv hbasic)
  have hname : Yields enumerated fun v => v.isBasic = true → InitialReads v :=
    .map (.mono .any fun n _ _ => initialReadsAs_enumeration n)
  induction depth with
  | zero => exact .fail
  | succ depth ih =>
    refine .orElse (.map ((listed_yields _ _ (arrayItem_basic ih)).mono fun items h hbasic => ?_)) ?_
    · simp only [Value.isBasic, Value.areItemsBasic_eq, List.all_eq_true] at hbasic
      simpa [InitialReads, Value.words] using
        initialReadsAs_array h.1 fun item hitem => ⟨(h.2 item hitem).1, (h.2 item hitem).2 (hbasic item hitem)⟩
    refine .orElse (.map ((listed_yields (Q := fun member => member.2.isBasic = true → InitialReads member.2) _ _
      (.skip fun n => .skip fun _ => ih.bind fun v hv => .pure hv)).mono fun members h hbasic => ?_)) ?_
    · simp only [Value.isBasic, Value.areMembersBasic_eq, List.all_eq_true] at hbasic
      simpa [InitialReads, Value.words] using
        initialReadsAs_struct h.1 fun member hmember => h.2 member hmember (hbasic member hmember)
    refine .orElse (.map ?_) (.orElse hconstant hname)
    exact .skip fun _ => .skip fun _ => (Yields.orElse hconstant hname).bind fun v hv => .pure hv

theorem initial_basic :
    Yields (optional initializer) fun initial => Tree.isInitialBasic initial = true → ∀ v ∈ initial, InitialReads v := by
  refine (Yields.optional (.skip fun _ => .bounded initialValueWithin_basic)).mono fun initial h hbasic v hv => ?_
  cases hv
  exact h v rfl hbasic

theorem parse_initial {initial : Option Value} {rest : List Token} (h : ∀ v ∈ initial, InitialReads v)
    (hrest : Before endsValue rest) :
    parse (optional initializer) (tokens (initialWords initial) ++ rest) = some (initial.map (·.erase), rest) := by
  cases initial with
  | none =>
    have hassignment : parse (token .assignment) rest = none := hrest.parse_token rfl
    simp [initializer, initialWords, hassignment]
  | some v =>
    have hdepth : v.words.length < (tokens v.words ++ rest).length + 1 := by
      simp only [tokens, List.length_append, List.length_map]
      omega
    have hread := (h v rfl).reads _ rest hdepth hrest
    rw [← parse_bounded] at hread
    simp [initializer, initialValue, initialWords, hread]

-- ---------------------------------------------------------------------------
-- Types
-- ---------------------------------------------------------------------------

/-- The bounds of a dimension are numbers that can be written. -/
def IsRange (d : Dimension) : Prop := d.min.natAbs < Literal.integerLimit ∧ d.max.natAbs < Literal.integerLimit

theorem range_bounded : Yields range IsRange :=
  signedInteger_bounded.bind fun _ hmin => .skip fun _ => signedInteger_bounded.bind fun _ hmax => .pure ⟨hmin, hmax⟩

theorem parse_range {d : Dimension} (h : IsRange d) (rest : List Token) :
    parse range (tokens (Tree.rangeWords d) ++ rest) = some (d, rest) := by
  simp [range, Tree.rangeWords, parse_signedInteger h.1, parse_signedInteger h.2]

theorem subrange_bounded : Yields subrange fun found => IsRange found.2 :=
  .skip fun _ => .skip fun _ => range_bounded.bind fun _ h => .skip fun _ => .pure h

theorem parse_subrange {d : Dimension} (h : IsRange d) (base : Ident) (rest : List Token) :
    parse subrange (tokens (Tree.subrangeWords base d) ++ rest) = some ((base.erase, d), rest) := by
  simp [subrange, Tree.subrangeWords, between, parse_range h]

/-- What may follow a type without making it a subrange. -/
def endsType (k : TokenKind) : Bool := k != .leftParen

/-- The type is read back from its words. -/
def TypeReads (t : Tree.TypeExpr) : Prop :=
  ∀ depth rest, t.words.length < depth → Before endsType rest →
    parse (typeExprWithin depth) (tokens t.words ++ rest) = some (t.erase, rest)

theorem parse_arrayOf {p : Parser Tree.TypeExpr} {t : Tree.TypeExpr} {ds : List Dimension} {rest : List Token}
    (ht : parse p (tokens t.words ++ rest) = some (t.erase, rest)) (hne : ds ≠ []) (hds : ∀ d ∈ ds, IsRange d) :
    parse (arrayOf p) (tokens (Tree.TypeExpr.array t ds).words ++ rest) = some ((t.erase, ds), rest) := by
  have hlisted := parse_listed Tree.rangeWords id (fun _ => true) .leftBracket .rightBracket hne
    (fun d hd after _ => parse_range (hds d hd) after) rfl rfl (by decide) ((mark .kwOf).token :: (tokens t.words ++ rest))
  simp [arrayOf, Tree.TypeExpr.words, Tree.dimensionWords, hlisted, ht]

theorem arrayOf_bounded {p : Parser Tree.TypeExpr} {Q : Tree.TypeExpr → Prop} (hp : Yields p Q) :
    Yields (arrayOf p) fun found => Q found.1 ∧ found.2 ≠ [] ∧ ∀ d ∈ found.2, IsRange d :=
  .skip fun _ => (listed_yields _ _ range_bounded).bind fun _ hds => .skip fun _ => hp.bind fun _ ht => .pure ⟨ht, hds⟩

theorem typeExprWithin_reads (depth : Nat) : Yields (typeExprWithin depth) TypeReads := by
  induction depth with
  | zero => exact .fail
  | succ depth ih =>
    refine .orElse ((arrayOf_bounded ih).bind fun (t, ds) h => .pure ?_) (.orElse (subrange_bounded.bind
      fun (base, d) h => .pure ?_) (.map (.mono .any fun n _ => ?_)))
    all_goals
      intro depth rest hdepth hrest
      obtain ⟨depth, rfl⟩ : ∃ d, depth = d + 1 := Nat.exists_eq_add_one_of_ne_zero (by omega)
    · obtain ⟨ht, hne, hds⟩ : TypeReads t ∧ ds ≠ [] ∧ ∀ d ∈ ds, IsRange d := h
      simp only [Tree.TypeExpr.words, List.length_append, List.length_cons] at hdepth
      have harray := parse_arrayOf (ht depth rest (by omega) hrest) hne hds
      simp [typeExprWithin, harray, Tree.TypeExpr.erase]
    · have harray : parse (token .kwArray) (tokens (Tree.subrangeWords base d) ++ rest) = none := by
        simp [Tree.subrangeWords]
      simp [typeExprWithin, arrayOf, Tree.TypeExpr.words, Tree.TypeExpr.erase, harray, parse_subrange h]
    · have hparen : parse (token .leftParen) rest = none := hrest.parse_token rfl
      simp [typeExprWithin, arrayOf, subrange, Tree.TypeExpr.words, Tree.TypeExpr.erase, hparen]

theorem typeExpr_reads : Yields typeExpr TypeReads := .bounded typeExprWithin_reads

theorem parse_typeExpr {t : Tree.TypeExpr} {rest : List Token} (h : TypeReads t) (hrest : Before endsType rest) :
    parse typeExpr (tokens t.words ++ rest) = some (t.erase, rest) := by
  rw [typeExpr, parse_bounded]
  refine h _ rest ?_ hrest
  simp only [tokens, List.length_append, List.length_map]
  omega

end Grammar

end StructuredText
