-- SUMMARY: What a parser takes from printed words: sequences, choices, lists and spans.
import StructuredText.Parser
import StructuredText.Proofs.Printing

/-!
# Parsing printed words

For what a parser yields, the failures that it met on its way do not matter. What is left is a partial function on token
lists, and on printed words it can be computed: each rule takes the words of one part, and the next token settles every
choice.
-/

namespace StructuredText.Parser

variable {α β : Type} {p q : Parser α} {ts rest : List Token}

-- ---------------------------------------------------------------------------
-- Results
-- ---------------------------------------------------------------------------

/-- The result of the parser without the failures on its way. -/
def parse (p : Parser α) (ts : List Token) : Option (α × List Token) := (p ts).result

@[simp] theorem parse_pure (a : α) : parse (pure a) ts = some (a, ts) := rfl

@[simp] theorem parse_fail : parse (fail : Parser α) ts = none := rfl

@[simp] theorem parse_failExpecting (e : Expected) : parse (failExpecting e : Parser α) ts = none := rfl

@[simp] theorem parse_bind (f : α → Parser β) :
    parse (p >>= f) ts = (parse p ts).bind fun found => parse (f found.1) found.2 := by
  simp only [parse, Bind.bind, Parser.bind]
  cases (p ts).result <;> rfl

@[simp] theorem parse_map (f : α → β) : parse (f <$> p) ts = (parse p ts).map fun found => (f found.1, found.2) := by
  change parse (p >>= fun a => pure (f a)) ts = _
  rw [parse_bind]
  cases parse p ts <;> rfl

@[simp] theorem parse_seqRight (s : Parser β) : parse (s *> p) ts = (parse s ts).bind fun found => parse p found.2 :=
  parse_bind fun _ => p

@[simp] theorem parse_orElse : parse (p <|> q) ts = (parse p ts).or (parse q ts) := by
  simp only [parse, HOrElse.hOrElse, OrElse.orElse, Parser.orElse]
  cases h : (p ts).result <;> simp [h]

@[simp] theorem parse_ite {c : Prop} [Decidable c] :
    parse (if c then p else q) ts = if c then parse p ts else parse q ts := apply_ite (parse · ts) c p q

@[simp] theorem parse_satisfy_cons (f : Token → Bool) (t : Token) :
    parse (satisfy f) (t :: ts) = if f t then some (t, ts) else none := by
  simp only [parse, satisfy]
  split <;> rfl

@[simp] theorem parse_satisfy_nil (f : Token → Bool) : parse (satisfy f) [] = none := rfl

@[simp] theorem parse_token_cons (k : TokenKind) (t : Token) :
    parse (token k) (t :: ts) = if t.kind = k then some (t, ts) else none := by
  simp [token]

@[simp] theorem parse_token_nil (k : TokenKind) : parse (token k) [] = none := rfl

theorem parse_bounded (q : Nat → Parser α) : parse (bounded q) ts = parse (q (ts.length + 1)) ts := rfl

@[simp] theorem parse_optional :
    parse (optional p) ts = some ((parse p ts).elim (none, ts) fun found => (some found.1, found.2)) := by
  simp only [optional, parse_orElse, parse_map, parse_pure]
  cases parse p ts <;> rfl

/-- A parser that takes all tokens succeeds on them. -/
theorem parseAll_eq_ok {a : α} (h : parse p ts = some (a, [])) : parseAll p ts = .ok a := by
  simp only [parse] at h
  simp only [parseAll, h]

-- ---------------------------------------------------------------------------
-- The next token
-- ---------------------------------------------------------------------------

/-- The first of the tokens, if there is one, is of a kind that passes. -/
def Before (passes : TokenKind → Bool) (ts : List Token) : Prop := ∀ t ∈ ts.head?, passes t.kind = true

variable {passes passes' : TokenKind → Bool}

@[simp] theorem before_nil : Before passes [] := nofun

@[simp] theorem before_cons {t : Token} : Before passes (t :: ts) ↔ passes t.kind = true := by
  simp [Before]

theorem Before.mono (h : Before passes ts) (himp : ∀ k, passes k = true → passes' k = true) : Before passes' ts :=
  fun t ht => himp _ (h t ht)

/-- A token of a kind that does not pass is not there. -/
theorem Before.parse_token {k : TokenKind} (h : Before passes ts) (hk : passes k = false) : parse (token k) ts = none := by
  cases ts with
  | nil => rfl
  | cons t ts =>
    have hne : t.kind ≠ k := by
      rintro rfl
      simp [hk] at h
    simp [hne]

theorem Before.parse_satisfy {f : Token → Bool} (h : Before passes ts) (hf : ∀ t, passes t.kind = true → f t = false) :
    parse (satisfy f) ts = none := by
  cases ts with
  | nil => rfl
  | cons t ts => simp [hf t (before_cons.mp h)]

-- ---------------------------------------------------------------------------
-- Lists
-- ---------------------------------------------------------------------------

theorem parse_many_none (h : parse p ts = none) : parse (many p) ts = some ([], ts) := by
  change parse (manyWithin p ts.length) ts = _
  cases ts.length <;> simp [manyWithin, h]

theorem length_le_flatMap {words : β → List Word} {items : List β} (h : ∀ x ∈ items, words x ≠ []) :
    items.length ≤ (items.flatMap words).length := by
  induction items with
  | nil => simp
  | cons x items ih =>
    have hx : 0 < (words x).length := List.length_pos_iff.mpr (h x (by simp))
    have hrest : items.length ≤ (items.flatMap words).length := ih fun y hy => h y (by simp [hy])
    simp only [List.flatMap_cons, List.length_append, List.length_cons]
    omega

section

variable (words : β → List Word) (read : β → α) {items : List β} (Follow : List Token → Prop)

/-- The words of an item are read when what follows them is what follows an item. -/
theorem parse_manyWithin
    (hread : ∀ x ∈ items, ∀ after, Follow after → parse p (tokens (words x) ++ after) = some (read x, after))
    (hstart : ∀ x ∈ items, ∀ after, Follow after → Follow (tokens (words x) ++ after))
    (hrest : Follow rest) (hstop : parse p rest = none) {bound : Nat} (hbound : items.length ≤ bound) :
    parse (manyWithin p bound) (tokens (items.flatMap words) ++ rest) = some (items.map read, rest) := by
  have hfollow : ∀ items' : List β, (∀ x ∈ items', x ∈ items) → Follow (tokens (items'.flatMap words) ++ rest) := by
    intro items' hsub
    induction items' with
    | nil => exact hrest
    | cons x items' ih =>
      have := hstart x (hsub x (by simp)) _ (ih fun y hy => hsub y (by simp [hy]))
      simpa using this
  induction items generalizing bound with
  | nil =>
    cases bound with
    | zero => simp [manyWithin]
    | succ bound => simp [manyWithin, hstop]
  | cons x items ih =>
    cases bound with
    | zero => simp at hbound
    | succ bound =>
      have hx := hread x (by simp) _ (hfollow items fun y hy => by simp [hy])
      have hitems := ih (fun y hy => hread y (by simp [hy])) (fun y hy => hstart y (by simp [hy]))
        (Nat.le_of_succ_le_succ hbound) fun items' hsub => hfollow items' fun y hy => by simp [hsub y hy]
      simp [manyWithin, hx, hitems]

theorem parse_many
    (hread : ∀ x ∈ items, ∀ after, Follow after → parse p (tokens (words x) ++ after) = some (read x, after))
    (hstart : ∀ x ∈ items, ∀ after, Follow after → Follow (tokens (words x) ++ after))
    (hrest : Follow rest) (hstop : parse p rest = none) (hne : ∀ x ∈ items, words x ≠ []) :
    parse (many p) (tokens (items.flatMap words) ++ rest) = some (items.map read, rest) := by
  refine parse_manyWithin words read Follow hread hstart hrest hstop ?_
  have := length_le_flatMap hne
  simp only [List.length_append, tokens, List.length_map]
  omega

/-- Items that are read whatever follows them. -/
theorem parse_many_ended
    (hread : ∀ x ∈ items, ∀ after, parse p (tokens (words x) ++ after) = some (read x, after))
    (hstop : parse p rest = none) (hne : ∀ x ∈ items, words x ≠ []) :
    parse (many p) (tokens (items.flatMap words) ++ rest) = some (items.map read, rest) :=
  parse_many words read (fun _ => True) (fun x hx after _ => hread x hx after) (fun _ _ _ _ => trivial) trivial hstop hne

theorem parse_some1_ended (hitems : items ≠ [])
    (hread : ∀ x ∈ items, ∀ after, parse p (tokens (words x) ++ after) = some (read x, after))
    (hstop : parse p rest = none) (hne : ∀ x ∈ items, words x ≠ []) :
    parse (some1 p) (tokens (items.flatMap words) ++ rest) = some (items.map read, rest) := by
  cases items with
  | nil => exact absurd rfl hitems
  | cons x items =>
    have hx := hread x (by simp) (tokens (items.flatMap words) ++ rest)
    have hmore := parse_many_ended words read (fun y hy => hread y (List.mem_cons_of_mem x hy)) hstop
      fun y hy => hne y (List.mem_cons_of_mem x hy)
    simp [some1, hx, hmore]

/-- Items with a mark between them, each of which is read before the mark and before what follows the list. -/
theorem parse_sepBy1 (passes : TokenKind → Bool) {separator : TokenKind} (hitems : items ≠ [])
    (hread : ∀ x ∈ items, ∀ after, Before passes after → parse p (tokens (words x) ++ after) = some (read x, after))
    (hseparator : passes separator = true) (hrest : Before passes rest) (hstop : parse (token separator) rest = none) :
    parse (sepBy1 p (token separator)) (tokens (joined separator (items.map words)) ++ rest) =
      some (items.map read, rest) := by
  cases items with
  | nil => exact absurd rfl hitems
  | cons x items =>
    have hmore : parse (many (token separator *> p))
        (tokens (items.flatMap fun y => Word.mark separator :: words y) ++ rest) = some (items.map read, rest) := by
      refine parse_many (fun y => Word.mark separator :: words y) read (Before passes) (fun y hy after hafter => ?_)
        (fun y hy after hafter => ?_) hrest ?_ ?_
      · simp [hread y (by simp [hy]) after hafter]
      · simpa using hseparator
      · simp [hstop]
      · simp
    have hnext : Before passes (tokens (items.flatMap fun y => Word.mark separator :: words y) ++ rest) := by
      cases items with
      | nil => simpa using hrest
      | cons y items => simpa using hseparator
    simp [sepBy1, joined, List.flatMap_map, hread x (by simp) _ hnext, hmore]

end

theorem length_le_joined (separator : TokenKind) {item : List Word} {items : List (List Word)} (h : item ∈ items) :
    item.length ≤ (joined separator items).length := by
  cases items with
  | nil => simp at h
  | cons first items =>
    simp only [joined, List.length_append]
    cases h with
    | head => omega
    | tail _ h =>
      have hsub : (Word.mark separator :: item).Sublist (items.flatMap (Word.mark separator :: ·)) :=
        List.sublist_flatten_of_mem (List.mem_map_of_mem h)
      have := hsub.length_le
      simp only [List.length_cons] at this
      omega

-- ---------------------------------------------------------------------------
-- Spans
-- ---------------------------------------------------------------------------

/-- Printed words have no place, so what is read from them has none. -/
theorem spanBetween_tokens {ws : List Word} (hne : ws ≠ []) : spanBetween (tokens ws ++ rest) rest = .origin := by
  cases ws with
  | nil => exact absurd rfl hne
  | cons w ws =>
    have hindex : (tokens (w :: ws) ++ rest).length - rest.length - 1 = ws.length := by
      simp only [tokens, List.length_append, List.length_map, List.length_cons]
      omega
    obtain ⟨v, hv⟩ : ∃ v : Word, (tokens (w :: ws) ++ rest)[ws.length]? = some v.token := by
      rw [List.getElem?_append_left (by simp [tokens]), tokens, List.getElem?_map]
      exact ⟨(w :: ws)[ws.length], by simp⟩
    simp only [spanBetween, tokens_cons, List.cons_append]
    rw [tokens_cons, List.cons_append] at hindex hv
    rw [hindex, hv]
    rfl

theorem parse_spanned {ws : List Word} {a : α} (hne : ws ≠ []) (h : parse p (tokens ws ++ rest) = some (a, rest)) :
    parse (spanned p) (tokens ws ++ rest) = some ((a, .origin), rest) := by
  simp only [parse] at h
  simp only [parse, spanned, h, spanBetween_tokens hne]

theorem parse_spanned_none (h : parse p ts = none) : parse (spanned p) ts = none := by
  simp only [parse] at h
  simp only [parse, spanned, h]

end StructuredText.Parser
