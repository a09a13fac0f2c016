-- SUMMARY: Parsers read a source from its front: what they take lies after what was taken before.
import StructuredText.Proofs.Layout
import StructuredText.Proofs.Parsing

/-!
# The order of tokens

The tokens of a source cover parts of it one after the other, and a parser takes tokens from the front. So what a parser
makes of its tokens lies between two bytes of the source, the one up to which everything was taken before, and the one
at which its last token ends. The rules of a judgement say this for each form of a parser.
-/

namespace StructuredText

open Lexer (byteSize scan)

-- ---------------------------------------------------------------------------
-- Places in a source
-- ---------------------------------------------------------------------------

/-- A character of the source starts at the byte, or the source ends there. -/
def IsBoundary (source : String) (n : Nat) : Prop :=
  ∃ before after, source.toList = before ++ after ∧ n = byteSize before

/-- The span covers a part of the source that is not empty, from the start of a character to the start of another. -/
structure Span.Covers (source : String) (file : FileId) (s : Span) : Prop where
  file : s.file = file
  start : IsBoundary source s.start
  stop : IsBoundary source s.stop
  nonempty : s.start < s.stop

/-- The span covers a part of the source that starts after the first byte and ends with the second. -/
structure Span.Reaches (source : String) (file : FileId) (lo hi : Nat) (s : Span) : Prop where
  covers : s.Covers source file
  start : lo ≤ s.start
  stop : s.stop = hi

variable {source : String} {file : FileId} {lo lo' mid hi : Nat}

theorem Span.Covers.join {a b : Span} (ha : a.Covers source file) (hb : b.Covers source file) (h : a.start < b.stop) :
    (Span.join a b).Covers source file := ⟨ha.file, ha.start, hb.stop, h⟩

theorem Span.Reaches.lt {s : Span} (h : s.Reaches source file lo hi) : lo < hi := by
  have := h.covers.nonempty
  have := h.start
  have := h.stop
  omega

/-- The tokens cover parts of the source one after the other, from the byte on. -/
def Ordered (source : String) (file : FileId) (lo : Nat) : List Token → Prop
  | [] => True
  | t :: ts => t.span.Covers source file ∧ lo ≤ t.span.start ∧ Ordered source file t.span.stop ts

/-- The byte at which the last one of the tokens ends. -/
def reach (lo : Nat) : List Token → Nat
  | [] => lo
  | t :: ts => reach t.span.stop ts

theorem reach_append (ts ts' : List Token) : reach lo (ts ++ ts') = reach (reach lo ts) ts' := by
  induction ts generalizing lo with
  | nil => rfl
  | cons t ts ih => exact ih

theorem reach_concat (ts : List Token) (t : Token) : reach lo (ts ++ [t]) = t.span.stop := reach_append ts [t]

namespace Ordered

variable {t : Token} {ts ts' : List Token}

theorem mono (h : Ordered source file lo' ts) (hle : lo ≤ lo') : Ordered source file lo ts := by
  cases ts with
  | nil => trivial
  | cons t ts => exact ⟨h.1, hle.trans h.2.1, h.2.2⟩

theorem append : Ordered source file lo (ts ++ ts') ↔
    Ordered source file lo ts ∧ Ordered source file (reach lo ts) ts' := by
  induction ts generalizing lo with
  | nil => exact (and_iff_right trivial).symm
  | cons t ts ih =>
    rw [List.cons_append, Ordered, ih, Ordered, reach, and_assoc, and_assoc]

theorem le_reach (h : Ordered source file lo ts) : lo ≤ reach lo ts := by
  induction ts generalizing lo with
  | nil => exact Nat.le_refl lo
  | cons t ts ih =>
    obtain ⟨hcovers, hstart, h⟩ := h
    exact (hstart.trans hcovers.nonempty.le).trans (ih h)

theorem covers (h : Ordered source file lo ts) : ∀ t ∈ ts, t.span.Covers source file := by
  induction ts generalizing lo with
  | nil => nofun
  | cons t ts ih => exact List.forall_mem_cons.mpr ⟨h.1, ih h.2.2⟩

end Ordered

theorem ordered_scan (offset : Nat) (cs : List Char) : ∀ before, source.toList = before ++ cs →
    offset = byteSize before → Ordered source file offset (scan file offset cs).1 := by
  have split_at {before : List Char} {c : Char} {rest : List Char} (more : Nat)
      (hwhole : source.toList = before ++ c :: rest) :
      source.toList = (before ++ c :: rest.take more) ++ rest.drop more := by
    rw [hwhole, List.append_assoc, List.cons_append, List.take_append_drop]
  fun_induction scan file offset cs with
  | case1 => exact fun _ _ _ => trivial
  | case2 offset c rest more text stop tokens diagnostics hscan hlexeme ih
  | case4 offset c rest more text stop span tokens diagnostics hscan hlexeme ih =>
    intro before hwhole hoffset
    have hstop : stop = byteSize (before ++ text) := by rw [Lexer.byteSize_append, ← hoffset]
    rw [hscan] at ih
    exact (ih _ (split_at more hwhole) hstop).mono (Nat.le_add_right offset _)
  | case3 offset c rest more text stop span tokens diagnostics hscan kind hlexeme ih =>
    intro before hwhole hoffset
    have hstop : stop = byteSize (before ++ text) := by rw [Lexer.byteSize_append, ← hoffset]
    have hpos : 0 < byteSize text := Lexer.byteSize_pos (List.cons_ne_nil _ _)
    have hcovers : span.Covers source file :=
      ⟨rfl, ⟨before, _, hwhole, hoffset⟩, ⟨_, _, split_at more hwhole, hstop⟩, Nat.lt_add_of_pos_right hpos⟩
    rw [hscan] at ih
    exact ⟨hcovers, Nat.le_refl _, ih _ (split_at more hwhole) hstop⟩

/-- The tokens of a source are in order. -/
theorem ordered_tokenize (source : String) (file : FileId) : Ordered source file 0 (tokenize source file).1 :=
  ordered_scan 0 source.toList [] rfl rfl

-- ---------------------------------------------------------------------------
-- Chains
-- ---------------------------------------------------------------------------

/-- The items lie one after the other between two bytes. -/
inductive Chained {α : Type} (Q : Nat → Nat → α → Prop) : (lo hi : Nat) → List α → Prop
  | nil {lo hi : Nat} (h : lo ≤ hi) : Chained Q lo hi []
  | cons {lo start mid hi : Nat} {a as} (hlo : lo ≤ start) (ha : Q start mid a) (has : Chained Q mid hi as) :
    Chained Q lo hi (a :: as)

namespace Chained

variable {α β : Type} {Q : Nat → Nat → α → Prop} {R : Nat → Nat → β → Prop} {as : List α}

theorem of_le (h : Chained Q lo' hi as) (hlo : lo ≤ lo') : Chained Q lo hi as := by
  cases h with
  | nil h => exact .nil (hlo.trans h)
  | cons hlo' ha has => exact .cons (hlo.trans hlo') ha has

theorem le (h : Chained Q lo hi as) (hQ : ∀ lo hi a, Q lo hi a → lo ≤ hi) : lo ≤ hi := by
  induction h with
  | nil h => exact h
  | cons hlo ha _ ih => exact hlo.trans ((hQ _ _ _ ha).trans ih)

theorem lt (h : Chained Q lo hi as) (hQ : ∀ lo hi a, Q lo hi a → lo < hi) (hne : as ≠ []) : lo < hi := by
  cases h with
  | nil => exact absurd rfl hne
  | cons hlo ha has => exact (hlo.trans_lt (hQ _ _ _ ha)).trans_le (has.le fun _ _ _ h => (hQ _ _ _ h).le)

theorem mono {Q' : Nat → Nat → α → Prop} (h : Chained Q lo hi as) (hQ : ∀ lo hi a, Q lo hi a → Q' lo hi a) :
    Chained Q' lo hi as := by
  induction h with
  | nil h => exact .nil h
  | cons hlo ha _ ih => exact .cons hlo (hQ _ _ _ ha) ih

/-- An item may have had something in front of it. -/
theorem of_later (h : Chained (fun lo hi a => ∃ mid, lo ≤ mid ∧ Q mid hi a) lo hi as) : Chained Q lo hi as := by
  induction h with
  | nil h => exact .nil h
  | cons hlo ha _ ih =>
    obtain ⟨mid, hmid, ha⟩ := ha
    exact .cons (hlo.trans hmid) ha ih

theorem filterMap {f : α → Option β} (h : Chained Q lo hi as) (hQ : ∀ lo hi a, Q lo hi a → lo ≤ hi)
    (hsome : ∀ lo hi a b, Q lo hi a → f a = some b → R lo hi b) : Chained R lo hi (as.filterMap f) := by
  induction h with
  | nil h => exact .nil h
  | @cons lo start mid hi a as hlo ha has ih =>
    rw [List.filterMap_cons]
    cases hf : f a with
    | none => exact ih.of_le (hlo.trans (hQ _ _ _ ha))
    | some b => exact .cons hlo (hsome _ _ _ _ ha hf) ih

theorem exists_of_mem (h : Chained Q lo hi as) : ∀ a ∈ as, ∃ lo hi, Q lo hi a := by
  induction h with
  | nil => nofun
  | cons _ ha _ ih => exact List.forall_mem_cons.mpr ⟨⟨_, _, ha⟩, ih⟩

end Chained

-- ---------------------------------------------------------------------------
-- Parsers
-- ---------------------------------------------------------------------------

namespace Parser

variable {α β : Type} {p : Parser α} {Q R : Nat → α → Prop} {S : Nat → β → Prop}

/-- The span of the tokens that are taken is from the first to the last one. -/
theorem spanBetween_append {first last : Token} {taken rest : List Token} (hfirst : taken.head? = some first)
    (hlast : taken.getLast? = some last) : spanBetween (taken ++ rest) rest = .join first.span last.span := by
  obtain ⟨taken, rfl⟩ := List.head?_eq_some_iff.mp hfirst
  have hindex : (first :: taken ++ rest).length - rest.length - 1 = (first :: taken).length - 1 := by
    simp only [List.length_append]
    omega
  have hget : (first :: taken ++ rest)[(first :: taken).length - 1]? = some last := by
    rw [List.getElem?_append_left (by simp), ← List.getLast?_eq_getElem?, hlast]
  simp only [spanBetween, List.cons_append] at hindex hget ⊢
  rw [hindex, hget]

theorem spanBetween_reaches {first : Token} {more rest : List Token}
    (hts : Ordered source file lo (first :: more ++ rest)) :
    (spanBetween (first :: more ++ rest) rest).Reaches source file lo (reach lo (first :: more)) ∧
      (spanBetween (first :: more ++ rest) rest).start = first.span.start := by
  obtain ⟨htaken, -⟩ := Ordered.append.mp hts
  obtain ⟨front, last, hlast⟩ := (first :: more).eq_nil_or_concat.resolve_left nofun
  have hreach : reach lo (first :: more) = last.span.stop := by rw [hlast, List.concat_eq_append, reach_concat]
  have hcovers : last.span.Covers source file := htaken.covers last (by simp [hlast])
  have hle : first.span.stop ≤ reach lo (first :: more) := htaken.2.2.le_reach
  have hspan : spanBetween (first :: more ++ rest) rest = .join first.span last.span :=
    spanBetween_append rfl (by simp [hlast])
  rw [hreach] at hle
  rw [hspan, hreach]
  exact ⟨⟨htaken.1.join hcovers (htaken.1.nonempty.trans_le hle), htaken.2.1, rfl⟩, rfl⟩

/-- From tokens that lie from a byte on, the parser takes some at the front. The property holds of what it makes of them
and of the byte at which they end. -/
def Reads (source : String) (file : FileId) (lo : Nat) (p : Parser α) (Q : Nat → α → Prop) : Prop :=
  ∀ ts a rest, Ordered source file lo ts → parse p ts = some (a, rest) →
    ∃ taken, ts = taken ++ rest ∧ Q (reach lo taken) a

namespace Reads

theorem mono (h : Reads source file lo p Q) (hQ : ∀ hi a, lo ≤ hi → Q hi a → R hi a) : Reads source file lo p R := by
  intro ts a rest hts hparse
  obtain ⟨taken, rfl, ha⟩ := h ts a rest hts hparse
  exact ⟨taken, rfl, hQ _ a (Ordered.append.mp hts).1.le_reach ha⟩

theorem pure {a : α} (h : Q lo a) : Reads source file lo (Pure.pure a) Q := by
  intro ts b rest _ hparse
  cases hparse
  exact ⟨[], rfl, h⟩

theorem fail : Reads source file lo (Parser.fail : Parser α) Q := nofun

theorem failExpecting {e : Expected} : Reads source file lo (Parser.failExpecting e : Parser α) Q := nofun

theorem bind {k : α → Parser β} (hp : Reads source file lo p Q)
    (hk : ∀ mid a, lo ≤ mid → Q mid a → Reads source file mid (k a) S) : Reads source file lo (p >>= k) S := by
  intro ts b rest hts hparse
  rw [parse_bind] at hparse
  obtain ⟨⟨a, middle⟩, hfirst, hsecond⟩ := Option.bind_eq_some_iff.mp hparse
  obtain ⟨taken, rfl, ha⟩ := hp ts a middle hts hfirst
  obtain ⟨htaken, hmiddle⟩ := Ordered.append.mp hts
  obtain ⟨taken', rfl, hb⟩ := hk _ a htaken.le_reach ha middle b rest hmiddle hsecond
  exact ⟨taken ++ taken', (List.append_assoc ..).symm, by rwa [reach_append]⟩

/-- What the first part makes of its tokens does not matter. -/
theorem skip {k : α → Parser β} (hp : Reads source file lo p Q)
    (hk : ∀ mid a, lo ≤ mid → Reads source file mid (k a) S) : Reads source file lo (p >>= k) S :=
  hp.bind fun mid a hle _ => hk mid a hle

theorem map {f : α → β} (hp : Reads source file lo p fun hi a => S hi (f a)) : Reads source file lo (f <$> p) S :=
  hp.bind (k := fun a => Pure.pure (f a)) fun _ _ _ ha => .pure ha

theorem orElse {q : Parser α} (hp : Reads source file lo p Q) (hq : Reads source file lo q Q) :
    Reads source file lo (p <|> q) Q := by
  intro ts a rest hts hparse
  rw [parse_orElse] at hparse
  obtain hparse | ⟨-, hparse⟩ := Option.or_eq_some_iff.mp hparse
  · exact hp ts a rest hts hparse
  · exact hq ts a rest hts hparse

theorem satisfy {f : Token → Bool} :
    Reads source file lo (Parser.satisfy f) fun hi t => t.span.Reaches source file lo hi := by
  intro ts t rest hts hparse
  cases ts with
  | nil => cases hparse
  | cons t' ts =>
    rw [parse_satisfy_cons] at hparse
    split at hparse
    · cases hparse
      exact ⟨[t], rfl, hts.1, hts.2.1, rfl⟩
    · cases hparse

theorem token {k : TokenKind} :
    Reads source file lo (Parser.token k) fun hi t => t.span.Reaches source file lo hi := .satisfy

theorem optional {T : Nat → Option α → Prop} (hp : Reads source file lo p fun hi a => T hi (some a))
    (hnone : T lo none) : Reads source file lo (Parser.optional p) T := .orElse (.map hp) (.pure hnone)

theorem bounded {q : Nat → Parser α} (hq : ∀ n, Reads source file lo (q n) Q) :
    Reads source file lo (Parser.bounded q) Q := fun ts => hq (ts.length + 1) ts

section

variable {P : Nat → Nat → α → Prop} (hp : ∀ lo, Reads source file lo p (P lo))

include hp

theorem many : Reads source file lo (Parser.many p) fun hi as => Chained P lo hi as := by
  have hwithin (bound : Nat) : Reads source file lo (manyWithin p bound) fun hi as => Chained P lo hi as := by
    induction bound generalizing lo with
    | zero => exact .pure (.nil (Nat.le_refl lo))
    | succ bound ih =>
      refine .orElse ((hp lo).bind fun mid a hle ha => ih.bind fun hi as hle' has => .pure ?_)
        (.pure (.nil (Nat.le_refl lo)))
      exact .cons (Nat.le_refl lo) ha has
  exact fun ts => hwithin ts.length ts

theorem some1 : Reads source file lo (Parser.some1 p) fun hi as => as ≠ [] ∧ Chained P lo hi as :=
  (hp lo).bind fun _ _ _ ha => (many hp).bind fun _ _ _ has => .pure ⟨nofun, .cons (Nat.le_refl lo) ha has⟩

theorem sepBy1 {separator : Parser β} {T : Nat → Nat → β → Prop}
    (hseparator : ∀ lo, Reads source file lo separator (T lo)) :
    Reads source file lo (Parser.sepBy1 p separator) fun hi as => as ≠ [] ∧ Chained P lo hi as := by
  have hmore (lo : Nat) :
      Reads source file lo (separator *> p) fun hi a => ∃ mid, lo ≤ mid ∧ P mid hi a :=
    (hseparator lo).skip (k := fun _ => p) fun mid _ hle => (hp mid).mono fun hi a _ ha => ⟨mid, hle, ha⟩
  refine (hp lo).bind fun _ _ _ ha => (many hmore).bind fun _ _ _ has => .pure ⟨nofun, ?_⟩
  exact .cons (Nat.le_refl lo) ha has.of_later

theorem sepBy {separator : Parser β} {T : Nat → Nat → β → Prop}
    (hseparator : ∀ lo, Reads source file lo separator (T lo)) :
    Reads source file lo (Parser.sepBy p separator) fun hi as => Chained P lo hi as :=
  .orElse ((sepBy1 hp hseparator).mono fun _ _ _ h => h.2) (.pure (.nil (Nat.le_refl lo)))

/-- What takes a token lies in the span of its tokens. -/
theorem spanned (hpos : ∀ lo hi a, P lo hi a → lo < hi) : Reads source file lo (Parser.spanned p) fun hi found =>
    found.2.Reaches source file lo hi ∧ P found.2.start hi found.1 := by
  intro ts found rest hts hparse
  simp only [parse, Parser.spanned] at hparse
  cases hresult : (p ts).result with
  | none => simp [hresult] at hparse
  | some found' =>
    obtain ⟨a, rest'⟩ := found'
    simp only [hresult] at hparse
    cases hparse
    cases ts with
    | nil =>
      obtain ⟨taken, htaken, ha⟩ := hp lo [] a rest hts hresult
      obtain ⟨rfl, -⟩ := List.append_eq_nil_iff.mp htaken.symm
      exact absurd (hpos _ _ _ ha) (Nat.lt_irrefl lo)
    | cons first ts =>
      -- the parser may as well have started at its first token
      have hfirst : Ordered source file first.span.start (first :: ts) := ⟨hts.1, Nat.le_refl _, hts.2.2⟩
      obtain ⟨taken, htaken, ha⟩ := hp first.span.start (first :: ts) a rest hfirst hresult
      cases taken with
      | nil => exact absurd (hpos _ _ _ ha) (Nat.lt_irrefl _)
      | cons first' more =>
        obtain rfl : first = first' := (List.cons.inj htaken).1
        rw [htaken] at hts ⊢
        obtain ⟨hreaches, hstart⟩ := spanBetween_reaches hts
        exact ⟨first :: more, rfl, hreaches, hstart.symm ▸ ha⟩

end

theorem parseAll {ts : List Token} {a : α} (hp : Reads source file lo p Q) (hts : Ordered source file lo ts)
    (h : Parser.parseAll p ts = .ok a) : ∃ hi, Q hi a := by
  unfold Parser.parseAll at h
  dsimp only at h
  split at h
  · next found hresult =>
    cases h
    obtain ⟨taken, -, ha⟩ := hp ts a [] hts hresult
    exact ⟨_, ha⟩
  · cases h
  · cases h

end Reads

/-- The parser takes tokens at the front, whatever it makes of them. -/
def Takes (source : String) (file : FileId) (p : Parser α) : Prop := ∀ lo, Reads source file lo p fun _ _ => True

namespace Takes

theorem of_reads {P : Nat → Nat → α → Prop} (h : ∀ lo, Reads source file lo p (P lo)) : Takes source file p :=
  fun lo => (h lo).mono fun _ _ _ _ => trivial

theorem pure {a : α} : Takes source file (Pure.pure a) := fun _ => .pure trivial

theorem fail : Takes source file (Parser.fail : Parser α) := fun _ => .fail

theorem failExpecting {e : Expected} : Takes source file (Parser.failExpecting e : Parser α) := fun _ => .failExpecting

theorem token {k : TokenKind} : Takes source file (Parser.token k) := of_reads fun _ => .token

theorem bind {k : α → Parser β} (hp : Takes source file p) (hk : ∀ a, Takes source file (k a)) :
    Takes source file (p >>= k) := fun lo => (hp lo).skip fun mid a _ => hk a mid

theorem map {f : α → β} (hp : Takes source file p) : Takes source file (f <$> p) := fun lo => .map (hp lo)

theorem orElse {q : Parser α} (hp : Takes source file p) (hq : Takes source file q) : Takes source file (p <|> q) :=
  fun lo => .orElse (hp lo) (hq lo)

theorem optional (hp : Takes source file p) : Takes source file (Parser.optional p) :=
  fun lo => .optional (hp lo) trivial

theorem bounded {q : Nat → Parser α} (hq : ∀ n, Takes source file (q n)) : Takes source file (Parser.bounded q) :=
  fun lo => .bounded fun n => hq n lo

theorem many (hp : Takes source file p) : Takes source file (Parser.many p) := of_reads fun _ => .many hp

theorem some1 (hp : Takes source file p) : Takes source file (Parser.some1 p) := of_reads fun _ => .some1 hp

theorem sepBy1 {separator : Parser β} (hp : Takes source file p) (hseparator : Takes source file separator) :
    Takes source file (Parser.sepBy1 p separator) := of_reads fun _ => .sepBy1 hp hseparator

end Takes

end Parser

end StructuredText
