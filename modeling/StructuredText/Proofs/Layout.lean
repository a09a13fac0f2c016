-- SUMMARY: How tokens and diagnostics lie in a source: in order, apart, with white space and comments around them.
import Mathlib.Data.List.Infix
import Mathlib.Data.List.TakeWhile
import Mathlib.Tactic.SplitIfs
import StructuredText.Token.Lexer

/-!
# Layout of tokens

The tokens of a source and the diagnostics for text that is no token are its pieces. In the order of their places they
lie in the source without overlap, and what is between them is white space and comments. So nothing of a source is lost
when it is split into tokens.
-/

namespace StructuredText.Lexer

-- ---------------------------------------------------------------------------
-- White space and comments
-- ---------------------------------------------------------------------------

/-- The mark at the end of a block comment. -/
def closing : List Char := ['*', ')']

def isLineEnd (c : Char) : Bool := c = '\r' || c = '\n'

/-- The text before what follows is white space and comments. A block comment ends at the first closing mark in it, and
the comment of a line ends with the line. -/
inductive Skipped : (text follows : List Char) → Prop
  | nil {follows} : Skipped [] follows
  | blank {c text follows} (hc : isBlank c = true) (h : Skipped text follows) : Skipped (c :: text) follows
  | block {body text follows} (hbody : ¬ closing <:+: body ++ ['*']) (h : Skipped text follows) :
    Skipped ('(' :: '*' :: (body ++ closing ++ text)) follows
  | line {body text follows} (hbody : ∀ c ∈ body, isLineEnd c = false)
    (hend : ∀ c ∈ (text ++ follows).head?, isLineEnd c = true) (h : Skipped text follows) :
    Skipped ('/' :: '/' :: (body ++ text)) follows

theorem Skipped.blanks {blanks text follows : List Char} (hblanks : ∀ c ∈ blanks, isBlank c = true)
    (h : Skipped text follows) : Skipped (blanks ++ text) follows := by
  induction blanks with
  | nil => exact h
  | cons c blanks ih =>
    rw [List.forall_mem_cons] at hblanks
    exact .blank hblanks.1 (ih hblanks.2)

/-- Up to the closing mark that is found there is no other one. -/
theorem take_of_commentRest? {cs : List Char} {n : Nat} (h : commentRest? cs = some n) :
    ∃ body, cs.take n = body ++ closing ∧ ¬ closing <:+: body ++ ['*'] := by
  induction cs generalizing n with
  | nil => cases h
  | cons c rest ih =>
    rw [commentRest?] at h
    split at h
    · next hclosing =>
      obtain ⟨rfl, hhead⟩ : c = '*' ∧ rest.head? = some ')' := by simpa using hclosing
      obtain ⟨rest, rfl⟩ := List.head?_eq_some_iff.mp hhead
      cases h
      exact ⟨[], rfl, by decide⟩
    · next hclosing =>
      obtain ⟨m, hm, rfl⟩ := Option.map_eq_some_iff.mp h
      obtain ⟨body, htake, hbody⟩ := ih hm
      refine ⟨c :: body, by simp [htake], ?_⟩
      rw [List.cons_append, List.infix_cons_iff]
      rintro (hstart | hinside)
      · obtain ⟨rfl, hnext⟩ := List.cons_prefix_cons.mp hstart
        -- The star is followed by what the body starts with, or by the star of the closing mark.
        cases body with
        | nil => exact absurd hnext (by decide)
        | cons b body =>
          obtain ⟨rfl, -⟩ := List.cons_prefix_cons.mp hnext
          have hrest : rest.head? = some ')' := by
            cases rest with
            | nil => simp at htake
            | cons r rest => cases m <;> simp_all
          simp [hrest] at hclosing
      · exact hbody hinside

theorem not_infix_of_commentRest? {cs : List Char} (h : commentRest? cs = none) : ¬ closing <:+: cs := by
  induction cs with
  | nil => decide
  | cons c rest ih =>
    rw [commentRest?] at h
    split at h
    · cases h
    · next hclosing =>
      rw [List.infix_cons_iff]
      rintro (hstart | hinside)
      · obtain ⟨rfl, hnext⟩ := List.cons_prefix_cons.mp hstart
        obtain ⟨after, rfl⟩ := hnext
        simp at hclosing
      · exact ih (Option.map_eq_none_iff.mp h) hinside

-- ---------------------------------------------------------------------------
-- Lexemes
-- ---------------------------------------------------------------------------

theorem tagged?_not_skipped {tag : String} {cs : List Char} {found : Lexeme × Nat} (h : tagged? tag cs = some found) :
    found.1 ≠ .skipped := by
  have grouped {kind : TokenKind} {separators : List Char} {fraction : Bool}
      (h : (if (cs.head?.map Char.isDigit).getD false then
        if (digitGroups separators cs).2 then
          some (Lexeme.token kind, (digitGroups separators cs).1 +
            if fraction then fractionLength (cs.drop (digitGroups separators cs).1) else 0)
        else some (.invalid, (digitGroups separators cs).1)
      else none) = some found) : found.1 ≠ .skipped := by
    split at h
    · split at h <;> cases h <;> nofun
    · cases h
  unfold tagged? at h
  dsimp only at h
  split at h
  · split at h
    · split at h <;> cases h
      nofun
    · cases h
  · split at h
    · exact grouped h
    · split at h
      · exact grouped h
      · split at h
        · exact grouped h
        · cases h

theorem word_not_skipped (cs : List Char) : (word cs).1 ≠ .skipped := by
  unfold word
  dsimp only
  split
  · split
    · next found size htagged =>
      have hfound : (found, size).1 ≠ .skipped := tagged?_not_skipped htagged
      exact hfound
    · split
      · split <;> simp
      · simp
  · split
    · split <;> simp
    · simp

theorem number_not_skipped (cs : List Char) : (number cs).1 ≠ .skipped := by
  unfold number
  dsimp only
  split <;> (try split) <;> nofun

theorem addressRest_not_skipped (cs : List Char) : (addressRest cs).1 ≠ .skipped := by
  unfold addressRest
  split
  · dsimp only
    split_ifs <;> nofun
  · nofun

theorem symbol_not_skipped (cs : List Char) : (symbol cs).1 ≠ .skipped := by
  unfold symbol
  dsimp only
  split <;> nofun

/-- A run of characters is what is taken for it. -/
theorem take_runLength (p : Char → Bool) (cs : List Char) : cs.take (runLength p cs) = cs.takeWhile p :=
  (List.prefix_iff_eq_take.mp (List.takeWhile_prefix p)).symm

theorem drop_runLength (p : Char → Bool) (cs : List Char) : cs.drop (runLength p cs) = cs.dropWhile p := by
  have h : cs.takeWhile p ++ cs.drop (runLength p cs) = cs.takeWhile p ++ cs.dropWhile p := by
    rw [← take_runLength, List.take_append_drop, take_runLength, List.takeWhile_append_dropWhile]
  exact List.append_cancel_left h

theorem not_of_mem_head?_dropWhile {p : Char → Bool} {cs : List Char} {c : Char} (h : c ∈ (cs.dropWhile p).head?) :
    p c = false := by
  have hnot := List.head?_dropWhile_not p cs
  rw [Option.mem_def] at h
  rw [h] at hnot
  exact hnot

/-- What is skipped is white space or a comment, whatever white space and comments come after it. -/
theorem skipped_of_lexeme {c : Char} {rest text follows : List Char} {more : Nat} (h : lexeme c rest = (.skipped, more))
    (htext : Skipped text follows) (hrest : rest.drop more = text ++ follows) :
    Skipped (c :: rest.take more ++ text) follows := by
  unfold lexeme at h
  dsimp only at h
  split at h
  · next hblank =>
    cases h
    rw [take_runLength]
    exact .blank hblank (.blanks (fun d hd => List.mem_takeWhile_imp hd) htext)
  split at h
  · exact absurd (congrArg Prod.fst h) (word_not_skipped _)
  split at h
  · exact absurd (congrArg Prod.fst h) (number_not_skipped _)
  split at h
  · split at h <;> cases h
  split at h
  · exact absurd (congrArg Prod.fst h) (addressRest_not_skipped _)
  split at h
  · next hopening =>
    obtain ⟨rfl, hhead⟩ : c = '(' ∧ rest.head? = some '*' := by simpa using hopening
    obtain ⟨rest, rfl⟩ := List.head?_eq_some_iff.mp hhead
    split at h
    · next n hclosed =>
      cases h
      obtain ⟨body, htake, hbody⟩ := take_of_commentRest? hclosed
      rw [List.drop_succ_cons, List.drop_zero] at htake
      rw [Nat.add_comm, List.take_succ_cons, htake]
      exact .block hbody htext
    · cases h
  split at h
  · next hopening =>
    obtain ⟨rfl, hhead⟩ : c = '/' ∧ rest.head? = some '/' := by simpa using hopening
    obtain ⟨rest, rfl⟩ := List.head?_eq_some_iff.mp hhead
    cases h
    have hline : (fun c => decide (c ≠ '\r') && decide (c ≠ '\n')) = fun c => !isLineEnd c := by
      funext c
      simp [isLineEnd]
    have hfirst : runLength (fun c => !isLineEnd c) ('/' :: rest) = runLength (fun c => !isLineEnd c) rest + 1 := rfl
    rw [hline, hfirst, List.drop_succ_cons, drop_runLength] at hrest
    rw [hline, hfirst, List.take_succ_cons, take_runLength]
    refine .line (fun d hd => ?_) (fun d hd => ?_) htext
    · simpa using List.mem_takeWhile_imp hd
    · rw [← hrest] at hd
      simpa using not_of_mem_head?_dropWhile hd
  split at h
  · cases h
  · exact absurd (congrArg Prod.fst h) (symbol_not_skipped _)

/-- A piece starts neither with white space nor with the comment of a line, and if it starts with the mark of a block
comment, the comment is not closed and nothing comes after the piece. -/
structure Starts (what : Lexeme) (inside follows : List Char) : Prop where
  notBlank : ∀ c ∈ inside.head?, isBlank c = false
  notLine : ¬ ['/', '/'] <+: inside ++ follows
  unclosed : ['(', '*'] <+: inside ++ follows → what = .invalid ∧ follows = [] ∧ ¬ closing <:+: inside.drop 2

theorem starts_of_lexeme {c : Char} {rest : List Char} {what : Lexeme} {more : Nat} (h : lexeme c rest = (what, more))
    (hwhat : what ≠ .skipped) : Starts what (c :: rest.take more) (rest.drop more) := by
  have hwhole : c :: rest.take more ++ rest.drop more = c :: rest := by rw [List.cons_append, List.take_append_drop]
  refine ⟨?_, ?_, ?_⟩
  · rintro d ⟨⟩
    by_contra hblank
    rw [lexeme, if_pos (by simpa using hblank)] at h
    exact hwhat (congrArg Prod.fst h).symm
  · rw [hwhole, List.cons_prefix_cons]
    rintro ⟨rfl, after, rfl⟩
    exact hwhat (congrArg Prod.fst h).symm
  · rw [hwhole, List.cons_prefix_cons]
    rintro ⟨rfl, after, rfl⟩
    rw [List.singleton_append, lexeme, if_neg (by decide), if_neg (by decide), if_neg (by decide), if_neg (by decide),
      if_neg (by decide), if_pos (by simp), List.drop_one, List.tail_cons] at h
    cases hrest : commentRest? after with
    | some n =>
      rw [hrest] at h
      exact absurd (congrArg Prod.fst h).symm hwhat
    | none =>
      rw [hrest] at h
      cases h
      refine ⟨rfl, by simp, ?_⟩
      simpa using not_infix_of_commentRest? hrest

-- ---------------------------------------------------------------------------
-- Pieces
-- ---------------------------------------------------------------------------

/-- A token or the diagnostic for a text that is none. -/
abbrev Piece := Token ⊕ Diagnostic

namespace Piece

def span : Piece → Span
  | .inl t => t.span
  | .inr d => d.primary.span

/-- What the lexer has taken the text of the piece for. -/
def lexeme : Piece → Lexeme
  | .inl t => .token t.kind
  | .inr _ => .invalid

end Piece

/-- The tokens and the diagnostics of a source by their places. -/
def pieces (r : List Token × List Diagnostic) : List Piece :=
  (r.1.map .inl).merge (r.2.map .inr) fun p q => p.span.start ≤ q.span.start

@[simp] theorem byteSize_nil : byteSize [] = 0 := rfl

@[simp] theorem byteSize_append (cs ds : List Char) : byteSize (cs ++ ds) = byteSize cs + byteSize ds := by
  have hfold (n : Nat) : ds.foldl (fun n c => n + c.utf8Size) n = n + ds.foldl (fun n c => n + c.utf8Size) 0 := by
    induction ds generalizing n with
    | nil => rfl
    | cons d ds ih => rw [List.foldl_cons, List.foldl_cons, ih, ih (0 + d.utf8Size)]; omega
  rw [byteSize, List.foldl_append, hfold]
  rfl

theorem byteSize_pos {cs : List Char} (h : cs ≠ []) : 0 < byteSize cs := by
  obtain ⟨c, cs, rfl⟩ := List.exists_cons_of_ne_nil h
  have hsize : byteSize (c :: cs) = byteSize [c] + byteSize cs := byteSize_append [c] cs
  have hfirst : byteSize [c] = c.utf8Size := Nat.zero_add _
  have := c.utf8Size_pos
  omega

/-- The pieces lie in the text that starts at a byte offset. Before each piece and after the last one there is white space
or comments, and each piece covers a text, which is the text of a token. -/
inductive Laid (file : FileId) : (offset : Nat) → (text : List Char) → List Piece → Prop
  | done {offset gap} (hgap : Skipped gap []) : Laid file offset gap []
  | piece {offset gap inside follows p more} (hgap : Skipped gap (inside ++ follows)) (hinside : inside ≠ [])
    (hspan : p.span = ⟨offset + byteSize gap, offset + byteSize (gap ++ inside), file⟩)
    (htext : ∀ t, p = .inl t → t.text = String.ofList inside) (hstarts : Starts p.lexeme inside follows)
    (h : Laid file (offset + byteSize (gap ++ inside)) follows more) :
    Laid file offset (gap ++ (inside ++ follows)) (p :: more)

variable {file : FileId} {offset : Nat} {text follows : List Char} {ps : List Piece}

theorem Laid.le_start (h : Laid file offset text ps) : ∀ p ∈ ps, offset ≤ p.span.start := by
  induction h with
  | done => nofun
  | piece _ _ hspan _ _ _ ih =>
    rw [List.forall_mem_cons]
    refine ⟨by simp [hspan], fun q hq => ?_⟩
    have := ih q hq
    omega

/-- The pieces do not overlap. -/
theorem Laid.apart (h : Laid file offset text ps) : ps.Pairwise fun p q => p.span.stop ≤ q.span.start := by
  induction h with
  | done => exact .nil
  | piece _ _ hspan _ _ h ih =>
    refine .cons (fun q hq => ?_) ih
    rw [hspan]
    exact h.le_start q hq

/-- A piece covers a part of the text, which is the text of a token. It starts with what is no white space and no comment,
unless it is a diagnostic for a comment that is not closed. -/
structure Piece.Covers (p : Piece) (file : FileId) (offset : Nat) (text : List Char) (before inside after : List Char) :
    Prop where
  whole : text = before ++ (inside ++ after)
  nonempty : inside ≠ []
  span : p.span = ⟨offset + byteSize before, offset + byteSize (before ++ inside), file⟩
  text : ∀ t, p = .inl t → t.text = String.ofList inside
  starts : Starts p.lexeme inside after

theorem Laid.covers (h : Laid file offset text ps) :
    ∀ p ∈ ps, ∃ before inside after, p.Covers file offset text before inside after := by
  induction h with
  | done => nofun
  | @piece offset gap inside follows p more _ hinside hspan htext hstarts _ ih =>
    rw [List.forall_mem_cons]
    refine ⟨⟨gap, inside, follows, rfl, hinside, hspan, htext, hstarts⟩, fun q hq => ?_⟩
    obtain ⟨before, inside', after, hcovers⟩ := ih q hq
    refine ⟨gap ++ inside ++ before, inside', after, ?_, hcovers.nonempty, ?_, hcovers.text, hcovers.starts⟩
    · simp [hcovers.whole]
    · simp [hcovers.span, Nat.add_assoc]

-- ---------------------------------------------------------------------------
-- Whole texts
-- ---------------------------------------------------------------------------

theorem mem_pieces {r : List Token × List Diagnostic} {p : Piece} :
    p ∈ pieces r ↔ p ∈ r.1.map Sum.inl ∨ p ∈ r.2.map Sum.inr := by
  rw [pieces, List.mem_merge]

theorem pieces_token {t : Token} {ts : List Token} {ds : List Diagnostic}
    (h : ∀ p ∈ pieces (ts, ds), t.span.start ≤ p.span.start) : pieces (t :: ts, ds) = .inl t :: pieces (ts, ds) := by
  cases ds with
  | nil => simp [pieces]
  | cons d ds =>
    have hd : t.span.start ≤ d.primary.span.start := h (.inr d) (mem_pieces.mpr (.inr (by simp)))
    simp [pieces, Piece.span, hd]

theorem pieces_diagnostic {d : Diagnostic} {ts : List Token} {ds : List Diagnostic}
    (h : ∀ p ∈ pieces (ts, ds), d.primary.span.start < p.span.start) : pieces (ts, d :: ds) = .inr d :: pieces (ts, ds) := by
  cases ts with
  | nil => simp [pieces]
  | cons t ts =>
    have ht : d.primary.span.start < t.span.start := h (.inl t) (mem_pieces.mpr (.inl (by simp)))
    simp [pieces, Piece.span, Nat.not_le.mpr ht]

/-- White space or a comment in front becomes a part of what is before the first piece. -/
theorem Laid.skip {skipped : List Char}
    (hskipped : ∀ {gap follows}, Skipped gap follows → text = gap ++ follows → Skipped (skipped ++ gap) follows)
    (h : Laid file (offset + byteSize skipped) text ps) : Laid file offset (skipped ++ text) ps := by
  cases h with
  | done hgap => exact .done (hskipped hgap (by simp))
  | piece hgap hinside hspan htext hstarts h =>
    rw [← List.append_assoc]
    refine .piece (hskipped hgap rfl) hinside ?_ htext hstarts ?_
    · simpa [Nat.add_assoc] using hspan
    · simpa [Nat.add_assoc] using h

/-- A piece in front. -/
theorem Laid.first {inside : List Char} {p : Piece} (hinside : inside ≠ [])
    (hspan : p.span = ⟨offset, offset + byteSize inside, file⟩) (htext : ∀ t, p = .inl t → t.text = String.ofList inside)
    (hstarts : Starts p.lexeme inside text) (h : Laid file (offset + byteSize inside) text ps) :
    Laid file offset (inside ++ text) (p :: ps) := by
  rw [← List.nil_append (inside ++ text)]
  exact .piece .nil hinside (by simpa using hspan) htext hstarts (by simpa using h)

theorem laid_scan (file : FileId) (offset : Nat) (cs : List Char) : Laid file offset cs (pieces (scan file offset cs)) := by
  fun_induction scan file offset cs with
  | case1 offset =>
    have hdone : Laid file offset [] [] := .done .nil
    simpa [pieces] using hdone
  | case2 offset c rest more text stop tokens diagnostics hscan hlexeme ih =>
    rw [hscan] at ih
    have hwhole : c :: rest = text ++ rest.drop more := by simp [text]
    rw [hwhole]
    exact .skip (fun hgap hrest => skipped_of_lexeme hlexeme hgap hrest) ih
  | case3 offset c rest more text stop span tokens diagnostics hscan kind hlexeme ih =>
    rw [hscan] at ih
    have hwhole : c :: rest = text ++ rest.drop more := by simp [text]
    have hpos : 0 < byteSize text := byteSize_pos (List.cons_ne_nil _ _)
    have hlater : ∀ p ∈ pieces (tokens, diagnostics), offset ≤ p.span.start := fun p hp => by
      have := ih.le_start p hp
      omega
    rw [hwhole, pieces_token hlater]
    exact .first (List.cons_ne_nil _ _) rfl (fun t ht => by cases ht; rfl) (starts_of_lexeme hlexeme nofun) ih
  | case4 offset c rest more text stop span tokens diagnostics hscan hlexeme ih =>
    rw [hscan] at ih
    have hwhole : c :: rest = text ++ rest.drop more := by simp [text]
    have hpos : 0 < byteSize text := byteSize_pos (List.cons_ne_nil _ _)
    have hlater : ∀ p ∈ pieces (tokens, diagnostics), offset < p.span.start := fun p hp => by
      have := ih.le_start p hp
      omega
    rw [hwhole, pieces_diagnostic hlater]
    exact .first (List.cons_ne_nil _ _) rfl nofun (starts_of_lexeme hlexeme nofun) ih

end StructuredText.Lexer

namespace StructuredText

open Lexer

/-- Nothing of a source is lost when it is split into tokens. By their places the tokens and the diagnostics lie in the
source one after the other without overlap, each covers a part of it that is not empty, which is the text of a token, and
what none of them covers is white space and comments; a block comment that is not closed is covered by a diagnostic up to
the end of the source. -/
theorem tokenize_lossless (source : String) (file : FileId) :
    Laid file 0 source.toList (pieces (tokenize source file)) ∧
      (pieces (tokenize source file)).Pairwise (fun p q => p.span.stop ≤ q.span.start) ∧
      ∀ p ∈ pieces (tokenize source file), p.span.start < p.span.stop ∧
        ∃ before inside after, p.Covers file 0 source.toList before inside after := by
  have hlaid : Laid file 0 source.toList (pieces (tokenize source file)) := laid_scan file 0 source.toList
  refine ⟨hlaid, hlaid.apart, fun p hp => ?_⟩
  obtain ⟨before, inside, after, hcovers⟩ := hlaid.covers p hp
  refine ⟨?_, before, inside, after, hcovers⟩
  have := byteSize_pos hcovers.nonempty
  simp [hcovers.span, this]

end StructuredText
