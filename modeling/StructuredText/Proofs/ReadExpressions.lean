-- SUMMARY: Expressions and variables are read back from the words that spell them.
import StructuredText.Proofs.ReadConstants
import StructuredText.Proofs.Spelling

/-!
# Reading back expressions

An expression is read by taking its first operand and going on from it with operators. So the words of an operand that is
part of a larger expression are not read on their own: after them the reading goes on from the operand, as far as the
levels of the operators before and after it allow. The grammar reads an expression from words where each operand stands
in parentheses or is of a level that keeps it together. What follows an expression in a printed tree is never an
operator.
-/

namespace StructuredText

open Word (mark ident number)

namespace Tree

theorem Expr.span_erase (e : Expr) : e.erase.span = .origin := by
  cases e with
  | var path =>
    cases path
    rfl
  | _ => rfl

end Tree

namespace Grammar

open StructuredText.Parser

-- ---------------------------------------------------------------------------
-- What follows
-- ---------------------------------------------------------------------------

/-- The kinds of tokens that follow a printed expression. -/
def closesExpr : TokenKind → Bool
  | .rightParen | .rightBracket | .comma | .semicolon | .kwThen | .kwDo | .kwTo | .kwBy | .kwOf | .kwEndRepeat => true
  | _ => false

/-- The kinds of tokens that follow an operand of the level: an expression ends there, or an operator below the level
goes on. -/
def endsLevel (level : Nat) (k : TokenKind) : Bool := closesExpr k || (binding? k).any (·.level < level)

/-- The kinds of tokens that may follow a variable. None of them makes it longer. -/
def endsPath : TokenKind → Bool
  | .period | .leftBracket => false
  | _ => true

theorem binding?_of_closes {k : TokenKind} (h : closesExpr k = true) : binding? k = none := by
  cases k <;> first | rfl | cases h

theorem endsLevel_of_closes {k : TokenKind} (level : Nat) (h : closesExpr k = true) : endsLevel level k = true := by
  simp [endsLevel, h]

theorem endsLevel_mono {level level' : Nat} (h : level ≤ level') {k : TokenKind} (hk : endsLevel level k = true) :
    endsLevel level' k = true := by
  simp only [endsLevel, Bool.or_eq_true, Option.any_eq_true, decide_eq_true_eq] at hk ⊢
  exact hk.imp_right fun ⟨b, hb, hlevel⟩ => ⟨b, hb, Nat.lt_of_lt_of_le hlevel h⟩

theorem endsPath_of_endsLevel {level : Nat} {k : TokenKind} (h : endsLevel level k = true) : endsPath k = true := by
  cases k <;> first | rfl | cases h

-- ---------------------------------------------------------------------------
-- Operators
-- ---------------------------------------------------------------------------

theorem parse_unary (op : UnaryOp) (rest : List Token) :
    parse unary ((mark op.token).token :: rest) = some ((op, .origin), rest) := by
  cases op <;> simp [unary, unary?, UnaryOp.token]

theorem parse_unary_none {passes : TokenKind → Bool} {ts : List Token} (h : Before passes ts)
    (hminus : passes .minus = false) (hnot : passes .kwNot = false) : parse unary ts = none := by
  have hsatisfy : parse (satisfy fun t => (unary? t.kind).isSome) ts = none := by
    refine h.parse_satisfy fun t ht => ?_
    cases hkind : t.kind <;> simp_all [unary?]
  simp [unary, hsatisfy]

/-- The grammar has the operators at their levels. -/
theorem binding?_token (op : BinaryOp) : binding? op.token = some ⟨op, op.level, op.rightLevel⟩ := by
  cases op <;> rfl

theorem parse_binding {op : BinaryOp} {level : Nat} (h : level ≤ op.level) (rest : List Token) :
    parse (binding level) ((mark op.token).token :: rest) = some (⟨op, op.level, op.rightLevel⟩, rest) := by
  simp [binding, binding?_token, h]

theorem parse_binding_none {ts : List Token} {level : Nat} (h : Before (endsLevel level) ts) :
    parse (binding level) ts = none := by
  have hsatisfy : parse (satisfy fun t => (binding? t.kind).any (level ≤ ·.level)) ts = none := by
    refine h.parse_satisfy fun t ht => ?_
    cases hbinding : binding? t.kind with
    | none => rfl
    | some b =>
      have hcloses : closesExpr t.kind ≠ true := fun hcloses => by simp [binding?_of_closes hcloses] at hbinding
      simpa [endsLevel, hcloses, hbinding] using ht
  simp [binding, hsatisfy]

theorem parse_extend_none (operand : Nat → Parser Tree.Expr) {level : Nat} (left : Tree.Expr) {ts : List Token}
    (h : Before (endsLevel level) ts) (bound : Nat) : parse (extend operand level left bound) ts = some (left, ts) := by
  cases bound with
  | zero => rfl
  | succ bound => simp [extend, parse_binding_none h]

-- ---------------------------------------------------------------------------
-- Expressions that are read back
-- ---------------------------------------------------------------------------

/-- An operand with the signs in front of it. -/
def operandWithin (depth : Nat) : Parser Tree.Expr :=
  (do
    let (op, start) ← unary
    let operand ← expressionWithin depth unaryOperandLevel
    pure (.ofUnary op start operand))
  <|> primary (expressionWithin depth 0)

theorem expressionWithin_succ (depth level : Nat) :
    expressionWithin (depth + 1) level =
      operandWithin depth >>= fun left => bounded (extend (expressionWithin depth) level left) := rfl

/-- The words are taken for the expression where operators of at most the level `tight` are looked for, and where no
operator of the level `ends` or above follows: the reading goes on from the expression after them. They are not taken for
an argument with a name. -/
structure ReadsAt (tight ends : Nat) (ws : List Word) (e : Tree.Expr) : Prop where
  resumes {depth level : Nat} {rest : List Token} {found : Option (Tree.Expr × List Token)} (hdepth : ws.length ≤ depth)
    (htight : level ≤ tight) (hrest : Before (endsLevel ends) rest)
    (h : ∀ bound, rest.length < bound → parse (extend (expressionWithin depth) level e.erase bound) rest = found) :
    parse (expressionWithin (depth + 1) level) (tokens ws ++ rest) = found
  unnamed (k : TokenKind) (rest : List Token) (hk : k = .assignment ∨ k = .rightArrow)
    (hrest : parse (token k) rest = none) : parse (identifier >>= fun _ => token k) (tokens ws ++ rest) = none

/-- The level up to which operators may stand before the expression. A sign does not let go of its operand. -/
def tightness : Tree.Expr → Nat
  | .binary op _ _ _ => op.level
  | _ => atomLevel

/-- The level below which operators may stand behind the expression. -/
def openness : Tree.Expr → Nat
  | .binary op _ _ _ => op.rightLevel
  | .unary _ _ _ => unaryOperandLevel
  | _ => atomLevel

/-- The expression is read from the words. -/
def ReadsAs (ws : List Word) (e : Tree.Expr) : Prop := ReadsAt (tightness e) (openness e) ws e

/-- The expression is read back from its words. -/
abbrev ExprReads (e : Tree.Expr) : Prop := ReadsAs e.words e

variable {ws lws rws : List Word} {e left right : Tree.Expr}

/-- An expression is read where no operator that could be part of it follows. -/
theorem ReadsAt.whole {tight ends depth level : Nat} (h : ReadsAt tight ends ws e) (hdepth : ws.length < depth)
    (htight : level ≤ tight) (hends : level ≤ ends) {rest : List Token} (hrest : Before (endsLevel level) rest) :
    parse (expressionWithin depth level) (tokens ws ++ rest) = some (e.erase, rest) := by
  obtain ⟨depth, rfl⟩ : ∃ d, depth = d + 1 := Nat.exists_eq_add_one_of_ne_zero (by omega)
  exact h.resumes (by omega) htight (hrest.mono fun k => endsLevel_mono hends)
    fun bound _ => parse_extend_none _ _ hrest bound

theorem ReadsAs.whole (h : ReadsAs ws e) {depth : Nat} (hdepth : ws.length < depth) {rest : List Token}
    (hrest : Before closesExpr rest) : parse (expressionWithin depth 0) (tokens ws ++ rest) = some (e.erase, rest) :=
  ReadsAt.whole h hdepth (Nat.zero_le _) (Nat.zero_le _) (hrest.mono fun _ => endsLevel_of_closes 0)

/-- What is read as an operand without a sign is read at every level. -/
theorem ReadsAt.ofAtom
    (hread : ∀ depth rest, ws.length ≤ depth → Before (endsLevel atomLevel) rest →
      parse (operandWithin depth) (tokens ws ++ rest) = some (e.erase, rest))
    (hunnamed : ∀ k rest, k = .assignment ∨ k = .rightArrow → parse (token k) rest = none →
      parse (identifier >>= fun _ => token k) (tokens ws ++ rest) = none) : ReadsAt atomLevel atomLevel ws e where
  resumes {depth level rest found} hdepth _ hrest h := by
    have hbounded : parse (bounded (extend (expressionWithin depth) level e.erase)) rest = found :=
      h _ (Nat.lt_succ_self _)
    simp [expressionWithin_succ, hread depth rest hdepth hrest, hbounded]
  unnamed := hunnamed

/-- Parentheses make an operand of any expression. -/
theorem ReadsAs.parenthesized (h : ReadsAs ws e) : ReadsAt atomLevel atomLevel (between .leftParen .rightParen ws) e := by
  refine .ofAtom (fun depth rest hdepth hrest => ?_) (fun k rest hk hrest => by simp [identifier, between])
  simp only [between, List.length_cons, List.length_append] at hdepth
  have hends : Before closesExpr ((mark .rightParen).token :: rest) := by simp [closesExpr]
  have hwhole := h.whole (show ws.length < depth by omega) hends
  have hstarts : Before (· == .leftParen) (tokens (between .leftParen .rightParen ws) ++ rest) := by simp [between]
  have hunary : parse unary (tokens (between .leftParen .rightParen ws) ++ rest) = none := parse_unary_none hstarts rfl rfl
  simp only [operandWithin, primary, parse_orElse, parse_bind, hunary]
  simp [between, hwhole]

theorem ReadsAs.enclosed (h : ReadsAs ws e) : ReadsAt atomLevel atomLevel (e.enclosed ws) e := by
  unfold Tree.Expr.enclosed
  split
  · exact h.parenthesized
  · cases e <;> first | exact h | contradiction

/-- A sign takes an operand of its level or above, with all signs in front of that. -/
theorem readsAs_unary {tight ends : Nat} (h : ReadsAt tight ends ws e) (op : UnaryOp) (span : Span)
    (htight : unaryOperandLevel ≤ tight) (hends : unaryOperandLevel ≤ ends) :
    ReadsAs (mark op.token :: ws) (.unary op e span) where
  resumes {depth level rest found} hdepth _ hrest hfound := by
    simp only [List.length_cons] at hdepth
    have hoperand := h.whole (show ws.length < depth by omega) htight hends hrest
    have hspan : Tree.Expr.ofUnary op .origin e.erase = (Tree.Expr.unary op e span).erase := by
      simp [Tree.Expr.ofUnary, Tree.Expr.erase, Tree.Expr.span_erase, Span.join, Span.origin]
    have hbounded : parse (bounded (extend (expressionWithin depth) level (Tree.Expr.unary op e span).erase)) rest = found :=
      hfound _ (Nat.lt_succ_self _)
    simp [expressionWithin_succ, operandWithin, parse_unary, hoperand, hspan, hbounded]
  unnamed k rest _ _ := by
    cases op <;> simp [identifier, UnaryOp.token]

/-- An operator takes operands that hold together at its level. The reading goes on from the left operand to the operator,
and from there to what follows the right operand. -/
theorem readsAs_binary {tight ends tight' ends' : Nat} (hleft : ReadsAt tight ends lws left)
    (hright : ReadsAt tight' ends' rws right) (op : BinaryOp) (span : Span) (htight : op.level ≤ tight)
    (hends : op.level < ends) (htight' : op.rightLevel ≤ tight') (hends' : op.rightLevel ≤ ends') :
    ReadsAs (lws ++ mark op.token :: rws) (.binary op left right span) where
  resumes {depth level rest found} hdepth hlevel hrest hfound := by
    simp only [List.length_append, List.length_cons] at hdepth
    have hends : endsLevel ends op.token = true := by simp [endsLevel, binding?_token, hends]
    have hsecond := hright.whole (show rws.length < depth by omega) htight' hends' hrest
    have hspan : Tree.Expr.ofBinary op left.erase right.erase = (Tree.Expr.binary op left right span).erase := by
      simp [Tree.Expr.ofBinary, Tree.Expr.erase, Tree.Expr.span_erase, Span.join, Span.origin]
    rw [tokens_append, tokens_cons, List.append_assoc, List.cons_append]
    refine hleft.resumes (by omega) (Nat.le_trans hlevel htight) (by simpa using hends) fun bound hbound => ?_
    obtain ⟨bound, rfl⟩ : ∃ b, bound = b + 1 := Nat.exists_eq_add_one_of_ne_zero (by omega)
    simp only [List.length_cons, List.length_append] at hbound
    have hlast := hfound bound (by omega)
    have hsome : ∃ found', found = some found' := by
      rw [← hlast]
      cases bound with
      | zero => exact ⟨_, rfl⟩
      | succ bound => cases h : parse (binding level) rest <;> simp [extend, h]
    obtain ⟨found', rfl⟩ := hsome
    simp [extend, parse_binding hlevel, hsecond, hspan, hlast]
  unnamed k rest hk hrest := by
    have hnext : parse (token k) ((mark op.token).token :: (tokens rws ++ rest)) = none := by
      rcases hk with rfl | rfl <;> cases op <;> simp [BinaryOp.token]
    simpa using hleft.unnamed k _ hk hnext

theorem ExprReads.unary (h : ExprReads e) (op : UnaryOp) (span : Span) : ExprReads (.unary op e span) :=
  readsAs_unary h.enclosed op span (by decide) (by decide)

theorem ExprReads.binary (hleft : ExprReads left) (hright : ExprReads right) (op : BinaryOp) (span : Span) :
    ExprReads (.binary op left right span) := by
  refine readsAs_binary hleft.enclosed hright.enclosed op span ?_ ?_ ?_ ?_ <;> cases op <;> decide

-- ---------------------------------------------------------------------------
-- Variables
-- ---------------------------------------------------------------------------

theorem primary_rejects (expr : Parser Tree.Expr) (rest : List Token) :
    parse (primary expr) ((mark .rightParen).token :: rest) = none := by
  have hsegment : parse (segment expr) ((mark .rightParen).token :: rest) = none := by
    simp [segment, parse_spanned_none, identifier]
  simp [primary, path, sepBy1, typedLiteral, call, unsignedConstant, real, integer, literal, identifier, hsegment,
    parse_spanned_none]

/-- The parser reads expressions from no more words than the bound, and it does not start at a closing parenthesis. -/
structure ReadsWithin (expr : Parser Tree.Expr) (bound : Nat) : Prop where
  reads {ws : List Word} {e : Tree.Expr} (he : ReadsAs ws e) (hbound : ws.length ≤ bound) (rest : List Token)
    (hrest : Before closesExpr rest) : parse expr (tokens ws ++ rest) = some (e.erase, rest)
  rejects (rest : List Token) : parse expr ((mark .rightParen).token :: rest) = none

theorem readsWithin_expressionWithin {depth bound : Nat} (h : bound < depth) :
    ReadsWithin (expressionWithin depth 0) bound where
  reads he hbound rest hrest := he.whole (by omega) hrest
  rejects rest := by
    obtain ⟨depth, rfl⟩ : ∃ d, depth = d + 1 := Nat.exists_eq_add_one_of_ne_zero (by omega)
    have hunary : parse Grammar.unary ((mark .rightParen).token :: rest) = none := by simp [Grammar.unary, unary?]
    simp [expressionWithin_succ, operandWithin, hunary, primary_rejects]

theorem readsWithin_expression (bound : Nat) : ReadsWithin expression bound where
  reads {ws e} he hbound rest hrest := by
    rw [expression, parse_bounded]
    refine he.whole ?_ hrest
    simp only [tokens, List.length_append, List.length_map]
    omega
  rejects rest := by
    rw [expression, parse_bounded]
    exact (readsWithin_expressionWithin (Nat.lt_succ_self _)).rejects rest

/-- The kinds of tokens that may follow a name with its indexes. -/
def endsSegment (k : TokenKind) : Bool := k != .leftBracket

theorem endsSegment_of_endsPath {k : TokenKind} (h : endsPath k = true) : endsSegment k = true := by
  cases k <;> first | rfl | cases h

/-- The name with its indexes is read from the words. -/
structure SegmentReadsAs (ws : List Word) (s : Tree.Segment) : Prop where
  reads {expr : Parser Tree.Expr} {bound : Nat} (hexpr : ReadsWithin expr bound) (hbound : ws.length ≤ bound + 1)
    (rest : List Token) (hrest : Before endsSegment rest) : parse (segment expr) (tokens ws ++ rest) = some (s.erase, rest)
  starts : ∃ n indexes, ws = ident n :: indexWords indexes

theorem segmentReadsAs {words : Tree.Expr → List Word} {indexes : List Tree.Expr}
    (h : ∀ e ∈ indexes, ReadsAs (words e) e) (n : Ident) (span : Span) :
    SegmentReadsAs (ident n :: indexWords (indexes.map words)) (.mk n indexes span) where
  reads {expr bound} hexpr hbound rest hrest := by
    have hindexes : parse (optional (listed .leftBracket .rightBracket expr))
        (tokens (indexWords (indexes.map words)) ++ rest) =
          some (if indexes = [] then none else some (indexes.map (·.erase)), rest) := by
      cases indexes with
      | nil =>
        have hbracket : parse (token .leftBracket) rest = none := hrest.parse_token rfl
        simp [listed, indexWords, hbracket]
      | cons e es =>
        have hread : ∀ e' ∈ e :: es, ∀ after, Before closesExpr after →
            parse expr (tokens (words e') ++ after) = some (e'.erase, after) := by
          intro e' he' after hafter
          have hlength : (words e').length ≤ (joined .comma ((e :: es).map words)).length :=
            length_le_joined .comma (List.mem_map_of_mem he')
          simp only [indexWords, List.map_cons, between, List.length_cons, List.length_append] at hbound hlength
          exact hexpr.reads (h e' he') (by omega) after hafter
        have hlisted := parse_listed words (·.erase) closesExpr .leftBracket .rightBracket (List.cons_ne_nil e es) hread
          rfl rfl (by decide) rest
        simp only [List.map_cons] at hlisted
        simp [indexWords, hlisted]
    have hsegment : parse (spanned do
        let name ← identifier
        let indexes ← optional (listed .leftBracket .rightBracket expr)
        pure (name, indexes.getD [])) (tokens (ident n :: indexWords (indexes.map words)) ++ rest) =
          some (((n.erase, indexes.map (·.erase)), .origin), rest) := by
      refine parse_spanned (by simp) ?_
      cases indexes <;> simp_all
    simp only [segment, parse_bind, hsegment]
    simp [Tree.Segment.erase]
  starts := ⟨_, _, rfl⟩

/-- The variable is read from the words, and its first name is not taken for anything that a token after it would make of
it. -/
structure PathReadsAs (ws : List Word) (p : Tree.Path) : Prop where
  reads {expr : Parser Tree.Expr} {bound : Nat} (hexpr : ReadsWithin expr bound) (hbound : ws.length ≤ bound + 1)
    (rest : List Token) (hrest : Before endsPath rest) : parse (path expr) (tokens ws ++ rest) = some (p.erase, rest)
  named (k : TokenKind) (rest : List Token) (hperiod : k ≠ .period) (hbracket : k ≠ .leftBracket)
    (hrest : parse (token k) rest = none) : parse (identifier >>= fun _ => token k) (tokens ws ++ rest) = none
  starts : ∃ n after, ws = ident n :: after

/-- The variable is read back from its words. -/
abbrev PathReads (p : Tree.Path) : Prop := PathReadsAs p.words p

theorem pathReadsAs {words : Tree.Segment → List Word} {segments : List Tree.Segment} (hne : segments ≠ [])
    (h : ∀ s ∈ segments, SegmentReadsAs (words s) s) (span : Span) :
    PathReadsAs (joined .period (segments.map words)) (.mk segments span) := by
  obtain ⟨first, segments, rfl⟩ := List.exists_cons_of_ne_nil hne
  obtain ⟨n, indexes, hfirst⟩ := (h first (by simp)).starts
  have hjoined : joined .period ((first :: segments).map words) =
      ident n :: (indexWords indexes ++ (segments.map words).flatMap (mark .period :: ·)) := by simp [joined, hfirst]
  refine ⟨fun {expr bound} hexpr hbound rest hrest => ?_, fun k rest hperiod hbracket hrest => ?_, ⟨_, _, hjoined⟩⟩
  · have hread : ∀ s ∈ first :: segments, ∀ after, Before endsSegment after →
        parse (segment expr) (tokens (words s) ++ after) = some (s.erase, after) := by
      intro s hs after hafter
      have hlength : (words s).length ≤ (joined .period ((first :: segments).map words)).length :=
        length_le_joined .period (List.mem_map_of_mem hs)
      exact (h s hs).reads hexpr (by omega) after hafter
    have hsegments : parse (sepBy1 (segment expr) (token .period))
        (tokens (joined .period ((first :: segments).map words)) ++ rest) = some ((first :: segments).map (·.erase), rest) :=
      parse_sepBy1 words Tree.Segment.erase endsSegment hne hread rfl
        (hrest.mono fun k => endsSegment_of_endsPath) (hrest.parse_token rfl)
    have hspanned := parse_spanned (hjoined ▸ List.cons_ne_nil _ _) hsegments
    simp only [path, parse_bind, hspanned]
    simp [Tree.Path.erase]
  · rw [hjoined]
    cases indexes with
    | cons e es => simp [indexWords, between, hbracket.symm]
    | nil =>
      cases segments with
      | nil => simp [indexWords, hrest]
      | cons s segments => simp [indexWords, hperiod.symm]

section

variable {expr : Parser Tree.Expr} (hexpr : Yields expr fun e => e.isBasic = true → ExprReads e)

include hexpr

theorem segment_reads : Yields (segment expr) fun s => s.isBasic = true → SegmentReadsAs s.words s := by
  have hindexes : Yields (do
      let name ← identifier
      let indexes ← optional (listed .leftBracket .rightBracket expr)
      pure (name, indexes.getD []) : Parser (Ident × List Tree.Expr)) fun found =>
        ∀ e ∈ found.2, e.isBasic = true → ExprReads e := by
    refine .skip fun name => (listed_yields _ _ hexpr).optional.bind fun indexes h => .pure ?_
    cases indexes with
    | none => simp
    | some es => exact (h es rfl).2
  refine hindexes.spanned.bind fun found h => .pure fun hbasic => segmentReadsAs (fun e he => h e he ?_) _ _
  simp only [Tree.Segment.isBasic, List.all_eq_true] at hbasic
  exact hbasic e he

theorem path_reads : Yields (path expr) fun p => p.isBasic = true → PathReads p := by
  refine (segment_reads hexpr).sepBy1.spanned.bind fun found h => .pure fun hbasic => ?_
  simp only [Tree.Path.isBasic, Tree.Segment.areBasic_eq, List.all_eq_true] at hbasic
  simpa [PathReads, Tree.Path.words] using pathReadsAs h.1 (fun s hs => h.2 s hs (hbasic s hs)) found.2

end

-- ---------------------------------------------------------------------------
-- Arguments and calls
-- ---------------------------------------------------------------------------

/-- The argument is read from the words. -/
def ArgReadsAs (ws : List Word) (arg : Tree.Arg) : Prop :=
  ∀ expr bound rest, ReadsWithin expr bound → ws.length ≤ bound → Before closesExpr rest →
    parse (argument expr) (tokens ws ++ rest) = some (arg.erase, rest)

/-- The argument is read back from its words. -/
abbrev ArgReads (arg : Tree.Arg) : Prop := ArgReadsAs arg.words arg

theorem argReadsAs_input (h : ReadsAs ws e) (n : Ident) :
    ArgReadsAs (ident n :: mark .assignment :: ws) (.mk (some n) e false) := by
  intro expr bound rest hexpr hbound hrest
  simp only [List.length_cons] at hbound
  simp [argument, Tree.Arg.erase, hexpr.reads h (by omega) rest hrest]

theorem argReadsAs_output {p : Tree.Path} (h : PathReadsAs ws p) (n : Ident) :
    ArgReadsAs (ident n :: mark .rightArrow :: ws) (.mk (some n) (.var p) true) := by
  intro expr bound rest hexpr hbound hrest
  simp only [List.length_cons] at hbound
  have hpath := h.reads hexpr (by omega) rest (hrest.mono fun k hk => endsPath_of_endsLevel (endsLevel_of_closes 0 hk))
  simp [argument, Tree.Arg.erase, Tree.Expr.erase, hpath]

theorem argReadsAs_unnamed (h : ReadsAs ws e) : ArgReadsAs ws (.mk none e false) := by
  intro expr bound rest hexpr hbound hrest
  have hassignment := h.unnamed .assignment rest (.inl rfl) (hrest.parse_token rfl)
  have harrow := h.unnamed .rightArrow rest (.inr rfl) (hrest.parse_token rfl)
  have hread := hexpr.reads h hbound rest hrest
  rw [parse_bind] at hassignment harrow
  simp only [argument, Tree.Arg.erase, parse_orElse, parse_bind]
  cases hname : parse identifier (tokens ws ++ rest) with
  | none => simp [hread]
  | some found =>
    rw [hname, Option.bind_some] at hassignment harrow
    simp [hassignment, harrow, hread]

theorem argument_reads {expr : Parser Tree.Expr} (hexpr : Yields expr fun e => e.isBasic = true → ExprReads e) :
    Yields (argument expr) fun arg => arg.isBasic = true → ArgReads arg := by
  refine .orElse (.skip fun n => .skip fun _ => hexpr.bind fun e he => .pure fun hbasic => argReadsAs_input (he hbasic) n)
    (.orElse (.skip fun n => .skip fun _ => (path_reads hexpr).bind fun p hp => .pure fun hbasic =>
      argReadsAs_output (hp hbasic) n)
    (hexpr.bind fun e he => .pure fun hbasic => argReadsAs_unnamed (he hbasic)))

theorem parse_call {expr : Parser Tree.Expr} {bound : Nat} {words : Tree.Arg → List Word} {args : List Tree.Arg}
    (hexpr : ReadsWithin expr bound) (h : ∀ arg ∈ args, ArgReadsAs (words arg) arg) (n : Ident)
    (hbound : (ident n :: between .leftParen .rightParen (joined .comma (args.map words))).length ≤ bound + 1)
    (rest : List Token) :
    parse (call expr) (tokens (ident n :: between .leftParen .rightParen (joined .comma (args.map words))) ++ rest) =
      some ((n.erase, args.map (·.erase)), rest) := by
  have hargs : parse (sepBy (argument expr) (token .comma))
      (tokens (joined .comma (args.map words)) ++ (mark .rightParen).token :: rest) =
        some (args.map (·.erase), (mark .rightParen).token :: rest) := by
    cases args with
    | nil => simp [sepBy, sepBy1, joined, argument, identifier, hexpr.rejects rest]
    | cons arg args =>
      have hread : ∀ arg' ∈ arg :: args, ∀ after, Before closesExpr after →
          parse (argument expr) (tokens (words arg') ++ after) = some (arg'.erase, after) := by
        intro arg' harg' after hafter
        have hlength : (words arg').length ≤ (joined .comma ((arg :: args).map words)).length :=
          length_le_joined .comma (List.mem_map_of_mem harg')
        simp only [between, List.length_cons, List.length_append] at hbound
        exact h arg' harg' expr bound after hexpr (by omega) hafter
      have hsep : parse (sepBy1 (argument expr) (token .comma))
          (tokens (joined .comma ((arg :: args).map words)) ++ (mark .rightParen).token :: rest) =
            some ((arg :: args).map (·.erase), (mark .rightParen).token :: rest) :=
        parse_sepBy1 words Tree.Arg.erase closesExpr (List.cons_ne_nil _ _) hread rfl (by simp [closesExpr]) (by simp)
      simp only [sepBy, parse_orElse, hsep, Option.some_or]
  simp [call, between, hargs]

theorem call_reads {expr : Parser Tree.Expr} (hexpr : Yields expr fun e => e.isBasic = true → ExprReads e) :
    Yields (call expr) fun found => Tree.Arg.areBasic found.2 = true → ∀ arg ∈ found.2, ArgReads arg := by
  refine .skip fun n => .skip fun _ => (argument_reads hexpr).sepBy.bind fun args h => .skip fun _ =>
    .pure fun hbasic arg harg => h arg harg ?_
  simp only [Tree.Arg.areBasic_eq, List.all_eq_true] at hbasic
  exact hbasic arg harg

-- ---------------------------------------------------------------------------
-- Operands and expressions
-- ---------------------------------------------------------------------------

theorem parse_unary_ident (n : Ident) (rest : List Token) : parse Grammar.unary ((ident n).token :: rest) = none := by
  simp [Grammar.unary, unary?]

theorem parse_unsignedConstant_ident (n : Ident) (rest : List Token) :
    parse unsignedConstant ((ident n).token :: rest) = none := by
  simp [unsignedConstant, real, integer, literal]

theorem readsAs_typed {v : Value} (h : ∀ rest, parse typedValue (tokens v.words ++ rest) = some (v.erase, rest))
    (type : Ident) (span : Span) : ReadsAs (ident type :: mark .hash :: v.words) (.typed type v span) := by
  refine .ofAtom (fun depth rest hdepth hrest => ?_) (fun k rest hk hrest => ?_)
  · have htyped : parse (spanned typedLiteral) (tokens (ident type :: mark .hash :: v.words) ++ rest) =
        some (((type.erase, v.erase), .origin), rest) :=
      parse_spanned (by simp) (by simp [typedLiteral, h])
    simp only [tokens_cons, List.cons_append] at htyped ⊢
    simp [operandWithin, primary, parse_unary_ident, htyped, Tree.Expr.erase]
  · rcases hk with rfl | rfl <;> simp

theorem readsAs_constant {v : Value} (h : IsConstant v) (hsign : ∀ i, v = .integer i → 0 ≤ i) (span : Span) :
    ReadsAs v.words (.constant v span) := by
  have hstarts (rest : List Token) : Before (fun k => k == .integer || k == .kwTrue || k == .kwFalse)
      (tokens v.words ++ rest) := by
    cases h with
    | bool b => cases b <;> simp [Value.words]
    | @integer i h => simp [Value.words, integerWords, Int.not_lt.mpr (hsign i rfl)]
  refine .ofAtom (fun depth rest hdepth hrest => ?_) (fun k rest hk hrest => ?_)
  · have hwords : v.words ≠ [] := by
      cases h with
      | bool b => simp [Value.words]
      | @integer i h => simp [Value.words, integerWords, Int.not_lt.mpr (hsign i rfl)]
    have hconstant := parse_spanned hwords (parse_unsignedConstant h hsign rest)
    have hunary : parse Grammar.unary (tokens v.words ++ rest) = none := parse_unary_none (hstarts rest) rfl rfl
    have hparen : parse (token .leftParen) (tokens v.words ++ rest) = none := (hstarts rest).parse_token rfl
    have hname : parse identifier (tokens v.words ++ rest) = none := parse_identifier_none (hstarts rest) rfl
    simp [operandWithin, primary, Tree.Expr.erase, hunary, hparen, typedLiteral, hname, parse_spanned_none, hconstant]
  · simp [parse_identifier_none (hstarts rest) rfl]

theorem readsAs_call {words : Tree.Arg → List Word} {args : List Tree.Arg} (h : ∀ arg ∈ args, ArgReadsAs (words arg) arg)
    (n : Ident) (span : Span) :
    ReadsAs (ident n :: between .leftParen .rightParen (joined .comma (args.map words))) (.call n args span) := by
  refine .ofAtom (fun depth rest hdepth hrest => ?_) (fun k rest hk hrest => ?_)
  · obtain ⟨depth, rfl⟩ : ∃ d, depth = d + 1 :=
      Nat.exists_eq_add_one_of_ne_zero (by simp only [List.length_cons] at hdepth; omega)
    have hcall := parse_spanned (List.cons_ne_nil _ _)
      (parse_call (readsWithin_expressionWithin (Nat.lt_succ_self depth)) h n hdepth rest)
    have htyped : parse (spanned typedLiteral)
        (tokens (ident n :: between .leftParen .rightParen (joined .comma (args.map words))) ++ rest) = none :=
      parse_spanned_none (by simp [typedLiteral, between])
    rw [tokens_cons, List.cons_append] at hcall htyped ⊢
    simp [operandWithin, primary, parse_unary_ident, htyped, parse_spanned_none, parse_unsignedConstant_ident, hcall,
      Tree.Expr.erase]
  · rcases hk with rfl | rfl <;> simp [between]

theorem readsAs_var {p : Tree.Path} (h : PathReadsAs ws p) : ReadsAs ws (.var p) := by
  refine .ofAtom (fun depth rest hdepth hrest => ?_) (fun k rest hk hrest => ?_)
  · obtain ⟨n, words, rfl⟩ := h.starts
    obtain ⟨depth, rfl⟩ : ∃ d, depth = d + 1 :=
      Nat.exists_eq_add_one_of_ne_zero (by simp only [List.length_cons] at hdepth; omega)
    have hpath := h.reads (readsWithin_expressionWithin (Nat.lt_succ_self depth)) hdepth rest
      (hrest.mono fun k => endsPath_of_endsLevel)
    have hhash := h.named .hash rest (by decide) (by decide) (hrest.parse_token rfl)
    have hparen := h.named .leftParen rest (by decide) (by decide) (hrest.parse_token rfl)
    simp only [tokens_cons, List.cons_append] at hpath hhash hparen ⊢
    simp only [parse_bind, parse_identifier, Option.bind_some] at hhash hparen
    simp [operandWithin, primary, parse_unary_ident, typedLiteral, call, hhash, hparen, parse_spanned_none,
      parse_unsignedConstant_ident, hpath, Tree.Expr.erase]
  · rcases hk with rfl | rfl
    · exact h.named .assignment rest (by decide) (by decide) hrest
    · exact h.named .rightArrow rest (by decide) (by decide) hrest

theorem typedValue_reads :
    Yields typedValue fun v => v.isBasic = true → ∀ rest, parse typedValue (tokens v.words ++ rest) = some (v.erase, rest) := by
  refine .orElse (constant_basic.mono fun v hv hbasic rest => ?_) (.map (.mono .any fun n _ _ rest => ?_))
  · simp [typedValue, parse_constant (hv hbasic) rest]
  · simp [typedValue, enumerated, Value.words, Value.erase, parse_constant_ident]

theorem primary_reads {expr : Parser Tree.Expr} (hexpr : Yields expr fun e => e.isBasic = true → ExprReads e) :
    Yields (primary expr) fun e => e.isBasic = true → ExprReads e := by
  refine .orElse (.skip fun _ => hexpr.bind fun e he => .skip fun _ => .pure he) ?_
  have htyped : Yields typedLiteral fun found => found.2.isBasic = true →
      ∀ rest, parse typedValue (tokens found.2.words ++ rest) = some (found.2.erase, rest) :=
    .skip fun _ => .skip fun _ => typedValue_reads.bind fun _ hv => .pure hv
  refine .orElse (htyped.spanned.bind fun found h => .pure fun hbasic => readsAs_typed (h hbasic) _ _) ?_
  refine .orElse (unsignedConstant_basic.spanned.bind fun found h => .pure fun hbasic => ?_) ?_
  · exact readsAs_constant (h hbasic).1 (h hbasic).2 _
  refine .orElse ((call_reads hexpr).spanned.bind fun found h => .pure fun hbasic => ?_) ?_
  · simpa [ExprReads, Tree.Expr.words] using readsAs_call (h hbasic) found.1.1 found.2
  exact .map ((path_reads hexpr).mono fun p hp hbasic => readsAs_var (hp hbasic))

theorem extend_reads {operand : Nat → Parser Tree.Expr}
    (hoperand : ∀ n, Yields (operand n) fun e => e.isBasic = true → ExprReads e) (level bound : Nat) {left : Tree.Expr}
    (hleft : left.isBasic = true → ExprReads left) :
    Yields (extend operand level left bound) fun e => e.isBasic = true → ExprReads e := by
  induction bound generalizing left with
  | zero => exact .pure hleft
  | succ bound ih =>
    refine .orElse (.skip fun b => (hoperand b.right).bind fun right hright => ih fun hbasic => ?_) (.pure hleft)
    obtain ⟨hl, hr⟩ : left.isBasic = true ∧ right.isBasic = true := Bool.and_eq_true_iff.mp hbasic
    exact .binary (hleft hl) (hright hr) _ _

/-- What the grammar yields as an expression is read back, if its constants can be printed. -/
theorem expressionWithin_reads (depth level : Nat) :
    Yields (expressionWithin depth level) fun e => e.isBasic = true → ExprReads e := by
  induction depth generalizing level with
  | zero => exact .fail
  | succ depth ih =>
    rw [expressionWithin_succ]
    have hoperand : Yields (operandWithin depth) fun e => e.isBasic = true → ExprReads e := by
      refine .orElse (.skip fun _ => (ih _).bind fun e he => .pure fun hbasic => ?_) (primary_reads (ih 0))
      exact .unary (he hbasic) _ _
    exact hoperand.bind fun left hleft => .bounded fun bound => extend_reads ih level bound hleft

theorem expression_reads : Yields expression fun e => e.isBasic = true → ExprReads e :=
  .bounded fun _ => expressionWithin_reads _ _

theorem variablePath_reads : Yields variablePath fun p => p.isBasic = true → PathReads p := path_reads expression_reads

/-- An expression is read in front of what closes it. -/
theorem parse_expression (h : ReadsAs ws e) (rest : List Token) (hrest : Before closesExpr rest) :
    parse expression (tokens ws ++ rest) = some (e.erase, rest) :=
  (readsWithin_expression _).reads h (Nat.le_refl _) rest hrest

theorem parse_variablePath {p : Tree.Path} {rest : List Token} (h : PathReadsAs ws p) (hrest : Before endsPath rest) :
    parse variablePath (tokens ws ++ rest) = some (p.erase, rest) :=
  h.reads (readsWithin_expression ws.length) (by omega) rest hrest

end Grammar

end StructuredText
