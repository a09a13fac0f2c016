-- SUMMARY: Statements are read back from their printed words.
import StructuredText.Proofs.ReadExpressions

/-!
# Reading back statements

A printed statement ends with a semicolon, so it is read whatever follows it. A list of statements ends where no statement
starts: at a keyword that closes or divides the statement around it, or at the labels of the next arm of a case
statement, which begin like an assignment but do not go on like one.
-/

namespace StructuredText.Grammar

open StructuredText.Parser
open Word (mark ident number)

-- ---------------------------------------------------------------------------
-- Where a list of statements ends
-- ---------------------------------------------------------------------------

/-- No statement starts here. -/
def Stops (ts : List Token) : Prop := ∀ statements, parse (statementItem statements) ts = none

/-- The kinds of tokens that a statement or a semicolon starts with. -/
def startsStatement : TokenKind → Bool
  | .kwIf | .kwCase | .kwFor | .kwWhile | .kwRepeat | .identifier | .kwExit | .kwReturn | .semicolon => true
  | _ => false

def startsNoStatement (k : TokenKind) : Bool := !startsStatement k

theorem parse_compound_none {ts : List Token} {passes : TokenKind → Bool} (h : Before passes ts) (hif : passes .kwIf = false)
    (hcase : passes .kwCase = false) (hfor : passes .kwFor = false) (hwhile : passes .kwWhile = false)
    (hrepeat : passes .kwRepeat = false) (statements : Parser (List Tree.Stmt)) :
    parse (placed (compoundStatement statements)) ts = none := by
  have hnone : parse (compoundStatement statements) ts = none := by
    simp [compoundStatement, ifStatement, branch, caseStatement, forStatement, whileStatement, repeatStatement,
      h.parse_token hif, h.parse_token hcase, h.parse_token hfor, h.parse_token hwhile, h.parse_token hrepeat]
  simp [placed, parse_spanned_none hnone]

theorem parse_variablePath_none {ts : List Token} (h : parse identifier ts = none) : parse variablePath ts = none := by
  have hsegment : parse (segment expression) ts = none := by simp [segment, h, parse_spanned_none]
  simp [variablePath, path, sepBy1, hsegment, parse_spanned_none]

theorem stops_of_before {ts : List Token} (h : Before startsNoStatement ts) : Stops ts := by
  intro statements
  have hname : parse identifier ts = none := parse_identifier_none h rfl
  have hexit : parse (token .kwExit) ts = none := h.parse_token rfl
  have hreturn : parse (token .kwReturn) ts = none := h.parse_token rfl
  have hsemicolon : parse (token .semicolon) ts = none := h.parse_token rfl
  have hsimple : parse (placed simpleStatement) ts = none := by
    simp [placed, simpleStatement, assignment, call, parse_variablePath_none hname, hname, hexit, hreturn, parse_spanned_none]
  simp [statementItem, parse_compound_none h rfl rfl rfl rfl rfl, hsimple, hsemicolon]

/-- The kinds of tokens that follow a value in the labels of a case statement. -/
def endsLabelValue : TokenKind → Bool
  | .range | .comma | .colon => true
  | _ => false

theorem endsPath_of_endsLabelValue {k : TokenKind} (h : endsLabelValue k = true) : endsPath k = true := by
  cases k <;> first | rfl | cases h

/-- A variable in a label is no statement, since no sign for assignment follows it. -/
theorem stops_path {p : Tree.Path} (h : PathReads p) {rest : List Token} (hrest : Before endsLabelValue rest) :
    Stops (tokens p.words ++ rest) := by
  intro statements
  have hpath := parse_variablePath h (hrest.mono fun k => endsPath_of_endsLabelValue)
  have hassignment : parse (token .assignment) rest = none := hrest.parse_token rfl
  have hparen := h.named .leftParen rest (by decide) (by decide) (hrest.parse_token rfl)
  obtain ⟨n, words, hwords⟩ := h.starts
  rw [hwords] at hpath hparen ⊢
  simp only [tokens_cons, List.cons_append, parse_bind, parse_identifier, Option.bind_some] at hpath hparen ⊢
  have hfirst : Before (· == .identifier) ((ident n).token :: (tokens words ++ rest)) := by simp
  have hsimple : parse (placed simpleStatement) ((ident n).token :: (tokens words ++ rest)) = none := by
    simp [placed, simpleStatement, assignment, hpath, hassignment, call, hparen, parse_spanned_none]
  simp [statementItem, parse_compound_none hfirst rfl rfl rfl rfl rfl, hsimple]

-- ---------------------------------------------------------------------------
-- Statements that are read back
-- ---------------------------------------------------------------------------

/-- The statement is read back from its words and a semicolon. -/
def StmtReads (s : Tree.Stmt) : Prop :=
  ∀ depth rest, s.words.length ≤ depth →
    parse (statementItem (statementsWithin depth)) (tokens (s.words ++ [mark .semicolon]) ++ rest) =
      some (some s.erase, rest)

/-- The statements are read back from their words where no other statement follows. -/
def StatementsRead (ss : List Tree.Stmt) : Prop :=
  ∀ depth rest, (Tree.Stmt.wordsOfAll ss).length < depth → Stops rest →
    parse (statementsWithin depth) (tokens (Tree.Stmt.wordsOfAll ss) ++ rest) = some (Tree.Stmt.eraseAll ss, rest)

theorem statementsRead {ss : List Tree.Stmt} (h : ∀ s ∈ ss, StmtReads s) : StatementsRead ss := by
  intro depth rest hdepth hrest
  obtain ⟨depth, rfl⟩ : ∃ d, depth = d + 1 := Nat.exists_eq_add_one_of_ne_zero (by omega)
  rw [Tree.Stmt.wordsOfAll_eq] at hdepth ⊢
  have hitems : parse (many (statementItem (statementsWithin depth)))
      (tokens (ss.flatMap (·.words ++ [mark .semicolon])) ++ rest) = some (ss.map (some ·.erase), rest) := by
    refine parse_many_ended (fun s : Tree.Stmt => s.words ++ [mark .semicolon]) _ (fun s hs after => h s hs depth after ?_) (hrest _) (by simp)
    have hsub : (s.words ++ [mark .semicolon]).Sublist (ss.flatMap (·.words ++ [mark .semicolon])) :=
      List.sublist_flatten_of_mem (List.mem_map_of_mem hs)
    have := hsub.length_le
    simp only [List.length_append] at this
    omega
  simp [statementsWithin, hitems, Tree.Stmt.eraseAll_eq]

/-- A statement with statements inside is read back if it is read back up to the semicolon. -/
theorem StmtReads.ofCompound {s : Tree.Stmt} (hne : s.words ≠ [])
    (h : ∀ depth rest, s.words.length ≤ depth → ∃ f,
      parse (compoundStatement (statementsWithin depth)) (tokens s.words ++ rest) = some (f, rest) ∧ f .origin = s.erase) :
    StmtReads s := by
  intro depth rest hdepth
  obtain ⟨f, hread, hf⟩ := h depth ((mark .semicolon).token :: rest) hdepth
  simp [statementItem, placed, parse_spanned hne hread, hf]

/-- A statement without statements inside is read back if it is not taken for one that has some. -/
theorem StmtReads.ofSimple {s : Tree.Stmt} (passes : TokenKind → Bool) (hne : s.words ≠ [])
    (hstarts : ∀ rest, Before passes (tokens s.words ++ rest)) (hif : passes .kwIf = false)
    (hcase : passes .kwCase = false) (hfor : passes .kwFor = false) (hwhile : passes .kwWhile = false)
    (hrepeat : passes .kwRepeat = false)
    (h : ∀ rest, ∃ f, parse simpleStatement (tokens s.words ++ (mark .semicolon).token :: rest) =
      some (f, (mark .semicolon).token :: rest) ∧ f .origin = s.erase) :
    StmtReads s := by
  intro depth rest _
  obtain ⟨f, hread, hf⟩ := h rest
  have hcompound := parse_compound_none (hstarts ((mark .semicolon).token :: rest)) hif hcase hfor hwhile hrepeat
    (statementsWithin depth)
  simp [statementItem, hcompound]
  simp [placed, parse_spanned hne hread, hf]

-- ---------------------------------------------------------------------------
-- Simple statements
-- ---------------------------------------------------------------------------

theorem parse_assignment {target : Tree.Path} {value : Tree.Expr} (ht : PathReads target) (hv : ExprReads value)
    (rest : List Token) (hrest : Before closesExpr rest) :
    parse assignment (tokens (target.words ++ mark .assignment :: value.words) ++ rest) =
      some ((target.erase, value.erase), rest) := by
  have htarget : parse variablePath
      (tokens target.words ++ (mark .assignment).token :: (tokens value.words ++ rest)) = some (target.erase, _) :=
    parse_variablePath ht (by simp [endsPath])
  simp [assignment, htarget, parse_expression hv rest hrest]

/-- A variable is no assignment without the sign for it. -/
theorem parse_assignment_path {ws : List Word} {target : Tree.Path} (h : PathReadsAs ws target) {rest : List Token}
    (hends : Before endsPath rest) (hassignment : parse (token .assignment) rest = none) :
    parse assignment (tokens ws ++ rest) = none := by
  simp [assignment, parse_variablePath h hends, hassignment]

/-- A name is no assignment if what follows it neither goes on with a variable nor is the sign for an assignment. -/
theorem parse_assignment_name (n : Ident) {rest : List Token} (hends : Before endsPath rest)
    (hassignment : parse (token .assignment) rest = none) : parse assignment ((ident n).token :: rest) = none := by
  have hsegment : SegmentReadsAs [ident n] (.mk n [] .origin) :=
    @segmentReadsAs Tree.Expr.words [] (by simp) n .origin
  have hname : PathReadsAs [ident n] (.mk [.mk n [] .origin] .origin) :=
    @pathReadsAs (fun _ => [ident n]) [.mk n [] .origin] (by simp) (by simpa using hsegment) .origin
  exact parse_assignment_path hname hends hassignment

theorem stmtReads_assign {target : Tree.Path} {value : Tree.Expr} (ht : PathReads target) (hv : ExprReads value)
    (span : Span) : StmtReads (.assign target value span) := by
  have hstarts (rest : List Token) :
      Before (· == .identifier) (tokens (Tree.Stmt.assign target value span).words ++ rest) := by
    obtain ⟨n, words, hwords⟩ := ht.starts
    simp [Tree.Stmt.words, hwords]
  refine .ofSimple _ (by simp [Tree.Stmt.words]) hstarts rfl rfl rfl rfl rfl fun rest =>
    ⟨.assign target.erase value.erase, ?_, rfl⟩
  have hread := parse_assignment ht hv ((mark .semicolon).token :: rest) (by simp [closesExpr])
  simp only [Tree.Stmt.words, simpleStatement, parse_orElse, parse_bind, hread]
  simp

theorem stmtReads_call {args : List Tree.Arg} (h : ∀ arg ∈ args, ArgReads arg) (n : Ident) (span : Span) :
    StmtReads (.call n args span) := by
  refine .ofSimple (· == .identifier) (by simp [Tree.Stmt.words, Tree.callWords])
    (fun rest => by simp [Tree.Stmt.words, Tree.callWords]) rfl rfl rfl rfl rfl fun rest => ⟨.call n.erase (args.map (·.erase)), ?_, by simp [Tree.Stmt.erase]⟩
  have hcall := parse_call (readsWithin_expression _) h n (Nat.le_succ _) ((mark .semicolon).token :: rest)
  rw [← Tree.Arg.wordsOfAll_eq, ← Tree.callWords] at hcall
  have hassignment : parse assignment (tokens (Tree.callWords n args) ++ (mark .semicolon).token :: rest) = none :=
    parse_assignment_name n (by simp [between, endsPath]) (by simp [between])
  simp only [Tree.Stmt.words, simpleStatement, parse_orElse, parse_bind, hassignment, hcall]
  simp

theorem parse_assignment_none {ts : List Token} (h : parse identifier ts = none) : parse assignment ts = none := by
  simp [assignment, parse_variablePath_none h]

theorem stmtReads_exit (span : Span) : StmtReads (.exit span) := by
  refine .ofSimple (· == .kwExit) (by simp [Tree.Stmt.words]) (fun rest => by simp [Tree.Stmt.words])
    rfl rfl rfl rfl rfl fun rest => ⟨.exit, ?_, rfl⟩
  have hname : parse identifier ((mark .kwExit).token :: (mark .semicolon).token :: rest) = none := by simp [identifier]
  simp [Tree.Stmt.words, simpleStatement, parse_assignment_none hname, call, hname]

theorem stmtReads_ret (span : Span) : StmtReads (.ret span) := by
  refine .ofSimple (· == .kwReturn) (by simp [Tree.Stmt.words]) (fun rest => by simp [Tree.Stmt.words])
    rfl rfl rfl rfl rfl fun rest => ⟨.ret, ?_, rfl⟩
  have hname : parse identifier ((mark .kwReturn).token :: (mark .semicolon).token :: rest) = none := by simp [identifier]
  simp [Tree.Stmt.words, simpleStatement, parse_assignment_none hname, call, hname]

theorem assignment_reads : Yields assignment fun found =>
    (found.1.isBasic = true → PathReads found.1) ∧ (found.2.isBasic = true → ExprReads found.2) :=
  variablePath_reads.bind fun _ ht => .skip fun _ => expression_reads.bind fun _ hv => .pure ⟨ht, hv⟩

theorem simpleStatement_reads : Yields simpleStatement fun f => ∀ span, (f span).isBasic = true → StmtReads (f span) := by
  refine .orElse (assignment_reads.bind fun found h => .pure fun span hbasic => ?_) ?_
  · obtain ⟨ht, hv⟩ := Bool.and_eq_true_iff.mp hbasic
    exact stmtReads_assign (h.1 ht) (h.2 hv) span
  refine .orElse ((call_reads expression_reads).bind fun found h => .pure fun span hbasic =>
    stmtReads_call (h hbasic) _ span) ?_
  exact .orElse (.skip fun _ => .pure fun span _ => stmtReads_exit span) (.skip fun _ => .pure fun span _ => stmtReads_ret span)

-- ---------------------------------------------------------------------------
-- Labels
-- ---------------------------------------------------------------------------

/-- The value is read back in a label, and no statement starts at it. -/
structure LabelValueReads (e : Tree.Expr) : Prop where
  reads (rest : List Token) (hrest : Before endsLabelValue rest) :
    parse caseValue (tokens e.words ++ rest) = some (e.erase, rest)
  stops (rest : List Token) (hrest : Before endsLabelValue rest) : Stops (tokens e.words ++ rest)

theorem caseValue_reads : Yields caseValue fun e => e.isBasic = true → LabelValueReads e := by
  refine .orElse (constant_basic.spanned.bind fun found h => .pure fun hbasic => ?_)
    (.map (variablePath_reads.mono fun p hp hbasic => ?_))
  · have hconstant := h hbasic
    have hne : found.1.words ≠ [] := by
      intro hnil
      have hread := parse_constant hconstant [(ident ⟨"", .origin⟩).token]
      rw [hnil] at hread
      simp [parse_constant_ident] at hread
    refine ⟨fun rest _ => ?_, fun rest _ => stops_of_before ((hconstant.starts rest).mono fun k hk => ?_)⟩
    · simp [caseValue, Tree.Expr.words, Tree.Expr.erase, parse_spanned hne (parse_constant hconstant rest)]
    · cases k <;> first | rfl | cases hk
  · have hpath : PathReads p := hp hbasic
    refine ⟨fun rest hrest => ?_, fun rest hrest => stops_path hpath hrest⟩
    have hread := parse_variablePath hpath (hrest.mono fun k => endsPath_of_endsLabelValue)
    obtain ⟨n, words, hwords⟩ := hpath.starts
    rw [Tree.Expr.words, hwords, tokens_cons, List.cons_append]
    rw [hwords, tokens_cons, List.cons_append] at hread
    simp [caseValue, parse_constant_ident, parse_spanned_none, hread, Tree.Expr.erase]

/-- The kinds of tokens that follow a label. -/
def endsLabel : TokenKind → Bool
  | .comma | .colon => true
  | _ => false

theorem endsLabelValue_of_endsLabel {k : TokenKind} (h : endsLabel k = true) : endsLabelValue k = true := by
  cases k <;> first | rfl | cases h

/-- The label is read back, and no statement starts at it. -/
structure LabelReads (l : Tree.CaseLabel) : Prop where
  reads (rest : List Token) (hrest : Before endsLabel rest) : parse caseLabel (tokens l.words ++ rest) = some (l.erase, rest)
  stops (rest : List Token) (hrest : Before endsLabel rest) : Stops (tokens l.words ++ rest)

theorem caseLabel_reads : Yields caseLabel fun l => l.isBasic = true → LabelReads l := by
  refine .orElse (caseValue_reads.bind fun low hlow => .skip fun _ => caseValue_reads.bind fun high hhigh =>
    .pure fun hbasic => ?_) (.map (caseValue_reads.mono fun e he hbasic => ?_))
  · obtain ⟨hl, hh⟩ := Bool.and_eq_true_iff.mp hbasic
    refine ⟨fun rest hrest => ?_, fun rest hrest => ?_⟩
    · have hfirst := (hlow hl).reads ((mark .range).token :: (tokens high.words ++ rest)) (by simp [endsLabelValue])
      have hsecond := (hhigh hh).reads rest (hrest.mono fun k => endsLabelValue_of_endsLabel)
      simp [caseLabel, Tree.CaseLabel.words, Tree.CaseLabel.erase, hfirst, hsecond]
    · have hstops := (hlow hl).stops ((mark .range).token :: (tokens high.words ++ rest)) (by simp [endsLabelValue])
      simpa [Tree.CaseLabel.words] using hstops
  · have he : LabelValueReads e := he hbasic
    have hends : ∀ rest, Before endsLabel rest → Before endsLabelValue rest :=
      fun rest hrest => hrest.mono fun k => endsLabelValue_of_endsLabel
    refine ⟨fun rest hrest => ?_, fun rest hrest => he.stops rest (hends rest hrest)⟩
    have hrange : parse (token .range) rest = none := hrest.parse_token rfl
    simp [caseLabel, Tree.CaseLabel.words, Tree.CaseLabel.erase, he.reads rest (hends rest hrest), hrange]

-- ---------------------------------------------------------------------------
-- Statements with statements inside
-- ---------------------------------------------------------------------------

open Tree.Stmt (wordsOfAll wordsOfOption branchWords armWords eraseAll eraseOption)

theorem stops_mark {k : TokenKind} (h : startsNoStatement k = true) (rest : List Token) :
    Stops ((mark k).token :: rest) := stops_of_before (by simpa using h)

theorem parse_branch (keyword : TokenKind) {b : Tree.Expr × List Tree.Stmt} {depth : Nat} {rest : List Token}
    (hcondition : ExprReads b.1) (hbody : StatementsRead b.2) (hdepth : (branchWords keyword b).length ≤ depth)
    (hrest : Stops rest) :
    parse (branch keyword (statementsWithin depth)) (tokens (branchWords keyword b) ++ rest) =
      some ((b.1.erase, eraseAll b.2), rest) := by
  simp only [branchWords, List.length_append, List.length_cons] at hdepth
  have hfirst := parse_expression hcondition ((mark .kwThen).token :: (tokens (wordsOfAll b.2) ++ rest))
    (by simp [closesExpr])
  have hsecond := hbody depth rest (by omega) hrest
  simp only [branch, branchWords, tokens_append, tokens_cons, List.cons_append, List.append_assoc, parse_bind,
    parse_token_cons, Word.token_kind, Word.mark_kind, ↓reduceIte, Option.bind_some, hfirst, hsecond, parse_pure]

/-- The keyword that closes a statement ends its last list of statements. -/
theorem stops_option {otherwise : Option (List Tree.Stmt)} {closing : TokenKind} (h : startsNoStatement closing = true)
    (rest : List Token) : Stops (tokens (wordsOfOption otherwise) ++ (mark closing).token :: rest) := by
  cases otherwise with
  | none => exact stops_mark h rest
  | some ss => exact stops_mark rfl _

theorem parse_option {otherwise : Option (List Tree.Stmt)} {closing : TokenKind} {depth : Nat}
    (hbody : ∀ ss ∈ otherwise, StatementsRead ss) (h : startsNoStatement closing = true) (hne : closing ≠ .kwElse)
    (hdepth : (wordsOfOption otherwise).length ≤ depth) (rest : List Token) :
    parse (optional (elseStatements (statementsWithin depth)))
        (tokens (wordsOfOption otherwise) ++ (mark closing).token :: rest) =
      some (eraseOption otherwise, (mark closing).token :: rest) := by
  cases otherwise with
  | none => simp [elseStatements, wordsOfOption, eraseOption, hne]
  | some ss =>
    simp only [wordsOfOption, List.length_cons] at hdepth
    have hread := hbody ss rfl depth ((mark closing).token :: rest) (by omega) (stops_mark h rest)
    simp only [parse_optional, elseStatements, wordsOfOption, eraseOption, tokens_cons, List.cons_append, parse_bind,
      parse_token_cons, Word.token_kind, Word.mark_kind, ↓reduceIte, Option.bind_some, hread, Option.elim_some]

theorem stmtReads_ifThen {first : Tree.Expr × List Tree.Stmt} {branches : List (Tree.Expr × List Tree.Stmt)}
    {otherwise : Option (List Tree.Stmt)} (hbranches : ∀ b ∈ first :: branches, ExprReads b.1 ∧ StatementsRead b.2)
    (hotherwise : ∀ ss ∈ otherwise, StatementsRead ss) (span : Span) :
    StmtReads (.ifThen (first :: branches) otherwise span) := by
  have hwords : (Tree.Stmt.ifThen (first :: branches) otherwise span).words =
      branchWords .kwIf first ++ branches.flatMap (branchWords .kwElsif) ++ wordsOfOption otherwise ++ [mark .kwEndIf] := by
    rw [Tree.Stmt.words, Tree.Stmt.wordsOfBranches_cons]
  let read := fun b : Tree.Expr × List Tree.Stmt => (b.1.erase, eraseAll b.2)
  refine .ofCompound (by simp [hwords]) fun depth rest hdepth =>
    ⟨.ifThen ((first :: branches).map read) (eraseOption otherwise), ?_, by simp [Tree.Stmt.erase, read]⟩
  rw [hwords] at hdepth ⊢
  simp only [List.length_append] at hdepth
  let closed := tokens (wordsOfOption otherwise) ++ (mark .kwEndIf).token :: rest
  have hclosed : Stops closed := stops_option rfl rest
  have hmore : parse (many (branch .kwElsif (statementsWithin depth)))
      (tokens (branches.flatMap (branchWords .kwElsif)) ++ closed) = some (branches.map read, closed) := by
    refine parse_many (branchWords .kwElsif) read Stops (fun b hb after hafter => ?_) (fun b hb after _ => ?_) hclosed ?_ ?_
    · obtain ⟨hcondition, hbody⟩ := hbranches b (List.mem_cons_of_mem _ hb)
      have hlength : (branchWords .kwElsif b).length ≤ (branches.flatMap (branchWords .kwElsif)).length :=
        (List.sublist_flatten_of_mem (List.mem_map_of_mem hb)).length_le
      exact parse_branch _ hcondition hbody (by omega) hafter
    · exact stops_mark rfl _
    · cases otherwise <;> simp [closed, branch, wordsOfOption]
    · simp [branchWords]
  have hnext : Stops (tokens (branches.flatMap (branchWords .kwElsif)) ++ closed) := by
    cases branches with
    | nil => exact hclosed
    | cons b branches => exact stops_mark rfl _
  obtain ⟨hcondition, hbody⟩ := hbranches first (by simp)
  have hfirst : parse (branch .kwIf (statementsWithin depth)) _ = _ := parse_branch _ hcondition hbody (by omega) hnext
  have hlast : parse (optional (elseStatements (statementsWithin depth))) closed = _ :=
    parse_option hotherwise rfl (by decide) (by omega) rest
  simp only [tokens_append, tokens_cons, tokens_nil, List.append_assoc, List.cons_append, List.nil_append]
  simp only [closed] at hfirst hmore hlast
  simp [-parse_optional, compoundStatement, ifStatement, hfirst, hmore, hlast, read]

/-- An arm of a case statement is read back where no statement follows it, and no statement starts at it. -/
structure ArmReads (arm : List Tree.CaseLabel × List Tree.Stmt) : Prop where
  reads (depth : Nat) (rest : List Token) (hdepth : (armWords arm).length ≤ depth) (hrest : Stops rest) :
    parse (caseArm (statementsWithin depth)) (tokens (armWords arm) ++ rest) =
      some ((arm.1.map (·.erase), eraseAll arm.2), rest)
  stops (rest : List Token) : Stops (tokens (armWords arm) ++ rest)

theorem armReads {labels : List Tree.CaseLabel} {ss : List Tree.Stmt} (hne : labels ≠ [])
    (hlabels : ∀ l ∈ labels, LabelReads l) (hbody : StatementsRead ss) : ArmReads (labels, ss) where
  reads depth rest hdepth hrest := by
    simp only [armWords, List.length_append, List.length_cons] at hdepth
    have hsep : parse (sepBy1 caseLabel (token .comma))
        (tokens (joined .comma (labels.map (·.words))) ++ (mark .colon).token :: (tokens (wordsOfAll ss) ++ rest)) =
          some (labels.map (·.erase), _) :=
      parse_sepBy1 Tree.CaseLabel.words Tree.CaseLabel.erase endsLabel hne
        (fun l hl after hafter => (hlabels l hl).reads after hafter) rfl (by simp [endsLabel]) (by simp)
    have hread := hbody depth rest (by omega) hrest
    simp only [caseArm, armWords, tokens_append, tokens_cons, List.cons_append, List.append_assoc, parse_bind, hsep,
      Option.bind_some, parse_token_cons, Word.token_kind, Word.mark_kind, ↓reduceIte, hread, parse_pure]
  stops rest := by
    obtain ⟨l, labels, rfl⟩ := List.exists_cons_of_ne_nil hne
    have hl : LabelReads l := hlabels l (by simp)
    cases labels with
    | nil =>
      have := hl.stops ((mark .colon).token :: (tokens (wordsOfAll ss) ++ rest)) (by simp [endsLabel])
      simpa [armWords, joined] using this
    | cons l' labels =>
      obtain ⟨after, hafter⟩ : ∃ after, tokens (armWords (l :: l' :: labels, ss)) ++ rest =
          tokens l.words ++ (mark .comma).token :: after := ⟨_, by simp [armWords, joined]; rfl⟩
      rw [hafter]
      exact hl.stops _ (by simp [endsLabel])

theorem stmtReads_case {selector : Tree.Expr} {arms : List (List Tree.CaseLabel × List Tree.Stmt)}
    {otherwise : Option (List Tree.Stmt)} (hselector : ExprReads selector) (harms : ∀ arm ∈ arms, ArmReads arm)
    (hotherwise : ∀ ss ∈ otherwise, StatementsRead ss) (span : Span) :
    StmtReads (.case selector arms otherwise span) := by
  let read := fun arm : List Tree.CaseLabel × List Tree.Stmt => (arm.1.map (·.erase), eraseAll arm.2)
  refine .ofCompound (by simp [Tree.Stmt.words]) fun depth rest hdepth =>
    ⟨.case selector.erase (arms.map read) (eraseOption otherwise), ?_, by simp [Tree.Stmt.erase, read]⟩
  simp only [Tree.Stmt.words, Tree.Stmt.wordsOfArms_eq, List.length_append, List.length_cons] at hdepth
  let closed := tokens (wordsOfOption otherwise) ++ (mark .kwEndCase).token :: rest
  have hclosed : Stops closed := stops_option rfl rest
  have hmore : parse (many (caseArm (statementsWithin depth))) (tokens (arms.flatMap armWords) ++ closed) =
      some (arms.map read, closed) := by
    refine parse_many armWords read Stops (fun arm harm after hafter => ?_) (fun arm harm after _ => ?_) hclosed ?_ ?_
    · have hlength : (armWords arm).length ≤ (arms.flatMap armWords).length :=
        (List.sublist_flatten_of_mem (List.mem_map_of_mem harm)).length_le
      exact (harms arm harm).reads depth after (by omega) hafter
    · exact (harms arm harm).stops after
    · have hvalue : parse caseValue closed = none := by
        have hname : parse identifier closed = none := by cases otherwise <;> simp [closed, identifier, wordsOfOption]
        have hconstant : parse constant closed = none := by
          cases otherwise <;> simp [closed, constant, unsignedConstant, real, integer, literal, wordsOfOption]
        simp [caseValue, parse_spanned_none hconstant, parse_variablePath_none hname]
      simp [caseArm, sepBy1, caseLabel, hvalue]
    · simp [armWords]
  have hfirst := parse_expression hselector ((mark .kwOf).token :: (tokens (arms.flatMap armWords) ++ closed))
    (by simp [closesExpr])
  have hlast : parse (optional (elseStatements (statementsWithin depth))) closed = _ :=
    parse_option hotherwise rfl (by decide) (by omega) rest
  simp only [closed] at hfirst hmore hlast
  simp [-parse_optional, Tree.Stmt.words, compoundStatement, ifStatement, branch, caseStatement, hfirst, hmore, hlast]

theorem stmtReads_forLoop {control : Tree.Path} {start stop : Tree.Expr} {step : Option Tree.Expr} {body : List Tree.Stmt}
    (hcontrol : PathReads control) (hstart : ExprReads start) (hstop : ExprReads stop) (hstep : ∀ e ∈ step, ExprReads e)
    (hbody : StatementsRead body) (span : Span) : StmtReads (.forLoop control start stop step body span) := by
  refine .ofCompound (by simp [Tree.Stmt.words]) fun depth rest hdepth =>
    ⟨.forLoop control.erase start.erase stop.erase (step.map (·.erase)) (eraseAll body), ?_, by simp [Tree.Stmt.erase]⟩
  simp only [Tree.Stmt.words, List.length_append, List.length_cons] at hdepth
  let inner := tokens (wordsOfAll body) ++ (mark .kwEndFor).token :: rest
  have hread : parse (statementsWithin depth) inner = some (eraseAll body, (mark .kwEndFor).token :: rest) :=
    hbody depth _ (by omega) (stops_mark rfl rest)
  have hby : parse (optional (do let _ ← token .kwBy; expression))
      (tokens (step.elim [] (mark .kwBy :: ·.words)) ++ (mark .kwDo).token :: inner) =
        some (step.map (·.erase), (mark .kwDo).token :: inner) := by
    cases step with
    | none => simp
    | some e => simp [parse_expression (hstep e rfl) ((mark .kwDo).token :: inner) (by simp [closesExpr])]
  have hto := parse_expression hstop (tokens (step.elim [] (mark .kwBy :: ·.words)) ++ (mark .kwDo).token :: inner)
    (by cases step <;> simp [closesExpr])
  have hfirst := parse_assignment hcontrol hstart ((mark .kwTo).token :: (tokens stop.words ++
    (tokens (step.elim [] (mark .kwBy :: ·.words)) ++ (mark .kwDo).token :: inner))) (by simp [closesExpr])
  simp only [inner, tokens_append, tokens_cons, List.append_assoc, List.cons_append] at hread hby hto hfirst
  simp only [Tree.Stmt.words, tokens_append, tokens_cons, tokens_nil, List.append_assoc, List.cons_append, List.nil_append]
  simp [-parse_optional, compoundStatement, ifStatement, branch, caseStatement, forStatement, hfirst, hto, hby, hread]

theorem stmtReads_whileLoop {condition : Tree.Expr} {body : List Tree.Stmt} (hcondition : ExprReads condition)
    (hbody : StatementsRead body) (span : Span) : StmtReads (.whileLoop condition body span) := by
  refine .ofCompound (by simp [Tree.Stmt.words]) fun depth rest hdepth =>
    ⟨.whileLoop condition.erase (eraseAll body), ?_, by simp [Tree.Stmt.erase]⟩
  simp only [Tree.Stmt.words, List.length_append, List.length_cons] at hdepth
  have hread := hbody depth ((mark .kwEndWhile).token :: rest) (by omega) (stops_mark rfl rest)
  have hfirst := parse_expression hcondition
    ((mark .kwDo).token :: (tokens (wordsOfAll body) ++ (mark .kwEndWhile).token :: rest)) (by simp [closesExpr])
  simp only [Tree.Stmt.words, tokens_append, tokens_cons, tokens_nil, List.append_assoc, List.cons_append, List.nil_append]
  simp [compoundStatement, ifStatement, branch, caseStatement, forStatement, whileStatement,
    hfirst, hread]

theorem stmtReads_repeatLoop {condition : Tree.Expr} {body : List Tree.Stmt} (hcondition : ExprReads condition)
    (hbody : StatementsRead body) (span : Span) : StmtReads (.repeatLoop body condition span) := by
  refine .ofCompound (by simp [Tree.Stmt.words]) fun depth rest hdepth =>
    ⟨.repeatLoop (eraseAll body) condition.erase, ?_, by simp [Tree.Stmt.erase]⟩
  simp only [Tree.Stmt.words, List.length_append, List.length_cons] at hdepth
  have hlast := parse_expression hcondition ((mark .kwEndRepeat).token :: rest) (by simp [closesExpr])
  have hread := hbody depth ((mark .kwUntil).token :: (tokens condition.words ++ (mark .kwEndRepeat).token :: rest))
    (by omega) (stops_mark rfl _)
  simp only [Tree.Stmt.words, tokens_append, tokens_cons, tokens_nil, List.append_assoc, List.cons_append, List.nil_append]
  simp [compoundStatement, ifStatement, branch, caseStatement, forStatement, whileStatement,
    repeatStatement, hlast, hread]

-- ---------------------------------------------------------------------------
-- Lists of statements
-- ---------------------------------------------------------------------------

section

variable {statements : Parser (List Tree.Stmt)}
  (hp : Yields statements fun ss => Tree.Stmt.areBasic ss = true → StatementsRead ss)

include hp

theorem branch_reads (keyword : TokenKind) : Yields (branch keyword statements) fun b =>
    (b.1.isBasic && Tree.Stmt.areBasic b.2) = true → ExprReads b.1 ∧ StatementsRead b.2 := by
  refine .skip fun _ => expression_reads.bind fun condition hcondition => .skip fun _ => hp.bind fun ss hss =>
    .pure fun hbasic => ?_
  obtain ⟨hc, hs⟩ := Bool.and_eq_true_iff.mp hbasic
  exact ⟨hcondition hc, hss hs⟩

theorem otherwise_reads : Yields (optional (elseStatements statements)) fun otherwise =>
    Tree.Stmt.isOptionBasic otherwise = true → ∀ ss ∈ otherwise, StatementsRead ss := by
  refine (Yields.optional (.skip fun _ => hp)).mono fun otherwise h hbasic ss hss => ?_
  cases hss
  exact h ss rfl hbasic

theorem ifStatement_reads :
    Yields (ifStatement statements) fun f => ∀ span, (f span).isBasic = true → StmtReads (f span) := by
  refine (branch_reads hp _).bind fun first hfirst => (branch_reads hp _).many.bind fun branches hbranches => ?_
  refine (otherwise_reads hp).bind fun otherwise ho => .skip fun _ => .pure fun span hbasic => ?_
  simp only [Tree.Stmt.isBasic, Tree.Stmt.areBranchesBasic_eq, List.all_cons, Bool.and_eq_true, List.all_eq_true] at hbasic
  obtain ⟨⟨hb, hbs⟩, hotherwise⟩ := hbasic
  refine stmtReads_ifThen (List.forall_mem_cons.mpr ⟨hfirst ?_, fun b hmem => hbranches b hmem ?_⟩) (ho hotherwise) span
  · simpa using hb
  · simpa using hbs b hmem

theorem caseArm_reads : Yields (caseArm statements) fun arm =>
    (arm.1.all (·.isBasic) && Tree.Stmt.areBasic arm.2) = true → ArmReads arm := by
  refine caseLabel_reads.sepBy1.bind fun labels hlabels => .skip fun _ => hp.bind fun ss hss => .pure fun hbasic => ?_
  obtain ⟨hl, hs⟩ := Bool.and_eq_true_iff.mp hbasic
  exact armReads hlabels.1 (fun l hmem => hlabels.2 l hmem (List.all_eq_true.mp hl l hmem)) (hss hs)

theorem caseStatement_reads :
    Yields (caseStatement statements) fun f => ∀ span, (f span).isBasic = true → StmtReads (f span) := by
  refine .skip fun _ => expression_reads.bind fun selector hselector => .skip fun _ => ?_
  refine (caseArm_reads hp).many.bind fun arms harms => (otherwise_reads hp).bind fun otherwise ho => .skip fun _ => ?_
  refine .pure fun span hbasic => ?_
  simp only [Tree.Stmt.isBasic, Tree.Stmt.areArmsBasic_eq, Bool.and_eq_true, List.all_eq_true] at hbasic
  obtain ⟨⟨hs, ha⟩, hotherwise⟩ := hbasic
  refine stmtReads_case (hselector hs) (fun arm hmem => harms arm hmem ?_) (ho hotherwise) span
  simpa using ha arm hmem

theorem forStatement_reads :
    Yields (forStatement statements) fun f => ∀ span, (f span).isBasic = true → StmtReads (f span) := by
  have hby : Yields (optional (do let _ ← token .kwBy; expression)) fun step =>
      step.all (·.isBasic) = true → ∀ e ∈ step, ExprReads e := by
    refine (Yields.optional (.skip fun _ => expression_reads)).mono fun step h hbasic e he => ?_
    cases he
    exact h e rfl hbasic
  refine .skip fun _ => assignment_reads.bind fun found hfirst => .skip fun _ => ?_
  refine expression_reads.bind fun stop hstop => hby.bind fun step hstep => .skip fun _ => ?_
  refine hp.bind fun body hbody => .skip fun _ => .pure fun span hbasic => ?_
  simp only [Tree.Stmt.isBasic, Bool.and_eq_true] at hbasic
  obtain ⟨⟨⟨⟨hcontrol, hstart⟩, hs⟩, hst⟩, hb⟩ := hbasic
  exact stmtReads_forLoop (hfirst.1 hcontrol) (hfirst.2 hstart) (hstop hs) (hstep hst) (hbody hb) span

theorem whileStatement_reads :
    Yields (whileStatement statements) fun f => ∀ span, (f span).isBasic = true → StmtReads (f span) := by
  refine .skip fun _ => expression_reads.bind fun condition hcondition => .skip fun _ => ?_
  refine hp.bind fun body hbody => .skip fun _ => .pure fun span hbasic => ?_
  obtain ⟨hc, hb⟩ := Bool.and_eq_true_iff.mp hbasic
  exact stmtReads_whileLoop (hcondition hc) (hbody hb) span

theorem repeatStatement_reads :
    Yields (repeatStatement statements) fun f => ∀ span, (f span).isBasic = true → StmtReads (f span) := by
  refine .skip fun _ => hp.bind fun body hbody => .skip fun _ => ?_
  refine expression_reads.bind fun condition hcondition => .skip fun _ => .pure fun span hbasic => ?_
  obtain ⟨hb, hc⟩ := Bool.and_eq_true_iff.mp hbasic
  exact stmtReads_repeatLoop (hcondition hc) (hbody hb) span

theorem statementItem_reads : Yields (statementItem statements) fun o => ∀ s ∈ o, s.isBasic = true → StmtReads s := by
  have hplaced {f : Parser (Span → Tree.Stmt)} (hf : Yields f fun f => ∀ span, (f span).isBasic = true → StmtReads (f span)) :
      Yields (placed f) fun s => s.isBasic = true → StmtReads s := hf.spanned.bind fun found h => .pure (h found.2)
  have hsome {s : Tree.Stmt} (h : s.isBasic = true → StmtReads s) : ∀ s' ∈ some s, s'.isBasic = true → StmtReads s' := by
    rintro _ ⟨⟩
    exact h
  have hcompound : Yields (compoundStatement statements) fun f => ∀ span, (f span).isBasic = true → StmtReads (f span) :=
    .orElse (ifStatement_reads hp) (.orElse (caseStatement_reads hp) (.orElse (forStatement_reads hp)
      (.orElse (whileStatement_reads hp) (repeatStatement_reads hp))))
  refine .orElse ((hplaced hcompound).bind fun _ h => .skip fun _ => .pure (hsome h)) ?_
  refine .orElse ((hplaced simpleStatement_reads).bind fun _ h => .skip fun _ => .pure (hsome h)) ?_
  exact .skip fun _ => .pure (by simp)

end

theorem statementsWithin_reads (depth : Nat) :
    Yields (statementsWithin depth) fun ss => Tree.Stmt.areBasic ss = true → StatementsRead ss := by
  induction depth with
  | zero => exact .fail
  | succ depth ih =>
    refine (statementItem_reads ih).many.bind fun items hitems => .pure fun hbasic => statementsRead fun s hs => ?_
    rw [Tree.Stmt.areBasic_eq, List.all_eq_true] at hbasic
    obtain ⟨o, ho, hsome⟩ := List.mem_filterMap.mp hs
    exact hitems o ho s hsome (hbasic s hs)

theorem statements_reads : Yields statements fun ss => Tree.Stmt.areBasic ss = true → StatementsRead ss :=
  .bounded statementsWithin_reads

theorem parse_statements {ss : List Tree.Stmt} (h : StatementsRead ss) (rest : List Token) (hrest : Stops rest) :
    parse statements (tokens (wordsOfAll ss) ++ rest) = some (eraseAll ss, rest) := by
  rw [statements, parse_bounded]
  refine h _ rest ?_ hrest
  simp only [tokens, List.length_append, List.length_map]
  omega

end StructuredText.Grammar
