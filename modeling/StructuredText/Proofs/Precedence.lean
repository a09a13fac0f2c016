-- SUMMARY: The operators group as their levels say.
import StructuredText.Proofs.ReadStatements

/-!
# Precedence

An expression that is spelled with the parentheses its operators ask for is read as itself. So between two operators that
stand next to each other, in front of their operands or between them, their levels alone decide what belongs together.
Parentheses that are not asked for change nothing.
-/

namespace StructuredText.Grammar

open StructuredText.Parser
open Word (mark ident number)
open Tree (bareIf)

variable {ws : List Word} {e : Tree.Expr} {op : BinaryOp}

-- ---------------------------------------------------------------------------
-- Operands
-- ---------------------------------------------------------------------------

/-- What holds of an operand without parentheses and of one with them holds of it as it is spelled. -/
theorem readsAs_bareIf (bare : Bool) (h : ReadsAs ws e) {p : Nat → Nat → Prop} (hatom : p atomLevel atomLevel)
    (hbare : bare = true → p (tightness e) (openness e)) :
    ∃ tight ends, p tight ends ∧ ReadsAt tight ends (bareIf bare ws) e := by
  cases bare with
  | true => exact ⟨_, _, hbare rfl, h⟩
  | false => exact ⟨_, _, hatom, h.parenthesized⟩

/-- An operand that fits in front of an operator does not take the operator up. -/
theorem fits_left (h : e.fitsLeft op = true) : op.level ≤ tightness e ∧ op.level < openness e := by
  have hlevel : op.leftLevel ≤ e.level := of_decide_eq_true h
  cases e with
  | binary op' =>
    exact ⟨Nat.le_trans op.level_le_leftLevel hlevel, BinaryOp.lt_rightLevel_of_leftLevel_le hlevel⟩
  | unary => exact ⟨Nat.le_of_lt op.level_lt_atomLevel, Nat.lt_succ_of_le (Nat.le_trans op.level_le_leftLevel hlevel)⟩
  | _ => exact ⟨Nat.le_of_lt op.level_lt_atomLevel, op.level_lt_atomLevel⟩

/-- An operand that fits behind an operator holds together at the level of what may follow the operator. -/
theorem fits_right (h : e.fitsRight op = true) : op.rightLevel ≤ tightness e ∧ op.rightLevel ≤ openness e := by
  have hpow : op.rightLevel ≤ atomLevel := Nat.le_succ_of_le op.rightLevel_le_pow
  cases e with
  | binary op' =>
    have hlevel : op.rightLevel ≤ op'.level := of_decide_eq_true h
    exact ⟨hlevel, Nat.le_trans hlevel op'.level_le_rightLevel⟩
  | unary => exact ⟨hpow, op.rightLevel_le_pow⟩
  | _ => exact ⟨hpow, hpow⟩

theorem fits_unary (h : e.fitsUnary = true) : unaryOperandLevel ≤ tightness e ∧ unaryOperandLevel ≤ openness e := by
  have hatom : unaryOperandLevel ≤ atomLevel := by decide
  cases e with
  | binary op' =>
    obtain rfl : op' = .pow := by
      revert h
      cases op' <;> first | exact fun _ => rfl | exact nofun
    exact ⟨Nat.le_refl _, Nat.le_refl _⟩
  | unary => exact ⟨hatom, Nat.le_refl _⟩
  | _ => exact ⟨hatom, hatom⟩

-- ---------------------------------------------------------------------------
-- Expressions
-- ---------------------------------------------------------------------------

theorem isConstant_of_isNumeral {v : Value} (h : Tree.isNumeral v = true) :
    IsConstant v ∧ ∀ i, v = .integer i → 0 ≤ i := by
  cases v with
  | bool b => exact ⟨.bool b, nofun⟩
  | integer i =>
    simp only [Tree.isNumeral, Bool.and_eq_true, decide_eq_true_eq] at h
    exact ⟨.integer h.2, fun j hj => Value.integer.inj hj ▸ h.1⟩
  | _ => cases h

theorem parse_typedValue {v : Value} (h : Tree.isTypedNumeral v = true) (rest : List Token) :
    parse typedValue (tokens v.words ++ rest) = some (v.erase, rest) := by
  cases v with
  | bool b => simp [typedValue, parse_constant (.bool b), -Value.words]
  | integer i => simp [typedValue, parse_constant (.integer (of_decide_eq_true h)), -Value.words]
  | enumeration n => simp [typedValue, enumerated, Value.words, Value.erase, parse_constant_ident]
  | _ => cases h

variable (also : Tree.Expr → Bool)

mutual

theorem readsAs_spelled : (e : Tree.Expr) → e.isSpelled = true → ReadsAs (e.spelled also) e
  | .constant v span, h => by
    obtain ⟨hconstant, hsign⟩ := isConstant_of_isNumeral h
    exact readsAs_constant hconstant hsign span
  | .typed type v span, h => readsAs_typed (parse_typedValue h) type span
  | .var path, h => readsAs_var (pathReadsAs_spelled path h)
  | .unary op e span, h => by
    obtain ⟨tight, ends, ⟨htight, hends⟩, hread⟩ :=
      readsAs_bareIf (e.fitsUnary && !also e)
        (p := fun tight ends => unaryOperandLevel ≤ tight ∧ unaryOperandLevel ≤ ends) (readsAs_spelled e h)
        ⟨by decide, by decide⟩ fun hbare => fits_unary (Bool.and_eq_true_iff.mp hbare).1
    exact readsAs_unary hread op span htight hends
  | .binary op left right span, h => by
    obtain ⟨hl, hr⟩ := Bool.and_eq_true_iff.mp h
    obtain ⟨tight, ends, ⟨htight, hends⟩, hleft⟩ :=
      readsAs_bareIf (left.fitsLeft op && !also left)
        (p := fun tight ends => op.level ≤ tight ∧ op.level < ends) (readsAs_spelled left hl)
        (by cases op <;> decide) fun hbare => fits_left (Bool.and_eq_true_iff.mp hbare).1
    obtain ⟨tight', ends', ⟨htight', hends'⟩, hright⟩ :=
      readsAs_bareIf (right.fitsRight op && !also right)
        (p := fun tight ends => op.rightLevel ≤ tight ∧ op.rightLevel ≤ ends) (readsAs_spelled right hr)
        (by cases op <;> decide) fun hbare => fits_right (Bool.and_eq_true_iff.mp hbare).1
    exact readsAs_binary hleft hright op span htight hends htight' hends'
  | .call n args span, h => by
    simpa [Tree.Expr.spelled] using readsAs_call (argReadsAs_spelled args h) n span

theorem pathReadsAs_spelled : (p : Tree.Path) → p.isSpelled = true → PathReadsAs (p.spelled also) p
  | .mk segments span, h => by
    obtain ⟨hne, hsegments⟩ := Bool.and_eq_true_iff.mp h
    simpa [Tree.Path.spelled] using pathReadsAs (by simpa using hne) (segmentReadsAs_spelled segments hsegments) span

theorem segmentReadsAs_spelled : (segments : List Tree.Segment) → Tree.Segment.areSpelled segments = true →
    ∀ s ∈ segments, SegmentReadsAs (s.spelled also) s
  | [], _ => nofun
  | .mk n indexes span :: segments, h => by
    obtain ⟨hindexes, hsegments⟩ := Bool.and_eq_true_iff.mp h
    exact List.forall_mem_cons.mpr
      ⟨segmentReadsAs (allReadAs_spelled indexes hindexes) n span, segmentReadsAs_spelled segments hsegments⟩

theorem allReadAs_spelled : (es : List Tree.Expr) → Tree.Expr.areSpelled es = true →
    ∀ e ∈ es, ReadsAs (e.spelled also) e
  | [], _ => nofun
  | e :: es, h => by
    obtain ⟨he, hes⟩ := Bool.and_eq_true_iff.mp h
    exact List.forall_mem_cons.mpr ⟨readsAs_spelled e he, allReadAs_spelled es hes⟩

theorem argReadsAs_spelled : (args : List Tree.Arg) → Tree.Arg.areSpelled args = true →
    ∀ arg ∈ args, ArgReadsAs (arg.spelled also) arg
  | [], _ => nofun
  | .mk none value false :: args, h => by
    obtain ⟨hvalue, hargs⟩ := Bool.and_eq_true_iff.mp h
    exact List.forall_mem_cons.mpr ⟨argReadsAs_unnamed (readsAs_spelled value hvalue), argReadsAs_spelled args hargs⟩
  | .mk (some n) value false :: args, h => by
    obtain ⟨hvalue, hargs⟩ := Bool.and_eq_true_iff.mp h
    exact List.forall_mem_cons.mpr ⟨argReadsAs_input (readsAs_spelled value hvalue) n, argReadsAs_spelled args hargs⟩
  | .mk (some n) (.var path) true :: args, h => by
    obtain ⟨hpath, hargs⟩ := Bool.and_eq_true_iff.mp h
    exact List.forall_mem_cons.mpr ⟨argReadsAs_output (pathReadsAs_spelled path hpath) n, argReadsAs_spelled args hargs⟩

end

-- ---------------------------------------------------------------------------
-- Queries
-- ---------------------------------------------------------------------------

/-- No expression is taken for the beginning of an assignment. -/
theorem parse_assignment_spelled : (e : Tree.Expr) → e.isSpelled = true → ∀ rest, Before endsPath rest →
    parse (token .assignment) rest = none → parse assignment (tokens (e.spelled also) ++ rest) = none
  | .constant v span, h, rest, _, _ => by
    refine parse_assignment_none ?_
    cases v with
    | bool b => cases b <;> simp [Tree.Expr.spelled, Value.words, identifier]
    | integer i => by_cases hneg : i < 0 <;> simp [Tree.Expr.spelled, Value.words, integerWords, hneg, identifier]
    | _ => cases h
  | .typed type v span, _, rest, _, _ => parse_assignment_name type (by simp [endsPath]) (by simp)
  | .var path, h, rest, hends, hrest => parse_assignment_path (pathReadsAs_spelled also path h) hends hrest
  | .unary op e span, _, rest, _, _ =>
    parse_assignment_none (by cases op <;> simp [Tree.Expr.spelled, identifier, UnaryOp.token])
  | .binary op left right span, h, rest, _, _ => by
    obtain ⟨hleft, -⟩ := Bool.and_eq_true_iff.mp h
    rw [Tree.Expr.spelled, tokens_append, List.append_assoc, bareIf]
    split
    · exact parse_assignment_spelled left hleft _ (by cases op <;> simp [BinaryOp.token, endsPath])
        (by cases op <;> simp [BinaryOp.token])
    · exact parse_assignment_none (by simp [between, identifier])
  | .call n args span, _, rest, _, _ =>
    parse_assignment_name n (by simp [between, endsPath]) (by simp [between])

/-- An expression is read from its words, up to spans, if the operands that need parentheses stand in them, whatever other
operands stand in parentheses as well. -/
theorem query_reads_spelled (e : Tree.Expr) (h : e.isSpelled = true) :
    parseTokens query (tokens (e.spelled also)) = .ok (.read e.erase) := by
  have hassignment := parse_assignment_spelled also e h [] (by simp) rfl
  have hexpression := parse_expression (readsAs_spelled also e h) [] (by simp)
  rw [List.append_nil] at hassignment hexpression
  have hquery : parse query (tokens (e.spelled also)) = some (.read e.erase, []) := by
    simp [query, hexpression, parse_spanned_none hassignment]
  exact Except.mapError_eq_ok.mpr (parseAll_eq_ok hquery)

/-- A variable that is a name. -/
def namedExpr (name : String) : Tree.Expr := .var (.mk [.mk ⟨name, .origin⟩ [] .origin] .origin)

/-- Signs in front of powers and behind operators, powers of powers, and operators of one level in a right operand. -/
def mixedExpr : Tree.Expr :=
  let negate (e : Tree.Expr) : Tree.Expr := .unary .negate e .origin
  let a := namedExpr "a"
  let b := namedExpr "b"
  let c := namedExpr "c"
  let difference : Tree.Expr := .binary .sub a (.binary .sub b c .origin) .origin
  let element : Tree.Path :=
    .mk [.mk ⟨"p", .origin⟩ [] .origin, .mk ⟨"q", .origin⟩ [a, negate (.constant (.integer 1) .origin)] .origin] .origin
  let call : Tree.Expr :=
    .call ⟨"f", .origin⟩ [.mk (some ⟨"x", .origin⟩) difference false, .mk (some ⟨"y", .origin⟩) (.var element) true] .origin
  .binary .and
    (.binary .le (.binary .sub (negate (.binary .pow a b .origin)) (negate (negate c)) .origin)
      (.binary .pow (.binary .pow a (negate (.binary .pow b c .origin)) .origin) (negate b) .origin) .origin)
    (.binary .eq (.unary .not call .origin) (.constant (.bool true) .origin) .origin) .origin

theorem query_reads_mixedExpr :
    mixedExpr.isSpelled = true ∧
      (mixedExpr.spelled fun _ => false).map (·.text) =
        ["-", "a", "**", "b", "-", "-", "-", "c", "<=", "(", "a", "**", "-", "b", "**", "c", ")", "**", "-", "b", "AND",
          "NOT", "f", "(", "x", ":=", "a", "-", "(", "b", "-", "c", ")", ",", "y", "=>", "p", ".", "q", "[", "a", ",", "-",
          "1", "]", ")", "=", "TRUE"] ∧
      parseTokens query (tokens (mixedExpr.spelled fun _ => false)) = .ok (.read mixedExpr.erase) :=
  ⟨by decide, by decide +kernel, query_reads_spelled _ mixedExpr (by decide)⟩

end StructuredText.Grammar
