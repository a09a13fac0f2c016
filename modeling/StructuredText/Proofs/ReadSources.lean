-- SUMMARY: Declarations and whole sources are read back from their printed words.
import StructuredText.Proofs.ReadStatements

/-!
# Reading back sources

The grammar undoes printing. Whatever tokens a source was read from, its elements are read back from their words, without
their spans. So elements that are printed alike differ in their spans only.
-/

namespace StructuredText.Grammar

open StructuredText.Parser
open Word (mark ident number)

-- ---------------------------------------------------------------------------
-- Declarations that a semicolon ends
-- ---------------------------------------------------------------------------

/-- The words are read in front of a semicolon. -/
def ReadsEnded {α : Type} (p : Parser α) (words : List Word) (a : α) : Prop :=
  ∀ rest, parse p (tokens words ++ (mark .semicolon).token :: rest) = some (a, (mark .semicolon).token :: rest)

theorem ReadsEnded.ended {α : Type} {p : Parser α} {words : List Word} {a : α} (h : ReadsEnded p words a)
    (rest : List Token) : parse (ended p) (tokens (words ++ [mark .semicolon]) ++ rest) = some (a, rest) := by
  simp [Grammar.ended, h rest]

theorem parse_initial_ended {initial : Option Value} (h : ∀ v ∈ initial, InitialReads v) :
    ReadsEnded (optional initializer) (initialWords initial) (initial.map (·.erase)) :=
  fun _ => parse_initial h (by simp [endsValue])

/-- Neither an initial value nor a semicolon makes a name a subrange. -/
theorem endsType_initial (initial : Option Value) (rest : List Token) :
    Before endsType (tokens (initialWords initial) ++ (mark .semicolon).token :: rest) := by
  cases initial <;> simp [initialWords, endsType]

theorem parse_typed {t : Tree.TypeExpr} {initial : Option Value} (ht : TypeReads t) (hinitial : ∀ v ∈ initial, InitialReads v)
    (rest : List Token) :
    parse typeExpr (tokens t.words ++ (tokens (initialWords initial) ++ (mark .semicolon).token :: rest)) =
        some (t.erase, tokens (initialWords initial) ++ (mark .semicolon).token :: rest) ∧
      parse (optional initializer) (tokens (initialWords initial) ++ (mark .semicolon).token :: rest) =
        some (initial.map (·.erase), (mark .semicolon).token :: rest) :=
  ⟨parse_typeExpr ht (endsType_initial initial rest), parse_initial_ended hinitial rest⟩

-- ---------------------------------------------------------------------------
-- Types
-- ---------------------------------------------------------------------------

def MemberReads (m : Tree.Member) : Prop := ReadsEnded member m.words m.erase

theorem member_reads : Yields member fun m => m.isBasic = true → MemberReads m := by
  refine .skip fun n => .skip fun _ => typeExpr_reads.bind fun t ht => initial_basic.bind fun initial hinitial =>
    .pure fun hbasic rest => ?_
  obtain ⟨htype, hvalue⟩ := parse_typed ht (hinitial hbasic) rest
  simp [-parse_optional, member, Tree.Member.words, Tree.Member.erase, htype, hvalue]

/-- Names in parentheses with commas among them. -/
theorem parse_names (opening closing : TokenKind) (hne : closing ≠ .comma) {names : List Ident} (hnames : names ≠ [])
    (rest : List Token) :
    parse (listed opening closing identifier)
        (tokens (between opening closing (joined .comma (names.map ([ident ·])))) ++ rest) =
      some (names.map (·.erase), rest) :=
  parse_listed ([ident ·]) Ident.erase (fun _ => true) opening closing hnames (fun n _ after _ => by simp) rfl rfl hne rest

def BodyReads (b : Tree.TypeBody) : Prop := ReadsEnded typeBody b.words b.erase

theorem bodyReads_struct {members : List Tree.Member} (hne : members ≠ []) (h : ∀ m ∈ members, MemberReads m) :
    BodyReads (.struct members) := by
  intro rest
  have hmembers : parse (some1 (ended member)) (tokens (members.flatMap (·.words ++ [mark .semicolon])) ++
      (mark .kwEndStruct).token :: (mark .semicolon).token :: rest) =
        some (members.map (·.erase), (mark .kwEndStruct).token :: (mark .semicolon).token :: rest) :=
    parse_some1_ended (fun m : Tree.Member => m.words ++ [mark .semicolon]) Tree.Member.erase hne (fun m hm after => (h m hm).ended after)
      (by simp [ended, member, identifier]) (by simp)
  simp [typeBody, structBody, Tree.TypeBody.words, Tree.TypeBody.erase, between, hmembers]

theorem bodyReads_enumeration {values : List Ident} (hne : values ≠ []) (initial : Option Ident) :
    BodyReads (.enumeration values initial) := by
  intro rest
  have hvalues := parse_names .leftParen .rightParen (by decide) hne
    (tokens (initial.elim [] fun n => [mark .assignment, ident n]) ++ (mark .semicolon).token :: rest)
  have hinitial : parse (optional (do let _ ← token .assignment; identifier))
      (tokens (initial.elim [] fun n => [mark .assignment, ident n]) ++ (mark .semicolon).token :: rest) =
        some (initial.map (·.erase), (mark .semicolon).token :: rest) := by
    cases initial <;> simp
  have hstruct : parse structBody (tokens (Tree.TypeBody.enumeration values initial).words ++
      (mark .semicolon).token :: rest) = none := by
    simp [structBody, Tree.TypeBody.words, between]
  rw [typeBody, parse_orElse, hstruct]
  simp [-parse_optional, Tree.TypeBody.words, Tree.TypeBody.erase, enumerationBody, hvalues, hinitial]

/-- A type that starts with a name or with `ARRAY` is neither a structure nor an enumeration. -/
theorem parse_typeBody_named {w : Word} (hstruct : w.kind ≠ .kwStruct) (hparen : w.kind ≠ .leftParen) (ts : List Token) :
    parse structBody (w.token :: ts) = none ∧ parse enumerationBody (w.token :: ts) = none := by
  simp [structBody, enumerationBody, listed, hstruct, hparen]

theorem bodyReads_subrange {d : Dimension} (h : IsRange d) (base : Ident) {initial : Option Value}
    (hinitial : ∀ v ∈ initial, InitialReads v) : BodyReads (.subrange base d.min d.max initial) := by
  intro rest
  have hrange := parse_subrange h base (tokens (initialWords initial) ++ (mark .semicolon).token :: rest)
  have hvalue := parse_initial_ended hinitial rest
  obtain ⟨ts, hts⟩ : ∃ ts, tokens (Tree.subrangeWords base d) ++
      (tokens (initialWords initial) ++ (mark .semicolon).token :: rest) = (ident base).token :: ts := ⟨_, rfl⟩
  obtain ⟨hstruct, henumeration⟩ := parse_typeBody_named (w := ident base) (by simp) (by simp) ts
  rw [hts] at hrange
  simp only [Tree.TypeBody.words, tokens_append, List.append_assoc, hts]
  simp [-parse_optional, typeBody, hstruct, henumeration, hrange, hvalue, Tree.TypeBody.erase]

theorem bodyReads_array {t : Tree.TypeExpr} {ds : List Dimension} (ht : TypeReads t) (hne : ds ≠ [])
    (hds : ∀ d ∈ ds, IsRange d) {initial : Option Value} (hinitial : ∀ v ∈ initial, InitialReads v) :
    BodyReads (.array t ds initial) := by
  intro rest
  obtain ⟨htype, hvalue⟩ := parse_typed ht hinitial rest
  have harray := parse_arrayOf htype hne hds
  obtain ⟨ts, hts⟩ : ∃ ts, tokens (Tree.TypeExpr.array t ds).words ++
      (tokens (initialWords initial) ++ (mark .semicolon).token :: rest) = (mark .kwArray).token :: ts := ⟨_, rfl⟩
  obtain ⟨hstruct, henumeration⟩ := parse_typeBody_named (w := mark .kwArray) (by simp) (by simp) ts
  rw [hts] at harray
  simp only [Tree.TypeBody.words, tokens_append, List.append_assoc, hts]
  simp [-parse_optional, typeBody, hstruct, henumeration, subrange, identifier, harray, hvalue, Tree.TypeBody.erase]

theorem bodyReads_alias (parent : Ident) {initial : Option Value} (hinitial : ∀ v ∈ initial, InitialReads v) :
    BodyReads (.alias parent initial) := by
  intro rest
  have hvalue := parse_initial_ended hinitial rest
  have hparen : parse (token .leftParen) (tokens (initialWords initial) ++ (mark .semicolon).token :: rest) = none :=
    (endsType_initial initial rest).parse_token rfl
  simp [-parse_optional, typeBody, structBody, enumerationBody, listed, subrange, arrayOf, Tree.TypeBody.words,
    Tree.TypeBody.erase, hparen, hvalue]

theorem typeBody_reads : Yields typeBody fun b => b.isBasic = true → BodyReads b := by
  refine .orElse ?_ (.orElse ?_ (.orElse ?_ (.orElse ?_ ?_)))
  · refine .skip fun _ => (ended_yields member_reads).some1.bind fun members h => .skip fun _ => .pure fun hbasic => ?_
    exact bodyReads_struct h.1 fun m hm => h.2 m hm (List.all_eq_true.mp hbasic m hm)
  · refine (listed_yields (Q := fun _ => True) _ _ .any).bind fun values hvalues => .skip fun initial => ?_
    exact .pure fun _ => bodyReads_enumeration hvalues.1 initial
  · refine subrange_bounded.bind fun found h => initial_basic.bind fun initial hinitial => .pure fun hbasic => ?_
    exact bodyReads_subrange h found.1 (hinitial hbasic)
  · refine (arrayOf_bounded typeExpr_reads).bind fun found h => initial_basic.bind fun initial hinitial => ?_
    exact .pure fun hbasic => bodyReads_array h.1 h.2.1 h.2.2 (hinitial hbasic)
  · exact .skip fun parent => initial_basic.bind fun initial hinitial =>
      .pure fun hbasic => bodyReads_alias parent (hinitial hbasic)

theorem typeDecl_reads : Yields typeDecl fun d => d.isBasic = true → ReadsEnded typeDecl d.words d.erase := by
  refine .skip fun n => .skip fun _ => typeBody_reads.bind fun b hb => .pure fun hbasic rest => ?_
  have hbody := hb hbasic rest
  simp [typeDecl, Tree.TypeDecl.words, Tree.TypeDecl.erase, hbody]

/-- A block of types is read back whatever follows it. -/
theorem typeBlock_reads : Yields typeBlock fun ds => ds.all (·.isBasic) = true →
    ∀ rest, parse typeBlock (tokens (Tree.Element.types ds).words ++ rest) = some (ds.map (·.erase), rest) := by
  refine .skip fun _ => (ended_yields typeDecl_reads).some1.bind fun ds h => .skip fun _ => .pure fun hbasic rest => ?_
  rw [List.all_eq_true] at hbasic
  have hdecls : parse (some1 (ended typeDecl)) (tokens (ds.flatMap (·.words ++ [mark .semicolon])) ++
      (mark .kwEndType).token :: rest) = some (ds.map (·.erase), (mark .kwEndType).token :: rest) :=
    parse_some1_ended (fun d : Tree.TypeDecl => d.words ++ [mark .semicolon]) Tree.TypeDecl.erase h.1
      (fun d hd after => (h.2 d hd (hbasic d hd)).ended after) (by simp [ended, typeDecl, identifier]) (by simp)
  simp [typeBlock, Tree.Element.words, between, hdecls]

-- ---------------------------------------------------------------------------
-- Variables
-- ---------------------------------------------------------------------------

theorem varLine_reads : Yields varLine fun l => l.isBasic = true → ReadsEnded varLine l.words l.erase := by
  refine (Yields.sepBy1 (Q := fun _ => True) .any).bind fun names hnames => .skip fun address => .skip fun _ => ?_
  refine typeExpr_reads.bind fun t ht => initial_basic.bind fun initial hinitial => .pure fun hbasic rest => ?_
  obtain ⟨htype, hvalue⟩ := parse_typed ht (hinitial hbasic) rest
  let typed := (mark .colon).token ::
    (tokens t.words ++ (tokens (initialWords initial) ++ (mark .semicolon).token :: rest))
  have haddress : parse (optional location)
      (tokens (address.elim [] fun a => [mark .kwAt, ⟨.directAddress, a.1⟩]) ++ typed) =
        some (address.map fun a => (a.1, .origin), typed) := by
    cases address <;> simp [typed, location]
  let located := tokens (address.elim [] fun a => [mark .kwAt, ⟨.directAddress, a.1⟩]) ++ typed
  have hfirst : parse (sepBy1 identifier (token .comma)) (tokens (joined .comma (names.map ([ident ·]))) ++ located) =
      some (names.map (·.erase), located) := by
    refine parse_sepBy1 ([ident ·]) Ident.erase (fun _ => true) hnames.1 (fun n _ after _ => by simp) rfl (by simp [Before]) ?_
    cases address <;> simp [located, typed]
  simp only [located, typed] at haddress hfirst
  simp [-parse_optional, varLine, Tree.VarLine.words, Tree.VarLine.erase, hfirst, haddress, htype, hvalue]

/-- Qualifiers are read in the order in which they are printed. -/
theorem parse_qualifiers (q : Tree.Qualifiers) {rest : List Token} (hconstant : parse (token .kwConstant) rest = none)
    (hretain : parse (token .kwRetain) rest = none) : parse qualifiers (tokens q.words ++ rest) = some (q, rest) := by
  let items : List Tree.Qualifiers :=
    (if q.constant then [{ constant := true }] else []) ++ (if q.retain then [{ retain := true }] else [])
  have hwords : q.words = items.flatMap (·.words) := by
    obtain ⟨_ | _, _ | _⟩ := q <;> simp [items, Tree.Qualifiers.words]
  have hmerged : items.foldl .union {} = q := by
    obtain ⟨_ | _, _ | _⟩ := q <;> rfl
  have hitems : ∀ item ∈ items, item = { constant := true } ∨ item = { retain := true } := by
    obtain ⟨_ | _, _ | _⟩ := q <;> simp [items]
  let one : Parser Tree.Qualifiers :=
    (do let _ ← token .kwConstant; pure { constant := true })
    <|> (do let _ ← token .kwRetain; pure { retain := true })
  have hmany : parse (many one) (tokens (items.flatMap (·.words)) ++ rest) = some (items.map id, rest) := by
    refine parse_many_ended Tree.Qualifiers.words id (fun item hitem after => ?_) ?_ (fun item hitem => ?_)
    · obtain rfl | rfl := hitems item hitem <;> simp [one, Tree.Qualifiers.words]
    · simp [one, hconstant, hretain]
    · obtain rfl | rfl := hitems item hitem <;> simp [Tree.Qualifiers.words]
  rw [hwords, qualifiers, parse_bind, hmany]
  simp [hmerged]

/-- The lines of a block with its qualifiers are read back up to the closing keyword. -/
theorem varBlockRest_reads (s : Section) : Yields (varBlockRest s) fun b => b.section = s ∧ (b.isBasic = true →
    ∀ rest, parse (varBlockRest s) (tokens b.contents ++ rest) = some (b.erase, rest)) := by
  refine .skip fun q => (ended_yields varLine_reads).many.bind fun lines h => .skip fun _ => .pure ⟨rfl, fun hbasic rest => ?_⟩
  have hbasic : ∀ l ∈ lines, l.isBasic = true := List.all_eq_true.mp hbasic
  let ended' := (mark .kwEndVar).token :: rest
  have hlines : parse (many (ended varLine)) (tokens (lines.flatMap (·.words ++ [mark .semicolon])) ++ ended') =
      some (lines.map (·.erase), ended') :=
    parse_many_ended (fun l : Tree.VarLine => l.words ++ [mark .semicolon]) Tree.VarLine.erase
      (fun l hl after => (h l hl (hbasic l hl)).ended after)
      (by simp [ended', ended, varLine, sepBy1, identifier]) (by simp)
  have hnext : Before (fun k => k != .kwConstant && k != .kwRetain)
      (tokens (lines.flatMap (·.words ++ [mark .semicolon])) ++ ended') := by
    obtain _ | ⟨⟨names, address, t, initial⟩, lines⟩ := lines
    · simp [ended']
    · cases names <;> cases address <;> simp [Tree.VarLine.words, joined]
  have hq := parse_qualifiers q (hnext.parse_token rfl) (hnext.parse_token rfl)
  simp only [ended'] at hlines hq
  simp [varBlockRest, Tree.VarBlock.contents, hq, hlines, Tree.VarBlock.erase]

/-- The keyword of a block is the keyword of one part only. -/
theorem section_reads : Yields «section» fun s =>
    ∀ rest, parse «section» ((mark (Tree.sectionToken s)).token :: rest) = some (s, rest) := by
  refine .orElse (.skip fun _ => .pure fun rest => ?_) (.orElse (.skip fun _ => .pure fun rest => ?_)
    (.orElse (.skip fun _ => .pure fun rest => ?_) (.orElse (.skip fun _ => .pure fun rest => ?_)
      (.orElse (.skip fun _ => .pure fun rest => ?_) (.skip fun _ => .pure fun rest => ?_)))))
  all_goals simp [«section», Tree.sectionToken]

theorem varBlock_reads : Yields varBlock fun b => b.isBasic = true →
    ∀ rest, parse varBlock (tokens b.words ++ rest) = some (b.erase, rest) := by
  refine section_reads.bind fun s hs => (varBlockRest_reads s).mono fun b hb hbasic rest => ?_
  obtain ⟨rfl, hread⟩ := hb
  simp [varBlock, Tree.VarBlock.words, hs, hread hbasic rest]

theorem globalBlock_reads : Yields globalBlock fun b => b.isBasic = true →
    ∀ rest, parse globalBlock (tokens b.words ++ rest) = some (b.erase, rest) := by
  refine .skip fun _ => (varBlockRest_reads .global).mono fun b hb hbasic rest => ?_
  obtain ⟨hsection, hread⟩ := hb
  simp [globalBlock, Tree.VarBlock.words, hsection, Tree.sectionToken, hread hbasic rest]

-- ---------------------------------------------------------------------------
-- Program organization units
-- ---------------------------------------------------------------------------

/-- A list of statements that is read back starts like a statement, unless it is empty. -/
theorem starts_of_statementsRead {ss : List Tree.Stmt} (h : StatementsRead ss) (hne : ss ≠ []) {rest : List Token}
    (hrest : Stops rest) : Before startsStatement (tokens (Tree.Stmt.wordsOfAll ss) ++ rest) := by
  cases hts : tokens (Tree.Stmt.wordsOfAll ss) ++ rest with
  | nil => simp
  | cons t ts =>
    rw [before_cons]
    by_contra hstart
    have hstop : Stops (t :: ts) := stops_of_before (by simpa [startsNoStatement] using hstart)
    have hread := h _ rest (Nat.lt_succ_self _) hrest
    rw [hts, statementsWithin] at hread
    rw [parse_bind, parse_many_none (hstop _)] at hread
    simp [Tree.Stmt.eraseAll_eq] at hread
    exact hne hread.1

/-- The kinds of tokens that follow the variables of a unit. -/
def startsBody (k : TokenKind) : Bool :=
  startsStatement k || k == .kwEndProgram || k == .kwEndFunction || k == .kwEndFunctionBlock

theorem startsBody_of_statementsRead {ss : List Tree.Stmt} (h : StatementsRead ss) (kind : PouKind) (rest : List Token) :
    Before startsBody (tokens (Tree.Stmt.wordsOfAll ss) ++ (mark (Tree.closing kind)).token :: rest) := by
  cases ss with
  | nil => cases kind <;> simp [Tree.Stmt.wordsOfAll, Tree.closing, startsBody]
  | cons s ss =>
    have hstop : Stops ((mark (Tree.closing kind)).token :: rest) := stops_mark (by cases kind <;> rfl) rest
    refine (starts_of_statementsRead h (List.cons_ne_nil s ss) hstop).mono fun k hk => ?_
    simp [startsBody, hk]

/-- The variables and the statements of a unit are read back up to the closing keyword, and a type in front of them ends
there. -/
theorem pouRest_reads (kind : PouKind) (n : Ident) (returns : Option Tree.TypeExpr) :
    Yields (pouRest kind n returns (Tree.closing kind)) fun p => (p.kind = kind ∧ p.name = n ∧ p.returns = returns) ∧
      (p.isBasic = true → ∀ rest, Before endsType (tokens p.contents ++ rest) ∧ ∀ n' returns',
        parse (pouRest kind n' returns' (Tree.closing kind)) (tokens p.contents ++ rest) =
          some (⟨kind, n', returns', p.blocks.map (·.erase), Tree.Stmt.eraseAll p.body⟩, rest)) := by
  refine varBlock_reads.many.bind fun blocks hblocks => statements_reads.bind fun body hbody => .skip fun _ =>
    .pure ⟨⟨rfl, rfl, rfl⟩, fun hbasic rest => ?_⟩
  obtain ⟨hb, hs⟩ := Bool.and_eq_true_iff.mp hbasic
  rw [List.all_eq_true] at hb
  let closed := (mark (Tree.closing kind)).token :: rest
  have hnext : Before startsBody (tokens (Tree.Stmt.wordsOfAll body) ++ closed) :=
    startsBody_of_statementsRead (hbody hs) kind rest
  have hread : parse statements (tokens (Tree.Stmt.wordsOfAll body) ++ closed) = some (Tree.Stmt.eraseAll body, closed) :=
    parse_statements (hbody hs) closed (stops_mark (by cases kind <;> rfl) rest)
  have hmany : parse (many varBlock)
      (tokens (blocks.flatMap (·.words)) ++ (tokens (Tree.Stmt.wordsOfAll body) ++ closed)) =
        some (blocks.map (·.erase), tokens (Tree.Stmt.wordsOfAll body) ++ closed) := by
    refine parse_many_ended Tree.VarBlock.words Tree.VarBlock.erase (fun b hmem after => hblocks b hmem (hb b hmem) after)
      ?_ (by simp [Tree.VarBlock.words])
    have hkeyword (k : TokenKind) (hk : startsBody k = false) : parse (token k) _ = none := hnext.parse_token hk
    simp [varBlock, «section», hkeyword, startsBody, startsStatement]
  refine ⟨?_, fun n' returns' => ?_⟩
  · cases blocks with
    | nil =>
      have : Before endsType (tokens (Tree.Stmt.wordsOfAll body) ++ closed) := hnext.mono fun k hk => by
        cases k <;> first | rfl | cases hk
      simpa [Tree.Pou.contents, closed] using this
    | cons b blocks =>
      have : endsType (Tree.sectionToken b.section) = true := by cases b.section <;> rfl
      simpa [Tree.Pou.contents, Tree.VarBlock.words] using this
  · simp only [closed] at hmany hread
    simp [pouRest, Tree.Pou.contents, hmany, hread]

theorem pou_reads : Yields pou fun p => p.isBasic = true →
    ∀ rest, parse pou (tokens p.words ++ rest) = some (p.erase, rest) := by
  refine .orElse (.skip fun _ => .skip fun n => (pouRest_reads .program n none).mono fun p h hbasic rest => ?_)
    (.orElse (.skip fun _ => .skip fun n => (pouRest_reads .functionBlock n none).mono fun p h hbasic rest => ?_)
      (.skip fun _ => .skip fun n => .skip fun _ => typeExpr_reads.bind fun t ht =>
        (pouRest_reads .function n (some t)).mono fun p h hbasic rest => ?_))
  all_goals
    obtain ⟨⟨hkind, hname, hreturns⟩, hread⟩ := h
    obtain ⟨hends, hrest⟩ := hread hbasic rest
  · have hcontents := hrest n.erase none
    simp only [Tree.closing] at hcontents
    simp [pou, Tree.Pou.words, Tree.Pou.erase, hkind, hname, hreturns, Tree.opening, hcontents]
  · have hcontents := hrest n.erase none
    simp only [Tree.closing] at hcontents
    simp [pou, Tree.Pou.words, Tree.Pou.erase, hkind, hname, hreturns, Tree.opening, hcontents]
  · have hcontents := hrest n.erase (some t.erase)
    simp only [Tree.closing] at hcontents
    simp [pou, Tree.Pou.words, Tree.Pou.erase, hkind, hname, hreturns, Tree.opening, parse_typeExpr ht hends, hcontents]

-- ---------------------------------------------------------------------------
-- Sources
-- ---------------------------------------------------------------------------

theorem element_reads : Yields element fun e => e.isBasic = true →
    ∀ rest, parse element (tokens e.words ++ rest) = some (e.erase, rest) := by
  refine .orElse (.map (typeBlock_reads.mono fun ds h hbasic rest => ?_))
    (.orElse (.map (globalBlock_reads.mono fun b h hbasic rest => ?_)) (.map (pou_reads.mono fun p h hbasic rest => ?_)))
  · simp [element, h hbasic rest, Tree.Element.erase]
  · have htypes : parse typeBlock (tokens b.words ++ rest) = none := by
      cases hs : b.section <;> simp [typeBlock, Tree.VarBlock.words, hs, Tree.sectionToken]
    simp [element, Tree.Element.words, Tree.Element.erase, htypes, h hbasic rest]
  · have htypes : parse typeBlock (tokens p.words ++ rest) = none := by
      cases hk : p.kind <;> simp [typeBlock, Tree.Pou.words, hk, Tree.opening]
    have hglobals : parse globalBlock (tokens p.words ++ rest) = none := by
      cases hk : p.kind <;> simp [globalBlock, Tree.Pou.words, hk, Tree.opening]
    simp [element, Tree.Element.words, Tree.Element.erase, htypes, hglobals, h hbasic rest]

theorem words_ne_nil (e : Tree.Element) : e.words ≠ [] := by
  cases e <;> simp [Tree.Element.words, between, Tree.VarBlock.words, Tree.Pou.words]

/-- The words of elements that were read are read again, to the last one of them. -/
theorem parse_source {elements : List Tree.Element}
    (h : ∀ e ∈ elements, ∀ rest, parse element (tokens e.words ++ rest) = some (e.erase, rest)) :
    parse source (tokens (elements.flatMap (·.words))) = some (elements.map (·.erase), []) := by
  have hend : parse element [] = none := by
    simp [element, typeBlock, globalBlock, pou]
  have hread := parse_many_ended Tree.Element.words Tree.Element.erase h hend fun e _ => words_ne_nil e
  rwa [List.append_nil] at hread

end StructuredText.Grammar

namespace StructuredText.Tree

/-- The printed form of the elements of a source. -/
def print (elements : List Element) : List Token := tokens (elements.flatMap (·.words))

theorem parse_print {ts : List Token} {elements : List Element} (h : parseTokens Grammar.source ts = .ok elements)
    (hbasic : elements.all (·.isBasic) = true) :
    parseTokens Grammar.source (print elements) = .ok (elements.map (·.erase)) := by
  have hyields := proper_of_parseTokens Grammar.element_reads.many h
  have hread : ∀ e ∈ elements, ∀ rest, Parser.parse Grammar.element (tokens e.words ++ rest) = some (e.erase, rest) :=
    fun e he => hyields e he (List.all_eq_true.mp hbasic e he)
  exact Except.mapError_eq_ok.mpr (Parser.parseAll_eq_ok (Grammar.parse_source hread))

/-- The parser undoes printing. Take elements whose constants are integers, booleans and names and which were read from any
tokens whatever: the same elements, up to their spans, are read from their printed form, in which every compound operand is
in parentheses and every statement and declaration ends with a semicolon. So elements with one printed form that were read,
from whatever tokens, are the same up to spans, and no choice of the grammar takes words that were printed for another
one. -/
theorem parser_inverts_printing {ts : List Token} {elements : List Element}
    (h : parseTokens Grammar.source ts = .ok elements) (hbasic : elements.all (·.isBasic) = true) :
    parseTokens Grammar.source (print elements) = .ok (elements.map (·.erase)) ∧
      ∀ ts' elements', parseTokens Grammar.source ts' = .ok elements' → elements'.all (·.isBasic) = true →
        print elements' = print elements → elements'.map (·.erase) = elements.map (·.erase) := by
  have hread := parse_print h hbasic
  refine ⟨hread, fun ts' elements' h' hbasic' hprint => ?_⟩
  have hread' := parse_print h' hbasic'
  rw [hprint, hread] at hread'
  exact (Except.ok.inj hread').symm

theorem exists_of_any {ε α : Type} {x : Except ε α} {p : α → Bool} (h : x.toOption.any p = true) :
    ∃ a, x = .ok a ∧ p a = true := by
  cases x <;> simp_all [Except.toOption]

/-- A source in which one choice of the grammar after the other is settled by what follows. -/
def choicesSource : String :=
  "TYPE T : INT(0..9) := 5; G : ARRAY[1..2] OF T := [2(1), 3]; END_TYPE " ++
    "PROGRAM P VAR x : T; END_VAR CASE x OF 1, 3..5: x := F(x, b := -1); x: F(); END_CASE END_PROGRAM"

theorem parser_inverts_printing_choices :
    ∃ elements, parseTokens Grammar.source (tokenize choicesSource).1 = .ok elements ∧
      elements.all (·.isBasic) = true ∧ elements.length = 2 ∧
      parseTokens Grammar.source (print elements) = .ok (elements.map (·.erase)) := by
  have hrun : ((parseTokens Grammar.source (tokenize choicesSource).1).toOption.any fun elements =>
      elements.all (·.isBasic) && elements.length == 2) = true := by
    have hchars : choicesSource.toList = _ := toList_append_eq String.toList_ofList String.toList_ofList
    rw [tokenize_of_toList hchars]
    decide +kernel
  obtain ⟨elements, hparse, hall⟩ := exists_of_any hrun
  rw [Bool.and_eq_true, beq_iff_eq] at hall
  exact ⟨elements, hparse, hall.1, hall.2, (parser_inverts_printing hparse hall.1).1⟩

end StructuredText.Tree
