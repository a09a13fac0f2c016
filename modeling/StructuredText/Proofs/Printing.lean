-- SUMMARY: Printing trees to words, and trees without their places in a source.
import StructuredText.Token
import StructuredText.Tree

/-!
# Printing

A tree is printed to words, which are tokens without a place in a source. An operand that has operators is put in
parentheses, and every statement and declaration ends with a semicolon, also where the grammar lets it be left out.
Only integers, booleans and names are printed as constants.

Beside each printer stands the tree without its spans, which is what is left of a tree when it is printed.
-/

namespace StructuredText

-- ---------------------------------------------------------------------------
-- Words
-- ---------------------------------------------------------------------------

/-- A token without a place in a source. -/
structure Word where
  kind : TokenKind
  text : String

/-- The spelling of a keyword or a mark. Words come first, so that a conjunction is not spelled by a mark. -/
def TokenKind.spelling (k : TokenKind) : String :=
  (((keywords ++ symbols).find? (·.2 = k)).map (·.1)).getD ""

namespace Word

/-- A word of a kind that has one spelling. -/
def mark (k : TokenKind) : Word := ⟨k, k.spelling⟩

def ident (i : Ident) : Word := ⟨.identifier, i.text⟩

def number (n : Nat) : Word := ⟨.integer, toString n⟩

/-- The word as a token at the start of a source. -/
def token (w : Word) : Token := ⟨w.kind, w.text, .origin⟩

@[simp] theorem token_kind (w : Word) : w.token.kind = w.kind := rfl
@[simp] theorem token_text (w : Word) : w.token.text = w.text := rfl
@[simp] theorem token_span (w : Word) : w.token.span = .origin := rfl
@[simp] theorem mark_kind (k : TokenKind) : (mark k).kind = k := rfl
@[simp] theorem ident_kind (i : Ident) : (ident i).kind = .identifier := rfl
@[simp] theorem ident_text (i : Ident) : (ident i).text = i.text := rfl
@[simp] theorem number_kind (n : Nat) : (number n).kind = .integer := rfl

end Word

/-- The words as tokens. -/
def tokens (ws : List Word) : List Token := ws.map Word.token

@[simp] theorem tokens_nil : tokens [] = [] := rfl
@[simp] theorem tokens_cons (w : Word) (ws : List Word) : tokens (w :: ws) = w.token :: tokens ws := rfl
@[simp] theorem tokens_append (vs ws : List Word) : tokens (vs ++ ws) = tokens vs ++ tokens ws := List.map_append

open Word

/-- The words between two marks. -/
def between (opening closing : TokenKind) (ws : List Word) : List Word := mark opening :: (ws ++ [mark closing])

/-- The items with a mark between each two of them. -/
def joined (separator : TokenKind) : List (List Word) → List Word
  | [] => []
  | item :: items => item ++ items.flatMap (mark separator :: ·)

-- ---------------------------------------------------------------------------
-- Constants and initial values
-- ---------------------------------------------------------------------------

/-- The name without its place. -/
def Ident.erase (i : Ident) : Ident := ⟨i.text, .origin⟩

/-- A number with its sign, which is only written when it is a minus. -/
def integerWords (i : Int) : List Word :=
  if i < 0 then [mark .minus, number i.natAbs] else [number i.natAbs]

/-- One value, or a repeat count with the value in parentheses. -/
def itemWords (count : Nat) (value : List Word) : List Word :=
  if count = 1 then value else number count :: between .leftParen .rightParen value

namespace Value

mutual

/-- Every constant in the value is an integer, a boolean or a name. -/
def isBasic : Value → Bool
  | .bool _ | .integer _ | .enumeration _ => true
  | .arrayInit items => areItemsBasic items
  | .struct members => areMembersBasic members
  | _ => false

def areItemsBasic : List (Nat × Value) → Bool
  | [] => true
  | (_, v) :: items => v.isBasic && areItemsBasic items

def areMembersBasic : List (Ident × Value) → Bool
  | [] => true
  | (_, v) :: members => v.isBasic && areMembersBasic members

end

mutual

def words : Value → List Word
  | .bool b => [mark (if b then .kwTrue else .kwFalse)]
  | .integer i => integerWords i
  | .enumeration n => [ident n]
  | .arrayInit items => between .leftBracket .rightBracket (joined .comma (wordsOfItems items))
  | .struct members => between .leftParen .rightParen (joined .comma (wordsOfMembers members))
  | _ => []

def wordsOfItems : List (Nat × Value) → List (List Word)
  | [] => []
  | (count, v) :: items => itemWords count v.words :: wordsOfItems items

def wordsOfMembers : List (Ident × Value) → List (List Word)
  | [] => []
  | (n, v) :: members => (ident n :: mark .assignment :: v.words) :: wordsOfMembers members

end

mutual

/-- The value with names that have no place. -/
def erase : Value → Value
  | .enumeration n => .enumeration n.erase
  | .arrayInit items => .arrayInit (eraseItems items)
  | .struct members => .struct (eraseMembers members)
  | v => v

def eraseItems : List (Nat × Value) → List (Nat × Value)
  | [] => []
  | (count, v) :: items => (count, v.erase) :: eraseItems items

def eraseMembers : List (Ident × Value) → List (Ident × Value)
  | [] => []
  | (n, v) :: members => (n.erase, v.erase) :: eraseMembers members

end

attribute [simp] isBasic words erase

@[simp] theorem areItemsBasic_eq (items : List (Nat × Value)) : areItemsBasic items = items.all (·.2.isBasic) := by
  induction items with
  | nil => rfl
  | cons item items ih => simp [areItemsBasic, ih]

@[simp] theorem areMembersBasic_eq (members : List (Ident × Value)) :
    areMembersBasic members = members.all (·.2.isBasic) := by
  induction members with
  | nil => rfl
  | cons member members ih => simp [areMembersBasic, ih]

@[simp] theorem wordsOfItems_eq (items : List (Nat × Value)) :
    wordsOfItems items = items.map fun item => itemWords item.1 item.2.words := by
  induction items with
  | nil => rfl
  | cons item items ih => simp [wordsOfItems, ih]

@[simp] theorem wordsOfMembers_eq (members : List (Ident × Value)) :
    wordsOfMembers members = members.map fun member => ident member.1 :: mark .assignment :: member.2.words := by
  induction members with
  | nil => rfl
  | cons member members ih => simp [wordsOfMembers, ih]

@[simp] theorem eraseItems_eq (items : List (Nat × Value)) :
    eraseItems items = items.map fun item => (item.1, item.2.erase) := by
  induction items with
  | nil => rfl
  | cons item items ih => simp [eraseItems, ih]

@[simp] theorem eraseMembers_eq (members : List (Ident × Value)) :
    eraseMembers members = members.map fun member => (member.1.erase, member.2.erase) := by
  induction members with
  | nil => rfl
  | cons member members ih => simp [eraseMembers, ih]

end Value

/-- The words of an initial value with the sign for assignment before it. -/
def initialWords : Option Value → List Word
  | none => []
  | some v => mark .assignment :: v.words

-- ---------------------------------------------------------------------------
-- Expressions
-- ---------------------------------------------------------------------------

def UnaryOp.token : UnaryOp → TokenKind
  | .negate => .minus
  | .not => .kwNot

def BinaryOp.token : BinaryOp → TokenKind
  | .add => .plus
  | .sub => .minus
  | .mul => .star
  | .div => .slash
  | .mod => .kwMod
  | .pow => .power
  | .and => .kwAnd
  | .or => .kwOr
  | .xor => .kwXor
  | .eq => .equal
  | .ne => .notEqual
  | .lt => .less
  | .gt => .greater
  | .le => .lessEqual
  | .ge => .greaterEqual

/-- Array indexes in brackets, if there are any. -/
def indexWords : List (List Word) → List Word
  | [] => []
  | indexes => between .leftBracket .rightBracket (joined .comma indexes)

namespace Tree

/-- The expression has an operator that is not inside of anything. -/
def Expr.isCompound : Expr → Bool
  | .unary _ _ _ | .binary _ _ _ _ => true
  | _ => false

/-- The words of an operand, in parentheses if it has operators. -/
def Expr.enclosed (e : Expr) (words : List Word) : List Word :=
  if e.isCompound then between .leftParen .rightParen words else words

mutual

def Expr.isBasic : Expr → Bool
  | .constant v _ | .typed _ v _ => v.isBasic
  | .var path => path.isBasic
  | .unary _ e _ => e.isBasic
  | .binary _ left right _ => left.isBasic && right.isBasic
  | .call _ args _ => Arg.areBasic args

def Path.isBasic : Path → Bool
  | .mk segments _ => Segment.areBasic segments

def Segment.areBasic : List Segment → Bool
  | [] => true
  | .mk _ indexes _ :: segments => Expr.areBasic indexes && Segment.areBasic segments

def Expr.areBasic : List Expr → Bool
  | [] => true
  | e :: es => e.isBasic && Expr.areBasic es

def Arg.areBasic : List Arg → Bool
  | [] => true
  | .mk _ value _ :: args => value.isBasic && Arg.areBasic args

end

mutual

def Expr.words : Expr → List Word
  | .constant v _ => v.words
  | .typed type v _ => ident type :: mark .hash :: v.words
  | .var path => path.words
  | .unary op e _ => mark op.token :: e.enclosed e.words
  | .binary op left right _ => left.enclosed left.words ++ mark op.token :: right.enclosed right.words
  | .call n args _ => ident n :: between .leftParen .rightParen (joined .comma (Arg.wordsOfAll args))

def Path.words : Path → List Word
  | .mk segments _ => joined .period (Segment.wordsOfAll segments)

def Segment.wordsOfAll : List Segment → List (List Word)
  | [] => []
  | .mk n indexes _ :: segments => (ident n :: indexWords (Expr.wordsOfAll indexes)) :: Segment.wordsOfAll segments

def Expr.wordsOfAll : List Expr → List (List Word)
  | [] => []
  | e :: es => e.words :: Expr.wordsOfAll es

def Arg.wordsOfAll : List Arg → List (List Word)
  | [] => []
  | .mk none value _ :: args => value.words :: Arg.wordsOfAll args
  | .mk (some n) value output :: args =>
    (ident n :: mark (if output then .rightArrow else .assignment) :: value.words) :: Arg.wordsOfAll args

end

mutual

/-- The expression without its spans. -/
def Expr.erase : Expr → Expr
  | .constant v _ => .constant v.erase .origin
  | .typed type v _ => .typed type.erase v.erase .origin
  | .var path => .var path.erase
  | .unary op e _ => .unary op e.erase .origin
  | .binary op left right _ => .binary op left.erase right.erase .origin
  | .call n args _ => .call n.erase (Arg.eraseAll args) .origin

def Path.erase : Path → Path
  | .mk segments _ => .mk (Segment.eraseAll segments) .origin

def Segment.eraseAll : List Segment → List Segment
  | [] => []
  | .mk n indexes _ :: segments => .mk n.erase (Expr.eraseAll indexes) .origin :: Segment.eraseAll segments

def Expr.eraseAll : List Expr → List Expr
  | [] => []
  | e :: es => e.erase :: Expr.eraseAll es

def Arg.eraseAll : List Arg → List Arg
  | [] => []
  | .mk n value output :: args => .mk (n.map Ident.erase) value.erase output :: Arg.eraseAll args

end

@[simp] theorem Expr.areBasic_eq (es : List Expr) : Expr.areBasic es = es.all (·.isBasic) := by
  induction es with
  | nil => rfl
  | cons e es ih => simp [Expr.areBasic, ih]

@[simp] theorem Expr.wordsOfAll_eq (es : List Expr) : Expr.wordsOfAll es = es.map (·.words) := by
  induction es with
  | nil => rfl
  | cons e es ih => simp [Expr.wordsOfAll, ih]

@[simp] theorem Expr.eraseAll_eq (es : List Expr) : Expr.eraseAll es = es.map (·.erase) := by
  induction es with
  | nil => rfl
  | cons e es ih => simp [Expr.eraseAll, ih]

namespace Segment

def isBasic : Segment → Bool
  | .mk _ indexes _ => indexes.all (·.isBasic)

def words : Segment → List Word
  | .mk n indexes _ => ident n :: indexWords (indexes.map (·.words))

def erase : Segment → Segment
  | .mk n indexes _ => .mk n.erase (indexes.map (·.erase)) .origin

@[simp] theorem areBasic_eq (segments : List Segment) : areBasic segments = segments.all (·.isBasic) := by
  induction segments with
  | nil => rfl
  | cons s segments ih => cases s; simp [areBasic, isBasic, ih]

@[simp] theorem wordsOfAll_eq (segments : List Segment) : wordsOfAll segments = segments.map (·.words) := by
  induction segments with
  | nil => rfl
  | cons s segments ih => cases s; simp [wordsOfAll, words, ih]

@[simp] theorem eraseAll_eq (segments : List Segment) : eraseAll segments = segments.map (·.erase) := by
  induction segments with
  | nil => rfl
  | cons s segments ih => cases s; simp [eraseAll, erase, ih]

end Segment

namespace Arg

def isBasic : Arg → Bool
  | .mk _ value _ => value.isBasic

def words : Arg → List Word
  | .mk none value _ => value.words
  | .mk (some n) value output => ident n :: mark (if output then .rightArrow else .assignment) :: value.words

def erase : Arg → Arg
  | .mk n value output => .mk (n.map Ident.erase) value.erase output

@[simp] theorem areBasic_eq (args : List Arg) : areBasic args = args.all (·.isBasic) := by
  induction args with
  | nil => rfl
  | cons arg args ih => cases arg; simp [areBasic, isBasic, ih]

@[simp] theorem wordsOfAll_eq (args : List Arg) : wordsOfAll args = args.map (·.words) := by
  induction args with
  | nil => rfl
  | cons arg args ih =>
    obtain ⟨_ | n, value, output⟩ := arg <;> simp [wordsOfAll, words, ih]

@[simp] theorem eraseAll_eq (args : List Arg) : eraseAll args = args.map (·.erase) := by
  induction args with
  | nil => rfl
  | cons arg args ih => cases arg; simp [eraseAll, erase, ih]

end Arg

/-- The words of a call, which is an expression as well as a statement. -/
def callWords (n : Ident) (args : List Arg) : List Word :=
  ident n :: between .leftParen .rightParen (joined .comma (Arg.wordsOfAll args))

-- ---------------------------------------------------------------------------
-- Statements
-- ---------------------------------------------------------------------------

namespace CaseLabel

def isBasic : CaseLabel → Bool
  | .value e => e.isBasic
  | .range low high => low.isBasic && high.isBasic

def words : CaseLabel → List Word
  | .value e => e.words
  | .range low high => low.words ++ mark .range :: high.words

def erase : CaseLabel → CaseLabel
  | .value e => .value e.erase
  | .range low high => .range low.erase high.erase

end CaseLabel

namespace Stmt

mutual

def isBasic : Stmt → Bool
  | .assign target value _ => target.isBasic && value.isBasic
  | .call _ args _ => Arg.areBasic args
  | .ifThen branches otherwise _ => areBranchesBasic branches && isOptionBasic otherwise
  | .case selector arms otherwise _ => selector.isBasic && areArmsBasic arms && isOptionBasic otherwise
  | .forLoop control start stop step body _ =>
    control.isBasic && start.isBasic && stop.isBasic && step.all (·.isBasic) && areBasic body
  | .whileLoop condition body _ => condition.isBasic && areBasic body
  | .repeatLoop body condition _ => areBasic body && condition.isBasic
  | .exit _ | .ret _ => true

def areBasic : List Stmt → Bool
  | [] => true
  | s :: ss => s.isBasic && areBasic ss

def isOptionBasic : Option (List Stmt) → Bool
  | none => true
  | some ss => areBasic ss

def areBranchesBasic : List (Expr × List Stmt) → Bool
  | [] => true
  | (condition, ss) :: branches => condition.isBasic && areBasic ss && areBranchesBasic branches

def areArmsBasic : List (List CaseLabel × List Stmt) → Bool
  | [] => true
  | (labels, ss) :: arms => labels.all (·.isBasic) && areBasic ss && areArmsBasic arms

end

mutual

/-- The words of the statement up to the semicolon. -/
def words : Stmt → List Word
  | .assign target value _ => target.words ++ mark .assignment :: value.words
  | .call n args _ => callWords n args
  | .ifThen branches otherwise _ => wordsOfBranches .kwIf branches ++ wordsOfOption otherwise ++ [mark .kwEndIf]
  | .case selector arms otherwise _ =>
    mark .kwCase :: selector.words ++ mark .kwOf :: wordsOfArms arms ++ wordsOfOption otherwise ++ [mark .kwEndCase]
  | .forLoop control start stop step body _ =>
    mark .kwFor :: control.words ++ mark .assignment :: start.words ++ mark .kwTo :: stop.words ++
      (step.elim [] (mark .kwBy :: ·.words)) ++ mark .kwDo :: wordsOfAll body ++ [mark .kwEndFor]
  | .whileLoop condition body _ =>
    mark .kwWhile :: condition.words ++ mark .kwDo :: wordsOfAll body ++ [mark .kwEndWhile]
  | .repeatLoop body condition _ =>
    mark .kwRepeat :: wordsOfAll body ++ mark .kwUntil :: condition.words ++ [mark .kwEndRepeat]
  | .exit _ => [mark .kwExit]
  | .ret _ => [mark .kwReturn]

/-- The words of the statements, each with a semicolon after it. -/
def wordsOfAll : List Stmt → List Word
  | [] => []
  | s :: ss => s.words ++ mark .semicolon :: wordsOfAll ss

def wordsOfOption : Option (List Stmt) → List Word
  | none => []
  | some ss => mark .kwElse :: wordsOfAll ss

/-- The words of the branches. The keyword stands before the first one. -/
def wordsOfBranches (keyword : TokenKind) : List (Expr × List Stmt) → List Word
  | [] => []
  | (condition, ss) :: branches =>
    mark keyword :: condition.words ++ mark .kwThen :: wordsOfAll ss ++ wordsOfBranches .kwElsif branches

def wordsOfArms : List (List CaseLabel × List Stmt) → List Word
  | [] => []
  | (labels, ss) :: arms =>
    joined .comma (labels.map (·.words)) ++ mark .colon :: wordsOfAll ss ++ wordsOfArms arms

end

mutual

/-- The statement without its spans. -/
def erase : Stmt → Stmt
  | .assign target value _ => .assign target.erase value.erase .origin
  | .call n args _ => .call n.erase (Arg.eraseAll args) .origin
  | .ifThen branches otherwise _ => .ifThen (eraseBranches branches) (eraseOption otherwise) .origin
  | .case selector arms otherwise _ => .case selector.erase (eraseArms arms) (eraseOption otherwise) .origin
  | .forLoop control start stop step body _ =>
    .forLoop control.erase start.erase stop.erase (step.map (·.erase)) (eraseAll body) .origin
  | .whileLoop condition body _ => .whileLoop condition.erase (eraseAll body) .origin
  | .repeatLoop body condition _ => .repeatLoop (eraseAll body) condition.erase .origin
  | .exit _ => .exit .origin
  | .ret _ => .ret .origin

def eraseAll : List Stmt → List Stmt
  | [] => []
  | s :: ss => s.erase :: eraseAll ss

def eraseOption : Option (List Stmt) → Option (List Stmt)
  | none => none
  | some ss => some (eraseAll ss)

def eraseBranches : List (Expr × List Stmt) → List (Expr × List Stmt)
  | [] => []
  | (condition, ss) :: branches => (condition.erase, eraseAll ss) :: eraseBranches branches

def eraseArms : List (List CaseLabel × List Stmt) → List (List CaseLabel × List Stmt)
  | [] => []
  | (labels, ss) :: arms => (labels.map (·.erase), eraseAll ss) :: eraseArms arms

end

@[simp] theorem areBasic_eq (ss : List Stmt) : areBasic ss = ss.all (·.isBasic) := by
  induction ss with
  | nil => rfl
  | cons s ss ih => simp [areBasic, ih]

theorem wordsOfAll_eq (ss : List Stmt) : wordsOfAll ss = ss.flatMap (·.words ++ [mark .semicolon]) := by
  induction ss with
  | nil => rfl
  | cons s ss ih => simp [wordsOfAll, ih]

theorem eraseAll_eq (ss : List Stmt) : eraseAll ss = ss.map (·.erase) := by
  induction ss with
  | nil => rfl
  | cons s ss ih => simp [eraseAll, ih]

/-- The words of a branch after a keyword. -/
def branchWords (keyword : TokenKind) (branch : Expr × List Stmt) : List Word :=
  mark keyword :: branch.1.words ++ mark .kwThen :: wordsOfAll branch.2

@[simp] theorem areBranchesBasic_eq (branches : List (Expr × List Stmt)) :
    areBranchesBasic branches = branches.all fun branch => branch.1.isBasic && areBasic branch.2 := by
  induction branches with
  | nil => rfl
  | cons branch branches ih => simp [areBranchesBasic, ih]

/-- After the first branch, each branch has the keyword `ELSIF`. -/
theorem wordsOfBranches_cons (keyword : TokenKind) (branch : Expr × List Stmt) (branches : List (Expr × List Stmt)) :
    wordsOfBranches keyword (branch :: branches) =
      branchWords keyword branch ++ branches.flatMap (branchWords .kwElsif) := by
  induction branches generalizing keyword branch with
  | nil => simp [wordsOfBranches, branchWords]
  | cons next branches ih =>
    rw [wordsOfBranches, ih]
    simp [branchWords]

@[simp] theorem eraseBranches_eq (branches : List (Expr × List Stmt)) :
    eraseBranches branches = branches.map fun branch => (branch.1.erase, eraseAll branch.2) := by
  induction branches with
  | nil => rfl
  | cons branch branches ih => simp [eraseBranches, ih]

/-- The words of an arm. -/
def armWords (arm : List CaseLabel × List Stmt) : List Word :=
  joined .comma (arm.1.map (·.words)) ++ mark .colon :: wordsOfAll arm.2

@[simp] theorem areArmsBasic_eq (arms : List (List CaseLabel × List Stmt)) :
    areArmsBasic arms = arms.all fun arm => arm.1.all (·.isBasic) && areBasic arm.2 := by
  induction arms with
  | nil => rfl
  | cons arm arms ih => simp [areArmsBasic, ih]

@[simp] theorem wordsOfArms_eq (arms : List (List CaseLabel × List Stmt)) : wordsOfArms arms = arms.flatMap armWords := by
  induction arms with
  | nil => rfl
  | cons arm arms ih => simp [wordsOfArms, armWords, ih]

@[simp] theorem eraseArms_eq (arms : List (List CaseLabel × List Stmt)) :
    eraseArms arms = arms.map fun arm => (arm.1.map (·.erase), eraseAll arm.2) := by
  induction arms with
  | nil => rfl
  | cons arm arms ih => simp [eraseArms, ih]

end Stmt

-- ---------------------------------------------------------------------------
-- Types
-- ---------------------------------------------------------------------------

def rangeWords (d : Dimension) : List Word := integerWords d.min ++ mark .range :: integerWords d.max

def dimensionWords (ds : List Dimension) : List Word :=
  between .leftBracket .rightBracket (joined .comma (ds.map rangeWords))

def subrangeWords (base : Ident) (d : Dimension) : List Word :=
  ident base :: between .leftParen .rightParen (rangeWords d)

namespace TypeExpr

def words : TypeExpr → List Word
  | .named n => [ident n]
  | .subrange base min max => subrangeWords base ⟨min, max⟩
  | .array element dimensions => mark .kwArray :: dimensionWords dimensions ++ mark .kwOf :: element.words

def erase : TypeExpr → TypeExpr
  | .named n => .named n.erase
  | .subrange base min max => .subrange base.erase min max
  | .array element dimensions => .array element.erase dimensions

end TypeExpr

/-- Every constant in the initial value, if there is one, is an integer, a boolean or a name. -/
def isInitialBasic (initial : Option Value) : Bool := initial.all (·.isBasic)

namespace Member

def isBasic (m : Member) : Bool := isInitialBasic m.initial

def words (m : Member) : List Word := ident m.name :: mark .colon :: m.type.words ++ initialWords m.initial

def erase (m : Member) : Member := ⟨m.name.erase, m.type.erase, m.initial.map (·.erase)⟩

end Member

namespace TypeBody

def isBasic : TypeBody → Bool
  | .alias _ initial | .subrange _ _ _ initial | .array _ _ initial => isInitialBasic initial
  | .enumeration _ _ => true
  | .struct members => members.all (·.isBasic)

def words : TypeBody → List Word
  | .alias parent initial => ident parent :: initialWords initial
  | .enumeration values initial =>
    between .leftParen .rightParen (joined .comma (values.map ([ident ·]))) ++
      initial.elim [] (fun n => [mark .assignment, ident n])
  | .subrange base min max initial => subrangeWords base ⟨min, max⟩ ++ initialWords initial
  | .array element dimensions initial => (TypeExpr.array element dimensions).words ++ initialWords initial
  | .struct members => between .kwStruct .kwEndStruct (members.flatMap (·.words ++ [mark .semicolon]))

def erase : TypeBody → TypeBody
  | .alias parent initial => .alias parent.erase (initial.map (·.erase))
  | .enumeration values initial => .enumeration (values.map (·.erase)) (initial.map (·.erase))
  | .subrange base min max initial => .subrange base.erase min max (initial.map (·.erase))
  | .array element dimensions initial => .array element.erase dimensions (initial.map (·.erase))
  | .struct members => .struct (members.map (·.erase))

end TypeBody

namespace TypeDecl

def isBasic (d : TypeDecl) : Bool := d.body.isBasic

def words (d : TypeDecl) : List Word := ident d.name :: mark .colon :: d.body.words

def erase (d : TypeDecl) : TypeDecl := ⟨d.name.erase, d.body.erase⟩

end TypeDecl

-- ---------------------------------------------------------------------------
-- Variables
-- ---------------------------------------------------------------------------

namespace VarLine

def isBasic (l : VarLine) : Bool := isInitialBasic l.initial

def words (l : VarLine) : List Word :=
  joined .comma (l.names.map ([ident ·])) ++ l.address.elim [] (fun a => [mark .kwAt, ⟨.directAddress, a.1⟩]) ++
    mark .colon :: l.type.words ++ initialWords l.initial

def erase (l : VarLine) : VarLine :=
  ⟨l.names.map (·.erase), l.address.map fun a => (a.1, .origin), l.type.erase, l.initial.map (·.erase)⟩

end VarLine

/-- The keyword that a block of variables starts with. Results have no blocks. -/
def sectionToken : Section → TokenKind
  | .input => .kwVarInput
  | .output => .kwVarOutput
  | .inOut => .kwVarInOut
  | .own => .kwVar
  | .temp => .kwVarTemp
  | .external => .kwVarExternal
  | .global => .kwVarGlobal
  | .result => .kwVar

def Qualifiers.words (q : Qualifiers) : List Word :=
  (if q.constant then [mark .kwConstant] else []) ++ (if q.retain then [mark .kwRetain] else [])

namespace VarBlock

def isBasic (b : VarBlock) : Bool := b.lines.all (·.isBasic)

/-- The words after the keyword of the block. -/
def contents (b : VarBlock) : List Word :=
  b.qualifiers.words ++ b.lines.flatMap (·.words ++ [mark .semicolon]) ++ [mark .kwEndVar]

def words (b : VarBlock) : List Word := mark (sectionToken b.section) :: b.contents

def erase (b : VarBlock) : VarBlock := { b with lines := b.lines.map (·.erase) }

end VarBlock

-- ---------------------------------------------------------------------------
-- Program organization units and sources
-- ---------------------------------------------------------------------------

/-- The keywords around a unit. -/
def opening : PouKind → TokenKind
  | .program => .kwProgram
  | .function => .kwFunction
  | .functionBlock => .kwFunctionBlock

def closing : PouKind → TokenKind
  | .program => .kwEndProgram
  | .function => .kwEndFunction
  | .functionBlock => .kwEndFunctionBlock

namespace Pou

def isBasic (p : Pou) : Bool := p.blocks.all (·.isBasic) && Stmt.areBasic p.body

/-- The words of the variables and the statements, up to the closing keyword. -/
def contents (p : Pou) : List Word :=
  p.blocks.flatMap (·.words) ++ Stmt.wordsOfAll p.body ++ [mark (closing p.kind)]

def words (p : Pou) : List Word :=
  mark (opening p.kind) :: ident p.name :: p.returns.elim [] (mark .colon :: ·.words) ++ p.contents

def erase (p : Pou) : Pou :=
  ⟨p.kind, p.name.erase, p.returns.map (·.erase), p.blocks.map (·.erase), Stmt.eraseAll p.body⟩

end Pou

namespace Element

/-- Every constant in the element is an integer, a boolean or a name. -/
def isBasic : Element → Bool
  | .types declarations => declarations.all (·.isBasic)
  | .globals block => block.isBasic
  | .pou p => p.isBasic

def words : Element → List Word
  | .types declarations => between .kwType .kwEndType (declarations.flatMap (·.words ++ [mark .semicolon]))
  | .globals block => block.words
  | .pou p => p.words

/-- The element without its spans. -/
def erase : Element → Element
  | .types declarations => .types (declarations.map (·.erase))
  | .globals block => .globals block.erase
  | .pou p => .pou p.erase

end Element

end Tree

end StructuredText
