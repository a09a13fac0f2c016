-- SUMMARY: The type in front of a constant is checked in a statement and left out of an initial value.
import StructuredText.Proofs.Coercion
import StructuredText.Proofs.ReadConstants

/-!
# Constants with types

In a statement `T#c` is accepted if `T` is declared and can hold `c`. In an initial value the name in front of the mark is
read and left out, wherever it stands: the value is that of the same words without names of types. So an initial value
may name a type that is not declared, or one that cannot hold the constant.
-/

namespace StructuredText

open Word (mark ident number)

-- ---------------------------------------------------------------------------
-- Statements
-- ---------------------------------------------------------------------------

/-- A constant with a type is accepted as an expression if the type is declared and can hold it. -/
theorem Body.checkLiteral_typed_isOk {s : Scope} {info : NodeInfo} {v : Value} {type : Ident} :
    (∃ c, checkLiteral s info v (some type) = .ok c) ↔
      ∃ id w, s.types.lookup? type = some id ∧ s.types.coerce id v = .ok w := by
  cases hid : s.types.lookup? type with
  | none => simp [checkLiteral, hid]
  | some id =>
    cases hw : s.types.coerce id v <;>
      simp [checkLiteral, hid, hw, atSpan, Except.mapError, bind, Except.bind, pure, Except.pure]

-- ---------------------------------------------------------------------------
-- Initial values
-- ---------------------------------------------------------------------------

namespace Value

mutual

/-- The value is read from its words as an initial value: its lists are not empty, and its counts and numbers can be
written. -/
def isInitial : Value → Bool
  | .bool _ | .enumeration _ => true
  | .integer i => i.natAbs < Literal.integerLimit
  | .arrayInit items => !items.isEmpty && areItemsInitial items
  | .struct members => !members.isEmpty && areMembersInitial members
  | _ => false

def areItemsInitial : List (Nat × Value) → Bool
  | [] => true
  | (count, v) :: items => count ≤ maxCount && v.isInitial && areItemsInitial items

def areMembersInitial : List (Ident × Value) → Bool
  | [] => true
  | (_, v) :: members => v.isInitial && areMembersInitial members

end

mutual

/-- The words of an initial value with types in front of its constants, for some of them or for all. -/
def typedWords (type : Value → Option Ident) : Value → List Word
  | .arrayInit items => between .leftBracket .rightBracket (joined .comma (typedWordsOfItems type items))
  | .struct members => between .leftParen .rightParen (joined .comma (typedWordsOfMembers type members))
  | v => (type v).elim [] (fun t => [ident t, mark .hash]) ++ v.words

def typedWordsOfItems (type : Value → Option Ident) : List (Nat × Value) → List (List Word)
  | [] => []
  | (count, v) :: items => itemWords count (v.typedWords type) :: typedWordsOfItems type items

def typedWordsOfMembers (type : Value → Option Ident) : List (Ident × Value) → List (List Word)
  | [] => []
  | (n, v) :: members => (ident n :: mark .assignment :: v.typedWords type) :: typedWordsOfMembers type members

end

@[simp] theorem typedWordsOfItems_eq (type : Value → Option Ident) (items : List (Nat × Value)) :
    typedWordsOfItems type items = items.map fun item => itemWords item.1 (item.2.typedWords type) := by
  induction items with
  | nil => rfl
  | cons item items ih => simp [typedWordsOfItems, ih]

@[simp] theorem typedWordsOfMembers_eq (type : Value → Option Ident) (members : List (Ident × Value)) :
    typedWordsOfMembers type members =
      members.map fun member => ident member.1 :: mark .assignment :: member.2.typedWords type := by
  induction members with
  | nil => rfl
  | cons member members ih => simp [typedWordsOfMembers, ih]

end Value

namespace Grammar

open StructuredText.Parser

variable {ws : List Word} {v : Value}

/-- What is read after the mark is read as an initial value with any name in front of the mark. -/
theorem initialReadsAs_typed (h : ∀ rest, Before endsValue rest → parse typedValue (tokens ws ++ rest) = some (v.erase, rest))
    (type : Ident) : InitialReadsAs (ident type :: mark .hash :: ws) v where
  reads depth rest hdepth hrest := by
    obtain ⟨depth, rfl⟩ : ∃ d, depth = d + 1 := Nat.exists_eq_add_one_of_ne_zero (by omega)
    simp [initialValueWithin, listed, typedLiteral, h rest hrest]
  uncounted rest hrest := by
    simp [integer, literal]

variable (type : Value → Option Ident)

theorem initialReadsAs_elim (h : InitialReadsAs v.words v)
    (htyped : ∀ rest, parse typedValue (tokens v.words ++ rest) = some (v.erase, rest)) :
    InitialReadsAs ((type v).elim [] (fun t => [ident t, mark .hash]) ++ v.words) v := by
  cases type v with
  | none => exact h
  | some t => exact initialReadsAs_typed (fun rest _ => htyped rest) t

theorem initialReadsAs_typedConstant (h : IsConstant v) : InitialReadsAs (v.typedWords type) v := by
  have hwords : v.typedWords type = (type v).elim [] (fun t => [ident t, mark .hash]) ++ v.words := by
    cases h <;> rfl
  rw [hwords]
  exact initialReadsAs_elim type (initialReadsAs_constant h) fun rest => by simp [typedValue, parse_constant h]

mutual

theorem initialReadsAs_typedWords : (v : Value) → v.isInitial = true → InitialReadsAs (v.typedWords type) v
  | .bool b, _ => initialReadsAs_typedConstant type (.bool b)
  | .integer i, h => initialReadsAs_typedConstant type (.integer (by simpa [Value.isInitial] using h))
  | .enumeration n, _ => initialReadsAs_elim type (initialReadsAs_enumeration n) fun rest => by
    simp [typedValue, enumerated, Value.words, Value.erase, parse_constant_ident]
  | .arrayInit items, h => by
    obtain ⟨hne, hitems⟩ := Bool.and_eq_true_iff.mp h
    simpa [Value.typedWords] using initialReadsAs_array (by simpa using hne) (itemsReadAs_typedWords items hitems)
  | .struct members, h => by
    obtain ⟨hne, hmembers⟩ := Bool.and_eq_true_iff.mp h
    simpa [Value.typedWords] using initialReadsAs_struct (by simpa using hne) (membersReadAs_typedWords members hmembers)
  | .void, h | .bits _, h | .real _, h | .string _, h | .duration _, h | .date _, h | .timeOfDay _, h | .dateAndTime _, h
  | .array _, h | .block _, h => by cases h

theorem itemsReadAs_typedWords : (items : List (Nat × Value)) → Value.areItemsInitial items = true →
    ∀ item ∈ items, item.1 ≤ maxCount ∧ InitialReadsAs (item.2.typedWords type) item.2
  | [], _ => nofun
  | (count, v) :: items, h => by
    simp only [Value.areItemsInitial, Bool.and_eq_true, decide_eq_true_eq] at h
    exact List.forall_mem_cons.mpr
      ⟨⟨h.1.1, initialReadsAs_typedWords v h.1.2⟩, itemsReadAs_typedWords items h.2⟩

theorem membersReadAs_typedWords : (members : List (Ident × Value)) → Value.areMembersInitial members = true →
    ∀ member ∈ members, InitialReadsAs (member.2.typedWords type) member.2
  | [], _ => nofun
  | (n, v) :: members, h => by
    obtain ⟨hv, hmembers⟩ := Bool.and_eq_true_iff.mp h
    exact List.forall_mem_cons.mpr ⟨initialReadsAs_typedWords v hv, membersReadAs_typedWords members hmembers⟩

end

/-- An initial value is read without the types that are written in it. -/
theorem initialValue_ignores_types (v : Value) (h : v.isInitial = true) {rest : List Token} (hrest : Before endsValue rest) :
    parse initialValue (tokens (v.typedWords type) ++ rest) = some (v.erase, rest) := by
  rw [initialValue, parse_bounded]
  refine (initialReadsAs_typedWords type v h).reads _ rest ?_ hrest
  simp only [tokens, List.length_append, List.length_map]
  omega

end Grammar

/-- A source with initial values of a type that is not declared, and of one that cannot hold the constant. -/
def typedInitialSource : String :=
  "TYPE S : STRUCT a : INT; END_STRUCT; END_TYPE " ++
    "PROGRAM P VAR x : S := (a := Missing#5); y : INT := SINT#300; END_VAR END_PROGRAM"

theorem link_ignores_initial_types : ∃ unit l, parseUnit typedInitialSource .anonymous = .ok unit ∧
    link [unit] {} = .ok l ∧ l.types.lookup? ⟨"Missing", .origin⟩ = none := by
  have hrun : (linkSource typedInitialSource).toOption.any
      (fun l => (l.types.lookup? ⟨"Missing", .origin⟩).isNone) = true := by
    have hchars : typedInitialSource.toList = _ := toList_append_eq String.toList_ofList String.toList_ofList
    rw [linkSource, parseUnit, tokenize_of_toList hchars]
    decide +kernel
  obtain ⟨unit, l, hparse, hlink, hmissing⟩ := exists_of_linkSource hrun
  exact ⟨unit, l, hparse, hlink, by simpa using hmissing⟩

end StructuredText
