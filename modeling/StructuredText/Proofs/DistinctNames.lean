-- SUMMARY: Declarations of a linked library have names of their own in their scopes, and are found by them.
import StructuredText.Proofs.Coercion
import StructuredText.Proofs.LinkedAddresses

/-!
# Distinct names

Merging refuses a type, a global variable or a unit whose name is taken. The variables of a unit are not compared, but
only the first one of a name is ever given a type, and a variable without a type has no initial value. So all of these
have names of their own in what is linked, and every lookup finds the only declaration of the name in its scope.

The members of a structure are the exception: their types are filled in by their positions, and nothing compares their
names.
-/

namespace StructuredText

-- ---------------------------------------------------------------------------
-- Lists of declarations
-- ---------------------------------------------------------------------------

/-- No two of the declarations have the same name. -/
def DistinctNames {α : Type} (name : α → Ident) (as : List α) : Prop :=
  as.Pairwise fun a b => (name a == name b) = false

section

variable {α : Type} {name : α → Ident} {p : α → Bool} {as : List α} {a : α} {i : Nat}

/-- The last item with a property is the only one. -/
theorem lastIdx?_of_only (ha : as[i]? = some a) (hp : p a = true)
    (honly : ∀ j b, as[j]? = some b → p b = true → j = i) : lastIdx? p as = some i := by
  cases h : lastIdx? p as with
  | some j =>
    obtain ⟨b, hb, hpb⟩ := getElem?_of_lastIdx? h
    rw [honly j b hb hpb]
  | none =>
    have hmem : (a, i) ∈ as.zipIdx.filter fun (b, _) => p b :=
      List.mem_filter.mpr ⟨List.mem_zipIdx_iff_getElem?.mpr ha, hp⟩
    have hnone := List.getLast?_eq_none_iff.mp (Option.map_eq_none_iff.mp h)
    rw [hnone] at hmem
    cases hmem

/-- The first item with a property is the only one. -/
theorem findIdx?_of_only (ha : as[i]? = some a) (hp : p a = true)
    (honly : ∀ j b, as[j]? = some b → p b = true → j = i) : as.findIdx? p = some i := by
  obtain ⟨hlt, heq⟩ := List.getElem?_eq_some_iff.mp ha
  refine List.findIdx?_eq_some_iff_getElem.mpr ⟨hlt, heq ▸ hp, fun j hj hpj => ?_⟩
  have hsame := honly j as[j] (List.getElem?_eq_getElem (hj.trans hlt)) hpj
  omega

namespace DistinctNames

variable (h : DistinctNames name as) (ha : as[i]? = some a)

include h ha

/-- A name stands at one position only. -/
theorem only (j : Nat) (b : α) (hb : as[j]? = some b) (hname : (name b == name a) = true) : j = i := by
  obtain ⟨hi, rfl⟩ := List.getElem?_eq_some_iff.mp ha
  obtain ⟨hj, rfl⟩ := List.getElem?_eq_some_iff.mp hb
  rcases Nat.lt_trichotomy i j with hlt | rfl | hlt
  · have hne := List.pairwise_iff_getElem.mp h i j hi hj hlt
    rw [← Bool.not_eq_true, Ident.beq_iff] at hne
    exact absurd (Ident.beq_iff.mp hname).symm hne
  · rfl
  · rw [List.pairwise_iff_getElem.mp h j i hj hi hlt] at hname
    cases hname

theorem findIdx? : as.findIdx? (name · == name a) = some i :=
  findIdx?_of_only ha (Ident.beq_iff.mpr rfl) (h.only ha)

theorem find? : as.find? (name · == name a) = some a := by
  have hsome : (as.find? (name · == name a)).isSome = true :=
    List.find?_isSome.mpr ⟨a, List.mem_of_getElem? ha, Ident.beq_iff.mpr rfl⟩
  obtain ⟨b, hb⟩ := Option.isSome_iff_exists.mp hsome
  have hi := getElem?_of_findIdx? (h.findIdx? ha) hb
  rw [hb, Option.some.inj (hi.symm.trans ha)]

theorem lastIdx? (hp : p a = true) (hname : ∀ b, p b = true → (name b == name a) = true) : lastIdx? p as = some i :=
  lastIdx?_of_only ha hp fun j b hb hpb => h.only ha j b hb (hname b hpb)

end DistinctNames

end

-- ---------------------------------------------------------------------------
-- Libraries
-- ---------------------------------------------------------------------------

/-- The declarations of the library have names of their own in their scopes. -/
structure Library.DistinctlyNamed (l : Library) : Prop where
  /-- Elementary types among them. -/
  types : ∀ id d, l.types.get? id = some d → l.types.lookup? d.name = some id
  globals : DistinctNames (·.name) l.globals
  pous : DistinctNames (·.name) l.pous
  vars : ∀ p ∈ l.pous, DistinctNames (·.name) p.vars

/-- A type is looked up by the key of its name. -/
theorem TypeTable.lookup?_of_key (t : TypeTable) {a b : Ident} (h : a.key = b.key) : t.lookup? a = t.lookup? b := by
  have hsame : (fun d : TypeDecl => d.name == a) = fun d => d.name == b := by
    funext d
    show (d.name.key == a.key) = (d.name.key == b.key)
    rw [h]
  unfold lookup? Elementary.find?
  rw [h, hsame]

namespace Library.DistinctlyNamed

variable {l : Library} (hl : l.DistinctlyNamed) {p : Pou} {v : VarDecl} {i : Nat}

include hl

/-- Types with the same name are the same. -/
theorem eq_of_type_name {id id' : TypeId} {d d' : TypeDecl} (hd : l.types.get? id = some d)
    (hd' : l.types.get? id' = some d') (hname : (d.name == d'.name) = true) : id = id' := by
  have hfound := hl.types id d hd
  rw [l.types.lookup?_of_key (Ident.beq_iff.mp hname), hl.types id' d' hd'] at hfound
  exact (Option.some.inj hfound).symm

theorem findGlobal? (hv : l.globals[i]? = some v) : l.findGlobal? v.name = some i := hl.globals.findIdx? hv

theorem findPou? (hp : l.pous[i]? = some p) : l.findPou? p.name = some i := hl.pous.findIdx? hp

theorem var?_global (hv : v ∈ l.globals) : l.var? .global v.name = some v := by
  obtain ⟨i, hi⟩ := List.mem_iff_getElem?.mp hv
  exact hl.globals.find? hi

theorem var?_pou (hp : p ∈ l.pous) (hv : v ∈ p.vars) : l.var? (.pou p.name) v.name = some v := by
  obtain ⟨i, hi⟩ := List.mem_iff_getElem?.mp hv
  rw [Library.var?_eq (Link.scope?_of_mem hl.pous hp)]
  exact (hl.vars p hp).find? hi

/-- The name of a unit stands for it among the units of its kind. -/
theorem unitNamed? (hp : l.pous[i]? = some p) : l.unitNamed? p.kind p.name = some i :=
  hl.pous.lastIdx? hp (by simp [Ident.beq_iff]) fun q hq => (Bool.and_eq_true_iff.mp hq).2

/-- In the body of a unit, the name of one of its variables stands for the variable. -/
theorem symbol?_own (hp : p ∈ l.pous) (hv : p.vars[i]? = some v) :
    l.symbol? (some p) v.name = some (.root (.own i)) := by
  have hown := (hl.vars p hp).lastIdx? hv (p := fun w : VarDecl => w.name == v.name) (Ident.beq_iff.mpr rfl) fun _ => id
  simp [Library.symbol?, hown]

/-- The name of a global variable stands for the variable unless the unit has a variable of this name. -/
theorem symbol?_global {pou : Option Pou} (hv : l.globals[i]? = some v)
    (hfree : ∀ p, pou = some p → ∀ w ∈ p.vars, (w.name == v.name) = false) :
    l.symbol? pou v.name = some (.root (.global i)) := by
  have hglobal := hl.globals.lastIdx? hv (p := fun w : VarDecl => w.name == v.name) (Ident.beq_iff.mpr rfl) fun _ => id
  have hown : (do lastIdx? (fun w : VarDecl => w.name == v.name) (← pou).vars) = none := by
    refine Option.eq_none_iff_forall_ne_some.mpr fun j hj => ?_
    obtain ⟨p, rfl, hlast⟩ := Option.bind_eq_some_iff.mp hj
    obtain ⟨w, hw, hname⟩ := getElem?_of_lastIdx? hlast
    rw [hfree p rfl w (List.mem_of_getElem? hw)] at hname
    cases hname
  simp only [Library.symbol?, hown, hglobal]
  rfl

end Library.DistinctlyNamed

-- ---------------------------------------------------------------------------
-- Linked libraries
-- ---------------------------------------------------------------------------

/-- Among variables that all have types, only the first of a name does if the names are distinct. -/
theorem VarDecl.FirstTyped.distinctNames {vars : List VarDecl} (h : FirstTyped vars)
    (htyped : ∀ v ∈ vars, ∃ type, v.type.id? = some type) : DistinctNames (·.name) vars := by
  refine h.imp_of_mem fun {u v} _ hv hor => hor.resolve_left fun hnone => ?_
  obtain ⟨type, htype⟩ := htyped v hv
  cases hnone.symm.trans htype

namespace Link

variable {l l' : Library} {uses : List TypeUse}

/-- Elementary types are found by their names in every table. -/
theorem lookup?_elementary {id : TypeId} {d : TypeDecl} (hid : id < TypeTable.elementaryCount)
    (hd : TypeTable.initial.get? id = some d) (t : TypeTable) : t.lookup? d.name = some id := by
  have hall : ∀ id < TypeTable.elementaryCount,
      (TypeTable.initial.get? id).all fun d => Elementary.find? d.name = some id := by
    decide +kernel
  have hfound := hall id hid
  rw [hd, Option.all_some, decide_eq_true_eq] at hfound
  unfold TypeTable.lookup?
  rw [hfound]

/-- Linking types keeps their names, by which they are found. -/
theorem named_of_linkTypes (hl : l.Merged uses) (h : linkTypes uses l = .ok l') {id : TypeId} {d : TypeDecl}
    (hd : l'.types.get? id = some d) : l'.types.lookup? d.name = some id := by
  obtain ⟨l₁, huses, h⟩ := Except.bind_eq_ok.mp h
  obtain ⟨_, -, h⟩ := Except.bind_eq_ok.mp h
  obtain ⟨-, rfl⟩ := finish_eq_ok.mp h
  obtain ⟨-, hfilled, -⟩ := linked_of_linkUses huses fun _ _ => lookup?_declares hl
  obtain ⟨d₀, hd₀, hname, -⟩ := hfilled.exists_of_get? hd
  rw [hname]
  rcases Nat.lt_or_ge id TypeTable.elementaryCount with hlt | hge
  · exact lookup?_elementary hlt ((hl.initial id hlt).symm.trans hd₀) l₁.types
  · rw [lookup?_congr hfilled.names]
    exact hl.indexed id d₀ hge hd₀

end Link

/-- The declarations of what is linked from sources have names of their own. -/
theorem distinctlyNamed_of_parsed {units : List CompilationUnit} {options : Options} {l : Library}
    (hparsed : ∀ unit ∈ units, ∃ source file, parseUnit source file = .ok unit) (h : link units options = .ok l) :
    l.DistinctlyNamed := by
  have hunits : ∀ unit ∈ units, unit.Fresh := fun unit hunit =>
    let ⟨_, _, hparse⟩ := hparsed unit hunit
    fresh_of_parseUnit hparse
  obtain ⟨hresolved, -⟩ := resolved_of_link hunits h
  have hroomy := roomy_of_link hunits h
  obtain ⟨l₁, l₂, hmerged, htypes, hsame⟩ := Link.types_of_stages hunits (stages_of_link h)
  refine ⟨fun id d hd => ?_, hroomy.globals.first.distinctNames fun v hv => ?_, hroomy.names, fun p hp =>
    (hroomy.vars p hp).first.distinctNames fun v hv => ?_⟩
  · rw [hsame] at hd ⊢
    exact Link.named_of_linkTypes hmerged htypes hd
  · obtain ⟨-, type, hvar⟩ := hresolved.globals v hv
    exact ⟨type, hvar.typed⟩
  · obtain ⟨type, hvar⟩ := hresolved.vars p hp v hv
    exact ⟨type, hvar.typed⟩

/-- Declares a structure with two members of one name. -/
def sharedNameSource : String := "TYPE S : STRUCT a : INT; a : BOOL; END_STRUCT; END_TYPE"

/-- A structure is linked although two of its members have the same name. -/
example : (linkSource sharedNameSource).toOption.any (fun l => !decide l.types.DistinctMembers) = true := by
  decide +kernel

end StructuredText
