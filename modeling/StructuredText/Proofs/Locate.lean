-- SUMMARY: References that lead from variable to part by type are located at places of their types.
import StructuredText.Body.Verify
import StructuredText.Proofs.Reading

/-!
# References

A reference starts at a variable and goes on by members, elements and the variables of function blocks. Each
step is one from a type to another. A reference with a type is located at a place of its type.
-/

namespace StructuredText

theorem forall₂_snoc {α β : Type} {R : α → β → Prop} {as : List α} {a : α} {bs : List β}
    (h : List.Forall₂ R (as ++ [a]) bs) :
    ∃ bs' b, List.Forall₂ R as bs' ∧ R a b ∧ bs = bs' ++ [b] := by
  induction as generalizing bs with
  | nil =>
    cases h with
    | cons hab hrest =>
      cases hrest
      exact ⟨[], _, .nil, hab, rfl⟩
  | cons _ as ih =>
    cases h with
    | cons hfirst hrest =>
      obtain ⟨bs', b, hbs, hab, rfl⟩ := ih hrest
      exact ⟨_ :: bs', b, .cons hfirst hbs, hab, rfl⟩

-- ---------------------------------------------------------------------------
-- Selectors
-- ---------------------------------------------------------------------------

/-- The selector may be evaluated to the hop. -/
inductive Selector.Selects : Selector → Hop → Prop
  | member {position} : Selects (.member position) (.child position)
  | element {dimensions first count indexes position}
    (h : Dimension.flatIndex dimensions indexes = .ok position) :
    Selects (.element dimensions first count) (.child position)
  | var {position} : Selects (.var position) (.var position)

theorem Dimension.flatIndex_orderly (ds : List Dimension) (indexes : List Int) :
    Orderly (flatIndex ds indexes) := by
  refine .ite (fun _ => .error (by rintro ⟨⟩)) fun _ => ?_
  generalize ds.zip (indexes.zip (strides ds)) = entries
  induction entries with
  | nil => exact .ok trivial
  | cons entry rest ih =>
    rw [offset]
    exact .ite (fun _ => .error (by rintro ⟨⟩)) fun _ => .bind ih fun _ _ => .pure trivial

theorem Body.hops_regular (span : Span) (selectors : List Selector) (indexes : List (Span × Value)) :
    Regular (Body.hops span selectors indexes) (List.Forall₂ Selector.Selects selectors) := by
  refine .mapM fun selector _ => ?_
  cases selector with
  | member position => exact .ok .member
  | var position => exact .ok .var
  | element dimensions first count =>
    refine .bind (.mapM (R := fun _ _ => True) fun _ _ => .atSpan (Value.toInteger_orderly _) _)
      fun indexes _ => ?_
    have hposition := (Dimension.flatIndex_orderly dimensions indexes).and_ok
      (R := fun position => Dimension.flatIndex dimensions indexes = .ok position) fun _ h _ => h
    exact .bind (hposition.atSpan _) fun position h => .pure (.element h)

-- ---------------------------------------------------------------------------
-- References with types
-- ---------------------------------------------------------------------------

namespace Library

/-- A selector leads from a value of a type to one of another type. -/
inductive Leads (l : Library) : TypeId → Selector → TypeId → Prop
  | member {type members position m part} (hkind : l.types.kindOf type = .ok (.struct members))
    (hm : members[position]? = some m) (hpart : m.type.id? = some part) :
    Leads l type (.member position) part
  | element {type element dimensions initial first count part}
    (hkind : l.types.kindOf type = .ok (.array element dimensions initial))
    (hpart : element.id? = some part) : Leads l type (.element dimensions first count) part
  | var {type pou p position decl part} (hkind : l.types.kindOf type = .ok (.block pou))
    (hp : l.pous[pou]? = some p) (hdecl : p.vars[position]? = some decl)
    (hpart : decl.type.id? = some part) : Leads l type (.var position) part

/-- A reference in a unit with the variables has a type. -/
inductive Refers (l : Library) (vars : List VarDecl) : Root → List Selector → TypeId → Prop
  | own {position decl type} (hdecl : vars[position]? = some decl)
    (htype : decl.type.id? = some type) : Refers l vars (.own position) [] type
  | global {position decl type} (hdecl : l.globals[position]? = some decl)
    (htype : decl.type.id? = some type) : Refers l vars (.global position) [] type
  | program {pou p position decl type} (hp : l.pous[pou]? = some p) (hkind : p.kind = .program)
    (hdecl : p.vars[position]? = some decl) (htype : decl.type.id? = some type) :
    Refers l vars (.program pou) [.var position] type
  | step {root selectors type selector part} (h : Refers l vars root selectors type)
    (hlead : Leads l type selector part) : Refers l vars root (selectors ++ [selector]) part

end Library

/-- The instance that runs has the variables. Where none runs, there are no variables. -/
def Layout.Runs (y : Layout) (current : Option InstanceId) (vars : List VarDecl) : Prop :=
  match current with
  | some i => ∃ p, y.InstanceOf i p ∧ p.vars = vars
  | none => vars = []

-- ---------------------------------------------------------------------------
-- Places
-- ---------------------------------------------------------------------------

theorem Layout.Placed.part {y : Layout} {p : Place} {type part : TypeId} {position : Nat}
    (h : y.Placed p type) (hpart : y.library.types.HasPart type position part) :
    y.Placed { p with path := p.path ++ [position] } part := by
  obtain ⟨decl, owner, inner, hdecl, hexternal, howner, hpath, hinner⟩ := h.place
  have hpart : y.library.types.HasPart inner position part := by
    obtain rfl | hcompatible := hinner
    · exact hpart
    · exact TypeTable.hasPart_of_compatible (TypeTable.compatible_symm hcompatible) hpart
  exact ⟨decl, owner, part, hdecl, hexternal, howner, hpath.snoc hpart, .inl rfl⟩

/-- A variable that is not external is at a place of its type. -/
theorem Layout.placed_slot {y : Layout} {slot : Slot} {decl : VarDecl} {type : TypeId}
    (hdecl : y.declOf slot = some decl) (hexternal : decl.isExternal = false)
    (htype : decl.type.id? = some type) : y.Placed ⟨slot, []⟩ type :=
  ⟨decl, type, type, hdecl, hexternal, htype, .here, .inl rfl⟩

namespace Storage

variable {y : Layout} {s : Storage}

theorem Sound.placeOf (hs : s.Sound y) (hl : y.library.Resolved) {i : InstanceId} {position : Nat}
    {decl : VarDecl} {type : TypeId} (hdecl : y.declOf (.own i position) = some decl)
    (htype : decl.type.id? = some type) :
    ∃ place, s.placeOf y.library i position = .ok place ∧ y.Placed place type := by
  obtain ⟨type', hresolved⟩ := hl.declOf hdecl
  cases htype.symm.trans hresolved.typed
  unfold Storage.placeOf
  rw [hs.declOf hdecl, Except.ok_bind]
  cases hkind : decl.kind with
  | external g =>
    obtain ⟨g, owner, ownerType, rfl, howner, hexternal, hownerType, hcompatible⟩ :=
      hresolved.shares _ hkind
    exact ⟨_, rfl, owner, ownerType, ownerType, howner, hexternal, hownerType, .here, .inr hcompatible⟩
  | owned =>
    exact ⟨_, rfl, Layout.placed_slot hdecl (by simp [VarDecl.isExternal, hkind]) htype⟩
  | direct address =>
    exact ⟨_, rfl, Layout.placed_slot hdecl (by simp [VarDecl.isExternal, hkind]) htype⟩

/-- A function block at a place is bound to an instance of that block. -/
theorem Sound.blockAt (hs : s.Sound y) {p : Place} {type : TypeId} {pou : Nat}
    (hp : y.Placed p type) (hkind : y.library.types.kindOf type = .ok (.block pou)) :
    ∃ i, s.value p = .ok (.block ⟨pou, some i⟩) ∧ y.pous[i]? = some pou := by
  obtain ⟨v, hv, hproper, hinhabits⟩ := hs.value hp
  obtain ⟨ref, rfl, rfl⟩ := TypeTable.inhabits_block hkind hinhabits
  obtain ⟨block, instance?⟩ := ref
  obtain ⟨i, rfl, hi⟩ : y.Bound ⟨block, instance?⟩ := hproper
  exact ⟨i, hv, hi⟩

theorem Sound.follow (hs : s.Sound y) (hl : y.library.Resolved) {p : Place} {type part : TypeId}
    {selector : Selector} {hop : Hop} (hp : y.Placed p type)
    (hlead : y.library.Leads type selector part) (hhop : selector.Selects hop) :
    ∃ p', s.follow y.library p hop = .ok p' ∧ y.Placed p' part := by
  cases hlead with
  | member hkind hm hpart =>
    cases hhop with
    | member => exact ⟨_, rfl, hp.part (.member hkind hm hpart)⟩
  | element hkind hpart =>
    cases hhop with
    | element hposition =>
      obtain ⟨v, -, -, hinhabits⟩ := hs.value hp
      obtain ⟨-, -, -, -, -, hsize, -⟩ := TypeTable.inhabits_array hkind hinhabits
      exact ⟨_, rfl, hp.part (.element hkind hpart (Dimension.flatIndex_lt hsize hposition))⟩
  | var hkind hpou hdecl hpart =>
    cases hhop with
    | var =>
      obtain ⟨i, hv, hi⟩ := hs.blockAt hp hkind
      obtain ⟨p', hp', hplaced⟩ :=
        hs.placeOf hl (Layout.declOf_own.mpr ⟨_, ⟨_, hi, hpou⟩, hdecl⟩) hpart
      refine ⟨p', ?_, hplaced⟩
      simp only [Storage.follow, Storage.blockAt, hv, Except.ok_bind]
      exact hp'

/-- A reference is located by locating it without its last hop and following that. -/
theorem locate_snoc {l : Library} {current : Option InstanceId} {root : Root} {hops : List Hop}
    {hop : Hop} {p p' : Place} (h : s.locate l current root hops = .ok p)
    (h' : s.follow l p hop = .ok p') : s.locate l current root (hops ++ [hop]) = .ok p' := by
  have append {start : Place} {hops : List Hop} (h : hops.foldlM (s.follow l) start = .ok p) :
      (hops ++ [hop]).foldlM (s.follow l) start = .ok p' := by
    rw [List.foldlM_append, h, Except.ok_bind, List.foldlM_cons, h']
    rfl
  cases root with
  | own position =>
    cases current with
    | none => cases h
    | some i =>
      obtain ⟨start, hstart, h⟩ := Except.bind_eq_ok.mp h
      exact Except.bind_eq_ok.mpr ⟨start, hstart, append h⟩
  | global g => exact append h
  | program pou =>
    cases hops with
    | nil => cases h
    | cons first rest =>
      cases first with
      | child position => cases h
      | var position =>
        obtain ⟨i, hi, h⟩ := Except.bind_eq_ok.mp h
        obtain ⟨start, hstart, h⟩ := Except.bind_eq_ok.mp h
        exact Except.bind_eq_ok.mpr ⟨i, hi, Except.bind_eq_ok.mpr ⟨start, hstart, append h⟩⟩

/-- A reference with a type is located at a place of its type. -/
theorem Sound.locate (hs : s.Sound y) (hl : y.library.Resolved) {current : Option InstanceId}
    {vars : List VarDecl} {root : Root} {selectors : List Selector} {type : TypeId} {hops : List Hop}
    (hruns : y.Runs current vars) (href : y.library.Refers vars root selectors type)
    (hhops : List.Forall₂ Selector.Selects selectors hops) :
    ∃ p, s.locate y.library current root hops = .ok p ∧ y.Placed p type := by
  induction href generalizing hops with
  | own hdecl htype =>
    cases hhops
    cases current with
    | none =>
      cases hruns
      simp at hdecl
    | some i =>
      obtain ⟨p, hp, rfl⟩ := hruns
      obtain ⟨place, hplace, hplaced⟩ := hs.placeOf hl (Layout.declOf_own.mpr ⟨p, hp, hdecl⟩) htype
      exact ⟨place, Except.bind_eq_ok.mpr ⟨place, hplace, rfl⟩, hplaced⟩
  | global hdecl htype =>
    cases hhops
    exact ⟨_, rfl, Layout.placed_slot hdecl (hl.globals _ (List.mem_of_getElem? hdecl)).1 htype⟩
  | program hp hkind hdecl htype =>
    cases hhops with
    | cons hhop hrest =>
      cases hhop
      cases hrest
      obtain ⟨i, hi, hpou⟩ := hs.units _ _ hp (by simp [hkind])
      obtain ⟨place, hplace, hplaced⟩ :=
        hs.placeOf hl (Layout.declOf_own.mpr ⟨_, ⟨_, hpou, hp⟩, hdecl⟩) htype
      refine ⟨place, ?_, hplaced⟩
      exact Except.bind_eq_ok.mpr ⟨i, hi, Except.bind_eq_ok.mpr ⟨place, hplace, rfl⟩⟩
  | step href hlead ih =>
    obtain ⟨hops, hop, hinit, hhop, rfl⟩ := forall₂_snoc hhops
    obtain ⟨p, hp, hplaced⟩ := ih hinit
    obtain ⟨p', hp', hplaced'⟩ := hs.follow hl hplaced hlead hhop
    exact ⟨p', locate_snoc hp hp', hplaced'⟩

end Storage

end StructuredText
