-- SUMMARY: Positional and named arguments of a call are matched to parameters apart from each other, so they can meet.
import StructuredText.Proofs.Checked
import StructuredText.Proofs.ValueResult
import Mathlib.Data.List.Nodup
import Mathlib.Data.List.Perm.Basic

/-!
# Arguments and parameters

The positional arguments of a call are for the first inputs of the unit, in their order and whatever named arguments stand
between them, and a named argument is for the parameter of its name. Neither looks at the parameters that others have
taken. So arguments are for one and the same parameter when a name is written twice, or when it is the name of an input
that a positional argument is for already. The last one of them is then the one whose value arrives. When there are no
such names, the values of all arguments arrive.
-/

namespace StructuredText

-- ---------------------------------------------------------------------------
-- The parameter of an argument
-- ---------------------------------------------------------------------------

/-- The name of an argument that is copied into the parameter of that name. -/
def ArgLabel.inputName? (label : ArgLabel) : Option Ident := if label.output then none else label.name

/-- The argument can be one for the variable. -/
def ArgLabel.fits (label : ArgLabel) (v : VarDecl) : Bool :=
  if label.output then v.section.isOutput else v.section.isInput

/-- The number of positional arguments up to the one after so many of them. -/
def ArgLabel.counted (label : ArgLabel) (positional : Nat) : Nat :=
  if label.name.isNone then positional + 1 else positional

namespace Pou

/-- The variable is the parameter of an argument that so many positional arguments stand before. -/
def Receives (p : Pou) (label : ArgLabel) (positional i : Nat) : Prop :=
  match label.name with
  | none => p.inputs[positional]? = some i
  | some name => p.find? name = some i ∧ label.fits (p.vars[i]?.getD default) = true

/-- The argument at the position is bound to the parameter. -/
def binding (p : Pou) (label : ArgLabel) (position i : Nat) : ArgBinding :=
  ⟨i, position, !label.output, label.output || (p.vars[i]?.getD default).section = .inOut⟩

/--
The arguments are bound to their parameters, one after the other. The numbers are how many positional arguments stand
before them, and how many arguments.
-/
inductive Binds (p : Pou) : Nat → Nat → List ArgLabel → List ArgBinding → Prop
  | nil {positional position} : Binds p positional position [] []
  | cons {positional position label labels i bindings} (hreceives : p.Receives label positional i)
    (hrest : Binds p (label.counted positional) (position + 1) labels bindings) :
    Binds p positional position (label :: labels) (p.binding label position i :: bindings)

end Pou

namespace Body

variable {s : Scope} {p : Pou} {span : Span}

theorem parameter_eq_ok {label : ArgLabel} {arg : Checked} {positional i : Nat} :
    parameter p span label arg positional = .ok i ↔ p.Receives label positional i := by
  unfold parameter Pou.Receives
  cases label.name with
  | none => cases p.inputs[positional]? <;> simp
  | some name =>
    dsimp only
    rw [← Option.filter_eq_some_iff (p := fun i => label.fits (p.vars[i]?.getD default))]
    unfold ArgLabel.fits
    split
    · next i' hfound => simp [hfound]
    · next hnone => simp [hnone]

/-- What binds one argument after the other binds all of them. -/
theorem binds_of_foldlM
    {step : Nat × List ArgBinding → (ArgLabel × Checked) × Nat → Except Diagnostic (Nat × List ArgBinding)}
    (hstep : ∀ label arg position positional bindings state,
      step (positional, bindings) ((label, arg), position) = .ok state →
        ∃ i, p.Receives label positional i ∧
          state = (label.counted positional, bindings ++ [p.binding label position i]))
    {args : List (ArgLabel × Checked)} {positional position : Nat} {bindings : List ArgBinding}
    {state : Nat × List ArgBinding} (h : (args.zipIdx position).foldlM step (positional, bindings) = .ok state) :
    ∃ new, state.2 = bindings ++ new ∧ p.Binds positional position (args.map (·.1)) new := by
  -- The bindings made so far go with the induction, for the step appends to them.
  induction args generalizing positional position bindings with
  | nil =>
    cases h
    exact ⟨[], by simp, .nil⟩
  | cons arg args ih =>
    obtain ⟨label, arg⟩ := arg
    rw [List.zipIdx_cons, List.foldlM_cons] at h
    obtain ⟨next, hnext, h⟩ := Except.bind_eq_ok.mp h
    obtain ⟨i, hreceives, rfl⟩ := hstep _ _ _ _ _ _ hnext
    obtain ⟨new, hnew, hrest⟩ := ih h
    exact ⟨p.binding label position i :: new, by simp [hnew], .cons hreceives hrest⟩

/-- A check that may be left out does not matter to what follows. -/
theorem of_checked {α : Type} {c : Prop} [Decidable c] {check : Except Diagnostic Unit}
    {k : Unit → Except Diagnostic α} {a : α} (h : (if c then check >>= k else k ()) = .ok a) : k () = .ok a := by
  split at h
  · obtain ⟨_, -, hk⟩ := Except.bind_eq_ok.mp h
    exact hk
  · exact h

/-- A call that is accepted has its arguments bound. -/
theorem binds_of_bindArgs {args : List (ArgLabel × Checked)} {bindings : List ArgBinding}
    (h : bindArgs s p span args = .ok bindings) : p.Binds 0 0 (args.map (·.1)) bindings := by
  obtain ⟨state, hfold, hbindings⟩ := Except.bind_eq_ok.mp h
  cases hbindings
  suffices hbinds : ∃ new, state.2 = [] ++ new ∧ p.Binds 0 0 (args.map (·.1)) new by
    obtain ⟨new, hnew, hbinds⟩ := hbinds
    rw [hnew]
    exact hbinds
  refine binds_of_foldlM (fun label arg position positional bindings state hstep => ?_) hfold
  obtain ⟨i, hi, hstep⟩ := Except.bind_eq_ok.mp hstep
  refine ⟨i, parameter_eq_ok.mp hi, ?_⟩
  have hbound := of_checked (of_checked hstep)
  cases hbound
  rfl

end Body

-- ---------------------------------------------------------------------------
-- Parameters that arguments share
-- ---------------------------------------------------------------------------

/-- The names of the arguments that are copied into the parameters of these names. -/
def ArgLabel.inputNames (labels : List ArgLabel) : List Ident := labels.filterMap (·.inputName?)

/-- The number of positional arguments. -/
def ArgLabel.positionals (labels : List ArgLabel) : Nat := labels.countP (·.name.isNone)

/-- Only a named argument is marked as one for an output. -/
def ArgLabel.IsMarked (label : ArgLabel) : Prop := label.output = true → label.name.isSome = true

/-- The parameters that arguments are copied into. -/
def ArgBinding.inputs (bindings : List ArgBinding) : List Nat := (bindings.filter (·.input)).map (·.param)

namespace Pou

open ArgLabel

variable {p : Pou} {labels : List ArgLabel} {bindings : List ArgBinding} {positional position i : Nat}

theorem nodup_inputs (p : Pou) : p.inputs.Nodup := by
  have hindexes : (p.vars.zipIdx.map (·.2)).Nodup := by
    rw [List.zipIdx_map_snd]
    exact List.nodup_range'
  exact hindexes.sublist (List.filter_sublist.map _)

/-- Variables are found by the same names only. -/
theorem find?_eq_find?_iff {a b : Ident} (ha : p.find? a = some i) : p.find? b = some i ↔ a.key = b.key := by
  obtain ⟨hlt, hname, -⟩ := List.findIdx?_eq_some_iff_getElem.mp ha
  constructor
  · intro hb
    obtain ⟨_, hname', -⟩ := List.findIdx?_eq_some_iff_getElem.mp hb
    exact (Ident.beq_iff.mp hname).symm.trans (Ident.beq_iff.mp hname')
  · intro hkey
    rw [← ha]
    unfold find?
    congr 1
    funext v
    simp only [BEq.beq, hkey]

/-- Positional arguments are copied into the first inputs, and named ones into the parameters of their names. -/
theorem Binds.perm (h : p.Binds positional position labels bindings) (hlabels : ∀ label ∈ labels, label.IsMarked) :
    (ArgBinding.inputs bindings).Perm
      ((p.inputs.drop positional).take (positionals labels) ++ (inputNames labels).filterMap p.find?) := by
  induction h with
  | nil => simp [ArgBinding.inputs, positionals, inputNames]
  | @cons positional position label labels i bindings hreceives _ ih =>
    obtain ⟨hlabel, hlabels⟩ := List.forall_mem_cons.mp hlabels
    have hperm := ih hlabels
    unfold Receives at hreceives
    cases hname : label.name with
    | none =>
      have hinput : label.output = false := Bool.eq_false_iff.mpr fun houtput => by
        simpa [hname] using hlabel houtput
      rw [hname] at hreceives
      obtain ⟨hlt, hi⟩ := List.getElem?_eq_some_iff.mp hreceives
      have hdrop : p.inputs.drop positional = i :: p.inputs.drop (positional + 1) := by
        rw [List.drop_eq_getElem_cons hlt, hi]
      simpa [ArgBinding.inputs, positionals, inputNames, inputName?, counted, binding, hname, hinput, hdrop] using hperm
    | some name =>
      rw [hname] at hreceives
      cases houtput : label.output with
      | true =>
        simpa [ArgBinding.inputs, positionals, inputNames, inputName?, counted, binding, hname, houtput] using hperm
      | false =>
        -- Named arguments may stand before positional ones, so the two sides agree up to their order only.
        have hcons := (hperm.cons i).trans List.perm_middle.symm
        simpa [ArgBinding.inputs, positionals, inputNames, inputName?, counted, binding, hname, houtput, hreceives.1]
          using hcons

/-- The argument at a position is bound by the positional arguments before it. -/
theorem Binds.getElem? (h : p.Binds positional position labels bindings) {k : Nat} {label : ArgLabel}
    (hlabel : labels[k]? = some label) : ∃ i, p.Receives label (positional + positionals (labels.take k)) i ∧
      bindings[k]? = some (p.binding label (position + k) i) := by
  induction h generalizing k with
  | nil => cases hlabel
  | @cons positional position first labels i bindings hreceives _ ih =>
    cases k with
    | zero =>
      cases hlabel
      exact ⟨i, hreceives, rfl⟩
    | succ k =>
      obtain ⟨j, hj, hbinding⟩ := ih hlabel
      have hcounted : first.counted positional + positionals (labels.take k) =
          positional + positionals ((first :: labels).take (k + 1)) := by
        cases hname : first.name <;> simp [counted, positionals, hname, Nat.add_assoc, Nat.add_comm]
      rw [Nat.add_right_comm, Nat.add_assoc position] at hbinding
      exact ⟨j, hcounted ▸ hj, hbinding⟩

/-- All names are those of variables. -/
theorem Binds.find? (h : p.Binds positional position labels bindings) :
    ∀ name ∈ inputNames labels, ∃ i, p.find? name = some i := by
  induction h with
  | nil => simp [inputNames]
  | @cons positional position label labels i bindings hreceives _ ih =>
    intro name hmem
    obtain ⟨label', hlabel, hname⟩ := List.mem_filterMap.mp hmem
    obtain rfl | hlabel := List.mem_cons.mp hlabel
    · unfold inputName? at hname
      split at hname
      · cases hname
      · unfold Receives at hreceives
        rw [hname] at hreceives
        exact ⟨i, hreceives.1⟩
    · exact ih name (List.mem_filterMap.mpr ⟨label', hlabel, hname⟩)

/-- Variables that are found are different if the names are. -/
theorem nodup_filterMap_find? {names : List Ident} (hfound : ∀ name ∈ names, ∃ i, p.find? name = some i) :
    (names.filterMap p.find?).Nodup ↔ (names.map Ident.key).Nodup := by
  induction names with
  | nil => simp
  | cons name names ih =>
    obtain ⟨⟨i, hi⟩, hrest⟩ := List.forall_mem_cons.mp hfound
    have hmem : i ∈ names.filterMap p.find? ↔ name.key ∈ names.map Ident.key := by
      simp only [List.mem_filterMap, List.mem_map, find?_eq_find?_iff hi, eq_comm]
    rw [List.filterMap_cons_some hi, List.map_cons, List.nodup_cons, List.nodup_cons, ih hrest, hmem]

/-- Arguments have parameters of their own if and only if no name is written twice, and none that is the name of an input
which a positional argument is for. -/
theorem Binds.nodup_iff (h : p.Binds 0 0 labels bindings) (hlabels : ∀ label ∈ labels, label.IsMarked) :
    (ArgBinding.inputs bindings).Nodup ↔ ((inputNames labels).map Ident.key).Nodup ∧
      ∀ name ∈ inputNames labels, ∀ i, p.find? name = some i → i ∉ p.inputs.take (positionals labels) := by
  rw [(h.perm hlabels).nodup_iff, List.drop_zero, List.nodup_append', nodup_filterMap_find? h.find?]
  have htaken : (p.inputs.take (positionals labels)).Nodup := p.nodup_inputs.sublist (List.take_sublist _ _)
  rw [and_iff_right htaken]
  refine and_congr_right fun _ => ?_
  constructor
  · intro hdisjoint name hname i hi htake
    exact hdisjoint htake (List.mem_filterMap.mpr ⟨name, hname, hi⟩)
  · intro hdisjoint i htake hmem
    obtain ⟨name, hname, hi⟩ := List.mem_filterMap.mp hmem
    exact hdisjoint name hname i hi htake

end Pou

-- ---------------------------------------------------------------------------
-- Values that arrive
-- ---------------------------------------------------------------------------

namespace Entered

open ArgLabel

variable {y : Layout} {site : CallSite} {args : List Evaluated} {i : InstanceId} {p : Pou} {isFunction : Bool}
  {s s' : Storage} {labels : List ArgLabel}

/-- An argument that has a parameter of its own is what that is set to. -/
theorem of_nodup (h : Entered y site args i p isFunction s s') (hdistinct : (ArgBinding.inputs site.bindings).Nodup)
    {b : ArgBinding} (hb : b ∈ site.bindings) (hinput : b.input = true) : ∃ found param type v,
      args[b.arg]? = some found ∧ p.vars[b.param]? = some param ∧ param.type.id? = some type ∧
        y.library.types.coerce type found.value = .ok v ∧ s'.value ⟨.own i b.param, []⟩ = .ok v := by
  obtain ⟨before, after, hsplit⟩ := List.append_of_mem hb
  refine h.bound before b after hsplit hinput fun c hc hcinput hparam => ?_
  rw [hsplit] at hdistinct
  unfold ArgBinding.inputs at hdistinct
  rw [List.filter_append, List.filter_cons_of_pos hinput, List.map_append, List.map_cons] at hdistinct
  obtain ⟨hfresh, -⟩ := List.nodup_cons.mp hdistinct.of_append_right
  exact hfresh (List.mem_map.mpr ⟨c, List.mem_filter.mpr ⟨hc, hcinput⟩, hparam⟩)

/-- The values of all arguments for inputs arrive at their parameters, if no name is written twice and none is the name
of an input which a positional argument is for. -/
theorem arrives (h : Entered y site args i p isFunction s s') (hbinds : p.Binds 0 0 labels site.bindings)
    (hlabels : ∀ label ∈ labels, label.IsMarked) (hnames : ((inputNames labels).map Ident.key).Nodup)
    (htaken : ∀ name ∈ inputNames labels, ∀ i, p.find? name = some i → i ∉ p.inputs.take (positionals labels))
    {k : Nat} {label : ArgLabel} (hlabel : labels[k]? = some label) (hinput : label.output = false) :
    ∃ j found param type v, p.Receives label (positionals (labels.take k)) j ∧ args[k]? = some found ∧
      p.vars[j]? = some param ∧ param.type.id? = some type ∧
        y.library.types.coerce type found.value = .ok v ∧ s'.value ⟨.own i j, []⟩ = .ok v := by
  obtain ⟨j, hj, hbinding⟩ := hbinds.getElem? hlabel
  rw [Nat.zero_add] at hj hbinding
  have hdistinct := (hbinds.nodup_iff hlabels).mpr ⟨hnames, htaken⟩
  have hbound : (p.binding label k j).input = true := by simp [Pou.binding, hinput]
  obtain ⟨found, param, type, v, hfound, hrest⟩ := h.of_nodup hdistinct (List.mem_of_getElem? hbinding) hbound
  exact ⟨j, found, param, type, v, hj, hfound, hrest⟩

end Entered

end StructuredText
