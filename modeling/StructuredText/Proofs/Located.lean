-- SUMMARY: What a variable takes from direct memory is a value of its type, up to ranges.
import StructuredText.Memory
import StructuredText.Proofs.Complete

/-!
# Values from direct memory

The bytes at an address stand for a number of at most 64 bits. A variable that is located there takes from it a
value of the elementary type behind its own type, so that only the limits of a subrange can be missed.
-/

namespace StructuredText

theorem numberOfBytes_lt (bs : List UInt8) : numberOfBytes bs < 256 ^ bs.length := by
  induction bs with
  | nil => simp [numberOfBytes]
  | cons b bs ih =>
    have hb := b.toNat_lt
    rw [numberOfBytes, List.length_cons, Nat.pow_succ]
    omega

theorem Elementary.bits_of_bool {e : Elementary} (h : e.kind = .bool) : e.bits = 1 := by
  cases e <;> first | rfl | cases h

theorem AddressSize.bytes_le (size : AddressSize) : size.bytes ≤ 8 := by
  cases size <;> simp [bytes]

namespace DirectMemory

theorem read_lt {m : DirectMemory} {a : Address} {n : Nat} (h : m.read a = .ok n) : n < 2 ^ 64 := by
  obtain ⟨bytes, hbytes, h⟩ := Except.bind_eq_ok.mp h
  obtain ⟨_, -, hbytes⟩ := Except.bind_eq_ok.mp hbytes
  have hlength : bytes.length ≤ 8 := by
    cases hbytes
    have hsize := a.size.bytes_le
    simp
    omega
  have hnumber : numberOfBytes bytes < 2 ^ 64 :=
    calc numberOfBytes bytes < 256 ^ bytes.length := numberOfBytes_lt bytes
      _ ≤ 256 ^ 8 := Nat.pow_le_pow_right (by decide) hlength
      _ = 2 ^ 64 := by decide
  split at h
  · cases h
    have hbit := Nat.mod_lt (numberOfBytes bytes / 2 ^ (‹Fin 8›).val) (show 2 > 0 by decide)
    omega
  · cases h
    exact hnumber

theorem decode?_proper {e : Elementary} {n : Nat} {v : Value} {bound : BlockRef → Prop}
    (hn : n < 2 ^ 64) (h : decode? e n = some v) : v.Proper bound := by
  unfold decode? at h
  split at h
  · cases h
    trivial
  · cases h
    simp only [Value.Proper, FitsInteger]
    split
    · have hpositive := Nat.two_pow_pos e.bits
      have hle : 2 ^ e.bits ≤ 2 ^ 64 := Nat.pow_le_pow_right (by decide) (by cases e <;> decide)
      have hlow := @Int.le_bmod n (2 ^ e.bits) hpositive
      have hhigh := @Int.bmod_lt n (2 ^ e.bits) hpositive
      generalize 2 ^ e.bits = size at *
      omega
    · omega
  · cases h
    trivial
  · cases h

theorem decode?_kind {e : Elementary} {n : Nat} {v : Value} (h : decode? e n = some v) :
    v.kind = e.kind.valueKind := by
  unfold decode? at h
  split at h <;> simp_all [ElementaryKind.valueKind] <;> subst h <;> rfl

end DirectMemory

namespace TypeTable

variable {t : TypeTable}

/-- Up to ranges, the types that are declared in terms of an elementary type are inhabited by all of its values. -/
theorem inhabits_elementaryWithin_iff {start id : TypeId} {steps : Nat} {e : Elementary} {v : Value}
    (h : t.elementaryWithin start steps id = .ok (some e)) :
    t.Inhabits False id v ↔ v.kind = e.kind.valueKind := by
  induction steps generalizing id with
  | zero => cases h
  | succ steps ih =>
    rw [elementaryWithin] at h
    obtain ⟨d, hd, h⟩ := Except.bind_eq_ok.mp h
    replace hd := get_eq_ok.mp hd
    split at h
    · next e' hkind =>
      cases h
      constructor
      · intro hv
        cases hv with
        | elementary hd' hkind' hv =>
          cases hd.symm.trans hd'
          cases hkind.symm.trans hkind'
          exact hv.kind
        | _ => simp_all
      · exact fun hv => .elementary hd hkind ⟨hv, False.elim⟩
    · next parent initial hkind =>
      obtain ⟨p, hp, h⟩ := Except.bind_eq_ok.mp h
      replace hp := ref_id_eq_ok.mp hp
      rw [← ih h]
      constructor
      · intro hv
        cases hv with
        | «alias» hd' hkind' hparent hv =>
          cases hd.symm.trans hd'
          cases hkind.symm.trans hkind'
          cases hp.symm.trans hparent
          exact hv
        | _ => simp_all
      · exact .alias hd hkind hp
    · next base min max initial hkind =>
      obtain ⟨b, hb, h⟩ := Except.bind_eq_ok.mp h
      replace hb := ref_id_eq_ok.mp hb
      rw [← ih h]
      constructor
      · intro hv
        cases hv with
        | subrange hd' hkind' hbase hv =>
          cases hd.symm.trans hd'
          cases hkind.symm.trans hkind'
          cases hb.symm.trans hbase
          exact hv
        | _ => simp_all
      · exact fun hv => .subrange hd hkind hb hv False.elim
    · cases h

end TypeTable

namespace DirectMemory

/-- The type has a form in memory. -/
def Encodable (e : Elementary) : Prop :=
  match e.kind with
  | .bool | .integer .. | .bits => True
  | _ => False

variable {t : TypeTable} {id : TypeId} {a : Address} {e : Elementary}

/-- A type that can be at an address is elementary, has a form in memory, and is of the size of the address. -/
theorem addressable_eq_ok (h : addressable t id a = .ok e) :
    t.elementaryOf id = .ok (some e) ∧ Encodable e ∧ e.bits = a.size.bits := by
  obtain ⟨e?, he?, h⟩ := Except.bind_eq_ok.mp h
  cases e? with
  | none => cases h
  | some e' =>
    have accepted (fits : Bool) (h : (if fits then pure e' else throw (mismatch t id a) :
        Except ValueError Elementary) = .ok e) : fits = true ∧ e' = e := by
      cases fits with
      | true => exact ⟨rfl, Except.ok.inj h⟩
      | false => cases h
    obtain ⟨hfits, rfl⟩ := accepted _ h
    refine ⟨he?, ?_⟩
    cases hkind : e'.kind <;> cases hsize : a.size <;> simp [hkind, hsize] at hfits <;> simp [Encodable, hkind, hfits]
    exact e'.bits_of_bool hkind

theorem load_eq_ok {m : DirectMemory} {v : Value} (h : load t id a m = .ok v) :
    ∃ e n, t.elementaryOf id = .ok (some e) ∧ m.read a = .ok n ∧ decode? e n = some v := by
  obtain ⟨e, he, h⟩ := Except.bind_eq_ok.mp h
  obtain ⟨n, hn, h⟩ := Except.bind_eq_ok.mp h
  refine ⟨e, n, (addressable_eq_ok he).1, hn, ?_⟩
  split at h
  · next v' hv =>
    cases h
    exact hv
  · cases h

-- ---------------------------------------------------------------------------
-- Regular access
-- ---------------------------------------------------------------------------

theorem bytesAt_orderly (m : DirectMemory) (a : Address) : Orderly (m.bytesAt a) := by
  refine .bind (Q := fun _ => True) ?_ fun _ _ => .pure trivial
  unfold inArea
  exact .ite (fun _ => .ok trivial) fun _ => .error nofun

theorem read_orderly (m : DirectMemory) (a : Address) : Orderly (m.read a) := by
  refine .bind (m.bytesAt_orderly a) fun bytes _ => ?_
  split <;> exact .pure trivial

theorem write_orderly (m : DirectMemory) (a : Address) (n : Nat) : Orderly (m.write a n) := by
  refine .bind (m.bytesAt_orderly a) fun bytes _ => ?_
  split <;> exact .pure trivial

variable (ht : t.Complete)

include ht

theorem addressable_orderly (h : t.Declares id) (a : Address) : Orderly (addressable t id a) := by
  refine .bind (ht.elementaryOf_orderly h) fun e _ => ?_
  split
  · exact .fail nofun
  · exact .ite (fun _ => .pure trivial) fun _ => .fail nofun

/-- Reading a located variable yields a value of its type, up to ranges. -/
theorem load_regular {bound : BlockRef → Prop} (h : t.Declares id) (a : Address) (m : DirectMemory) :
    Regular (load t id a m) fun v => v.Proper bound ∧ t.Inhabits False id v := by
  have horderly : Orderly (load t id a m) := by
    refine .bind (addressable_orderly ht h a) fun e _ => .bind (m.read_orderly a) fun n _ => ?_
    split
    · exact .pure trivial
    · exact .fail nofun
  refine horderly.and_ok fun v hv _ => ?_
  obtain ⟨e, n, he, hn, hv⟩ := load_eq_ok hv
  exact ⟨decode?_proper (read_lt hn) hv, (TypeTable.inhabits_elementaryWithin_iff he).mpr (decode?_kind hv)⟩

theorem store_orderly (h : t.Declares id) (a : Address) (v : Value) (m : DirectMemory) :
    Orderly (store t id a v m) := by
  refine .bind (addressable_orderly ht h a) fun e _ => ?_
  split
  · exact m.write_orderly a _
  · exact .fail nofun

end DirectMemory

end StructuredText
