import Mathlib.Logic.Function.Basic
import Mathlib.Order.Basic

/-!
# Values that are lowered for a while and restored

A value is lowered on behalf of several clients. A client that lowers it first records the value it
finds, and when it is done it writes this record back; the clients come and go in any order. The
original value is not lost as long as some client that is present has recorded it, and when the
last client leaves, the value is the original one again. Leaving is safe unless the client holds
the only record of the original value while others are present.

## Main definitions

* `Restorable base cur saved`: the value is `cur`, `saved x` is the record of the client `x` if it
  is present, and `base` can be restored.

## Main results

* `Restorable.eq_base`: without clients the value is the original one.
* `Restorable.push`, `Restorable.lower`, `Restorable.pop`: a client comes, lowers the value again,
  or leaves.
-/

variable {ι α : Type*} [PartialOrder α]

/-- Neither the value nor a record is above `base`; as long as there are records, one of them is
`base`, and otherwise the value is. -/
structure Restorable (base cur : α) (saved : ι → Option α) : Prop where
  cur_le : cur ≤ base
  saved_le : ∀ x v, saved x = some v → v ≤ base
  recorded : ∀ x v, saved x = some v → ∃ y, saved y = some base
  eq_base : (∀ x, saved x = none) → cur = base

namespace Restorable

variable {base cur c : α} {saved : ι → Option α} {x : ι}

theorem init (base : α) : Restorable base base fun _ : ι => none :=
  ⟨le_rfl, fun _ _ h => absurd h (Option.some_ne_none _).symm,
    fun _ _ h => absurd h (Option.some_ne_none _).symm, fun _ => rfl⟩

/-- A client comes, records the value and lowers it. -/
theorem push [DecidableEq ι] (h : Restorable base cur saved) (hx : saved x = none)
    (hc : c ≤ cur) : Restorable base c (Function.update saved x (some cur)) := by
  have hself : Function.update saved x (some cur) x = some cur := Function.update_self ..
  have hother : ∀ y, y ≠ x → Function.update saved x (some cur) y = saved y :=
    fun y hy => Function.update_of_ne hy ..
  refine ⟨hc.trans h.cur_le, fun y v hy => ?_, fun _ _ _ => ?_, fun hnone => ?_⟩
  · by_cases hyx : y = x
    · subst hyx
      rw [hself] at hy
      cases hy
      exact h.cur_le
    · exact h.saved_le y v (hother y hyx ▸ hy)
  · by_cases hany : ∃ z v, saved z = some v
    · obtain ⟨z, v, hz⟩ := hany
      obtain ⟨y, hy⟩ := h.recorded z v hz
      have hyx : y ≠ x := by
        rintro rfl
        rw [hx] at hy
        cases hy
      exact ⟨y, (hother y hyx).trans hy⟩
    · have hcur := h.eq_base fun z => by
        by_contra hz
        obtain ⟨v, hv⟩ := Option.ne_none_iff_exists'.1 hz
        exact hany ⟨z, v, hv⟩
      exact ⟨x, by rw [hself, hcur]⟩
  · have hno := hnone x
    rw [hself] at hno
    cases hno

/-- A client that is present lowers the value again. -/
theorem lower {v : α} (h : Restorable base cur saved) (hx : saved x = some v) (hc : c ≤ cur) :
    Restorable base c saved :=
  ⟨hc.trans h.cur_le, h.saved_le, h.recorded, fun hnone => by
    rw [hnone x] at hx
    cases hx⟩

/-- A client leaves and writes its record back: it is the only client, or another one has a record
that is not below. -/
theorem pop [DecidableEq ι] {v : α} (h : Restorable base cur saved) (hx : saved x = some v)
    (hrest : ∀ y u, y ≠ x → saved y = some u → ∃ z u', z ≠ x ∧ saved z = some u' ∧ v ≤ u') :
    Restorable base v (Function.update saved x none) := by
  have hself : Function.update saved x none x = none := Function.update_self ..
  have hother : ∀ y, y ≠ x → Function.update saved x none y = saved y :=
    fun y hy => Function.update_of_ne hy ..
  have hpresent : ∀ y u, Function.update saved x none y = some u → y ≠ x ∧ saved y = some u := by
    intro y u hy
    have hyx : y ≠ x := by
      rintro rfl
      rw [hself] at hy
      cases hy
    exact ⟨hyx, hother y hyx ▸ hy⟩
  obtain ⟨w, hw⟩ := h.recorded x v hx
  refine ⟨h.saved_le x v hx, fun y u hy => h.saved_le y u (hpresent y u hy).2, fun y u hy => ?_,
    fun hnone => ?_⟩
  · obtain ⟨hyx, hsy⟩ := hpresent y u hy
    by_cases hwx : w = x
    · subst hwx
      have hbase : v = base := Option.some.inj (hx.symm.trans hw)
      obtain ⟨z, u', hzx, hz, hle⟩ := hrest y u hyx hsy
      have hu' : u' = base := le_antisymm (h.saved_le z u' hz) (hbase ▸ hle)
      exact ⟨z, by rw [hother z hzx, hz, hu']⟩
    · exact ⟨w, (hother w hwx).trans hw⟩
  · by_cases hwx : w = x
    · subst hwx
      exact Option.some.inj (hx.symm.trans hw)
    · have hno := hnone w
      rw [hother w hwx, hw] at hno
      cases hno

end Restorable
