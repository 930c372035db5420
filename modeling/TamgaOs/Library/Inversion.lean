import Mathlib.Logic.Function.Basic
import Mathlib.Order.Basic

/-!
# Owners and waiters without priority inversion

Tasks own resources and wait for resources; a smaller priority is more urgent. There is no
inversion when the owner of a resource is at least as urgent as every task that waits for it. The
lemmas say under which condition each change of the owner/waiter graph or of one priority keeps it
so. A task may own several resources and wait for others at the same time, so a change at one
resource has a condition on its neighbours in the graph.

## Main definitions

* `NoInversion owner waits prio`.
* `RaisedByWaiter owner waits base prio`: who has become more urgent has become so for some waiter.

## Main results

* `NoInversion.acquire`, `NoInversion.release`, `NoInversion.wait`: a change of the graph.
* `NoInversion.raise`, `NoInversion.restore`: a task becomes more urgent, or gets some priority back.
* `RaisedByWaiter.raise`, `RaisedByWaiter.release`: the same for owners of a single resource.
-/

variable {ρ τ α : Type*} [Preorder α]

/-- The owner of a resource is at least as urgent as every task that waits for it. -/
def NoInversion (owner : ρ → Option τ) (waits : τ → ρ → Prop) (prio : τ → α) : Prop :=
  ∀ x o w, owner x = some o → waits w x → prio o ≤ prio w

namespace NoInversion

variable {owner : ρ → Option τ} {waits waits' : τ → ρ → Prop} {prio : τ → α} {p : α}
  {x : ρ} {t : τ}

/-- Tasks stop to wait. -/
theorem mono (h : NoInversion owner waits prio) (hw : ∀ w y, waits' w y → waits w y) :
    NoInversion owner waits' prio :=
  fun y o w ho hwait => h y o w ho (hw w y hwait)

/-- A task comes to own a resource that no more urgent task waits for. -/
theorem acquire [DecidableEq ρ] (h : NoInversion owner waits prio)
    (hx : ∀ w, waits w x → prio t ≤ prio w) :
    NoInversion (Function.update owner x (some t)) waits prio := by
  intro y o w ho hwait
  rw [Function.update_apply] at ho
  split_ifs at ho with hyx
  · cases ho
    exact hx w (hyx ▸ hwait)
  · exact h y o w ho hwait

/-- A resource loses its owner. -/
theorem release [DecidableEq ρ] (h : NoInversion owner waits prio) :
    NoInversion (Function.update owner x none) waits prio := by
  intro y o w ho hwait
  rw [Function.update_apply] at ho
  split_ifs at ho
  exact h y o w ho hwait

/-- A task comes to wait for a resource whose owner is at least as urgent. -/
theorem wait (h : NoInversion owner waits prio) (hx : ∀ o, owner x = some o → prio o ≤ prio t)
    (hw : ∀ w y, waits' w y → waits w y ∨ (y = x ∧ w = t)) : NoInversion owner waits' prio := by
  intro y o w ho hwait
  rcases hw w y hwait with hold | ⟨rfl, rfl⟩
  · exact h y o w ho hold
  · exact hx o ho

/-- A task becomes more urgent, but not more than the owners it waits for. -/
theorem raise [DecidableEq τ] (h : NoInversion owner waits prio) (hp : p ≤ prio t)
    (howners : ∀ y o, waits t y → owner y = some o → o ≠ t → prio o ≤ p) :
    NoInversion owner waits (Function.update prio t p) := by
  intro y o w ho hwait
  rw [Function.update_apply, Function.update_apply]
  split_ifs with hot hwt hwt
  · exact le_rfl
  · exact hp.trans (hot ▸ h y o w ho hwait)
  · exact howners y o (hwt ▸ hwait) ho hot
  · exact h y o w ho hwait

/-- A task that waits for nothing gets a priority back that is at least as urgent as the tasks that
wait for it. -/
theorem restore [DecidableEq τ] (h : NoInversion owner waits prio) (hidle : ∀ y, ¬ waits t y)
    (hwaiters : ∀ y w, owner y = some t → waits w y → p ≤ prio w) :
    NoInversion owner waits (Function.update prio t p) := by
  intro y o w ho hwait
  have hwt : w ≠ t := by
    rintro rfl
    exact hidle y hwait
  rw [Function.update_apply, Function.update_of_ne hwt]
  split_ifs with hot
  · exact hwaiters y w (hot ▸ ho) hwait
  · exact h y o w ho hwait

end NoInversion

/-! ### Raised owners -/

/-- An owner that is more urgent than its own priority `base` is exactly as urgent as some task that
waits for the resource. -/
def RaisedByWaiter (owner : ρ → Option τ) (waits : τ → ρ → Prop) (base prio : τ → α) : Prop :=
  ∀ x o, owner x = some o → prio o < base o → ∃ w, waits w x ∧ prio w = prio o

namespace RaisedByWaiter

variable {owner : ρ → Option τ} {waits waits' : τ → ρ → Prop} {base prio : τ → α} {x : ρ} {t o : τ}

/-- Tasks come to wait, and no task stops to wait for a resource that is owned. -/
theorem mono (h : RaisedByWaiter owner waits base prio)
    (hw : ∀ w y, owner y ≠ none → waits w y → waits' w y) : RaisedByWaiter owner waits' base prio := by
  intro y o ho hlt
  obtain ⟨w, hwait, he⟩ := h y o ho hlt
  exact ⟨w, hw w y (by simp [ho]) hwait, he⟩

/-- A task that has its own priority comes to own a resource. -/
theorem acquire [DecidableEq ρ] (h : RaisedByWaiter owner waits base prio) (ht : prio t = base t) :
    RaisedByWaiter (Function.update owner x (some t)) waits base prio := by
  intro y o ho hlt
  rw [Function.update_apply] at ho
  split_ifs at ho with hyx
  · cases ho
    exact absurd ht hlt.ne
  · exact h y o ho hlt

/-- The owner of a single resource, for which alone it may wait, becomes as urgent as a task that waits
for it. -/
theorem raise [DecidableEq τ] (h : RaisedByWaiter owner waits base prio)
    (howns : ∀ y, owner y = some o → y = x) (hwaits : ∀ y, waits o y → y = x)
    (hx : owner x = some o) (hto : t ≠ o) (ht : waits t x) :
    RaisedByWaiter owner waits base (Function.update prio o (prio t)) := by
  intro y o' ho' hlt
  by_cases he : o' = o
  · subst he
    obtain rfl := howns y ho'
    exact ⟨t, ht, by rw [Function.update_self, Function.update_of_ne hto]⟩
  · rw [Function.update_of_ne he] at hlt ⊢
    obtain ⟨w, hwait, hprio⟩ := h y o' ho' hlt
    have hwo : w ≠ o := by
      rintro rfl
      obtain rfl := hwaits y hwait
      exact he (Option.some.inj (ho'.symm.trans hx))
    exact ⟨w, hwait, by rw [Function.update_of_ne hwo, hprio]⟩

/-- The owner of a single resource, for which alone it may wait, gives it up and gets another
priority. -/
theorem release [DecidableEq ρ] [DecidableEq τ] (h : RaisedByWaiter owner waits base prio)
    (howns : ∀ y, owner y = some o → y = x) (hwaits : ∀ y, waits o y → y = x) (p : α) :
    RaisedByWaiter (Function.update owner x none) waits base (Function.update prio o p) := by
  intro y o' ho' hlt
  rw [Function.update_apply] at ho'
  split_ifs at ho' with hyx
  have he : o' ≠ o := by
    rintro rfl
    exact hyx (howns y ho')
  rw [Function.update_of_ne he] at hlt ⊢
  obtain ⟨w, hwait, hprio⟩ := h y o' ho' hlt
  have hwo : w ≠ o := by
    rintro rfl
    exact hyx (hwaits y hwait)
  exact ⟨w, hwait, by rw [Function.update_of_ne hwo, hprio]⟩

end RaisedByWaiter
