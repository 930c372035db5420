import Mathlib.Logic.Relation
import Mathlib.Data.Nat.Notation

/-!
# Where a run leads

A step function with at most one successor. From every state with one property the run comes to a
state with another one; so the run also ends its loops.

## Main definitions

* `Leads step P Q`.

## Main results

* `Leads.trans`, `Leads.of_step`, `Leads.countdown`: sequences, single steps and loops.
-/

/-- From every state with `P` the run comes to a state with `Q`. -/
def Leads {σ : Type} (step : σ → Option σ) (P Q : σ → Prop) : Prop :=
  ∀ s, P s → ∃ t, Relation.ReflTransGen (fun s t => step s = some t) s t ∧ Q t

namespace Leads

variable {σ : Type} {step : σ → Option σ} {P Q R : σ → Prop}

theorem of_imp (h : ∀ s, P s → Q s) : Leads step P Q := fun s hs => ⟨s, .refl, h s hs⟩

theorem trans (h : Leads step P Q) (h' : Leads step Q R) : Leads step P R := by
  intro s hs
  obtain ⟨t, hst, ht⟩ := h s hs
  obtain ⟨u, htu, hu⟩ := h' t ht
  exact ⟨u, hst.trans htu, hu⟩

theorem of_step (h : ∀ s, P s → ∃ t, step s = some t ∧ Q t) : Leads step P Q := by
  intro s hs
  obtain ⟨t, hst, ht⟩ := h s hs
  exact ⟨t, .single hst, ht⟩

theorem imp (h : Leads step P Q) (hQ : ∀ s, Q s → R s) : Leads step P R := h.trans (of_imp hQ)

/-- A loop with a counter. -/
theorem countdown {P : ℕ → σ → Prop} (h : ∀ k, Leads step (P (k + 1)) (P k)) (k : ℕ) :
    Leads step (P k) (P 0) := by
  induction k with
  | zero => exact of_imp fun _ => id
  | succ k ih => exact (h k).trans ih

end Leads
