import Mathlib.Data.Nat.Notation
import Mathlib.Logic.Function.Iterate
import Mathlib.Logic.Relation
import Mathlib.Order.Basic
import Mathlib.Tactic.TypeStar

/-!
# Machines that walk along a memory

A machine reads a memory at one place in each step, until it stops. It stays inside of a part of the memory
when it reads nothing else; then nothing else has any influence on it.

## Main definitions

* `Walk.Passes`: the machine goes from one state to another one through states with a property.
* `Walk.Stays`: the machine stops, and reads nothing behind the place `n`.

## Main results

* `Walk.Passes.stays`, `Walk.Passes.not_stays`: a walk that ends, and one that leaves the memory.
-/

namespace Walk

variable {σ β : Type*}

/-- The machine goes from `s` to `s'`, and every state that it steps from has the property. -/
def Passes (step : σ → σ) (P : σ → Prop) : σ → σ → Prop :=
  Relation.ReflTransGen fun s s' => P s ∧ s' = step s

namespace Passes

variable {step : σ → σ} {P : σ → Prop} {s s' s'' : σ}

theorem refl (s : σ) : Passes step P s s := Relation.ReflTransGen.refl

theorem head (hs : P s) (h : Passes step P (step s) s') : Passes step P s s' :=
  Relation.ReflTransGen.head ⟨hs, rfl⟩ h

theorem trans (h : Passes step P s s') (h' : Passes step P s' s'') : Passes step P s s'' :=
  Relation.ReflTransGen.trans h h'

theorem exists_iterate (h : Passes step P s s') :
    ∃ k, step^[k] s = s' ∧ ∀ j < k, P (step^[j] s) := by
  induction h with
  | refl => exact ⟨0, rfl, fun j hj => absurd hj (Nat.not_lt_zero j)⟩
  | tail _ hstep ih =>
    obtain ⟨k, rfl, hbefore⟩ := ih
    refine ⟨k + 1, (Function.iterate_succ_apply' step k s).trans hstep.2.symm, fun j hj => ?_⟩
    rcases Nat.lt_succ_iff_lt_or_eq.1 hj with hlt | rfl
    · exact hbefore j hlt
    · exact hstep.1

end Passes

/-- The machine stops, it reads nothing behind the place `n` before, and other memories that agree up to
there lead to the same states. -/
structure Stays (step : (ℕ → β) → σ → σ) (stopped : σ → Prop) (place : σ → ℕ) (mem : ℕ → β) (n : ℕ)
    (s : σ) : Prop where
  stops : ∃ k, stopped ((step mem)^[k] s)
  reads : ∀ k, ¬ stopped ((step mem)^[k] s) → place ((step mem)^[k] s) ≤ n
  alike : ∀ mem', (∀ i ≤ n, mem' i = mem i) → ∀ k, (step mem')^[k] s = (step mem)^[k] s

variable {step : (ℕ → β) → σ → σ} {stopped : σ → Prop} {place : σ → ℕ} {mem : ℕ → β} {n : ℕ}
  {s s' : σ}

/-- A walk that stops. -/
theorem Passes.stays (hstop : ∀ mem s, stopped s → step mem s = s)
    (hread : ∀ mem mem' s, mem' (place s) = mem (place s) → step mem' s = step mem s)
    (h : Passes (step mem) (fun s => ¬ stopped s ∧ place s ≤ n) s s') (hs' : stopped s') :
    Stays step stopped place mem n s := by
  obtain ⟨k, hk, hbefore⟩ := h.exists_iterate
  have hafter (j : ℕ) (hj : k ≤ j) : (step mem)^[j] s = s' := by
    obtain ⟨i, rfl⟩ := Nat.exists_eq_add_of_le' hj
    rw [Function.iterate_add_apply, hk]
    exact Function.iterate_fixed (hstop mem s' hs') i
  have hreads (j : ℕ) (hj : ¬ stopped ((step mem)^[j] s)) : place ((step mem)^[j] s) ≤ n := by
    rcases Nat.lt_or_ge j k with hlt | hge
    · exact (hbefore j hlt).2
    · exact absurd (hafter j hge ▸ hs') hj
  refine ⟨⟨k, hk ▸ hs'⟩, hreads, fun mem' hmem j => ?_⟩
  induction j with
  | zero => rfl
  | succ j ih =>
    rw [Function.iterate_succ_apply', Function.iterate_succ_apply', ih]
    by_cases hj : stopped ((step mem)^[j] s)
    · rw [hstop mem _ hj, hstop mem' _ hj]
    · exact hread _ _ _ (hmem _ (hreads j hj))

/-- A walk that leaves the memory. -/
theorem Passes.not_stays {P : σ → Prop} (h : Passes (step mem) P s s') (hs' : ¬ stopped s')
    (hplace : n < place s') : ¬ Stays step stopped place mem n s := by
  intro hstays
  obtain ⟨k, hk, -⟩ := h.exists_iterate
  have hle := hstays.reads k (hk ▸ hs')
  rw [hk] at hle
  exact absurd hle (Nat.not_le.2 hplace)

end Walk
