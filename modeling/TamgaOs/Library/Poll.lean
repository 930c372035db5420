import Mathlib.Data.Nat.Notation
import Mathlib.Tactic.Common

/-!
# Loops that poll with a budget

An unsigned counter is decremented after it has been tested, so it wraps when the budget is exhausted.
The value that it has after the loop depends on the passes in which the awaited condition is seen.

## Main definitions

* `Poll.spin`: `while (!ready && t--) {}`.
* `Poll.count`: `while (t--) { if (ready) break; }`.

## Main results

* `Poll.spin_eq_zero_iff`, `Poll.count_eq_zero_iff`: the runs that end with the counter at 0.
-/

namespace Poll

variable (ready : ℕ → Bool) (top : ℕ)

/-- The counter after `while (!ready && t--) {}`. The first of its tests is the one with number `n`, and
`top` is the largest value of the counter. -/
def spin : ℕ → ℕ → ℕ
  | 0, n => if ready n then 0 else top
  | t + 1, n => if ready n then t + 1 else spin t (n + 1)

/-- The counter after `while (t--) { if (ready) break; }`. -/
def count : ℕ → ℕ → ℕ
  | 0, _ => top
  | t + 1, n => if ready n then t else count t (n + 1)

variable {ready : ℕ → Bool} {top t n : ℕ}

/-- The passes from `n + 1` on. -/
theorem unseen_succ_iff : (∀ k < t + 1, ready (n + k) = false) ↔
    ready n = false ∧ ∀ k < t, ready (n + 1 + k) = false := by
  constructor
  · refine fun h => ⟨h 0 (Nat.succ_pos t), fun k hk => ?_⟩
    have hp := h (k + 1) (by omega)
    rwa [show n + (k + 1) = n + 1 + k by omega] at hp
  · rintro ⟨h0, h⟩ (_ | k) hk
    · exact h0
    · rw [show n + (k + 1) = n + 1 + k by omega]
      exact h k (by omega)

/-- The counter is at 0 when the condition is seen in the test after the last decrement, and only
then. -/
theorem spin_eq_zero_iff (htop : top ≠ 0) :
    spin ready top t n = 0 ↔ (∀ k < t, ready (n + k) = false) ∧ ready (n + t) = true := by
  induction t generalizing n with
  | zero => by_cases h : ready n <;> simp [spin, h, htop]
  | succ t ih =>
    rw [spin, unseen_succ_iff, show n + (t + 1) = n + 1 + t by omega, and_assoc, ← ih]
    by_cases h : ready n <;> simp [h]

/-- The counter is at 0 when the condition is seen in the last pass, and only then. -/
theorem count_eq_zero_iff (htop : top ≠ 0) :
    count ready top (t + 1) n = 0 ↔ (∀ k < t, ready (n + k) = false) ∧ ready (n + t) = true := by
  induction t generalizing n with
  | zero => by_cases h : ready n <;> simp [count, h, htop]
  | succ t ih =>
    rw [count, unseen_succ_iff, show n + (t + 1) = n + 1 + t by omega, and_assoc, ← ih]
    by_cases h : ready n <;> simp [h]

end Poll
