import Mathlib.Data.Nat.Notation
import Mathlib.Tactic.Common

/-!
# Indices in a cycle

The indices below `n` in the cyclic order that starts behind `a`: the index behind `a` comes after one
step, and `a` itself after `n` steps.

## Main definitions

* `Cyclic.steps`: the number of steps from one index to another one.

## Main results

* `Cyclic.add_steps_mod`, `Cyclic.steps_add_mod`: where the steps lead.
* `Cyclic.steps_lt`: the steps that are left when an index on the way has been reached.
-/

namespace Cyclic

/-- The steps from the index `a` to the index `i`. -/
def steps (n a i : ℕ) : ℕ := if a < i then i - a else i + n - a

variable {n a i j : ℕ}

theorem steps_pos (ha : a < n) : 0 < steps n a i := by
  unfold steps
  split_ifs <;> omega

theorem steps_le (hi : i < n) : steps n a i ≤ n := by
  unfold steps
  split_ifs <;> omega

theorem add_steps_mod (ha : a < n) (hi : i < n) : (a + steps n a i) % n = i := by
  unfold steps
  split_ifs with h
  · have hsum : a + (i - a) = i := by omega
    rw [hsum, Nat.mod_eq_of_lt hi]
  · have hsum : a + (i + n - a) = i + n := by omega
    rw [hsum, Nat.add_mod_right, Nat.mod_eq_of_lt hi]

theorem steps_add_mod (ha : a < n) (hj : 0 < j) (hle : j ≤ n) : steps n a ((a + j) % n) = j := by
  by_cases hlt : a + j < n
  · rw [Nat.mod_eq_of_lt hlt, steps, if_pos (by omega)]
    omega
  · have hwrap : (a + j) % n = a + j - n := by
      rw [Nat.mod_eq_sub_mod (Nat.le_of_not_lt hlt), Nat.mod_eq_of_lt (by omega)]
    rw [hwrap, steps, if_neg (by omega)]
    omega

/-- From an index on the way fewer steps are left. -/
theorem steps_lt (ha : a < n) (hi : i < n) (h : steps n a j < steps n a i) :
    steps n j i < steps n a i := by
  unfold steps at h ⊢
  split_ifs at h ⊢ <;> omega

end Cyclic
