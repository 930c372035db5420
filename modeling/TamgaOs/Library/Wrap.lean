import Mathlib.Data.Nat.Notation
import Mathlib.Tactic.Common

/-!
# Counters that wrap

A counter of `w` values shows the remainder of the time by `w`. Two readings may be compared and
subtracted as plain numbers exactly as long as the counter has not wrapped between them.

## Main definitions

* `Wrap.Unwrapped w a b`: no multiple of `w` lies between the times `a` and `b`.

## Main results

* `Wrap.Unwrapped.lt_iff`, `Wrap.Unwrapped.sub`: comparing and subtracting.
* `Wrap.lt_of_not_unwrapped`: a later time less than one period away reads as a smaller number
  otherwise.
-/

namespace Wrap

variable {w a b : ℕ}

/-- The times `a` and `b` are in the same period of the counter. -/
def Unwrapped (w a b : ℕ) : Prop := a / w = b / w

instance (w a b : ℕ) : Decidable (Unwrapped w a b) := inferInstanceAs (Decidable (_ = _))

theorem Unwrapped.eq_add (h : Unwrapped w a b) :
    ∃ q, a = q + a % w ∧ b = q + b % w :=
  ⟨w * (a / w), (Nat.div_add_mod a w).symm, by rw [h]; exact (Nat.div_add_mod b w).symm⟩

theorem Unwrapped.lt_iff (h : Unwrapped w a b) : a % w < b % w ↔ a < b := by
  obtain ⟨q, ha, hb⟩ := h.eq_add
  omega

theorem Unwrapped.sub (h : Unwrapped w a b) : b % w - a % w = b - a := by
  obtain ⟨q, ha, hb⟩ := h.eq_add
  omega

/-- A later time, less than one period away, reads as a smaller number once the counter has
wrapped. -/
theorem lt_of_not_unwrapped (h : ¬ Unwrapped w a b) (hab : a ≤ b) (hlt : b < a + w) :
    b % w < a % w := by
  have hle : a / w ≤ b / w := Nat.div_le_div_right hab
  have hne : a / w ≠ b / w := h
  have hperiod : w * (a / w) + w ≤ w * (b / w) := by
    rw [← Nat.mul_succ]
    exact Nat.mul_le_mul_left w (by omega)
  have ha := Nat.div_add_mod a w
  have hb := Nat.div_add_mod b w
  omega

end Wrap
