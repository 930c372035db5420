import Mathlib.Algebra.Order.BigOperators.Group.List
import Mathlib.Algebra.Order.Ring.Nat
import Mathlib.Data.List.Basic
import Mathlib.Tactic.Common

/-!
# Tallies of samples

The smallest sample, the largest one, their sum and their number, the last two in counters of `w` values.
The quotient of the counters is the mean as long as neither of them has wrapped.

## Main definitions

* `Tally w l lo hi sum count`: these numbers belong to the samples `l`.

## Main results

* `Tally.append`: one more sample.
* `Tally.mean_iff`: the quotient is the mean, and lies between the bounds, exactly when no counter has
  wrapped.
-/

/-- The numbers of a tally of the samples `l`. -/
structure Tally (w : ℕ) (l : List ℕ) (lo hi sum count : ℕ) : Prop where
  lo_le : ∀ x ∈ l, lo ≤ x
  le_hi : ∀ x ∈ l, x ≤ hi
  sum_eq : sum = l.sum % w
  count_eq : count = l.length % w

namespace Tally

variable {w lo hi sum count x : ℕ} {l : List ℕ}

theorem nil : Tally w [] lo hi 0 0 :=
  ⟨fun _ h => absurd h List.not_mem_nil, fun _ h => absurd h List.not_mem_nil, (Nat.zero_mod w).symm,
    (Nat.zero_mod w).symm⟩

theorem append (h : Tally w l lo hi sum count) (x : ℕ) :
    Tally w (l ++ [x]) (min lo x) (max hi x) ((sum + x) % w) ((count + 1) % w) := by
  refine ⟨fun y hy => ?_, fun y hy => ?_, ?_, ?_⟩
  · rcases List.mem_append.1 hy with hy | hy
    · exact (min_le_left lo x).trans (h.lo_le y hy)
    · rw [List.mem_singleton.1 hy]
      exact min_le_right lo x
  · rcases List.mem_append.1 hy with hy | hy
    · exact (h.le_hi y hy).trans (le_max_left hi x)
    · rw [List.mem_singleton.1 hy]
      exact le_max_right hi x
  · rw [List.sum_append, List.sum_singleton, h.sum_eq, Nat.mod_add_mod]
  · rw [List.length_append, List.length_singleton, h.count_eq, Nat.mod_add_mod]

/-- A sum that has wrapped gives a quotient that is too small. -/
theorem div_lt_of_wrapped (hcount : count < w) (hpos : 0 < count) {n : ℕ} (hn : w ≤ n) :
    n % w / count < n / count := by
  have hsplit : n % w + count ≤ n := by
    have hmod := Nat.mod_lt n (show 0 < w by omega)
    have hdiv := Nat.div_add_mod n w
    have hone : w * 1 ≤ w * (n / w) := Nat.mul_le_mul_left w (Nat.div_pos hn (by omega))
    omega
  calc n % w / count < n % w / count + 1 := Nat.lt_succ_self _
    _ = (n % w + count) / count := (Nat.add_div_right _ hpos).symm
    _ ≤ n / count := Nat.div_le_div_right hsplit

theorem mean_iff (h : Tally w l lo hi sum count) (hw : 0 < w) (hl : l ≠ []) :
    (count = l.length ∧ sum / count = l.sum / l.length ∧ lo ≤ sum / count ∧ sum / count ≤ hi) ↔
      l.sum < w ∧ l.length < w := by
  have hpos : 0 < l.length := List.length_pos_iff.2 hl
  constructor
  · rintro ⟨hcount, hmean, -, -⟩
    have hlen : l.length < w := by
      by_contra hge
      have hmod := Nat.mod_lt l.length hw
      have hcount' := h.count_eq
      omega
    refine ⟨?_, hlen⟩
    by_contra hsum
    have hlt := div_lt_of_wrapped hlen hpos (not_lt.1 hsum)
    rw [← h.sum_eq, ← hmean, hcount] at hlt
    exact lt_irrefl _ hlt
  · rintro ⟨hsum, hlen⟩
    have hcount : count = l.length := h.count_eq.trans (Nat.mod_eq_of_lt hlen)
    have hsum' : sum = l.sum := h.sum_eq.trans (Nat.mod_eq_of_lt hsum)
    refine ⟨hcount, by rw [hcount, hsum'], ?_, ?_⟩
    · rw [hcount, hsum', Nat.le_div_iff_mul_le hpos, Nat.mul_comm]
      exact List.card_nsmul_le_sum l lo h.lo_le
    · rw [hcount, hsum', Nat.div_le_iff_le_mul_add_pred hpos]
      exact (List.sum_le_card_nsmul l hi h.le_hi).trans (Nat.le_add_right _ _)

end Tally
