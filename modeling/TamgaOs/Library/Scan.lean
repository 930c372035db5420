import Mathlib.Data.Nat.Notation
import Mathlib.Data.Nat.Basic
import Mathlib.Order.Basic
import Mathlib.Tactic.Common

/-!
# Counting the first cells that pass a test

A loop counts the cells from the first one on that pass a test, and stops at the end of the region
or at the first cell that fails. When `k` cells make up a group, and a group passes if all of its
cells do, counting cells and counting groups agree up to the group that fails.

## Main definitions

* `scan p n i`: the counter after the loop that starts at `i` with `n` cells left.

## Main results

* `scan_eq_iff`: the counter is where the test fails first, or at the end.
* `scan_div`: the count of the cells, in groups, is the count of the groups.
-/

/-- `while (i < end && p i) i++`, with `n` cells left before the end. -/
def scan (p : ℕ → Bool) : ℕ → ℕ → ℕ
  | 0, i => i
  | n + 1, i => if p i then scan p n (i + 1) else i

variable {p q : ℕ → Bool} {n i j k : ℕ}

theorem le_scan : i ≤ scan p n i := by
  induction n generalizing i with
  | zero => exact Nat.le_refl i
  | succ n ih =>
    unfold scan
    split_ifs
    · exact (Nat.le_succ i).trans ih
    · exact Nat.le_refl i

theorem scan_le : scan p n i ≤ i + n := by
  induction n generalizing i with
  | zero => exact Nat.le_refl i
  | succ n ih =>
    unfold scan
    split_ifs
    · have hle := ih (i := i + 1)
      omega
    · omega

/-- All cells before the counter pass. -/
theorem scan_passed (hi : i ≤ j) (hj : j < scan p n i) : p j = true := by
  induction n generalizing i with
  | zero => exact absurd hj (Nat.not_lt.2 hi)
  | succ n ih =>
    unfold scan at hj
    split_ifs at hj with hp
    · rcases Nat.eq_or_lt_of_le hi with rfl | hlt
      · exact hp
      · exact ih hlt hj
    · exact absurd hj (Nat.not_lt.2 hi)

/-- The cell at the counter fails, unless the end has been reached. -/
theorem scan_failed (h : scan p n i < i + n) : p (scan p n i) = false := by
  induction n generalizing i with
  | zero => exact absurd h (Nat.not_lt.2 le_scan)
  | succ n ih =>
    unfold scan at h ⊢
    split_ifs at h ⊢ with hp
    · exact ih (by omega)
    · exact eq_false_of_ne_true hp

theorem scan_eq_iff (hj : i ≤ j) (hn : j ≤ i + n) :
    scan p n i = j ↔ (∀ l, i ≤ l → l < j → p l = true) ∧ (j < i + n → p j = false) := by
  constructor
  · rintro rfl
    exact ⟨fun l hl hlt => scan_passed hl hlt, scan_failed⟩
  · rintro ⟨hpass, hfail⟩
    rcases Nat.lt_trichotomy (scan p n i) j with hlt | heq | hgt
    · have hf := scan_failed (hlt.trans_le hn)
      rw [hpass _ le_scan hlt] at hf
      cases hf
    · exact heq
    · have ht := scan_passed hj hgt
      rw [hfail (hgt.trans_le scan_le)] at ht
      cases ht

/-- Cells in groups of `k`: a group passes if its cells do. -/
theorem scan_div (hk : 0 < k) (hgroup : ∀ w, q w = true ↔ ∀ l < k, p (k * w + l) = true) :
    scan p (k * n) 0 / k = scan q n 0 := by
  have hle : scan p (k * n) 0 ≤ k * n := by simpa using scan_le (p := p) (n := k * n) (i := 0)
  have hdiv : scan p (k * n) 0 / k ≤ n := Nat.div_le_of_le_mul hle
  symm
  rw [scan_eq_iff (Nat.zero_le _) (by omega)]
  refine ⟨fun w _ hw => (hgroup w).2 fun l hl => scan_passed (n := k * n) (Nat.zero_le _) ?_, fun hw => ?_⟩
  · have hmul : k * (w + 1) ≤ scan p (k * n) 0 :=
      (Nat.mul_le_mul_left k hw).trans (Nat.mul_div_le _ _)
    rw [Nat.mul_succ] at hmul
    omega
  · -- The cell at the counter is in the group that the quotient names.
    have hlt : scan p (k * n) 0 < 0 + k * n := by
      rw [Nat.zero_add] at hw ⊢
      exact (Nat.div_lt_iff_lt_mul hk).1 hw |>.trans_eq (Nat.mul_comm n k)
    have hf := scan_failed hlt
    rw [Bool.eq_false_iff]
    intro hq
    have hp := (hgroup _).1 hq (scan p (k * n) 0 % k) (Nat.mod_lt _ hk)
    rw [Nat.div_add_mod, hf] at hp
    cases hp
