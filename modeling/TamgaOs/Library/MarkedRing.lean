import TamgaOs.Library.Fifo

/-!
# Rings whose cells are marked when they hold an item

A producer and a consumer share a ring of cells. Each has an index of its own, and a mark on each cell
says which of them may use it: the producer fills the cell at its index when it is not marked and marks
it, the consumer empties the cell at its index when it is marked and removes the mark. Neither looks
at the other's index.

## Main definitions

* `Ring.Marked`: the cells from the consumer's index on that hold an item are the marked ones.

## Main results

* `Ring.Marked.pos`, `Ring.Marked.room`: what the mark says to the consumer and to the producer.
* `Ring.Marked.push`, `Ring.Marked.pop`: the two moves.
-/

namespace Ring

/-- `count` cells from `head` on are marked, and `tail` is the cell behind them. -/
structure Marked (capacity head tail count : ℕ) (mark : ℕ → Bool) : Prop where
  count_le : count ≤ capacity
  head_lt : head < capacity
  tail_eq : tail = (head + count) % capacity
  mark_eq : ∀ k < capacity, mark ((head + k) % capacity) = decide (k < count)

namespace Marked

variable {capacity head tail count : ℕ} {mark mark' : ℕ → Bool}

/-- The consumer finds a mark: the ring is not empty. -/
theorem pos (h : Marked capacity head tail count mark) (hmark : mark head = true) : 0 < count := by
  have hhead := h.mark_eq 0 (Nat.zero_lt_of_lt h.head_lt)
  rw [Nat.add_zero, Nat.mod_eq_of_lt h.head_lt, hmark] at hhead
  exact of_decide_eq_true hhead.symm

/-- The producer finds no mark: the ring is not full. -/
theorem room (h : Marked capacity head tail count mark) (hmark : mark tail = false) :
    count < capacity := by
  refine lt_of_le_of_ne h.count_le fun hfull => ?_
  have htail : tail = head := by
    rw [h.tail_eq, hfull, Nat.add_mod_right, Nat.mod_eq_of_lt h.head_lt]
  have hhead := h.mark_eq 0 (Nat.zero_lt_of_lt h.head_lt)
  rw [Nat.add_zero, Nat.mod_eq_of_lt h.head_lt, ← htail, hmark, hfull] at hhead
  exact of_decide_eq_false hhead.symm (Nat.zero_lt_of_lt h.head_lt)

theorem mark_head (h : Marked capacity head tail count mark) (hpos : 0 < count) :
    mark head = true := by
  have hhead := h.mark_eq 0 (Nat.zero_lt_of_lt h.head_lt)
  rw [Nat.add_zero, Nat.mod_eq_of_lt h.head_lt] at hhead
  exact hhead.trans (decide_eq_true hpos)

/-- The producer fills the cell at its index. -/
theorem push (h : Marked capacity head tail count mark) (hroom : count < capacity)
    (htail : mark' tail = true) (hother : ∀ i, i ≠ tail → mark' i = mark i) :
    Marked capacity head ((tail + 1) % capacity) (count + 1) mark' where
  count_le := hroom
  head_lt := h.head_lt
  tail_eq := by rw [h.tail_eq, Nat.mod_add_mod, Nat.add_assoc]
  mark_eq k hk := by
    by_cases hnew : k = count
    · rw [hnew, ← h.tail_eq, htail, decide_eq_true (Nat.lt_succ_self count)]
    · have hne : (head + k) % capacity ≠ tail := by
        intro heq
        rw [h.tail_eq] at heq
        exact hnew (Nat.ModEq.eq_of_lt_of_lt (Nat.ModEq.add_left_cancel' head heq) hk hroom)
      rw [hother _ hne, h.mark_eq k hk]
      exact decide_eq_decide.mpr (by omega)

/-- The consumer empties the cell at its index. -/
theorem pop (h : Marked capacity head tail (count + 1) mark) (hhead : mark' head = false)
    (hother : ∀ i, i ≠ head → mark' i = mark i) :
    Marked capacity ((head + 1) % capacity) tail count mark' where
  count_le := Nat.le_of_succ_le h.count_le
  head_lt := Nat.mod_lt _ (Nat.zero_lt_of_lt h.head_lt)
  tail_eq := by rw [h.tail_eq, Nat.mod_add_mod, Nat.add_assoc, Nat.add_comm 1 count]
  mark_eq k hk := by
    have hcount := h.count_le
    rw [Nat.mod_add_mod, Nat.add_assoc, Nat.add_comm 1 k]
    by_cases hlast : k + 1 = capacity
    · rw [hlast, Nat.add_mod_right, Nat.mod_eq_of_lt h.head_lt, hhead]
      exact (decide_eq_false (by omega)).symm
    · have hne : (head + (k + 1)) % capacity ≠ head := by
        intro heq
        have hzero : head + (k + 1) ≡ head + 0 [MOD capacity] := by
          rw [Nat.ModEq, heq, Nat.add_zero, Nat.mod_eq_of_lt h.head_lt]
        have hcancel := Nat.ModEq.add_left_cancel' head hzero
        exact Nat.succ_ne_zero k (hcancel.eq_of_lt_of_lt (by omega) (by omega))
      rw [hother _ hne, h.mark_eq (k + 1) (by omega)]
      exact decide_eq_decide.mpr (by omega)

end Marked

end Ring
