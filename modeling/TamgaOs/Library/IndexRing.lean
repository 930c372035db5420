import TamgaOs.Library.Fifo
import Mathlib.Logic.Function.Basic

/-!
# Rings that are known by two indices

A producer and a consumer share an array of `capacity` cells. The producer alone moves `head`, the
consumer alone moves `tail`; the cells from `tail` up to `head` hold the items. No number of items is
kept: equal indices mean that the ring is empty, so that one cell is always left free.

## Main definitions

* `IndexRing`, `IndexRing.items`: the ring, and its items.
* `IndexRing.InRange`: both indices are those of cells.

## Main results

* `IndexRing.items_eq_nil_iff`, `IndexRing.full_iff`: what the comparisons of the indices say.
* `IndexRing.items_store`, `IndexRing.items_publish`, `IndexRing.items_consume`: the three stores.
-/

/-- The cells, and the indices of the next cell to fill and of the next cell to empty. -/
structure IndexRing (α : Type*) where
  cell : ℕ → α
  head : ℕ
  tail : ℕ

namespace IndexRing

variable {α : Type*} (capacity : ℕ) (r : IndexRing α)

/-- The index of the cell that follows a cell. -/
def succ (i : ℕ) : ℕ := (i + 1) % capacity

/-- The number of items. -/
def count : ℕ := (r.head + capacity - r.tail) % capacity

/-- The items, oldest first. -/
def items : List α := Ring.contents capacity r.tail (r.count capacity) r.cell

/-- An item is stored to the cell at the head. -/
def store (a : α) : IndexRing α := { r with cell := Function.update r.cell r.head a }

/-- The head is moved. -/
def publish (n : ℕ) : IndexRing α := { r with head := n }

/-- The tail is moved to the next cell. -/
def consume : IndexRing α := { r with tail := succ capacity r.tail }

/-- Both indices are those of cells. -/
structure InRange : Prop where
  head : r.head < capacity
  tail : r.tail < capacity

variable {capacity r} {a : α} {n i j : ℕ}

@[simp] theorem head_store : (r.store a).head = r.head := rfl
@[simp] theorem tail_store : (r.store a).tail = r.tail := rfl
@[simp] theorem cell_store : (r.store a).cell r.head = a := Function.update_self ..
@[simp] theorem head_publish : (r.publish n).head = n := rfl
@[simp] theorem tail_publish : (r.publish n).tail = r.tail := rfl
@[simp] theorem cell_publish : (r.publish n).cell = r.cell := rfl
@[simp] theorem head_consume : (r.consume capacity).head = r.head := rfl
@[simp] theorem tail_consume : (r.consume capacity).tail = succ capacity r.tail := rfl
@[simp] theorem cell_consume : (r.consume capacity).cell = r.cell := rfl

theorem cell_store_of_ne (h : i ≠ r.head) : (r.store a).cell i = r.cell i :=
  Function.update_of_ne h ..

/-- The next cell is the one behind, or the first one. -/
theorem succ_eq (h : i < capacity) : succ capacity i = if i + 1 = capacity then 0 else i + 1 := by
  unfold succ
  split_ifs with hlast
  · rw [hlast, Nat.mod_self]
  · exact Nat.mod_eq_of_lt (by omega)

theorem succ_lt (h : i < capacity) : succ capacity i < capacity := Nat.mod_lt _ (by omega)

theorem succ_inj (hi : i < capacity) (hj : j < capacity) :
    succ capacity i = succ capacity j ↔ i = j := by
  constructor
  · intro h
    rw [succ_eq hi, succ_eq hj] at h
    split_ifs at h <;> omega
  · rintro rfl
    rfl

theorem count_eq (h : r.InRange capacity) : r.count capacity =
    if r.tail ≤ r.head then r.head - r.tail else r.head + capacity - r.tail := by
  have hhead := h.head
  have htail := h.tail
  unfold count
  split_ifs with hle
  · rw [show r.head + capacity - r.tail = r.head - r.tail + capacity by omega, Nat.add_mod_right,
      Nat.mod_eq_of_lt (by omega)]
  · exact Nat.mod_eq_of_lt (by omega)

theorem count_lt (h : r.InRange capacity) : r.count capacity < capacity :=
  Nat.mod_lt _ (Nat.zero_lt_of_lt h.head)

theorem length_items : (r.items capacity).length = r.count capacity := Ring.length_contents

/-- The head is behind the last item. -/
theorem head_eq (h : r.InRange capacity) : r.head = (r.tail + r.count capacity) % capacity := by
  have hhead := h.head
  have htail := h.tail
  rw [count_eq h]
  split_ifs with hle
  · rw [Nat.mod_eq_of_lt (by omega)]
    omega
  · rw [show r.tail + (r.head + capacity - r.tail) = r.head + capacity by omega,
      Nat.add_mod_right, Nat.mod_eq_of_lt hhead]

theorem items_eq_nil_iff (h : r.InRange capacity) : r.items capacity = [] ↔ r.head = r.tail := by
  have hhead := h.head
  have htail := h.tail
  rw [← List.length_eq_zero_iff, length_items, count_eq h]
  split_ifs <;> omega

/-- The ring has one free cell left, which is not used. -/
theorem full_iff (h : r.InRange capacity) :
    succ capacity r.head = r.tail ↔ (r.items capacity).length + 1 = capacity := by
  have hhead := h.head
  have htail := h.tail
  rw [length_items, count_eq h, succ_eq hhead]
  split_ifs <;> omega

/-! ### The three stores -/

theorem InRange.publish (h : r.InRange capacity) (hn : n < capacity) :
    (r.publish n).InRange capacity :=
  ⟨hn, h.tail⟩

theorem InRange.consume (h : r.InRange capacity) : (r.consume capacity).InRange capacity :=
  ⟨h.head, succ_lt h.tail⟩

/-- The cell at the head holds no item. -/
theorem items_store (h : r.InRange capacity) (a : α) :
    (r.store a).items capacity = r.items capacity := by
  refine Ring.contents_congr fun j hj => Function.update_of_ne ?_ ..
  have hne : (r.tail + j) % capacity ≠ (r.tail + r.count capacity) % capacity :=
    Ring.index_ne_tail hj (count_lt h)
  rwa [← head_eq h] at hne

/-- The head moves over the cell behind the last item. -/
theorem items_publish (h : r.InRange capacity) (hroom : succ capacity r.head ≠ r.tail) :
    (r.publish (succ capacity r.head)).items capacity = r.items capacity ++ [r.cell r.head] := by
  have hhead := h.head
  have htail := h.tail
  have hcount : (r.publish (succ capacity r.head)).count capacity = r.count capacity + 1 := by
    rw [count_eq (h.publish (succ_lt hhead)), count_eq h, head_publish, tail_publish]
    rw [succ_eq hhead] at hroom ⊢
    split_ifs at hroom ⊢ <;> omega
  rw [items, hcount, Ring.contents_succ, tail_publish, cell_publish, ← head_eq h]
  rfl

/-- The tail moves over the first item. -/
theorem items_consume (h : r.InRange capacity) (hne : r.head ≠ r.tail) :
    r.items capacity = r.cell r.tail :: (r.consume capacity).items capacity := by
  have hhead := h.head
  have htail := h.tail
  have hcount : r.count capacity = (r.consume capacity).count capacity + 1 := by
    rw [count_eq h.consume, count_eq h, head_consume, tail_consume, succ_eq htail]
    split_ifs <;> omega
  rw [items, hcount, Ring.contents_pop, Nat.mod_eq_of_lt htail]
  rfl

end IndexRing
