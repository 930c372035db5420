import Mathlib.Data.Nat.ModEq
import Mathlib.Data.List.Basic
import Mathlib.Algebra.Order.Group.Nat

/-!
# Bounded queues and the ring buffers that implement them

A bounded queue is a list: items are appended at its end as long as it is shorter than the
capacity, and removed at its front. A ring buffer keeps the items in cells that are numbered
modulo the capacity.

## Main definitions

* `Fifo.Event`, `Fifo.Moves c xs es ys`: the events `es` lead from the queue `xs` to `ys`.
* `Ring.contents`: the items of a ring buffer, oldest first.

## Main results

* `Fifo.Moves.order`: no item is lost, duplicated or overtaken.
* `Ring.contents_push`, `Ring.contents_pop`.
-/

variable {α : Type*}

namespace Fifo

/-- What happens to a queue. -/
inductive Event (α : Type*)
  | sent (a : α)
  | received (a : α)

/-- The events lead from one queue of at most `capacity` items to another. -/
inductive Moves (capacity : ℕ) : List α → List (Event α) → List α → Prop
  | nil (xs : List α) : Moves capacity xs [] xs
  | sent {xs ys : List α} {a : α} {es : List (Event α)} (hroom : xs.length < capacity)
      (h : Moves capacity (xs ++ [a]) es ys) : Moves capacity xs (.sent a :: es) ys
  | received {xs ys : List α} {a : α} {es : List (Event α)} (h : Moves capacity xs es ys) :
      Moves capacity (a :: xs) (.received a :: es) ys

/-- The item that an event has sent. -/
def Event.sentItem : Event α → Option α
  | sent a => some a
  | received _ => none

/-- The item that an event has received. -/
def Event.receivedItem : Event α → Option α
  | sent _ => none
  | received a => some a

namespace Moves

variable {capacity : ℕ} {xs ys zs : List α} {a : α} {es es' : List (Event α)}

theorem trans (h : Moves capacity xs es ys) (h' : Moves capacity ys es' zs) :
    Moves capacity xs (es ++ es') zs := by
  induction h with
  | nil xs => exact h'
  | sent hroom _ ih => exact .sent hroom (ih h')
  | received _ ih => exact .received (ih h')

theorem send (hroom : xs.length < capacity) : Moves capacity xs [.sent a] (xs ++ [a]) :=
  .sent hroom (.nil _)

theorem receive : Moves capacity (a :: xs) [.received a] xs := .received (.nil _)

/-- The capacity is respected. -/
theorem length_le (h : Moves capacity xs es ys) (hxs : xs.length ≤ capacity) :
    ys.length ≤ capacity := by
  induction h with
  | nil xs => exact hxs
  | sent hroom _ ih => exact ih (by simpa using Nat.succ_le_of_lt hroom)
  | received _ ih => exact ih (by simp only [List.length_cons] at hxs; omega)

/-- The items that were there or have been sent are those received or still there, in the same
order. -/
theorem order (h : Moves capacity xs es ys) :
    xs ++ es.filterMap Event.sentItem = es.filterMap Event.receivedItem ++ ys := by
  induction h with
  | nil xs => simp
  | sent _ _ ih =>
    simpa [List.filterMap_cons, Event.sentItem, Event.receivedItem] using ih
  | received _ ih =>
    simpa [List.filterMap_cons, Event.sentItem, Event.receivedItem] using ih

end Moves

end Fifo

namespace Ring

/-- The items of a ring buffer of `capacity` cells that has `count` items from `head` on, oldest
first. -/
def contents (capacity head count : ℕ) (cell : ℕ → α) : List α :=
  (List.range count).map fun j => cell ((head + j) % capacity)

variable {capacity head count : ℕ} {cell cell' : ℕ → α}

@[simp] theorem length_contents : (contents capacity head count cell).length = count := by
  simp [contents]

/-- Only the cells of the buffer matter. -/
theorem contents_congr (h : ∀ j < count, cell' ((head + j) % capacity) =
    cell ((head + j) % capacity)) :
    contents capacity head count cell' = contents capacity head count cell :=
  List.map_congr_left fun j hj => h j (List.mem_range.1 hj)

/-- The cell behind the last item is none of those in use. -/
theorem index_ne_tail {j : ℕ} (hj : j < count) (hcount : count < capacity) :
    (head + j) % capacity ≠ (head + count) % capacity := by
  intro he
  have hmod : j ≡ count [MOD capacity] := Nat.ModEq.add_left_cancel' head he
  exact hj.ne (hmod.eq_of_lt_of_lt (hj.trans hcount) hcount)

/-- The item of the last cell. -/
theorem contents_succ : contents capacity head (count + 1) cell =
    contents capacity head count cell ++ [cell ((head + count) % capacity)] := by
  unfold contents
  rw [List.range_succ, List.map_append, List.map_singleton]

/-- The cells in use behind the first one. -/
theorem index_ne_head {j : ℕ} (hj : j < count) (hcount : count < capacity) :
    (head + 1 + j) % capacity ≠ head % capacity := by
  intro he
  rw [Nat.add_assoc, Nat.add_comm 1 j] at he
  have hmod : j + 1 ≡ 0 [MOD capacity] := Nat.ModEq.add_left_cancel' head he
  exact Nat.succ_ne_zero j (hmod.eq_of_lt_of_lt (by omega) (by omega))

/-- An item is written behind the last one. -/
theorem contents_push (hcount : count < capacity)
    (hcell : ∀ i, i ≠ (head + count) % capacity → cell' i = cell i) :
    contents capacity head (count + 1) cell' =
      contents capacity head count cell ++ [cell' ((head + count) % capacity)] := by
  have hold : contents capacity head count cell' = contents capacity head count cell :=
    contents_congr fun j hj => hcell _ (index_ne_tail hj hcount)
  rw [← hold]
  exact contents_succ

/-- The first item is given up. -/
theorem contents_pop : contents capacity head (count + 1) cell =
    cell (head % capacity) :: contents capacity ((head + 1) % capacity) count cell := by
  unfold contents
  rw [List.range_succ_eq_map, List.map_cons, List.map_map, Nat.add_zero]
  refine congrArg (cell (head % capacity) :: ·) (List.map_congr_left fun j _ => ?_)
  rw [Function.comp_apply, Nat.mod_add_mod, Nat.succ_eq_add_one, Nat.add_assoc, Nat.add_comm 1 j]

end Ring
