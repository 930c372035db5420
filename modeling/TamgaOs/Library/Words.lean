import Mathlib.Data.List.OfFn
import Mathlib.Data.Nat.Notation
import Mathlib.Logic.Function.Basic
import Mathlib.Tactic.TypeStar

/-!
# Pushing words on a stack

A memory is a function of the addresses of its words, and a stack grows towards smaller addresses:
pushing a word decrements the stack pointer and stores the word where it points then.

## Main definitions

* `Words.push`, `Words.pushAll`.

## Main results

* `Words.pushAll_get`: where the words are afterwards.
* `Words.pushAll_of_lt`, `Words.pushAll_of_le`: all other words are as before.
-/

namespace Words

variable {α : Type*}

/-- `*(--sp) = w`. -/
def push (p : (ℕ → α) × ℕ) (w : α) : (ℕ → α) × ℕ := (Function.update p.1 (p.2 - 1) w, p.2 - 1)

/-- The words are pushed one after the other. -/
def pushAll (p : (ℕ → α) × ℕ) (ws : List α) : (ℕ → α) × ℕ := ws.foldl push p

variable {p : (ℕ → α) × ℕ} {ws : List α} {a : ℕ}

@[simp] theorem push_snd (w : α) : (push p w).2 = p.2 - 1 := rfl

theorem push_self (w : α) (ha : p.2 - 1 = a) : (push p w).1 a = w := by
  subst ha
  exact Function.update_self ..

theorem push_of_ne (w : α) (ha : a ≠ p.2 - 1) : (push p w).1 a = p.1 a :=
  Function.update_of_ne ha ..

@[simp] theorem pushAll_nil : pushAll p [] = p := rfl

theorem pushAll_cons (w : α) : pushAll p (w :: ws) = pushAll (push p w) ws := rfl

theorem pushAll_append (ws' : List α) : pushAll p (ws ++ ws') = pushAll (pushAll p ws) ws' :=
  List.foldl_append

@[simp] theorem pushAll_snd : (pushAll p ws).2 = p.2 - ws.length := by
  induction ws generalizing p with
  | nil => rfl
  | cons w ws ih =>
    rw [pushAll_cons, ih, List.length_cons, push_snd]
    omega

/-- The words below the new stack pointer are as before. -/
theorem pushAll_of_lt (ha : a + ws.length < p.2) : (pushAll p ws).1 a = p.1 a := by
  induction ws generalizing p with
  | nil => rfl
  | cons w ws ih =>
    rw [List.length_cons] at ha
    rw [pushAll_cons, ih (by rw [push_snd]; omega), push_of_ne w (by omega)]

/-- The words from the old stack pointer on are as before. -/
theorem pushAll_of_le (hlen : ws.length ≤ p.2) (ha : p.2 ≤ a) : (pushAll p ws).1 a = p.1 a := by
  induction ws generalizing p with
  | nil => rfl
  | cons w ws ih =>
    rw [List.length_cons] at hlen
    rw [pushAll_cons, ih (by rw [push_snd]; omega) (by rw [push_snd]; omega),
      push_of_ne w (by omega)]

/-- The `i`-th word pushed is `i + 1` below the old stack pointer. -/
theorem pushAll_get {w : α} {i : ℕ} (hlen : ws.length ≤ p.2) (hi : ws[i]? = some w)
    (ha : a + i + 1 = p.2) : (pushAll p ws).1 a = w := by
  induction ws generalizing p i with
  | nil => simp at hi
  | cons v ws ih =>
    rw [List.length_cons] at hlen
    rw [pushAll_cons]
    cases i with
    | zero =>
      obtain rfl : v = w := by simpa using hi
      rw [pushAll_of_le (by rw [push_snd]; omega) (by rw [push_snd]; omega),
        push_self v (by omega)]
    | succ i =>
      rw [List.getElem?_cons_succ] at hi
      exact ih (by rw [push_snd]; omega) hi (by rw [push_snd]; omega)

/-- A family of words that is pushed from the last to the first. -/
theorem getElem?_reverse_ofFn {n : ℕ} (f : Fin n → α) (i : Fin n) :
    (List.ofFn f).reverse[n - 1 - i]? = some (f i) := by
  rw [List.getElem?_reverse (by rw [List.length_ofFn]; omega), List.length_ofFn]
  have hi : n - 1 - (n - 1 - i.val) = i.val := by omega
  rw [hi, List.getElem?_ofFn, dif_pos i.isLt]

end Words
