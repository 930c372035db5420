import Mathlib.Algebra.Group.Nat.Defs
import Mathlib.Data.List.Sort
import Mathlib.Data.List.Nodup
import Mathlib.Data.Set.Insert
import Mathlib.Logic.Function.Basic

/-!
# Intrusive singly linked lists

A list whose link field lives inside its nodes is given by the function `next`, the link of every
node, and a pointer to its first node. The same link field may serve many lists, so the facts below
are about one list inside a heap that holds others: what a list is, what a store to a link does to
a list that contains the node and to one that does not, and where the two loops that walk such a
list stop.

## Main definitions

* `IsChain next h xs`: following `next` from `h` visits exactly the nodes `xs` and then ends.
* `advance`: the loop `while (cur->next && ahead (cur->next)) cur = cur->next`.
* `seek`: the loop `while (cur && cur->next != t) cur = cur->next`.
* `Reached next root x`: some list of the heap leads to `x`, whether or not the lists end.
* `Closed next root P`: no list leads out of `P`.

## Main results

* `IsChain.unique`, `IsChain.nodup`: a list is determined by its first pointer and has no cycle.
* `IsChain.insert_head`, `IsChain.insert_after`, `IsChain.unlink`: the stores that link and unlink
  a node.
* `advance_eq`, `seek_spec`, `seek_notMem`: where the loops stop.
* `advance_mono`, `seek_mono`: a bound on the number of loop tests does not matter to a loop that
  stops.
* `seek_bounded`: how many loop tests a search needs that stops.
* `Reached.mem`, `Closed.setNext`, `Closed.setRoot`: what a store adds to what the lists lead to.
-/

namespace IntrusiveList

variable {α : Type*}

/-- Following `next` from `h` visits exactly the nodes `xs`, in order, and then ends. -/
def IsChain (next : α → Option α) : Option α → List α → Prop
  | h, [] => h = none
  | h, x :: xs => h = some x ∧ IsChain next (next x) xs

@[simp] theorem isChain_nil {next : α → Option α} {h : Option α} :
    IsChain next h [] ↔ h = none :=
  Iff.rfl

@[simp] theorem isChain_cons {next : α → Option α} {h : Option α} {x : α} {xs : List α} :
    IsChain next h (x :: xs) ↔ h = some x ∧ IsChain next (next x) xs :=
  Iff.rfl

instance decidableIsChain [DecidableEq α] (next : α → Option α) :
    ∀ (xs : List α) (h : Option α), Decidable (IsChain next h xs)
  | [], h => inferInstanceAs (Decidable (h = none))
  | x :: xs, h =>
    have := decidableIsChain next xs (next x)
    inferInstanceAs (Decidable (h = some x ∧ IsChain next (next x) xs))

namespace IsChain

variable {next next' : α → Option α} {h : Option α} {xs ys : List α}

theorem unique (hx : IsChain next h xs) (hy : IsChain next h ys) : xs = ys := by
  induction xs generalizing h ys with
  | nil =>
    cases ys with
    | nil => rfl
    | cons y ys => exact absurd (hx.symm.trans hy.1) (by simp)
  | cons x xs ih =>
    cases ys with
    | nil => exact absurd (hx.1.symm.trans hy) (by simp)
    | cons y ys =>
      have hxy : x = y := Option.some.inj (hx.1.symm.trans hy.1)
      subst hxy
      rw [ih hx.2 hy.2]

theorem head_eq_none_iff (hx : IsChain next h xs) : h = none ↔ xs = [] := by
  cases xs with
  | nil => simpa using hx
  | cons x xs => simp [hx.1]

theorem head_eq_head? (hx : IsChain next h xs) : h = xs.head? := by
  cases xs with
  | nil => exact hx
  | cons x xs => exact hx.1

/-- The rest of a list, read from the link of one of its nodes. -/
theorem suffix {pre post : List α} {x : α} (hx : IsChain next h (pre ++ x :: post)) :
    IsChain next (next x) post := by
  induction pre generalizing h with
  | nil => exact hx.2
  | cons p pre ih => exact ih hx.2

/-- A list that ends has no cycle: a node met twice would be followed by two rests of different
length. -/
theorem nodup (hx : IsChain next h xs) : xs.Nodup := by
  induction xs generalizing h with
  | nil => exact List.nodup_nil
  | cons x xs ih =>
    refine List.nodup_cons.2 ⟨fun hmem => ?_, ih hx.2⟩
    obtain ⟨pre, post, rfl⟩ := List.append_of_mem hmem
    have hlen := congrArg List.length (hx.2.unique hx.2.suffix)
    simp only [List.length_append, List.length_cons] at hlen
    omega

/-- A pointer to a node that links to itself is no list. -/
theorem next_ne_self {x : α} (hx : IsChain next (some x) xs) : next x ≠ some x := by
  intro hself
  cases xs with
  | nil => cases hx
  | cons y ys =>
    obtain ⟨he, hys⟩ := hx
    cases he
    have hnodup := (show IsChain next (some x) (x :: ys) from ⟨rfl, hys⟩).nodup
    rw [hself] at hys
    have hlen := congrArg List.length
      (hys.unique (show IsChain next (some x) (x :: ys) from ⟨rfl, hself ▸ hys⟩))
    simp at hlen

/-- The link of a node of a list is the end or another node of the list. -/
theorem next_mem (hx : IsChain next h xs) {x y : α} (hmem : x ∈ xs) (hy : next x = some y) :
    y ∈ xs := by
  obtain ⟨pre, post, rfl⟩ := List.append_of_mem hmem
  cases post with
  | nil => exact absurd (hy.symm.trans hx.suffix) (by simp)
  | cons z post =>
    have hz : y = z := Option.some.inj (hy.symm.trans hx.suffix.1)
    simp [hz]

/-- The links of a list are determined by its nodes. -/
theorem next_eq {h' : Option α} (hx : IsChain next h xs) (hx' : IsChain next' h' xs) {x : α}
    (hmem : x ∈ xs) : next x = next' x := by
  obtain ⟨pre, post, rfl⟩ := List.append_of_mem hmem
  rw [hx.suffix.head_eq_head?, hx'.suffix.head_eq_head?]

/-- A list reads only the links of its own nodes. -/
theorem congr (hx : IsChain next h xs) (heq : ∀ x ∈ xs, next' x = next x) :
    IsChain next' h xs := by
  induction xs generalizing h with
  | nil => exact hx
  | cons x xs ih =>
    refine ⟨hx.1, ?_⟩
    rw [heq x List.mem_cons_self]
    exact ih hx.2 fun y hy => heq y (List.mem_cons_of_mem x hy)

variable [DecidableEq α]

/-- A store to the link of a node outside the list does not change the list. -/
theorem update_of_notMem (hx : IsChain next h xs) {t : α} (ht : t ∉ xs) (v : Option α) :
    IsChain (Function.update next t v) h xs :=
  hx.congr fun _ hmem => Function.update_of_ne (ne_of_mem_of_not_mem hmem ht) v next

/-- `t->next = head; head = t`. -/
theorem insert_head (hx : IsChain next h xs) {t : α} (ht : t ∉ xs) :
    IsChain (Function.update next t h) (some t) (t :: xs) := by
  refine ⟨rfl, ?_⟩
  rw [Function.update_self]
  exact hx.update_of_notMem ht h

/-- `t->next = p->next; p->next = t`. -/
theorem insert_after {pre post : List α} {p t : α} (hx : IsChain next h (pre ++ p :: post))
    (ht : t ∉ pre ++ p :: post) :
    IsChain (Function.update (Function.update next t (next p)) p (some t)) h
      (pre ++ p :: t :: post) := by
  have htp : t ≠ p := fun he => ht (by simp [he])
  induction pre generalizing h with
  | nil =>
    have hnodup := hx.nodup
    have hp : p ∉ post := (List.nodup_cons.1 hnodup).1
    have htpost : t ∉ post := fun hmem => ht (by simp [hmem])
    refine ⟨hx.1, ?_, ?_⟩
    · rw [Function.update_self]
    · rw [Function.update_of_ne htp, Function.update_self]
      exact (hx.2.update_of_notMem htpost _).update_of_notMem hp _
  | cons q pre ih =>
    have hq : q ∉ pre ++ p :: post := (List.nodup_cons.1 hx.nodup).1
    have hqp : q ≠ p := fun he => hq (by simp [he])
    have hqt : q ≠ t := fun he => ht (by simp [he])
    refine ⟨hx.1, ?_⟩
    rw [Function.update_of_ne hqp, Function.update_of_ne hqt]
    exact ih hx.2 fun hmem => ht (List.mem_cons_of_mem q hmem)

/-- `p->next = t->next` for the predecessor `p` of `t`. -/
theorem unlink {pre post : List α} {p t : α} (hx : IsChain next h (pre ++ p :: t :: post)) :
    IsChain (Function.update next p (next t)) h (pre ++ p :: post) := by
  induction pre generalizing h with
  | nil =>
    have hp : p ∉ t :: post := (List.nodup_cons.1 hx.nodup).1
    refine ⟨hx.1, ?_⟩
    rw [Function.update_self]
    exact hx.2.2.update_of_notMem (fun hmem => hp (List.mem_cons_of_mem t hmem)) _
  | cons q pre ih =>
    have hq : q ∉ pre ++ p :: t :: post := (List.nodup_cons.1 hx.nodup).1
    have hqp : q ≠ p := fun he => hq (by simp [he])
    refine ⟨hx.1, ?_⟩
    rw [Function.update_of_ne hqp]
    exact ih hx.2

end IsChain

/-! ### Walking to an insertion point -/

/-- The loop `while (cur->next && ahead (cur->next)) cur = cur->next`: the node at which it stops,
or `none` when the loop test has been evaluated `fuel` times. -/
def advance (next : α → Option α) (ahead : α → Bool) : ℕ → α → Option α
  | 0, _ => none
  | fuel + 1, cur =>
    match next cur with
    | some n => if ahead n then advance next ahead fuel n else some cur
    | none => some cur

/-- The node at which the loop stops: the last of `c` and the nodes `ahead` after it. -/
theorem advance_eq {next : α → Option α} (ahead : α → Bool) {c : α} {ys : List α}
    (hx : IsChain next (next c) ys) {fuel : ℕ} (hfuel : ys.length < fuel) :
    advance next ahead fuel c = (c :: ys.takeWhile ahead).getLast? := by
  induction ys generalizing c fuel with
  | nil =>
    obtain ⟨fuel, rfl⟩ := Nat.exists_eq_succ_of_ne_zero (by omega : fuel ≠ 0)
    have hnext : next c = none := hx
    simp [advance, hnext]
  | cons y ys ih =>
    obtain ⟨fuel, rfl⟩ := Nat.exists_eq_succ_of_ne_zero (by omega : fuel ≠ 0)
    by_cases ha : ahead y = true
    · have hlen : ys.length < fuel := by simp only [List.length_cons] at hfuel; omega
      rw [List.takeWhile_cons, if_pos ha, List.getLast?_cons_cons, ← ih hx.2 hlen]
      simp [advance, hx.1, ha]
    · simp [advance, hx.1, ha]

/-- A loop that stops does not stop elsewhere when more tests are allowed. -/
theorem advance_mono {next : α → Option α} {ahead : α → Bool} {c p : α} {fuel fuel' : ℕ}
    (h : advance next ahead fuel c = some p) (hle : fuel ≤ fuel') :
    advance next ahead fuel' c = some p := by
  induction fuel generalizing c fuel' with
  | zero => cases h
  | succ fuel ih =>
    obtain ⟨fuel', rfl⟩ := Nat.exists_eq_succ_of_ne_zero (by omega : fuel' ≠ 0)
    cases hn : next c with
    | none =>
      rw [advance, hn] at h ⊢
      exact h
    | some n =>
      simp only [advance, hn] at h ⊢
      split_ifs at h ⊢ with ha
      · exact ih h (by omega)
      · exact h

/-! ### What the lists lead to -/

section Reached

variable {ι : Type*} {next : α → Option α} {root : ι → Option α} {x : α} {P : Set α}

/-- Following the links from the head of some list leads to the node. -/
inductive Reached (next : α → Option α) (root : ι → Option α) : α → Prop
  | root {i : ι} {x : α} (h : root i = some x) : Reached next root x
  | next {x y : α} (hx : Reached next root x) (h : next x = some y) : Reached next root y

/-- The heads of the lists are in `P`, and the links of `P` stay in `P`. -/
structure Closed (next : α → Option α) (root : ι → Option α) (P : Set α) : Prop where
  root : ∀ i y, root i = some y → y ∈ P
  next : ∀ x ∈ P, ∀ y, next x = some y → y ∈ P

theorem Reached.mem (h : Reached next root x) (hP : Closed next root P) : x ∈ P := by
  induction h with
  | root h => exact hP.root _ _ h
  | next _ h ih => exact hP.next _ ih _ h

theorem closed_reached (next : α → Option α) (root : ι → Option α) :
    Closed next root {x | Reached next root x} :=
  ⟨fun _ _ h => .root h, fun _ hx _ h => .next hx h⟩

/-- Heads that are all null lead nowhere. -/
theorem not_reached_of_root_eq_none (h : ∀ i, root i = none) : ¬ Reached next root x := by
  have hclosed : Closed next root ∅ := ⟨fun i y hy => by simp [h i] at hy, fun _ hx => hx.elim⟩
  exact fun hx => hx.mem hclosed

theorem Closed.insert (h : Closed next root P) (hx : ∀ y, next x = some y → y ∈ P) :
    Closed next root (insert x P) := by
  refine ⟨fun i y hy => Or.inr (h.root i y hy), fun u hu y hy => Or.inr ?_⟩
  rcases hu with rfl | hu
  · exact hx y hy
  · exact h.next u hu y hy

/-- The loop `while (cur->next && ahead (cur->next)) cur = cur->next` does not lead out of `P`. -/
theorem Closed.advance_mem (h : Closed next root P) {ahead : α → Bool} {c p : α} {fuel : ℕ}
    (hc : c ∈ P) (hp : advance next ahead fuel c = some p) : p ∈ P := by
  induction fuel generalizing c with
  | zero => cases hp
  | succ fuel ih =>
    unfold advance at hp
    split at hp
    · rename_i n hn
      split_ifs at hp
      · exact ih (h.next c hc n hn) hp
      · cases hp
        exact hc
    · cases hp
      exact hc

/-- A store to a link, which leads to nodes of `P` if the node is in `P`. -/
theorem Closed.setNext [DecidableEq α] (h : Closed next root P) {v : Option α}
    (hv : x ∈ P → ∀ y, v = some y → y ∈ P) : Closed (Function.update next x v) root P := by
  refine ⟨h.root, fun u hu y hy => ?_⟩
  by_cases hux : u = x
  · subst hux
    rw [Function.update_self] at hy
    exact hv hu y hy
  · rw [Function.update_of_ne hux] at hy
    exact h.next u hu y hy

/-- A store of a node of `P` to the head of a list. -/
theorem Closed.setRoot [DecidableEq ι] (h : Closed next root P) {i : ι} {v : Option α}
    (hv : ∀ y, v = some y → y ∈ P) : Closed next (Function.update root i v) P := by
  refine ⟨fun j y hy => ?_, h.next⟩
  by_cases hj : j = i
  · subst hj
    rw [Function.update_self] at hy
    exact hv y hy
  · rw [Function.update_of_ne hj] at hy
    exact h.root j y hy

end Reached

/-! ### Looking for the predecessor of a node -/

/-- The loop `while (cur && cur->next != t) cur = cur->next`: the pointer with which it stops, or
`none` when the loop test has been evaluated `fuel` times. -/
def seek [DecidableEq α] (next : α → Option α) (t : α) : ℕ → Option α → Option (Option α)
  | 0, _ => none
  | _ + 1, none => some none
  | fuel + 1, some c => if next c = some t then some (some c) else seek next t fuel (next c)

variable [DecidableEq α] {next : α → Option α} {h : Option α}

/-- A search that stops does not stop elsewhere when more tests are allowed. -/
theorem seek_mono {t : α} {r : Option α} {fuel fuel' : ℕ} (hr : seek next t fuel h = some r)
    (hle : fuel ≤ fuel') : seek next t fuel' h = some r := by
  induction fuel generalizing h fuel' with
  | zero => cases hr
  | succ fuel ih =>
    obtain ⟨fuel', rfl⟩ := Nat.exists_eq_succ_of_ne_zero (by omega : fuel' ≠ 0)
    cases h with
    | none => exact hr
    | some c =>
      rw [seek] at hr ⊢
      split_ifs at hr ⊢ with hc
      · exact hr
      · exact ih hr (by omega)

/-- The predecessor of a node that is not the first one is found. -/
theorem seek_spec {pre post : List α} {p t : α} (hx : IsChain next h (pre ++ p :: t :: post))
    {fuel : ℕ} (hfuel : pre.length < fuel) : seek next t fuel h = some (some p) := by
  induction pre generalizing h fuel with
  | nil =>
    obtain ⟨fuel, rfl⟩ := Nat.exists_eq_succ_of_ne_zero (by omega : fuel ≠ 0)
    obtain ⟨rfl, hp, -⟩ := hx
    simp [seek, hp]
  | cons q pre ih =>
    obtain ⟨fuel, rfl⟩ := Nat.exists_eq_succ_of_ne_zero (by omega : fuel ≠ 0)
    -- a second node with link `t` would make `t` occur twice in the list
    have hqt : next q ≠ some t := by
      intro he
      have hnodup := hx.2.nodup
      have hhead := hx.2.head_eq_head?
      rw [he] at hhead
      cases pre with
      | nil =>
        have htp : t = p := by simpa using hhead
        simp [htp] at hnodup
      | cons r pre =>
        have htr : t = r := by simpa using hhead
        simp [htr] at hnodup
    obtain ⟨rfl, hrest⟩ := hx
    simpa [seek, hqt] using ih hrest (by simp only [List.length_cons] at hfuel; omega)

/-- Looking for a node outside the list ends with the null pointer. -/
theorem seek_notMem {xs : List α} {t : α} (hx : IsChain next h xs) (ht : t ∉ xs) {fuel : ℕ}
    (hfuel : xs.length < fuel) : seek next t fuel h = some none := by
  induction xs generalizing h fuel with
  | nil =>
    obtain ⟨fuel, rfl⟩ := Nat.exists_eq_succ_of_ne_zero (by omega : fuel ≠ 0)
    have hnone : h = none := hx
    simp [seek, hnone]
  | cons x xs ih =>
    obtain ⟨fuel, rfl⟩ := Nat.exists_eq_succ_of_ne_zero (by omega : fuel ≠ 0)
    have hxt : next x ≠ some t := fun he => ht (hx.next_mem List.mem_cons_self he)
    obtain ⟨rfl, hrest⟩ := hx
    simpa [seek, hxt] using
      ih hrest (fun hmem => ht (List.mem_cons_of_mem x hmem))
        (by simp only [List.length_cons] at hfuel; omega)

/-- A search that finds a node finds a predecessor. -/
theorem next_of_seek {t c : α} {h : Option α} {fuel : ℕ} (hr : seek next t fuel h = some (some c)) :
    next c = some t := by
  induction fuel generalizing h with
  | zero => cases hr
  | succ fuel ih =>
    cases h with
    | none => cases hr
    | some d =>
      rw [seek] at hr
      split_ifs at hr with hd
      · cases hr
        exact hd
      · exact ih hr

/-- A search that stops visits no node twice: when the nodes that it can visit are in `P`, some
nodes of `P` without a repetition bound the number of its loop tests. -/
theorem seek_bounded {t : α} {P : Set α} {r : Option α} {fuel : ℕ}
    (hr : seek next t fuel h = some r) (hhead : ∀ x, h = some x → x ∈ P)
    (hnext : ∀ x ∈ P, ∀ y, next x = some y → y ∈ P) :
    ∃ xs : List α, xs.Nodup ∧ (∀ x ∈ xs, x ∈ P) ∧ seek next t (xs.length + 1) h = some r := by
  -- the nodes visited are a list when the link to `t` is cut
  obtain ⟨xs, hxs, hP, hstop⟩ : ∃ xs,
      IsChain (fun x => if next x = some t then none else next x) h xs ∧ (∀ x ∈ xs, x ∈ P) ∧
        ∀ fuel, xs.length < fuel → seek next t fuel h = some r := by
    induction fuel generalizing h with
    | zero => cases hr
    | succ fuel ih =>
      cases h with
      | none =>
        refine ⟨[], rfl, by simp, fun fuel' hlt => ?_⟩
        obtain ⟨fuel', rfl⟩ := Nat.exists_eq_succ_of_ne_zero (by omega : fuel' ≠ 0)
        exact hr
      | some c =>
        have hc := hhead c rfl
        rw [seek] at hr
        split_ifs at hr with hct
        · refine ⟨[c], ⟨rfl, if_pos hct⟩, by simpa using hc, fun fuel' hlt => ?_⟩
          obtain ⟨fuel', rfl⟩ := Nat.exists_eq_succ_of_ne_zero (by omega : fuel' ≠ 0)
          rw [seek, if_pos hct]
          exact hr
        · obtain ⟨xs, hxs, hP, hstop⟩ := ih hr (hnext c hc)
          refine ⟨c :: xs, ⟨rfl, by dsimp only; rwa [if_neg hct]⟩, ?_, fun fuel' hlt => ?_⟩
          · intro x hx
            rcases List.mem_cons.1 hx with rfl | hx
            · exact hc
            · exact hP x hx
          · rw [List.length_cons] at hlt
            obtain ⟨fuel', rfl⟩ := Nat.exists_eq_succ_of_ne_zero (by omega : fuel' ≠ 0)
            rw [seek, if_neg hct]
            exact hstop fuel' (by omega)
  exact ⟨xs, hxs.nodup, hP, hstop _ (Nat.lt_succ_self _)⟩

end IntrusiveList
