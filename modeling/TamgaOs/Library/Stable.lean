import Mathlib.Data.List.Sort
import Mathlib.Order.Lattice

/-!
# Lists in the order of a key, first come first served

A queue whose elements are served by a key, the least first, and among equal keys in the order of
their arrival. An element joins the queue with `List.orderedInsert`, behind all that are not
greater. The order survives departures; it survives a smaller key of one element exactly when
nothing that stands ahead of the element comes after it then.

## Main definitions

* `Before key time a b`: `a` is to be served before `b`.
* `InOrder key time xs`: the queue `xs` is in this order.

## Main results

* `InOrder.insert`: a newcomer is inserted.
* `InOrder.lower_iff`: the key of one element gets smaller.
* `InOrder.head_le`: the first element has the least key.
-/

namespace Stable

variable {τ α : Type*} [LinearOrder α]

/-- `a` is to be served before `b`. -/
def Before (key : τ → α) (time : τ → ℕ) (a b : τ) : Prop :=
  key a < key b ∨ key a = key b ∧ time a < time b

instance (key : τ → α) (time : τ → ℕ) (a b : τ) : Decidable (Before key time a b) :=
  inferInstanceAs (Decidable (_ ∨ _))

/-- The queue is in the order of the keys and, where these are equal, of the times. -/
def InOrder (key : τ → α) (time : τ → ℕ) (xs : List τ) : Prop := xs.Pairwise (Before key time)

variable {key key' : τ → α} {time time' : τ → ℕ} {a b t : τ} {xs ys : List τ}

theorem Before.le (h : Before key time a b) : key a ≤ key b := h.elim le_of_lt fun h => h.1.le

namespace InOrder

/-- Only the keys and the times of the elements matter. -/
theorem congr (h : InOrder key time xs) (hkey : ∀ a ∈ xs, key' a = key a)
    (htime : ∀ a ∈ xs, time' a = time a) : InOrder key' time' xs := by
  refine List.Pairwise.imp_of_mem (fun {a b} ha hb hab => ?_) h
  unfold Before
  rw [hkey a ha, hkey b hb, htime a ha, htime b hb]
  exact hab

/-- Elements leave the queue. -/
theorem sublist (h : InOrder key time ys) (hs : xs.Sublist ys) : InOrder key time xs :=
  List.Pairwise.sublist hs h

/-- The first element has the least key. -/
theorem head_le (h : InOrder key time (t :: xs)) (ha : a ∈ t :: xs) : key t ≤ key a := by
  rcases List.mem_cons.1 ha with rfl | hmem
  · exact le_rfl
  · exact ((List.pairwise_cons.1 h).1 a hmem).le

/-- A newcomer is inserted behind all elements whose key is not greater. -/
theorem insert (h : InOrder key time xs) (htime : ∀ a ∈ xs, time a < time t) :
    InOrder key time (xs.orderedInsert (fun a b => key a < key b) t) := by
  induction xs with
  | nil => exact List.pairwise_singleton ..
  | cons b xs ih =>
    obtain ⟨hb, hxs⟩ := List.pairwise_cons.1 h
    by_cases hlt : key t < key b
    · rw [List.orderedInsert_cons, if_pos hlt]
      exact List.pairwise_cons.2 ⟨fun a ha => Or.inl (hlt.trans_le (h.head_le ha)), h⟩
    · rw [List.orderedInsert_cons, if_neg hlt]
      refine List.pairwise_cons.2 ⟨fun a ha => ?_,
        ih hxs fun a ha => htime a (List.mem_cons_of_mem b ha)⟩
      rcases (List.mem_orderedInsert ..).1 ha with rfl | hmem
      · exact (not_lt.1 hlt).lt_or_eq.imp_right fun he => ⟨he, htime b List.mem_cons_self⟩
      · exact hb a hmem

/-- One element gets a smaller key: the queue stays in order exactly when nothing ahead of the
element is to be served after it. -/
theorem lower_iff [DecidableEq τ] (h : InOrder key time xs) (ht : t ∈ xs)
    (hother : ∀ a, a ≠ t → key' a = key a) (hle : key' t ≤ key t) :
    InOrder key' time xs ↔ ∀ a ∈ xs.takeWhile (· ≠ t), Before key' time a t := by
  induction xs with
  | nil => cases ht
  | cons b xs ih =>
    obtain ⟨hb, hxs⟩ := List.pairwise_cons.1 h
    by_cases hbt : b = t
    · -- the element is the first one
      subst hbt
      have hnot : b ∉ xs := fun hmem => by
        rcases hb b hmem with hlt | ⟨-, hlt⟩ <;> exact absurd hlt (lt_irrefl _)
      have hne : ∀ a ∈ xs, a ≠ b := fun a ha => ne_of_mem_of_not_mem ha hnot
      refine iff_of_true (List.pairwise_cons.2 ⟨fun a ha => ?_, ?_⟩) (by simp)
      · unfold Before
        rw [hother a (hne a ha)]
        rcases hb a ha with hlt | ⟨heq, hlt⟩
        · exact Or.inl (hle.trans_lt hlt)
        · exact (hle.trans_eq heq).lt_or_eq.imp_right fun he => ⟨he, hlt⟩
      · exact InOrder.congr hxs (fun a ha => hother a (hne a ha)) fun _ _ => rfl
    · have hmem : t ∈ xs := (List.mem_cons.1 ht).resolve_left (Ne.symm hbt)
      rw [List.takeWhile_cons, if_pos (by simpa using hbt), List.forall_mem_cons, ← ih hxs hmem]
      constructor
      · intro hnew
        obtain ⟨hb', hxs'⟩ := List.pairwise_cons.1 hnew
        exact ⟨hb' t hmem, hxs'⟩
      · rintro ⟨hbt', hxs'⟩
        refine List.pairwise_cons.2 ⟨fun a ha => ?_, hxs'⟩
        by_cases hat : a = t
        · rw [hat]
          exact hbt'
        · unfold Before
          rw [hother a hat, hother b hbt]
          exact hb a ha

end InOrder

end Stable
