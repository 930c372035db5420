import Mathlib.Data.Finset.Card

/-!
# Handing tokens to parked clients

A pool holds `avail` tokens. A client that finds none parks itself; a supplier adds a token and
releases one parked client, which does not receive the token but has to come back for it, so that
any other client may take the token first. No wake-up is lost when the pool is *covered*: as long
as somebody is parked, at least `avail` released clients have still to come back.

The lemmas say which changes of the three ingredients keep a pool covered.

## Main definitions

* `Handoff.Covered avail waiting pend`: the pool with `avail` tokens is covered, where `waiting`
  says that a client is parked and `pend` holds of the clients that have still to come back.
-/

namespace Handoff

variable {α : Type*} {avail avail' : ℕ} {waiting waiting' : Prop} {pend pend' : α → Prop}

/-- While somebody is parked, at least `avail` clients have still to come back. -/
def Covered (avail : ℕ) (waiting : Prop) (pend : α → Prop) : Prop :=
  waiting → ∃ P : Finset α, avail ≤ P.card ∧ ∀ t ∈ P, pend t

namespace Covered

/-- Nobody is parked. -/
theorem of_not_waiting (h : ¬ waiting) : Covered avail waiting pend := fun hw => absurd hw h

/-- No token is left. -/
theorem of_zero (h : avail = 0) : Covered avail waiting pend :=
  fun _ => ⟨∅, by simp [h], by simp⟩

/-- Nobody new is parked, no token is added, and nobody who has to come back is forgotten. -/
theorem mono (h : Covered avail waiting pend) (hw : waiting' → waiting) (ha : avail' ≤ avail)
    (hp : ∀ t, pend t → pend' t) : Covered avail' waiting' pend' := by
  intro hw'
  obtain ⟨P, hcard, hP⟩ := h (hw hw')
  exact ⟨P, ha.trans hcard, fun t ht => hp t (hP t ht)⟩

/-- A client takes a token, and thereby comes back if it had to. -/
theorem take [DecidableEq α] (h : Covered avail waiting pend) (t : α) (hw : waiting' → waiting)
    (ha : avail' + 1 ≤ avail) (hp : ∀ u, u ≠ t → pend u → pend' u) :
    Covered avail' waiting' pend' := by
  intro hw'
  obtain ⟨P, hcard, hP⟩ := h (hw hw')
  refine ⟨P.erase t, ?_, fun u hu => ?_⟩
  · have := Finset.pred_card_le_card_erase (s := P) (a := t)
    omega
  · obtain ⟨hne, hmem⟩ := Finset.mem_erase.1 hu
    exact hp u hne (hP u hmem)

/-- A supplier adds a token and releases the client `t`. -/
theorem supply [DecidableEq α] (h : Covered avail waiting pend) {t : α} (hw : waiting)
    (ha : avail' ≤ avail + 1) (hnew : ¬ pend t) (ht : pend' t) (hp : ∀ u, pend u → pend' u) :
    Covered avail' waiting' pend' := by
  intro _
  obtain ⟨P, hcard, hP⟩ := h hw
  have hnot : t ∉ P := fun hmem => hnew (hP t hmem)
  refine ⟨insert t P, ?_, fun u hu => ?_⟩
  · rw [Finset.card_insert_of_notMem hnot]
    omega
  · rcases Finset.mem_insert.1 hu with rfl | hmem
    · exact ht
    · exact hp u (hP u hmem)

end Covered

end Handoff
