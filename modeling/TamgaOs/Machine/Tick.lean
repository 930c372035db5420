import TamgaOs.Machine.Coherence

/-!
# The tick on coherent wait lists

`sched_tick_n` walks the table and makes every task ready whose delay runs out. On coherent wait
lists, and as long as it does not hit a task that has been popped and not been woken yet, it ends
and removes from each list exactly the waiters whose timeout expires.

## Main definitions

* `Kernel.expires k n t`: a tick of `n` ends the delay of `t`.
* `Ticked n is k k' L L'`: what the loop of `sched_tick_n` does to the tasks at the indices `is`.
* `TickEffect n k k' L L'`: what `sched_tick_n` does.

## Main results

* `Coherent.tickTask`: one pass through the body of the loop.
* `Coherent.schedTickN`: the tick.
-/

namespace TamgaOs

open IntrusiveList

/-- A tick of `n` ends the delay of the task `t`. -/
def Kernel.expires (k : Kernel) (n : ℕ) : TaskPtr → Bool
  | .idle => false
  | .tcb i => decide (i < k.taskCount ∧ (k.tcb (.tcb i)).state = .blocked ∧
      0 < (k.tcb (.tcb i)).delayTicks ∧ (k.tcb (.tcb i)).delayTicks ≤ n)

theorem Kernel.expires_tcb {k : Kernel} {n i : ℕ} : k.expires n (.tcb i) = true ↔
    i < k.taskCount ∧ (k.tcb (.tcb i)).state = .blocked ∧
      0 < (k.tcb (.tcb i)).delayTicks ∧ (k.tcb (.tcb i)).delayTicks ≤ n := by
  simp [expires]

theorem Kernel.delayTicks_pos_of_expires {k : Kernel} {n : ℕ} {t : TaskPtr}
    (h : k.expires n t = true) : 0 < (k.tcb t).delayTicks := by
  cases t with
  | idle => cases h
  | tcb i => exact (Kernel.expires_tcb.1 h).2.2.1

/-- A tick of `n` ends the delay of `t`, and the index of `t` is in `is`. -/
def Kernel.expiresIn (k : Kernel) (n : ℕ) (is : List ℕ) (t : TaskPtr) : Bool :=
  k.expires n t && is.any fun i => t == .tcb i

theorem Kernel.expiresIn_iff {k : Kernel} {n : ℕ} {is : List ℕ} {t : TaskPtr} :
    k.expiresIn n is t = true ↔ k.expires n t = true ∧ ∃ i ∈ is, t = .tcb i := by
  simp [expiresIn]

/-- The loop of `sched_tick_n`, run for the tasks at the indices `is`: the waiters whose delay
ends leave their list and are marked. -/
structure Ticked (n : ℕ) (is : List ℕ) (k k' : Kernel) (L L' : WaitList → List TaskPtr) :
    Prop where
  lists : ∀ l, L' l = (L l).filter fun t => !k.expiresIn n is t
  quiet : Quiet k k' {t | k.expiresIn n is t = true}
  marked : ∀ l t, t ∈ L l → k.expiresIn n is t = true → (k'.tcb t).timedOut = true
  expires : ∀ t, (∀ i ∈ is, t ≠ .tcb i) → k'.expires n t = k.expires n t

namespace Coherent

variable {k k' : Kernel} {ctl : Ctx → Ctl} {W : Ctx → Option TaskPtr}
  {L : WaitList → List TaskPtr} {t : TaskPtr} {n : ℕ}

/-- The expiry of a task that is in no list: the walk of the list that it remembers from an
earlier wait, if any, does not find it. -/
theorem expire_free (h : Coherent k ctl W L) (hfree : Free L W t) :
    ∃ f : Task → Task, k.expire t = some (k.modifyTask t f) ∧ (f (k.tcb t)).delayTicks = 0 ∧
      (f (k.tcb t)).priority = (k.tcb t).priority := by
  unfold Kernel.expire
  cases hl : (k.tcb t).waitListHead with
  | none => exact ⟨_, rfl, rfl, rfl⟩
  | some l =>
    simp only [Kernel.schedWaitListRemove_notMem (h.waiters l) (hfree.1 l) (h.length_lt l)]
    exact ⟨_, rfl, rfl, rfl⟩

/-- The lists without the task `t`, when it is in the list `l`. -/
theorem filter_eq_update (h : Coherent k ctl W L) {l : WaitList} (ht : t ∈ L l)
    (l' : WaitList) : Function.update L l ((L l).erase t) l' = (L l').filter (· != t) := by
  by_cases hl : l' = l
  · subst hl
    rw [Function.update_self, (h.waiters l').nodup.erase_eq_filter]
  · rw [Function.update_of_ne hl, eq_comm, List.filter_eq_self]
    intro u hu
    have hut : u ≠ t := fun he => hl (h.eq_of_mem (he ▸ hu) ht)
    simpa using hut

end Coherent

theorem Kernel.expires_congr {k k' : Kernel} {t : TaskPtr} (hcount : k'.taskCount = k.taskCount)
    (hstate : (k'.tcb t).state = (k.tcb t).state)
    (hdelay : (k'.tcb t).delayTicks = (k.tcb t).delayTicks) (n : ℕ) :
    k'.expires n t = k.expires n t := by
  cases t with
  | idle => rfl
  | tcb i => simp only [expires, hcount, hstate, hdelay]

namespace Ticked

variable {k k' k'' : Kernel} {L L' L'' : WaitList → List TaskPtr} {n i : ℕ} {is : List ℕ}

/-- A task whose delay does not end. -/
theorem of_not_expires (hexp : k.expires n (.tcb i) = false)
    (hq : Quiet k k' ∅) (heq : ∀ t, t ≠ .tcb i → k'.expires n t = k.expires n t) :
    Ticked n [i] k k' L L := by
  have hno : ∀ t, k.expiresIn n [i] t = false := by
    intro t
    rw [Bool.eq_false_iff, ne_eq, Kernel.expiresIn_iff]
    rintro ⟨he, j, hj, rfl⟩
    rw [List.mem_singleton.1 hj, hexp] at he
    cases he
  refine ⟨fun l => ?_, hq.mono (Set.empty_subset _), fun l t _ he => ?_,
    fun t ht => heq t (ht i List.mem_cons_self)⟩
  · rw [eq_comm, List.filter_eq_self]
    exact fun t _ => by simp [hno t]
  · rw [hno t] at he
    cases he

theorem cons (h : Ticked n [i] k k' L L') (h' : Ticked n is k' k'' L' L'') (hi : i ∉ is) :
    Ticked n (i :: is) k k'' L L'' := by
  have hsplit : ∀ t, k.expiresIn n (i :: is) t = true ↔
      k.expiresIn n [i] t = true ∨ k'.expiresIn n is t = true := by
    intro t
    simp only [Kernel.expiresIn_iff, List.exists_mem_cons_iff, List.not_mem_nil, false_and,
      exists_false, or_false]
    by_cases ht : t = .tcb i
    · subst ht
      simp [hi]
    · have hk : k'.expires n t = k.expires n t := h.expires t (by simpa using ht)
      simp [hk, ht]
  refine ⟨fun l => ?_, ?_, fun l t ht he => ?_, fun t ht => ?_⟩
  · rw [h'.lists, h.lists, List.filter_filter]
    refine List.filter_congr fun t _ => ?_
    rw [Bool.eq_iff_iff]
    simp only [Bool.and_eq_true, Bool.not_eq_true', ← Bool.not_eq_true, hsplit t]
    tauto
  · exact (h.quiet.mono fun t ht => (hsplit t).2 (Or.inl ht)).trans
      (h'.quiet.mono fun t ht => (hsplit t).2 (Or.inr ht))
  · by_cases hin : k.expiresIn n [i] t = true
    · have hnot : k'.expiresIn n is t ≠ true := by
        obtain ⟨-, j, hj, rfl⟩ := Kernel.expiresIn_iff.1 hin
        rw [ne_eq, Kernel.expiresIn_iff]
        rintro ⟨-, j', hj', he'⟩
        cases he'
        exact hi (List.mem_singleton.1 hj ▸ hj')
      rw [h'.quiet.timedOut t hnot]
      exact h.marked l t ht hin
    · refine h'.marked l t ?_ (((hsplit t).1 he).resolve_left hin)
      rw [h.lists, List.mem_filter]
      exact ⟨ht, by simpa using hin⟩
  · rw [h'.expires t fun j hj => ht j (List.mem_cons_of_mem i hj)]
    exact h.expires t fun j hj => ht j (List.mem_singleton.1 hj ▸ List.mem_cons_self)

end Ticked

namespace Coherent

variable {k k' : Kernel} {ctl : Ctx → Ctl} {W : Ctx → Option TaskPtr}
  {L : WaitList → List TaskPtr} {t : TaskPtr} {n i : ℕ}

/-- One pass through the body of the loop of `sched_tick_n`. -/
theorem tickTask (h : Coherent k ctl W L)
    (hw : k.expires n (.tcb i) = true → ∀ x, W x ≠ some (.tcb i)) (hi : i < k.taskCount) :
    ∃ k' L', Kernel.tickTask n k i = some k' ∧ Coherent k' ctl W L' ∧
      Ticked n [i] k k' L L' := by
  have hexp := Kernel.expires_tcb (k := k) (n := n) (i := i)
  have hmod : ∀ (f : Task → Task) t, t ≠ .tcb i →
      (k.modifyTask (.tcb i) f).expires n t = k.expires n t := by
    intro f t ht
    have hsame := Kernel.modifyTask_of_ne (k := k) ht f
    refine Kernel.expires_congr ?_ ?_ ?_ n
    · rfl
    · rw [hsame]
    · rw [hsame]
  unfold Kernel.tickTask
  dsimp only
  split_ifs with hblocked hle
  · have he : k.expires n (.tcb i) = true := hexp.2 ⟨hi, hblocked.1, hblocked.2, hle⟩
    have hin : ∀ t, k.expiresIn n [i] t = true ↔ t = .tcb i := by
      intro t
      rw [Kernel.expiresIn_iff]
      constructor
      · rintro ⟨-, j, hj, rfl⟩
        rw [List.mem_singleton.1 hj]
      · rintro rfl
        exact ⟨he, i, List.mem_cons_self, rfl⟩
    have hfilter : ∀ l, (L l).filter (fun t => !k.expiresIn n [i] t) =
        (L l).filter (· != .tcb i) := by
      refine fun l => List.filter_congr fun t _ => ?_
      rw [Bool.eq_iff_iff]
      simp [← Bool.not_eq_true, hin t]
    rcases h.delay_cases hblocked.2 with ⟨hfree, hdel⟩ | ⟨l, hl, hhead⟩ | ⟨x, hx⟩
    · obtain ⟨f, hf, hdelay, hprio⟩ := h.expire_free hfree
      refine ⟨_, L, hf, h.modifyFree hfree fun _ => hdel, fun l => ?_,
        .modifyTask _ hprio fun hT => absurd ((hin _).2 rfl) hT, fun l t ht he => ?_,
        fun t ht => hmod f t (ht i List.mem_cons_self)⟩
      · rw [hfilter, eq_comm, List.filter_eq_self]
        intro t ht
        have hti : t ≠ .tcb i := fun he => hfree.1 l (he ▸ ht)
        simpa using hti
      · exact absurd ((hin t).1 he ▸ ht) (hfree.1 l)
    · obtain ⟨k₁, hrem, hw₁, hlink⟩ :=
        Kernel.schedWaitListRemove_mem (h.waiters l) hl (h.length_lt l)
      refine ⟨_, Function.update L l ((L l).erase (.tcb i)), ?_,
        h.release hl hlink hw₁ (f := fun y =>
          { y with delayTicks := 0, waitListHead := none, timedOut := true, state := .ready }) rfl,
        fun l' => ?_, ?_, fun l' t _ he => ?_, fun t ht => ?_⟩
      · simp only [Kernel.expire, hhead, hrem, Option.map_some]
      · rw [hfilter, h.filter_eq_update hl]
      · refine (hlink.quiet.mono (Set.empty_subset _)).trans
          (.modifyTask _ rfl fun hT => absurd ((hin _).2 rfl) hT)
      · rw [(hin t).1 he, Kernel.modifyTask_self]
      · have hti : t ≠ .tcb i := ht i List.mem_cons_self
        have hsame := Kernel.modifyTask_of_ne (k := k₁) hti
        refine Kernel.expires_congr (k := k) ?_ ?_ ?_ n
        · exact hlink.taskCount
        · rw [hsame, hlink.state]
        · rw [hsame, hlink.delayTicks]
    · exact absurd hx (hw he x)
  · have he : k.expires n (.tcb i) = false := by
      rw [Bool.eq_false_iff, ne_eq, hexp]
      exact fun hc => hle hc.2.2.2
    have hget : ∀ t, (k.modifyTask (.tcb i) fun x =>
        { x with delayTicks := x.delayTicks - n }).tcb t =
          { k.tcb t with delayTicks :=
              if t = .tcb i then (k.tcb t).delayTicks - n else (k.tcb t).delayTicks } := by
      intro t
      rw [Kernel.modifyTask_tcb]
      split_ifs with ht
      · rw [ht]
      · rfl
    refine ⟨_, L, rfl, h.congr ⟨rfl, rfl, rfl, rfl, rfl, fun t => by rw [hget], ?_, ?_,
      fun t => by rw [hget]⟩, .of_not_expires he (.modifyTask _ rfl fun _ => rfl) (hmod _)⟩
    · funext t
      change (Kernel.tcb _ t).waitNext = (k.tcb t).waitNext
      rw [hget]
    · intro t
      rw [hget]
      dsimp only
      split_ifs <;> omega
  · have he : k.expires n (.tcb i) = false := by
      rw [Bool.eq_false_iff, ne_eq, hexp]
      exact fun hc => hblocked ⟨hc.2.1, hc.2.2.1⟩
    exact ⟨k, L, rfl, h, .of_not_expires he (.refl k ∅) fun _ _ => rfl⟩

/-- The loop of `sched_tick_n`. -/
theorem tickLoop (is : List ℕ) (hnodup : is.Nodup) :
    ∀ {k : Kernel} {L : WaitList → List TaskPtr}, Coherent k ctl W L →
      (∀ t, k.expiresIn n is t = true → ∀ x, W x ≠ some t) → (∀ i ∈ is, i < k.taskCount) →
      ∃ k' L', is.foldlM (Kernel.tickTask n) k = some k' ∧ Coherent k' ctl W L' ∧
        Ticked n is k k' L L' := by
  induction is with
  | nil =>
    intro k L h _ _
    refine ⟨k, L, rfl, h, fun l => ?_, .refl k _, fun l t _ he => ?_, fun t _ => rfl⟩
    · rw [eq_comm, List.filter_eq_self]
      exact fun t _ => by simp [Kernel.expiresIn]
    · simp [Kernel.expiresIn] at he
  | cons i is ih =>
    intro k L h hw hlt
    obtain ⟨hi, hnodup⟩ := List.nodup_cons.1 hnodup
    have hwi : k.expires n (.tcb i) = true → ∀ x, W x ≠ some (.tcb i) := fun he =>
      hw (.tcb i) (Kernel.expiresIn_iff.2 ⟨he, i, List.mem_cons_self, rfl⟩)
    obtain ⟨k₁, L₁, hstep, h₁, ht₁⟩ := h.tickTask hwi (hlt i List.mem_cons_self)
    -- the tasks still to come are as they were
    have hw' : ∀ t, k₁.expiresIn n is t = true → ∀ x, W x ≠ some t := by
      intro t he
      obtain ⟨he, j, hj, rfl⟩ := Kernel.expiresIn_iff.1 he
      have hne : ∀ j' ∈ [i], TaskPtr.tcb j ≠ .tcb j' := by
        rintro j' hj' hjj
        cases hjj
        exact hi (List.mem_singleton.1 hj' ▸ hj)
      rw [ht₁.expires _ hne] at he
      exact hw _ (Kernel.expiresIn_iff.2 ⟨he, j, List.mem_cons_of_mem i hj, rfl⟩)
    have hlt' : ∀ j ∈ is, j < k₁.taskCount := fun j hj =>
      ht₁.quiet.taskCount ▸ hlt j (List.mem_cons_of_mem i hj)
    obtain ⟨k', L', hrest, h', ht'⟩ := ih hnodup h₁ hw' hlt'
    exact ⟨k', L', by rw [List.foldlM_cons, hstep]; exact hrest, h', ht₁.cons ht' hi⟩

end Coherent

/-- What a tick of `n` does: the waiters whose delay ends leave their list and are marked. -/
structure TickEffect (n : ℕ) (k k' : Kernel) (L L' : WaitList → List TaskPtr) : Prop where
  lists : ∀ l, L' l = (L l).filter fun t => !k.expires n t
  quiet : Quiet k k' {t | k.expires n t = true}
  marked : ∀ l t, t ∈ L l → k.expires n t = true → (k'.tcb t).timedOut = true

/-- The tick. -/
theorem Coherent.schedTickN {k : Kernel} {ctl : Ctx → Ctl} {W : Ctx → Option TaskPtr}
    {L : WaitList → List TaskPtr} {n : ℕ} (h : Coherent k ctl W L)
    (hw : ∀ t, k.expires n t = true → ∀ x, W x ≠ some t) :
    ∃ k' L', k.schedTickN n = some k' ∧ Coherent k' ctl W L' ∧ TickEffect n k k' L L' := by
  have hall : ∀ t, k.expiresIn n (List.range k.taskCount) t = k.expires n t := by
    intro t
    rw [Bool.eq_iff_iff, Kernel.expiresIn_iff, and_iff_left_iff_imp]
    intro he
    cases t with
    | idle => cases he
    | tcb i => exact ⟨i, List.mem_range.2 (Kernel.expires_tcb.1 he).1, rfl⟩
  obtain ⟨k₁, L₁, hloop, h₁, ht⟩ := h.tickLoop (List.range k.taskCount) List.nodup_range
    (fun t he => hw t (hall t ▸ he)) fun i => List.mem_range.1
  have hresch := k₁.rescheduled_schedPickAndMark
  refine ⟨_, L₁, by rw [Kernel.schedTickN, hloop]; rfl, h₁.schedPickAndMark.triggerIfSwitch,
    fun l => ?_, ?_, fun l t hl he => ?_⟩
  · simp only [ht.lists, hall]
  · have hq := ht.quiet
    simp only [hall] at hq
    exact (hq.trans (hresch.quiet.mono (Set.empty_subset _))).trans (.triggerIfSwitch _)
  · rw [(Quiet.triggerIfSwitch (T := ∅) _).timedOut t (Set.notMem_empty t), hresch.timedOut]
    exact ht.marked l t hl ((hall t).trans he)

end TamgaOs
