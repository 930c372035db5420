import TamgaOs.Machine.Context

/-!
# The steps of the event calls on coherent wait lists

`event_wake_satisfied` unlinks waiters while it walks their list through a pointer to a link. On
coherent lists this is `eventPass`, a pass over the list of waiters that clears bits as it grants
waits. The slots of `s_pending` belong one to one to the tasks that wait for an event.

## Main definitions

* `eventPass wait b xs`: the waits granted to the waiters `xs` from the bits `b`.
* `Slotted k ctl`: the slots agree with the waits of the tasks.
* `EventEffect`: the steps of `event.c` with the wait lists as explicit lists.

## Main results

* `eventPass_kept`: nobody who is left waiting has its condition met.
* `eventWakeLoop_spec`: the loop of `event_wake_satisfied` is `eventPass`.
* `eventStep_spec`: the code does what `EventEffect` says, and lists and slots stay coherent.
-/

namespace TamgaOs

open IntrusiveList

/-! ### The abstract pass -/

/-- The condition of a wait. -/
def EventWait.met (w : EventWait) (bits : BitVec 32) : Bool :=
  eventConditionMet bits w.mask w.mode

/-- The bits after the wait has been granted. -/
def EventWait.clear (w : EventWait) (bits : BitVec 32) : BitVec 32 :=
  if w.autoClear then bits &&& ~~~w.mask else bits

/-- The bits that remain, the tasks that go on waiting, and the waits granted in their order. -/
def eventPass (wait : TaskPtr → EventWait) :
    BitVec 32 → List TaskPtr → BitVec 32 × List TaskPtr × List EventGrant
  | b, [] => (b, [], [])
  | b, t :: ts =>
    if (wait t).met b then
      let (b', kept, gs) := eventPass wait ((wait t).clear b) ts
      (b', kept, ⟨t, wait t, b⟩ :: gs)
    else
      let (b', kept, gs) := eventPass wait b ts
      (b', t :: kept, gs)

/-- Clearing bits meets no condition. -/
theorem EventWait.met_and {w : EventWait} {b m : BitVec 32} (h : w.met (b &&& m) = true) :
    w.met b = true := by
  obtain ⟨e, mask, mode, ac⟩ := w
  cases mode with
  | all =>
    simp only [met, eventConditionMet, beq_iff_eq] at h ⊢
    calc b &&& mask = b &&& (b &&& m &&& mask) := by rw [h]
      _ = b &&& m &&& mask := by rw [← BitVec.and_assoc, ← BitVec.and_assoc, BitVec.and_self]
      _ = mask := h
  | any =>
    simp only [met, eventConditionMet, bne_iff_ne, ne_eq] at h ⊢
    intro hb
    refine h ?_
    rw [BitVec.and_assoc, BitVec.and_comm m, ← BitVec.and_assoc, hb]
    exact BitVec.zero_and

theorem EventWait.met_of_met_clear {w v : EventWait} {b : BitVec 32}
    (h : w.met (v.clear b) = true) : w.met b = true := by
  unfold clear at h
  split_ifs at h
  · exact EventWait.met_and h
  · exact h

section Pass

variable {wait : TaskPtr → EventWait} {b : BitVec 32} {xs : List TaskPtr} {t : TaskPtr}

theorem eventPass_cons_met (h : (wait t).met b = true) :
    eventPass wait b (t :: xs) =
      ((eventPass wait ((wait t).clear b) xs).1, (eventPass wait ((wait t).clear b) xs).2.1,
        ⟨t, wait t, b⟩ :: (eventPass wait ((wait t).clear b) xs).2.2) := by
  simp only [eventPass, if_pos h]

theorem eventPass_cons_not_met (h : (wait t).met b = false) :
    eventPass wait b (t :: xs) =
      ((eventPass wait b xs).1, t :: (eventPass wait b xs).2.1, (eventPass wait b xs).2.2) := by
  simp [eventPass, h]

/-- A condition that is met at the end of a pass was met at its beginning. -/
theorem met_of_met_eventPass {w : EventWait} (h : w.met (eventPass wait b xs).1 = true) :
    w.met b = true := by
  induction xs generalizing b with
  | nil => exact h
  | cons t xs ih =>
    cases ht : (wait t).met b with
    | true =>
      rw [eventPass_cons_met ht] at h
      exact EventWait.met_of_met_clear (ih h)
    | false =>
      rw [eventPass_cons_not_met ht] at h
      exact ih h

/-- Nobody who is left waiting has its condition met. -/
theorem eventPass_kept (h : t ∈ (eventPass wait b xs).2.1) :
    (wait t).met (eventPass wait b xs).1 = false := by
  induction xs generalizing b with
  | nil => cases h
  | cons u xs ih =>
    cases hu : (wait u).met b with
    | true =>
      rw [eventPass_cons_met hu] at h ⊢
      exact ih h
    | false =>
      rw [eventPass_cons_not_met hu] at h ⊢
      rcases List.mem_cons.1 h with rfl | hmem
      · rw [Bool.eq_false_iff] at hu ⊢
        exact fun hm => hu (met_of_met_eventPass hm)
      · exact ih hmem

/-- A grant goes to a waiter, for its own wait, and its condition is met. -/
theorem eventPass_granted {g : EventGrant} (h : g ∈ (eventPass wait b xs).2.2) :
    g.task ∈ xs ∧ g.wait = wait g.task ∧ g.wait.met g.observed = true := by
  induction xs generalizing b with
  | nil => cases h
  | cons u xs ih =>
    cases hu : (wait u).met b with
    | true =>
      rw [eventPass_cons_met hu] at h
      rcases List.mem_cons.1 h with rfl | hmem
      · exact ⟨List.mem_cons_self, rfl, hu⟩
      · obtain ⟨hin, hw, hm⟩ := ih hmem
        exact ⟨List.mem_cons_of_mem u hin, hw, hm⟩
    | false =>
      rw [eventPass_cons_not_met hu] at h
      obtain ⟨hin, hw, hm⟩ := ih h
      exact ⟨List.mem_cons_of_mem u hin, hw, hm⟩

theorem eventPass_sublist : ((eventPass wait b xs).2.1).Sublist xs := by
  induction xs generalizing b with
  | nil => exact List.Sublist.slnil
  | cons u xs ih =>
    cases hu : (wait u).met b with
    | true =>
      rw [eventPass_cons_met hu]
      exact ih.cons u
    | false =>
      rw [eventPass_cons_not_met hu]
      exact ih.cons_cons u

/-- Every waiter is granted its wait or goes on waiting. -/
theorem eventPass_cases (h : t ∈ xs) :
    t ∈ (eventPass wait b xs).2.1 ∨ ∃ g ∈ (eventPass wait b xs).2.2, g.task = t := by
  induction xs generalizing b with
  | nil => cases h
  | cons u xs ih =>
    cases hu : (wait u).met b with
    | true =>
      rw [eventPass_cons_met hu]
      rcases List.mem_cons.1 h with rfl | hmem
      · exact Or.inr ⟨_, List.mem_cons_self, rfl⟩
      · exact (ih hmem).imp_right fun ⟨g, hg, ht⟩ => ⟨g, List.mem_cons_of_mem _ hg, ht⟩
    | false =>
      rw [eventPass_cons_not_met hu]
      rcases List.mem_cons.1 h with rfl | hmem
      · exact Or.inl List.mem_cons_self
      · exact (ih hmem).imp_left (List.mem_cons_of_mem u)

end Pass

/-! ### The slots -/

/-- Every task that waits for an event has a slot that describes its wait, and every occupied slot
belongs to such a task. -/
structure Slotted (k : Kernel) (ctl : Ctx → Ctl) : Prop where
  slot : ∀ t w d i, ctl (.thread t) = .event (.blocked w d i) →
    i < eventPendingMax ∧ (k.pending i).task = some t ∧ (k.pending i).wait = w
  owner : ∀ i t, (k.pending i).task = some t → ∃ w d, ctl (.thread t) = .event (.blocked w d i)

/-- The wait of a task that waits for an event. -/
def waitOf (ctl : Ctx → Ctl) (t : TaskPtr) : EventWait :=
  match ctl (.thread t) with
  | .event (.blocked w _ _) => w
  | _ => ⟨0, 0, .any, false⟩

variable {k k' : Kernel} {ctl : Ctx → Ctl} {W : Ctx → Option TaskPtr}
  {L L' : WaitList → List TaskPtr} {t : TaskPtr} {x : Ctx} {c c' : EventCtl} {o : List Obs}

/-- `event_pending_find` finds the slot of a waiting task. -/
theorem Slotted.find (h : Slotted k ctl) {w : EventWait} {d : Option ℕ} {i : ℕ}
    (ht : ctl (.thread t) = .event (.blocked w d i)) : k.eventPendingFind t = some i := by
  obtain ⟨hi, htask, -⟩ := h.slot t w d i ht
  unfold Kernel.eventPendingFind
  cases hf : (List.range eventPendingMax).find? fun i => (k.pending i).task = some t with
  | none =>
    have hno := List.find?_eq_none.1 hf i (List.mem_range.2 hi)
    exact absurd htask (by simpa using hno)
  | some j =>
    have hj := List.find?_some hf
    simp only [decide_eq_true_eq] at hj
    obtain ⟨w', d', hw⟩ := h.owner j t hj
    rw [ht] at hw
    cases hw
    rfl

/-! ### Walking and unlinking -/

/-- The link that points behind the tasks `pre` of the list `l`. -/
def linkAfter (l : WaitList) (pre : List TaskPtr) : Link :=
  match pre.getLast? with
  | none => .head l
  | some p => .next p

theorem linkAfter_concat (l : WaitList) (pre : List TaskPtr) (t : TaskPtr) :
    linkAfter l (pre ++ [t]) = .next t := by
  simp [linkAfter]

namespace Kernel

theorem load_linkAfter {l : WaitList} {pre suf : List TaskPtr} (hw : k.Waiters l (pre ++ suf)) :
    k.load (linkAfter l pre) = suf.head? := by
  rcases List.eq_nil_or_concat pre with rfl | ⟨pre, p, rfl⟩
  · exact hw.head_eq_head?
  · rw [List.concat_eq_append] at hw ⊢
    rw [linkAfter_concat]
    rw [List.append_assoc] at hw
    exact hw.suffix.head_eq_head?

/-- The store that unlinks the task behind `pre`. -/
theorem store_linkAfter {l : WaitList} {pre suf : List TaskPtr}
    (hw : k.Waiters l (pre ++ t :: suf)) :
    (k.store (linkAfter l pre) (k.waitNext t)).Waiters l (pre ++ suf) ∧
      Relinked k (k.store (linkAfter l pre) (k.waitNext t)) l (pre ++ t :: suf) := by
  rcases List.eq_nil_or_concat pre with rfl | ⟨pre, p, rfl⟩
  · exact ⟨waiters_setHead_of_cons hw, .setHead _ l⟩
  · rw [List.concat_eq_append] at hw ⊢
    rw [linkAfter_concat]
    refine ⟨?_, .setWaitNext _ l (by simp)⟩
    rw [List.append_assoc] at hw ⊢
    change IsChain (k.setWaitNext p (k.waitNext t)).waitNext (k.head l) (pre ++ p :: suf)
    rw [waitNext_setWaitNext]
    exact hw.unlink

/-- The stores of a grant to the slot and to the bits of the group. -/
def eventGranted (k : Kernel) (e : ℕ) (i : ℕ) : Kernel :=
  (k.modifyPending i fun p => { p with observedBits := (k.group e).bits }).eventAutoClear
    ⟨e, (k.pending i).mask, (k.pending i).mode, (k.pending i).autoClear⟩

theorem sameSched_setEventBits (k : Kernel) (e : ℕ) (b : BitVec 32) :
    SameSched k (k.setEventBits e b) :=
  ⟨rfl, rfl, rfl, rfl, rfl, fun _ => rfl, rfl, fun _ h => h, fun _ => rfl⟩

theorem sameSched_modifyPending (k : Kernel) (i : ℕ) (f : EventPending → EventPending) :
    SameSched k (k.modifyPending i f) :=
  ⟨rfl, rfl, rfl, rfl, rfl, fun _ => rfl, rfl, fun _ h => h, fun _ => rfl⟩

theorem sameSched_eventAutoClear (k : Kernel) (w : EventWait) :
    SameSched k (k.eventAutoClear w) := by
  unfold eventAutoClear
  split_ifs
  · exact k.sameSched_setEventBits ..
  · exact ⟨rfl, rfl, rfl, rfl, rfl, fun _ => rfl, rfl, fun _ h => h, fun _ => rfl⟩

end Kernel

/-- A grant unlinks and wakes the task behind `pre`. -/
theorem Coherent.eventGrant (h : Coherent k ctl W L) {e i : ℕ} {pre suf : List TaskPtr}
    (hl : L (.event e) = pre ++ t :: suf) :
    Coherent (k.eventGrant e (linkAfter (.event e) pre) t i) ctl W
        (Function.update L (.event e) (pre ++ suf)) ∧
      Quiet (k.eventGranted e i) (k.eventGrant e (linkAfter (.event e) pre) t i) ∅ := by
  have hsame : SameSched k (k.eventGranted e i) :=
    (k.sameSched_modifyPending i _).trans (Kernel.sameSched_eventAutoClear _ _)
  have hco := h.congr hsame
  have hmem : t ∈ L (.event e) := by simp [hl]
  have hnodup : (pre ++ t :: suf).Nodup := hl ▸ (h.waiters (.event e)).nodup
  have hnot : t ∉ pre := fun hin =>
    (List.nodup_append.1 hnodup).2.2 t hin t List.mem_cons_self rfl
  have herase : (L (.event e)).erase t = pre ++ suf := by
    rw [hl, List.erase_append_right _ hnot, List.erase_cons_head]
  obtain ⟨hw, hlink⟩ := Kernel.store_linkAfter (hl ▸ hco.waiters (.event e))
  rw [← herase] at hw ⊢
  rw [← hl] at hlink
  -- the stores of the grant and of `sched_wake_task` to the control block are one
  set k₁ := (k.eventGranted e i).store (linkAfter (.event e) pre)
    ((k.eventGranted e i).waitNext t) with hk₁
  have hgrant : k.eventGrant e (linkAfter (.event e) pre) t i =
      ((k₁.modifyTask t fun x =>
        { x with waitNext := none, waitListHead := none, delayTicks := 0, state := .ready }
          ).schedPickAndMark).triggerIfSwitch := by
    simp only [Kernel.eventGrant, Kernel.schedWakeTask, Kernel.wakeSection]
    congr 2
    simp only [Kernel.modifyTask, Function.update_self, Function.update_idem]
    rfl
  rw [hgrant]
  refine ⟨(hco.release hmem hlink hw rfl).schedPickAndMark.triggerIfSwitch, ?_⟩
  exact (((hlink.quiet.trans (.modifyTask t rfl fun _ => rfl)).trans
    Kernel.rescheduled_schedPickAndMark.quiet).trans (.triggerIfSwitch _))

/-! ### The loop of `event_wake_satisfied` -/

/-- The slots after the waits `gs` have been granted. -/
structure Granted (k k' : Kernel) (gs : List EventGrant) : Prop where
  task : ∀ i, (k'.pending i).task = (k.pending i).task
  wait : ∀ i, (k'.pending i).wait = (k.pending i).wait
  observed : ∀ g ∈ gs, ∀ i, (k.pending i).task = some g.task →
    (k'.pending i).observedBits = g.observed
  other : ∀ i, (∀ g ∈ gs, (k.pending i).task ≠ some g.task) →
    (k'.pending i).observedBits = (k.pending i).observedBits

theorem Granted.nil (h : k'.pending = k.pending) : Granted k k' [] := by
  refine ⟨fun i => by rw [h], fun i => by rw [h], fun g hg => ?_, fun i _ => by rw [h]⟩
  cases hg

theorem Granted.cons {k'' : Kernel} {g : EventGrant} {gs : List EventGrant}
    (h : Granted k k' [g]) (h' : Granted k' k'' gs) (hg : ∀ g' ∈ gs, g'.task ≠ g.task) :
    Granted k k'' (g :: gs) := by
  refine ⟨fun i => (h'.task i).trans (h.task i), fun i => (h'.wait i).trans (h.wait i),
    fun g' hg' i hi => ?_, fun i hi => ?_⟩
  · rcases List.mem_cons.1 hg' with rfl | hmem
    · rw [h'.other i fun g'' hg'' he => ?_]
      · exact h.observed g' List.mem_cons_self i hi
      · rw [h.task, hi] at he
        exact hg g'' hg'' (Option.some.inj he).symm
    · exact h'.observed g' hmem i (by rw [h.task]; exact hi)
  · rw [h'.other i fun g' hg' => by rw [h.task]; exact hi g' (List.mem_cons_of_mem g hg')]
    exact h.other i fun g' hg' => hi g' (List.mem_singleton.1 hg' ▸ List.mem_cons_self)

theorem Slotted.granted (h : Slotted k ctl) {gs : List EventGrant} (hg : Granted k k' gs) :
    Slotted k' ctl := by
  refine ⟨fun t w d i ht => ?_, fun i t hi => h.owner i t (by rw [← hg.task]; exact hi)⟩
  rw [hg.task, hg.wait]
  exact h.slot t w d i ht

namespace Kernel

theorem pending_eventGranted (k : Kernel) (e i j : ℕ) :
    (k.eventGranted e i).pending j =
      if j = i then { k.pending i with observedBits := (k.group e).bits } else k.pending j := by
  have hp : (k.eventGranted e i).pending = (k.modifyPending i fun p =>
      { p with observedBits := (k.group e).bits }).pending := by
    unfold eventGranted eventAutoClear
    split_ifs <;> rfl
  rw [hp]
  exact Function.update_apply ..

theorem group_eventAutoClear (k : Kernel) (w : EventWait) :
    (k.eventAutoClear w).group =
      Function.update k.group w.group ⟨w.clear (k.group w.group).bits⟩ := by
  unfold eventAutoClear EventWait.clear
  split_ifs
  · rfl
  · exact (Function.update_eq_self ..).symm

end Kernel

theorem Untouched.eventAutoClear (k : Kernel) (w : EventWait) :
    Untouched .event x k (k.eventAutoClear w) L L := by
  unfold Kernel.eventAutoClear
  split_ifs
  · exact ⟨fun _ => rfl, fun _ => rfl, fun _ => rfl, fun h => absurd rfl h, fun _ _ _ => rfl,
      fun _ => rfl, id, rfl, fun _ _ _ => rfl, fun _ _ => rfl⟩
  · exact .refl k L

theorem Untouched.modifyPending (k : Kernel) (i : ℕ) (f : EventPending → EventPending) :
    Untouched .event x k (k.modifyPending i f) L L :=
  ⟨fun _ => rfl, fun _ => rfl, fun _ => rfl, fun h => absurd rfl h, fun _ _ _ => rfl,
    fun _ => rfl, id, rfl, fun _ _ _ => rfl, fun _ _ => rfl⟩

/-- What `event_wake_satisfied` does to the group `e`: it leaves the bits `b` and grants the waits
`gs`. -/
structure Woken (k k' : Kernel) (e : ℕ) (L L' : WaitList → List TaskPtr) (b : BitVec 32)
    (gs : List EventGrant) : Prop where
  group : k'.group = Function.update k.group e ⟨b⟩
  granted : Granted k k' gs
  untouched : ∀ x, Untouched .event x k k' L L'

theorem Ctl.eq_event_of_waitsOn {c : Ctl} {e : ℕ} (h : c.waitsOn = some (.event e)) :
    ∃ w d i, c = .event (.blocked w d i) ∧ w.group = e := by
  unfold Ctl.waitsOn at h
  split at h
  · cases h
  · cases h
  · rename_i q op d
    cases op <;> cases h
  · rename_i w d i
    cases h
    exact ⟨w, d, i, rfl, rfl⟩
  · cases h

/-- Granting the wait of the task behind `pre`, whose condition is met. -/
theorem eventGrant_woken (h : Coherent k ctl W L) (hs : Slotted k ctl) {e i : ℕ}
    {pre suf : List TaskPtr} (hl : L (.event e) = pre ++ t :: suf) {w : EventWait} {d : Option ℕ}
    (ht : ctl (.thread t) = .event (.blocked w d i)) (hw : w.group = e) :
    Woken k (k.eventGrant e (linkAfter (.event e) pre) t i) e L
      (Function.update L (.event e) (pre ++ suf))
      (w.clear (k.group e).bits) [⟨t, w, (k.group e).bits⟩] := by
  obtain ⟨-, hquiet⟩ := h.eventGrant (i := i) hl
  obtain ⟨-, htask, hwait⟩ := hs.slot t w d i ht
  have hself : (⟨e, (k.pending i).mask, (k.pending i).mode, (k.pending i).autoClear⟩ : EventWait)
      = w := by
    rw [← hwait, ← hw, ← hwait]
    rfl
  refine ⟨?_, ⟨fun j => ?_, fun j => ?_, fun g hg j hj => ?_, fun j hj => ?_⟩, fun x => ?_⟩
  · rw [hquiet.group, Kernel.eventGranted, Kernel.group_eventAutoClear, hself, hw]
    rfl
  · rw [hquiet.pending, Kernel.pending_eventGranted]
    split_ifs with hji
    · rw [hji]
    · rfl
  · rw [hquiet.pending, Kernel.pending_eventGranted]
    split_ifs with hji
    · rw [hji]
      rfl
    · rfl
  · obtain rfl := List.mem_singleton.1 hg
    obtain ⟨w', d', hj'⟩ := hs.owner j t hj
    rw [ht] at hj'
    cases hj'
    rw [hquiet.pending, Kernel.pending_eventGranted, if_pos rfl]
  · have hji : j ≠ i := by
      rintro rfl
      exact hj _ List.mem_cons_self htask
    rw [hquiet.pending, Kernel.pending_eventGranted, if_neg hji]
  · refine ((Untouched.modifyPending k i _).trans (.eventAutoClear _ _)).trans
      (hquiet.untouched (by simp) fun l hf => Function.update_of_ne (fun he => hf ?_) ..)
    rw [he]
    rfl

/-- The loop of `event_wake_satisfied`, standing behind the tasks `pre`, is `eventPass` on the
rest `suf` of the list. -/
theorem eventWakeLoop_spec (e : ℕ) (suf : List TaskPtr) :
    ∀ (pre : List TaskPtr) {k : Kernel} {L : WaitList → List TaskPtr} {fuel : ℕ},
      Coherent k ctl W L → Slotted k ctl → L (.event e) = pre ++ suf → suf.length < fuel →
      let p := eventPass (waitOf ctl) (k.group e).bits suf
      ∃ k', Kernel.eventWakeLoop e fuel (linkAfter (.event e) pre) k = some (k', p.2.2) ∧
        Coherent k' ctl W (Function.update L (.event e) (pre ++ p.2.1)) ∧
        Woken k k' e L (Function.update L (.event e) (pre ++ p.2.1)) p.1 p.2.2 := by
  induction suf with
  | nil =>
    intro pre k L fuel h hs hl hfuel p
    obtain ⟨fuel, rfl⟩ := Nat.exists_eq_succ_of_ne_zero (by omega : fuel ≠ 0)
    have hload := Kernel.load_linkAfter (hl ▸ h.waiters (.event e))
    have hL : Function.update L (.event e) (pre ++ p.2.1) = L := by
      change Function.update L (.event e) (pre ++ []) = L
      rw [← hl, Function.update_eq_self]
    rw [hL]
    refine ⟨k, ?_, h, ?_, .nil rfl, fun x => .refl k L⟩
    · simp only [Kernel.eventWakeLoop, hload, List.head?_nil]
      rfl
    · exact (Function.update_eq_self ..).symm
  | cons t suf ih =>
    intro pre k L fuel h hs hl hfuel p
    obtain ⟨fuel, rfl⟩ := Nat.exists_eq_succ_of_ne_zero (by omega : fuel ≠ 0)
    have hfuel' : suf.length < fuel := by
      simp only [List.length_cons] at hfuel
      omega
    have hload := Kernel.load_linkAfter (hl ▸ h.waiters (.event e))
    obtain ⟨w, d, i, ht, hw⟩ := Ctl.eq_event_of_waitsOn (h.linked (.event e) t (by simp [hl])).2
    obtain ⟨-, -, hslot⟩ := hs.slot t w d i ht
    have hwait : waitOf ctl t = w := by simp [waitOf, ht]
    have hsat : k.eventSatisfied e t = if w.met (k.group e).bits then some i else none := by
      rw [Kernel.eventSatisfied, hs.find ht, ← hslot]
      rfl
    by_cases hmet : w.met (k.group e).bits = true
    · -- the task is granted its wait, and the loop goes on at the same link
      have hp : p = _ := eventPass_cons_met (by rw [hwait]; exact hmet)
      obtain ⟨hco, -⟩ := h.eventGrant (i := i) hl
      have hwoken := eventGrant_woken h hs hl ht hw
      set k₁ := k.eventGrant e (linkAfter (.event e) pre) t i with hk₁
      have hbits : (k₁.group e).bits = w.clear (k.group e).bits := by
        rw [hwoken.group, Function.update_self]
      obtain ⟨k', hrun, hco', hwoken'⟩ := ih pre hco (hs.granted hwoken.granted)
        (Function.update_self ..) hfuel'
      rw [hbits, Function.update_idem] at hco' hwoken'
      rw [hbits] at hrun
      rw [hp, hwait]
      refine ⟨k', ?_, hco', ?_, ?_, fun x => (hwoken.untouched x).trans (hwoken'.untouched x)⟩
      · simp only [Kernel.eventWakeLoop, hload, List.head?_cons, hsat, if_pos hmet, ← hk₁, hrun,
          Option.map_some, hslot]
      · rw [hwoken'.group, hwoken.group, Function.update_idem]
      · refine hwoken.granted.cons hwoken'.granted fun g hg he => ?_
        have hin := (eventPass_granted hg).1
        rw [he] at hin
        have hnodup : (pre ++ t :: suf).Nodup := hl ▸ (h.waiters (.event e)).nodup
        exact (List.nodup_cons.1 (List.nodup_append.1 hnodup).2.1).1 hin
    · -- the task goes on waiting, and the loop goes on behind it
      have hp : p = _ := eventPass_cons_not_met (by rw [hwait]; simpa using hmet)
      obtain ⟨k', hrun, hco', hwoken'⟩ := ih (pre ++ [t]) h hs (by simp [hl]) hfuel'
      rw [linkAfter_concat] at hrun
      rw [List.append_assoc] at hco' hwoken'
      rw [hp]
      refine ⟨k', ?_, hco', hwoken'⟩
      simp only [Kernel.eventWakeLoop, hload, List.head?_cons, hsat, if_neg hmet, hrun]

/-! ### The calls -/

/-- One step of an event call while `t` is the current task, on the wait lists `L`: the state, the
lists and the reports. -/
inductive EventEffect (k : Kernel) (ctl : Ctx → Ctl) (L : WaitList → List TaskPtr) (t : TaskPtr) :
    EventCtl → Kernel → EventCtl → (WaitList → List TaskPtr) → List Obs → Prop
  | set {e : ℕ} {bits b : BitVec 32} {kept : List TaskPtr} {gs : List EventGrant} {k' : Kernel}
      (hpass : eventPass (waitOf ctl) ((k.group e).bits ||| bits) (L (.event e)) = (b, kept, gs))
      (hwoken : Woken (k.setEventBits e ((k.group e).bits ||| bits)) k' e L
        (Function.update L (.event e) kept) b gs) :
      EventEffect k ctl L t (.set e bits) k' .done (Function.update L (.event e) kept)
        (.eventSet e bits :: gs.map fun g => .eventGranted g.task g.wait g.observed)
  | clear {e : ℕ} {bits : BitVec 32} :
      EventEffect k ctl L t (.clear e bits) (k.eventClear e bits) .done L [.eventCleared e bits]
  | get {e : ℕ} : EventEffect k ctl L t (.get e) k (.got e (k.group e).bits) L []
  | enter {w : EventWait} {ms : ℕ} :
      EventEffect k ctl L t (.enter w ms) k (.loop w (some (k.deadline ms))) L []
  | granted {w : EventWait} {d : Option ℕ} (hmet : w.met (k.group w.group).bits = true) :
      EventEffect k ctl L t (.loop w d) (k.eventAutoClear w)
        (.returned w (.granted (k.group w.group).bits)) L
        [.eventGranted t w (k.group w.group).bits]
  | expired {w : EventWait} {d : ℕ} :
      EventEffect k ctl L t (.loop w (some d)) k (.returned w .expired) L []
  | noSlot {w : EventWait} {d : Option ℕ} {c' : EventCtl} (hslot : k.eventPendingSlot = none)
      (hc : c' = .loop w none ∨ c' = .returned w .noSlot) :
      EventEffect k ctl L t (.loop w d) k c' L []
  | block {w : EventWait} {d : Option ℕ} {i : ℕ} {k' : Kernel}
      (hnot : w.met (k.group w.group).bits = false) (hslot : k.eventPendingSlot = some i)
      (hq : Quiet (k.eventPendingFill i t w) k' {t})
      (hmark : d.isSome → (k'.tcb t).timedOut = false) :
      EventEffect k ctl L t (.loop w d) k' (.blocked w d i)
        (Function.update L (.event w.group) (k.enqueued t (L (.event w.group)))) []
  | timeout {w : EventWait} {d i : ℕ} (hmark : (k.tcb t).timedOut = true) :
      EventEffect k ctl L t (.blocked w (some d) i)
        ((k.modifyTask t fun x =>
          { x with timedOut := false, waitListHead := none }).eventPendingFree i)
        (.returned w .expired) L []
  | finish {w : EventWait} {d : Option ℕ} {i : ℕ}
      (hmark : ¬ (d.isSome = true ∧ (k.tcb t).timedOut = true)) :
      EventEffect k ctl L t (.blocked w d i) (k.eventPendingFree i)
        (.returned w (.granted (k.pending i).observedBits)) L []

/-- `event_set` is `eventPass` on the waiters of the group. -/
theorem eventSet_spec (h : Coherent k ctl W L) (hs : Slotted k ctl) (e : ℕ)
    (bits : BitVec 32) :
    let p := eventPass (waitOf ctl) ((k.group e).bits ||| bits) (L (.event e))
    ∃ k', k.eventSet e bits = some (k', p.2.2) ∧
      Coherent k' ctl W (Function.update L (.event e) p.2.1) ∧
      Woken (k.setEventBits e ((k.group e).bits ||| bits)) k' e L
        (Function.update L (.event e) p.2.1) p.1 p.2.2 := by
  intro p
  set k₁ := k.setEventBits e ((k.group e).bits ||| bits) with hk₁
  have hco : Coherent k₁ ctl W L := h.congr (k.sameSched_setEventBits e _)
  have hs₁ : Slotted k₁ ctl := ⟨hs.slot, hs.owner⟩
  have hbits : (k₁.group e).bits = (k.group e).bits ||| bits := by
    rw [hk₁, Kernel.setEventBits]
    simp
  obtain ⟨k', hrun, hco', hwoken⟩ := eventWakeLoop_spec e (L (.event e)) [] hco hs₁ rfl
    (hco.length_lt (.event e))
  rw [hbits] at hrun hco' hwoken
  exact ⟨k', hrun, hco', hwoken⟩

/-- The code of the event calls does what `EventEffect` says. -/
theorem eventStep_spec (h : Coherent k ctl W L) (hsl : Slotted k ctl) (hx : Runs k x t)
    (hc : ctl x = .event c) (hs : eventStep k t c = some (k', c', o)) :
    ∃ L', EventEffect k ctl L t c k' c' L' o ∧
      Coherent k' (Function.update ctl x (.event c')) W L' := by
  have hadv : ∀ c', ((Ctl.event c).isrSafe = true → (Ctl.event c').isrSafe = true) →
      Coherent k (Function.update ctl x (.event c')) W L := fun c' hsafe =>
    h.advance hx hc (by simp) rfl hsafe
  cases c with
  | set e bits =>
    obtain ⟨k₁, hset, hco, hwoken⟩ := eventSet_spec h hsl e bits
    simp only [eventStep, hset, Option.map_some] at hs
    cases hs
    refine ⟨_, .set rfl hwoken, hco.advanceFree (fun u hu => ?_) hc rfl fun _ => rfl⟩
    subst hu
    have hut : u = t := by
      rcases hx.ctx with ⟨he, -⟩ | ⟨i, he⟩ <;> cases he
      rfl
    subst hut
    obtain ⟨hfree, htab⟩ := h.free_of_runs hx (by rw [hc]; simp)
    refine ⟨⟨fun l hl => hfree.1 l ?_, hfree.2⟩, ?_⟩
    · by_cases he : l = .event e
      · subst he
        rw [Function.update_self] at hl
        exact eventPass_sublist.subset hl
      · rwa [Function.update_of_ne he] at hl
    · unfold InTable
      rw [(hwoken.untouched (.thread u)).taskCount (by simp)]
      exact htab
  | clear e bits =>
    cases hs
    exact ⟨L, .clear, (hadv .done fun _ => rfl).congr (k.sameSched_setEventBits e _)⟩
  | get e =>
    cases hs
    exact ⟨L, .get, hadv _ fun _ => rfl⟩
  | enter w ms =>
    cases hs
    exact ⟨L, .enter, hadv _ fun hf => by cases hf⟩
  | loop w d =>
    obtain rfl := h.thread_of_not_isrSafe hx (by rw [hc]; rfl)
    obtain ⟨hfree, htab⟩ := h.free_of_runs hx (by rw [hc]; simp)
    have hd := h.delay_eq_zero hfree (by rw [hc]; rfl)
    have hgo := fun c' => hadv c' fun hf => by cases hf
    rcases eventStep_loop hs with ⟨hmet, rfl, rfl, rfl⟩ |
      ⟨hmet, ⟨d, rfl, -, rfl, rfl, rfl⟩ | ⟨-, ⟨hslot, rfl, rfl, rfl⟩ | ⟨i, hslot, hb, rfl, rfl⟩⟩⟩
    · exact ⟨L, .granted hmet, (hgo _).congr (k.sameSched_eventAutoClear w)⟩
    · exact ⟨L, .expired, hgo _⟩
    · refine ⟨L, .noSlot hslot ?_, ?_⟩
      · cases d with
        | none => exact Or.inl rfl
        | some d => exact Or.inr rfl
      · cases d <;> exact hgo _
    · have hco : Coherent (k.eventPrepared i t w d) ctl W L ∧
          Quiet (k.eventPendingFill i t w) (k.eventPrepared i t w d) {t} ∧
          ((k.eventPrepared i t w d).tcb t).delayTicks = 0 := by
        have hfill : Coherent (k.eventPendingFill i t w) ctl W L :=
          h.congr (k.sameSched_modifyPending i _)
        cases d with
        | none =>
          rw [Kernel.eventPrepared_none]
          refine ⟨hfill.modifyFree hfree fun hpos => absurd (hd ▸ hpos : 0 < 0) (lt_irrefl 0),
            .modifyTask t rfl fun hu => absurd rfl hu, ?_⟩
          rw [Kernel.modifyTask_self]
          exact hd
        | some d => exact ⟨hfill, .refl _ _, hd⟩
      obtain ⟨hco, hq, hd₂⟩ := hco
      have henq : (k.eventPrepared i t w d).enqueued t (L (.event w.group)) =
          k.enqueued t (L (.event w.group)) := by
        unfold Kernel.enqueued
        simp only [hq.priority]
        rfl
      have htab₂ : InTable (k.eventPrepared i t w d) t := by
        unfold InTable
        rw [hq.taskCount]
        exact htab
      obtain ⟨k₃, hb₃, hblock⟩ := Kernel.blockOn_spec (hco.waiters (.event w.group)) (hfree.1 _)
        (hco.length_lt _) (d.map fun d => d - k.ticks)
      cases hb.symm.trans hb₃
      have hco₃ := hco.block hfree htab₂ hd₂ hblock (c := .event (.blocked w d i)) rfl fun hsome =>
        (by simpa using hsome : d.isSome = true)
      rw [henq] at hco₃
      exact ⟨_, .block hmet hslot (hq.trans (hblock.quiet.mono fun u hu => hu.1)) fun hr =>
        hblock.timedOut_self (by simpa using hr), hco₃⟩
  | blocked w d i =>
    obtain rfl := h.thread_of_not_isrSafe hx (by rw [hc]; rfl)
    obtain ⟨hfree, -⟩ := h.free_of_runs hx (by rw [hc]; simp)
    have hd := h.delay_eq_zero hfree (by rw [hc]; rfl)
    simp only [eventStep] at hs
    split_ifs at hs with hto
    · cases hs
      obtain ⟨d, rfl⟩ := Option.isSome_iff_exists.1 hto.1
      refine ⟨L, .timeout hto.2, Coherent.congr ?_ (Kernel.sameSched_modifyPending _ i _)⟩
      exact (hadv _ fun hf => by cases hf).modifyFree hfree fun hpos =>
        absurd hpos (by simp [hd])
    · cases hs
      exact ⟨L, .finish hto, (hadv _ fun hf => by cases hf).congr
        (k.sameSched_modifyPending i _)⟩
  | done | got e bits | returned w r => cases hs

/-! ### What the effects keep -/

/-- A context that does not wait for an event before or after its step. -/
theorem Slotted.setCtl (h : Slotted k ctl) {c : Ctl} (hp : ∀ i, (k'.pending i).task =
    (k.pending i).task ∧ (k'.pending i).wait = (k.pending i).wait)
    (hold : ∀ w d i, ctl x ≠ .event (.blocked w d i)) (hnew : ∀ w d i, c ≠ .event (.blocked w d i)) :
    Slotted k' (Function.update ctl x c) := by
  refine ⟨fun t w d i ht => ?_, fun i t hi => ?_⟩
  · by_cases hx : .thread t = x
    · subst hx
      rw [Function.update_self] at ht
      exact absurd ht (hnew w d i)
    · rw [Function.update_of_ne hx] at ht
      rw [(hp i).1, (hp i).2]
      exact h.slot t w d i ht
  · rw [(hp i).1] at hi
    obtain ⟨w, d, ht⟩ := h.owner i t hi
    have hx : .thread t ≠ x := by
      rintro rfl
      exact hold w d i ht
    exact ⟨w, d, by rw [Function.update_of_ne hx]; exact ht⟩

theorem Kernel.eventPendingSlot_spec {i : ℕ} (h : k.eventPendingSlot = some i) :
    i < eventPendingMax ∧ (k.pending i).task = none := by
  refine ⟨List.mem_range.1 (List.mem_of_find?_eq_some h), ?_⟩
  simpa using List.find?_some h

/-- A task that starts to wait fills a free slot. -/
theorem Slotted.fill (h : Slotted k ctl) {w : EventWait} {d : Option ℕ} {i : ℕ}
    (hslot : k.eventPendingSlot = some i) (hp : k'.pending = (k.eventPendingFill i t w).pending)
    (hold : ∀ w d i, ctl (.thread t) ≠ .event (.blocked w d i)) :
    Slotted k' (Function.update ctl (.thread t) (.event (.blocked w d i))) := by
  obtain ⟨hi, hfree⟩ := Kernel.eventPendingSlot_spec hslot
  have hget : ∀ j, k'.pending j = if j = i then { k.pending i with
      task := some t, group := w.group, mask := w.mask, mode := w.mode,
      autoClear := w.autoClear } else k.pending j := by
    intro j
    rw [hp]
    exact Function.update_apply ..
  refine ⟨fun u w' d' j hu => ?_, fun j u hj => ?_⟩
  · by_cases hut : u = t
    · subst hut
      rw [Function.update_self] at hu
      cases hu
      rw [hget, if_pos rfl]
      exact ⟨hi, rfl, rfl⟩
    · rw [Function.update_of_ne (by simpa using hut)] at hu
      obtain ⟨hj, htask, hwait⟩ := h.slot u w' d' j hu
      have hji : j ≠ i := by
        rintro rfl
        rw [hfree] at htask
        cases htask
      rw [hget, if_neg hji]
      exact ⟨hj, htask, hwait⟩
  · rw [hget] at hj
    split_ifs at hj with hji
    · cases hj
      exact ⟨w, d, by rw [Function.update_self, hji]⟩
    · obtain ⟨w', d', hu⟩ := h.owner j u hj
      have hut : u ≠ t := by
        rintro rfl
        exact hold w' d' j hu
      exact ⟨w', d', by rw [Function.update_of_ne (by simpa using hut)]; exact hu⟩

/-- A task that returns from its wait frees its slot. -/
theorem Slotted.free (h : Slotted k ctl) {w : EventWait} {d : Option ℕ} {i : ℕ} {c : Ctl}
    (ht : ctl (.thread t) = .event (.blocked w d i))
    (hp : k'.pending = (k.eventPendingFree i).pending)
    (hnew : ∀ w d i, c ≠ .event (.blocked w d i)) :
    Slotted k' (Function.update ctl (.thread t) c) := by
  obtain ⟨-, htask, -⟩ := h.slot t w d i ht
  have hget : ∀ j, k'.pending j =
      if j = i then { k.pending i with task := none } else k.pending j := by
    intro j
    rw [hp]
    exact Function.update_apply ..
  refine ⟨fun u w' d' j hu => ?_, fun j u hj => ?_⟩
  · by_cases hut : u = t
    · subst hut
      rw [Function.update_self] at hu
      exact absurd hu (hnew w' d' j)
    · rw [Function.update_of_ne (by simpa using hut)] at hu
      obtain ⟨hj, hu', hwait⟩ := h.slot u w' d' j hu
      have hji : j ≠ i := by
        rintro rfl
        rw [htask] at hu'
        exact hut (Option.some.inj hu').symm
      rw [hget, if_neg hji]
      exact ⟨hj, hu', hwait⟩
  · rw [hget] at hj
    split_ifs at hj with hji
    · obtain ⟨w', d', hu⟩ := h.owner j u hj
      have hut : u ≠ t := by
        rintro rfl
        rw [ht] at hu
        cases hu
        exact hji rfl
      exact ⟨w', d', by rw [Function.update_of_ne (by simpa using hut)]; exact hu⟩

namespace EventEffect

theorem untouched (he : EventEffect k ctl L t c k' c' L' o)
    (hx : (Ctl.event c).isrSafe = false → x = .thread t) : Untouched .event x k k' L L' := by
  have hlist : ∀ (e : ℕ) (xs : List TaskPtr) (l : WaitList), l.family ≠ .event →
      Function.update L (.event e) xs l = L l := by
    rintro e xs l hl
    exact Function.update_of_ne (fun he => hl (by rw [he]; rfl)) ..
  have hrefl : Untouched .event x k k L L := .refl k L
  have hbits : ∀ e b, Untouched .event x k (k.setEventBits e b) L L := fun e b =>
    ⟨fun _ => rfl, fun _ => rfl, fun _ => rfl, fun h => absurd rfl h, fun _ _ _ => rfl,
      fun _ => rfl, id, rfl, fun _ _ _ => rfl, fun _ _ => rfl⟩
  cases he with
  | set hpass hwoken => exact (hbits _ _).trans (hwoken.untouched x)
  | clear => exact hbits _ _
  | get | enter | expired | noSlot _ _ => exact hrefl
  | granted _ => exact .eventAutoClear ..
  | block hnot hslot hq hmark =>
    obtain rfl := hx rfl
    exact (Untouched.modifyPending ..).trans (hq.untouched (by simp) (hlist _ _))
  | timeout _ =>
    obtain rfl := hx rfl
    refine Untouched.trans ?_ (.modifyPending _ _ _)
    refine (Quiet.modifyTask (T := {t}) t ?_ fun ht => absurd rfl ht).untouched (by simp)
      fun _ _ => rfl
    rfl
  | finish _ => exact .modifyPending ..

/-- Only the executing task is linked. -/
theorem newly (he : EventEffect k ctl L t c k' c' L' o) {l : WaitList} {u : TaskPtr}
    (hu : u ∈ L' l) : u ∈ L l ∨ Newly k' t (.event c) (.event c') u := by
  cases he with
  | set hpass _ =>
    rcases mem_of_mem_update hu with hold | ⟨rfl, hin⟩
    · exact Or.inl hold
    · have hkept := congrArg (fun p => p.2.1) hpass
      dsimp only at hkept
      rw [← hkept] at hin
      exact Or.inl (eventPass_sublist.subset hin)
  | clear | get | enter | granted _ | expired | noSlot _ _ | timeout _ | finish _ => exact Or.inl hu
  | block _ _ _ hmark =>
    rcases mem_of_mem_update hu with hold | ⟨rfl, hin⟩
    · exact Or.inl hold
    · exact (Kernel.mem_enqueued.1 hin).symm.imp_right fun he => ⟨he, rfl, hmark⟩

/-- The slots stay coherent. -/
theorem slotted (he : EventEffect k ctl L t c k' c' L' o) (hs : Slotted k ctl)
    (hc : ctl x = .event c) (hx : (Ctl.event c).isrSafe = false → x = .thread t) :
    Slotted k' (Function.update ctl x (.event c')) := by
  have hold : (∀ w d i, c ≠ .blocked w d i) → ∀ w d i, ctl x ≠ .event (.blocked w d i) := by
    rintro hne w d i he
    rw [hc] at he
    cases he
    exact hne w d i rfl
  cases he with
  | set hpass hwoken =>
    refine hs.setCtl (fun i => ⟨?_, ?_⟩) (hold (by simp)) (by simp)
    · exact hwoken.granted.task i
    · exact hwoken.granted.wait i
  | clear | get | enter | expired => exact hs.setCtl (fun _ => ⟨rfl, rfl⟩) (hold (by simp)) (by simp)
  | noSlot _ hc' =>
    refine hs.setCtl (fun _ => ⟨rfl, rfl⟩) (hold (by simp)) ?_
    rcases hc' with rfl | rfl <;> simp
  | granted _ =>
    refine hs.setCtl (fun i => ?_) (hold (by simp)) (by simp)
    unfold Kernel.eventAutoClear
    split_ifs <;> exact ⟨rfl, rfl⟩
  | block hnot hslot hq hmark =>
    obtain rfl := hx rfl
    exact hs.fill hslot hq.pending (hold (by simp))
  | timeout _ | finish _ =>
    obtain rfl := hx rfl
    exact hs.free hc rfl (by simp)

/-- Nobody waits for an event that is counted. -/
theorem covered (he : EventEffect k ctl L t c k' c' L' o) (h : Coherent k ctl W L)
    (hx : (Ctl.event c).isrSafe = false → x = .thread t) (hc : ctl x = .event c)
    (hcov : ∀ l, Covered k ctl L l) (l : WaitList) :
    Covered k' (Function.update ctl x (.event c')) L' l := by
  by_cases hF : l.family = .event
  · obtain ⟨e, rfl⟩ : ∃ e, l = .event e := by
      cases l <;> first | exact ⟨_, rfl⟩ | cases hF
    exact Handoff.Covered.of_zero rfl
  · exact (hcov l).untouched h (he.untouched hx) (by rw [hc]; rfl) hF

/-- What a step reports is about event groups. -/
theorem family (he : EventEffect k ctl L t c k' c' L' o) : ∀ b ∈ o, b.family = .event := by
  cases he with
  | set _ _ =>
    intro b hb
    rcases List.mem_cons.1 hb with rfl | hmem
    · rfl
    · obtain ⟨g, -, rfl⟩ := List.mem_map.1 hmem
      rfl
  | clear | get | enter | granted _ | expired | noSlot _ _ | block _ _ _ _ | timeout _
  | finish _ => simp [Obs.family]

end EventEffect

end TamgaOs
