import TamgaOs.Machine.Step

/-!
# Coherence of the wait lists with the suspended tasks

The invariant that ties the three views of a waiting task together: the wait lists in the heap,
the call in which the task is suspended, and the pending calls of `sched_wake_task` that will make
it run again. It is stated for lists `L` that the heap represents and for the wake-ups `W` that the
contexts still owe, and each elementary effect of a kernel function has one lemma that says how it
changes `L` and `W`.

## Main definitions

* `Suspended k t`: the task `t` cannot run.
* `Coherent k ctl W L`: the invariant.
* `Free L W t`: the task `t` is in no list and nobody is about to wake it.

## Main results

* `Coherent.block`, `Coherent.pop`, `Coherent.wake`, `Coherent.release`: the effects that move a
  task.
* `Coherent.rescheduled`, `Coherent.pendSV`, `Coherent.setCtl`, `Coherent.modifyFree`,
  `Coherent.congr`: the effects that move none.
-/

namespace TamgaOs

open IntrusiveList

/-- The task is in the table. -/
def InTable (k : Kernel) (t : TaskPtr) : Prop := ∃ i < k.taskCount, t = .tcb i

theorem InTable.ne_idle {k : Kernel} {t : TaskPtr} (h : InTable k t) : t ≠ .idle := by
  obtain ⟨i, -, rfl⟩ := h
  exact TaskPtr.noConfusion

/-- The task is blocked or paused, it is not the next task, and if it is still the current task a
context switch is pended. -/
structure Suspended (k : Kernel) (t : TaskPtr) : Prop where
  state : (k.tcb t).state = .blocked ∨ (k.tcb t).state = .paused
  current : k.currentTask = some t → k.pendsv = true
  next : k.nextTask ≠ some t

theorem Suspended.not_runnable {k : Kernel} {t : TaskPtr} (h : Suspended k t) :
    ¬ (k.tcb t).state.Runnable := by
  rcases h.state with hs | hs <;> simp [hs, TaskState.Runnable]

/-- The task is in no wait list, and no context is about to wake it. -/
def Free (L : WaitList → List TaskPtr) (W : Ctx → Option TaskPtr) (t : TaskPtr) : Prop :=
  (∀ l, t ∉ L l) ∧ ∀ x, W x ≠ some t

/-- The task waits with a timeout in a list, or has been popped from it and not been woken. -/
structure TimedWait (k : Kernel) (ctl : Ctx → Ctl) (W : Ctx → Option TaskPtr)
    (L : WaitList → List TaskPtr) (t : TaskPtr) : Prop where
  timed : (ctl (.thread t)).timed = true
  head : (k.tcb t).waitListHead = (ctl (.thread t)).waitsOn
  waits : (∃ l, t ∈ L l) ∨ ∃ x, W x = some t

/-- The wait lists of `k` are the lists `L`, and they agree with what the contexts do: a linked
task is suspended in the call that linked it, the tasks in `W` are suspended and unlinked, and a
running delay belongs to a sleeping task or to a wait with a timeout. -/
structure Coherent (k : Kernel) (ctl : Ctx → Ctl) (W : Ctx → Option TaskPtr)
    (L : WaitList → List TaskPtr) : Prop where
  waiters : ∀ l, k.Waiters l (L l)
  linked : ∀ l t, t ∈ L l → Suspended k t ∧ (ctl (.thread t)).waitsOn = some l
  waking : ∀ x t, W x = some t →
    Suspended k t ∧ (∀ l, t ∉ L l) ∧ (ctl (.thread t)).waitsOn ≠ none
  unique : ∀ x y t, W x = some t → W y = some t → x = y
  delay : ∀ t, 0 < (k.tcb t).delayTicks →
    (ctl (.thread t)).delaying = true ∨ TimedWait k ctl W L t
  current : ∀ t, k.currentTask = some t → t = .idle ∨ InTable k t
  next : ∀ t, k.nextTask = some t → t = .idle ∨ InTable k t
  table : ∀ t, ctl (.thread t) ≠ .app → InTable k t
  isr : ∀ i, (ctl (.isr i)).isrSafe = true

/-- `k'` agrees with `k` on everything that `Coherent` reads, except that delays may have run
out. -/
structure SameSched (k k' : Kernel) : Prop where
  head : k'.head = k.head
  currentTask : k'.currentTask = k.currentTask
  nextTask : k'.nextTask = k.nextTask
  pendsv : k'.pendsv = k.pendsv
  taskCount : k'.taskCount = k.taskCount
  state : ∀ t, (k'.tcb t).state = (k.tcb t).state
  waitNext : k'.waitNext = k.waitNext
  delayTicks : ∀ t, 0 < (k'.tcb t).delayTicks → 0 < (k.tcb t).delayTicks
  waitListHead : ∀ t, (k'.tcb t).waitListHead = (k.tcb t).waitListHead

namespace SameSched

variable {k k' k'' : Kernel}

theorem trans (h : SameSched k k') (h' : SameSched k' k'') :
    SameSched k k'' :=
  ⟨h'.head.trans h.head, h'.currentTask.trans h.currentTask, h'.nextTask.trans h.nextTask,
    h'.pendsv.trans h.pendsv, h'.taskCount.trans h.taskCount,
    fun t => (h'.state t).trans (h.state t), h'.waitNext.trans h.waitNext,
    fun t ht => h.delayTicks t (h'.delayTicks t ht),
    fun t => (h'.waitListHead t).trans (h.waitListHead t)⟩

theorem refl (k : Kernel) : SameSched k k :=
  ⟨rfl, rfl, rfl, rfl, rfl, fun _ => rfl, rfl, fun _ h => h, fun _ => rfl⟩

end SameSched

namespace Coherent

variable {k k' : Kernel} {ctl : Ctx → Ctl} {W : Ctx → Option TaskPtr}
  {L : WaitList → List TaskPtr} {t u : TaskPtr} {l : WaitList} {x : Ctx}

/-! ### Consequences -/

theorem inTable_of_mem (h : Coherent k ctl W L) (ht : t ∈ L l) : InTable k t := by
  refine h.table t fun happ => ?_
  have hw := (h.linked l t ht).2
  simp [happ, Ctl.waitsOn] at hw

theorem inTable_of_waking (h : Coherent k ctl W L) (ht : W x = some t) : InTable k t := by
  refine h.table t fun happ => (h.waking x t ht).2.2 ?_
  simp [happ, Ctl.waitsOn]

theorem eq_of_mem {l' : WaitList} (h : Coherent k ctl W L) (ht : t ∈ L l) (ht' : t ∈ L l') :
    l = l' :=
  Option.some.inj ((h.linked l t ht).2.symm.trans (h.linked l' t ht').2)

theorem length_lt (h : Coherent k ctl W L) (l : WaitList) : (L l).length < k.walkFuel :=
  Kernel.length_lt_walkFuel (h.waiters l).nodup fun _ ht => h.inTable_of_mem ht

/-- A task that can execute is in no list, and nobody is about to wake it. -/
theorem free_of_current (h : Coherent k ctl W L) (hcur : k.currentTask = some t)
    (hp : k.pendsv = false) : Free L W t := by
  refine ⟨fun l ht => ?_, fun x hx => ?_⟩
  · simp [(h.linked l t ht).1.current hcur] at hp
  · simp [(h.waking x t hx).1.current hcur] at hp

theorem delay_eq_zero (h : Coherent k ctl W L) (hfree : Free L W t)
    (hd : (ctl (.thread t)).delaying = false) : (k.tcb t).delayTicks = 0 := by
  by_contra hne
  rcases h.delay t (Nat.pos_of_ne_zero hne) with hd' | hw
  · simp [hd] at hd'
  · rcases hw.waits with ⟨l, hl⟩ | ⟨x, hx⟩
    · exact hfree.1 l hl
    · exact hfree.2 x hx

/-- A task whose delay is running sleeps in `sched_delay_ms` outside every list, or it is linked
with a timeout in the list that it remembers, or it has been popped from it. -/
theorem delay_cases (h : Coherent k ctl W L) (hd : 0 < (k.tcb t).delayTicks) :
    (Free L W t ∧ (ctl (.thread t)).delaying = true) ∨
    (∃ l, t ∈ L l ∧ (k.tcb t).waitListHead = some l) ∨ ∃ x, W x = some t := by
  rcases h.delay t hd with hdel | hw
  · have hno : (ctl (.thread t)).waitsOn = none := by
      generalize ctl (.thread t) = c at hdel
      unfold Ctl.delaying at hdel
      split at hdel <;> first | rfl | cases hdel
    refine Or.inl ⟨⟨fun l hl => ?_, fun x hx => ?_⟩, hdel⟩
    · rw [(h.linked l t hl).2] at hno
      cases hno
    · exact (h.waking x t hx).2.2 hno
  · rcases hw.waits with ⟨l, hl⟩ | hx
    · exact Or.inr (Or.inl ⟨l, hl, by rw [hw.head, (h.linked l t hl).2]⟩)
    · exact Or.inr (Or.inr hx)

/-! ### Effects that move no task -/

theorem congr (h : Coherent k ctl W L) (hk : SameSched k k') : Coherent k' ctl W L := by
  have hsusp : ∀ t, Suspended k t → Suspended k' t := fun t ht =>
    ⟨by rw [hk.state]; exact ht.state, by rw [hk.currentTask, hk.pendsv]; exact ht.current,
      by rw [hk.nextTask]; exact ht.next⟩
  have htable : ∀ t, InTable k t → InTable k' t := fun t ht => by
    unfold InTable
    rw [hk.taskCount]
    exact ht
  refine ⟨fun l => ?_, fun l t ht => ?_, fun x t hx => ?_, h.unique, fun t ht => ?_,
    fun t ht => ?_, fun t ht => ?_, fun t ht => htable t (h.table t ht), h.isr⟩
  · unfold Kernel.Waiters
    rw [hk.waitNext, hk.head]
    exact h.waiters l
  · exact ⟨hsusp t (h.linked l t ht).1, (h.linked l t ht).2⟩
  · exact ⟨hsusp t (h.waking x t hx).1, (h.waking x t hx).2⟩
  · refine (h.delay t (hk.delayTicks t ht)).imp_right fun hw => ⟨hw.timed, ?_, hw.waits⟩
    rw [hk.waitListHead]
    exact hw.head
  · rw [hk.currentTask] at ht
    exact (h.current t ht).imp_right (htable t)
  · rw [hk.nextTask] at ht
    exact (h.next t ht).imp_right (htable t)

/-- A scheduling decision. -/
theorem rescheduled (h : Coherent k ctl W L) (hr : Rescheduled k k')
    (hn : ∃ n, k'.nextTask = some n ∧
      (n = .idle ∨ ∃ i < k.taskCount, n = .tcb i ∧ (k.tcb n).state.Runnable)) :
    Coherent k' ctl W L := by
  obtain ⟨n, hn, hor⟩ := hn
  have hsusp : ∀ t, InTable k t → Suspended k t → Suspended k' t := by
    intro t htab ht
    refine ⟨by rw [hr.state t ht.not_runnable]; exact ht.state,
      by rw [hr.currentTask, hr.pendsv]; exact ht.current, fun he => ?_⟩
    have htn : t = n := Option.some.inj (he.symm.trans hn)
    subst htn
    rcases hor with rfl | ⟨i, hi, hti, hrun⟩
    · exact htab.ne_idle rfl
    · exact ht.not_runnable hrun
  have htable : ∀ t, InTable k t → InTable k' t := fun t ht => by
    unfold InTable
    rw [hr.taskCount]
    exact ht
  refine ⟨fun l => ?_, fun l t ht => ?_, fun x t hx => ?_, h.unique, fun t ht => ?_,
    fun t ht => ?_, fun t ht => ?_, fun t ht => htable t (h.table t ht), h.isr⟩
  · unfold Kernel.Waiters
    rw [hr.waitNext, hr.head]
    exact h.waiters l
  · exact ⟨hsusp t (h.inTable_of_mem ht) (h.linked l t ht).1, (h.linked l t ht).2⟩
  · exact ⟨hsusp t (h.inTable_of_waking hx) (h.waking x t hx).1, (h.waking x t hx).2⟩
  · rw [hr.delayTicks] at ht
    refine (h.delay t ht).imp_right fun hw => ⟨hw.timed, ?_, hw.waits⟩
    rw [hr.waitListHead]
    exact hw.head
  · rw [hr.currentTask] at ht
    exact (h.current t ht).imp_right (htable t)
  · have htn : t = n := Option.some.inj (ht.symm.trans hn)
    subst htn
    exact hor.imp_right fun ⟨i, hi, hti, _⟩ => htable t ⟨i, hi, hti⟩

theorem schedCommitNext (h : Coherent k ctl W L) : Coherent k.schedCommitNext ctl W L :=
  h.rescheduled Kernel.rescheduled_schedCommitNext Kernel.schedCommitNext_next

theorem schedPickAndMark (h : Coherent k ctl W L) : Coherent k.schedPickAndMark ctl W L :=
  h.rescheduled Kernel.rescheduled_schedPickAndMark Kernel.schedPickAndMark_next

theorem triggerPendsv (h : Coherent k ctl W L) : Coherent k.triggerPendsv ctl W L := by
  have hsusp : ∀ t, Suspended k t → Suspended k.triggerPendsv t := fun t ht =>
    ⟨ht.state, fun _ => rfl, ht.next⟩
  exact ⟨h.waiters, fun l t ht => ⟨hsusp t (h.linked l t ht).1, (h.linked l t ht).2⟩,
    fun x t hx => ⟨hsusp t (h.waking x t hx).1, (h.waking x t hx).2⟩, h.unique,
    fun t ht => (h.delay t ht).imp_right fun hw => ⟨hw.timed, hw.head, hw.waits⟩,
    h.current, h.next, h.table, h.isr⟩

theorem triggerIfSwitch (h : Coherent k ctl W L) : Coherent k.triggerIfSwitch ctl W L := by
  unfold Kernel.triggerIfSwitch
  split_ifs
  · exact h.triggerPendsv
  · exact h

/-- The context switch. -/
theorem pendSV (h : Coherent k ctl W L) : Coherent k.pendSV ctl W L := by
  have hsusp : ∀ t, Suspended k t → Suspended k.pendSV t := fun t ht =>
    ⟨ht.state, fun hcur => absurd hcur ht.next, ht.next⟩
  exact ⟨h.waiters, fun l t ht => ⟨hsusp t (h.linked l t ht).1, (h.linked l t ht).2⟩,
    fun x t hx => ⟨hsusp t (h.waking x t hx).1, (h.waking x t hx).2⟩, h.unique,
    fun t ht => (h.delay t ht).imp_right fun hw => ⟨hw.timed, hw.head, hw.waits⟩,
    h.next, h.next, h.table, h.isr⟩

/-- A context goes on. -/
theorem setCtl (h : Coherent k ctl W L) {c : Ctl}
    (hthread : ∀ t, x = .thread t → Free L W t ∧ InTable k t ∧
      (0 < (k.tcb t).delayTicks → c.delaying = true))
    (hisr : ∀ i, x = .isr i → c.isrSafe = true) :
    Coherent k (Function.update ctl x c) W L := by
  have hsame : ∀ t, ¬ Free L W t → Function.update ctl x c (.thread t) = ctl (.thread t) :=
    fun t ht => Function.update_of_ne (fun he => ht (hthread t he.symm).1) ..
  have hlinked : ∀ l t, t ∈ L l → Function.update ctl x c (.thread t) = ctl (.thread t) :=
    fun l t ht => hsame t fun hfree => hfree.1 l ht
  have hwaking : ∀ y t, W y = some t → Function.update ctl x c (.thread t) = ctl (.thread t) :=
    fun y t ht => hsame t fun hfree => hfree.2 y ht
  refine ⟨h.waiters, fun l t ht => ?_, fun y t hy => ?_, h.unique, fun t ht => ?_, h.current,
    h.next, fun t ht => ?_, fun i => ?_⟩
  · rw [hlinked l t ht]
    exact h.linked l t ht
  · rw [hwaking y t hy]
    exact h.waking y t hy
  · by_cases hx : x = .thread t
    · subst hx
      rw [Function.update_self]
      exact Or.inl ((hthread t rfl).2.2 ht)
    · rw [Function.update_of_ne (Ne.symm hx)]
      refine (h.delay t ht).imp_right fun hw => ⟨?_, ?_, hw.waits⟩
      · rw [Function.update_of_ne (Ne.symm hx)]
        exact hw.timed
      · rw [Function.update_of_ne (Ne.symm hx)]
        exact hw.head
  · by_cases hx : x = .thread t
    · exact (hthread t hx).2.1
    · rw [Function.update_of_ne (Ne.symm hx)] at ht
      exact h.table t ht
  · by_cases hx : x = .isr i
    · subst hx
      rw [Function.update_self]
      exact hisr i rfl
    · rw [Function.update_of_ne (Ne.symm hx)]
      exact h.isr i

/-- Stores to the control block of a task that is in no list and that nobody is about to wake. -/
theorem modifyFree (h : Coherent k ctl W L) (ht : Free L W t) {f : Task → Task}
    (hd : 0 < (f (k.tcb t)).delayTicks → (ctl (.thread t)).delaying = true) :
    Coherent (k.modifyTask t f) ctl W L := by
  have hlinked : ∀ l u, u ∈ L l → u ≠ t := fun l u hu he => ht.1 l (he ▸ hu)
  have hwaking : ∀ y u, W y = some u → u ≠ t := fun y u hu he => ht.2 y (he ▸ hu)
  have hsusp : ∀ u, u ≠ t → Suspended k u → Suspended (k.modifyTask t f) u := fun u hu hs =>
    ⟨by rw [Kernel.modifyTask_of_ne hu]; exact hs.state, hs.current, hs.next⟩
  refine ⟨fun l => ?_, fun l u hu => ?_, fun y u hu => ?_, h.unique, fun u hu => ?_, h.current,
    h.next, h.table, h.isr⟩
  · refine (h.waiters l).congr fun u hu => ?_
    unfold Kernel.waitNext
    rw [Kernel.modifyTask_of_ne (hlinked l u hu)]
  · exact ⟨hsusp u (hlinked l u hu) (h.linked l u hu).1, (h.linked l u hu).2⟩
  · exact ⟨hsusp u (hwaking y u hu) (h.waking y u hu).1, (h.waking y u hu).2⟩
  · by_cases he : u = t
    · subst he
      rw [Kernel.modifyTask_self] at hu
      exact Or.inl (hd hu)
    · rw [Kernel.modifyTask_of_ne he] at hu
      refine (h.delay u hu).imp_right fun hw => ⟨hw.timed, ?_, hw.waits⟩
      rw [Kernel.modifyTask_of_ne he]
      exact hw.head

/-- Pausing a task, linked or not. -/
theorem pause (h : Coherent k ctl W L) (t : TaskPtr) :
    Coherent (k.setState t .paused) ctl W L := by
  have hsusp : ∀ u, Suspended k u → Suspended (k.setState t .paused) u := by
    intro u hs
    refine ⟨?_, hs.current, hs.next⟩
    by_cases hu : u = t
    · subst hu
      simp [Kernel.setState]
    · simpa [Kernel.setState, Kernel.modifyTask_of_ne hu] using hs.state
  refine ⟨fun l => ?_, fun l u hu => ⟨hsusp u (h.linked l u hu).1, (h.linked l u hu).2⟩,
    fun y u hu => ⟨hsusp u (h.waking y u hu).1, (h.waking y u hu).2⟩, h.unique, fun u hu => ?_,
    h.current, h.next, h.table, h.isr⟩
  · refine (h.waiters l).congr fun u _ => ?_
    simp only [Kernel.waitNext, Kernel.setState, Kernel.modifyTask_tcb]
    split_ifs with he
    · rw [he]
    · rfl
  · by_cases he : u = t
    · subst he
      simp only [Kernel.setState, Kernel.modifyTask_self] at hu
      refine (h.delay u hu).imp_right fun hw => ⟨hw.timed, ?_, hw.waits⟩
      simpa [Kernel.setState] using hw.head
    · simp only [Kernel.setState, Kernel.modifyTask_of_ne he] at hu
      refine (h.delay u hu).imp_right fun hw => ⟨hw.timed, ?_, hw.waits⟩
      simpa [Kernel.setState, Kernel.modifyTask_of_ne he] using hw.head

/-! ### Effects that move a task -/

/-- The current task blocks on a list. -/
theorem block (h : Coherent k ctl W L) (hfree : Free L W t) (htab : InTable k t)
    (hd : (k.tcb t).delayTicks = 0) {remaining : Option ℕ}
    (hb : BlockedOn k k' l t (L l) remaining) {c : Ctl} (hc : c.waitsOn = some l)
    (hr : remaining.isSome → c.timed = true) :
    Coherent k' (Function.update ctl (.thread t) c) W
      (Function.update L l (k.enqueued t (L l))) := by
  obtain ⟨n, hn, hrun⟩ := hb.next
  have htable : ∀ u, InTable k u → InTable k' u := by
    intro u hu
    unfold InTable
    rw [hb.quiet.taskCount]
    exact hu
  -- the scheduling decision selects none of the suspended tasks, and PendSV is pended
  have hsusp : ∀ u, InTable k u → (k'.tcb u).state = .blocked ∨ (k'.tcb u).state = .paused →
      Suspended k' u := by
    intro u hu hs
    refine ⟨hs, fun _ => hb.pendsv, fun he => ?_⟩
    have hun : u = n := Option.some.inj (he.symm.trans hn)
    subst hun
    rcases hrun with rfl | ⟨i, -, -, hrun⟩
    · exact hu.ne_idle rfl
    · rcases hs with hs | hs <;> simp [hs, TaskState.Runnable] at hrun
  have hstay : ∀ u, u ≠ t → Suspended k u → InTable k u → Suspended k' u := by
    intro u hu hs hin
    refine hsusp u hin ?_
    rw [hb.state u hu hs.not_runnable]
    exact hs.state
  have hctl : ∀ u, u ≠ t → Function.update ctl (.thread t) c (.thread u) = ctl (.thread u) :=
    fun u hu => Function.update_of_ne (fun he => hu (by simpa using he)) ..
  have hmem : ∀ l' u, u ∈ Function.update L l (k.enqueued t (L l)) l' ↔
      u ∈ L l' ∨ (l' = l ∧ u = t) := by
    intro l' u
    by_cases hl : l' = l
    · subst hl
      rw [Function.update_self, Kernel.mem_enqueued]
      tauto
    · rw [Function.update_of_ne hl]
      tauto
  refine ⟨fun l' => ?_, fun l' u hu => ?_, fun y u hu => ?_, h.unique, fun u hu => ?_,
    fun u hu => ?_, fun u hu => ?_, fun u hu => ?_, fun i => ?_⟩
  · by_cases hl : l' = l
    · subst hl
      rw [Function.update_self]
      exact hb.waiters
    · rw [Function.update_of_ne hl]
      refine hb.other l' (L l') hl (h.waiters l') fun u hu hmem => ?_
      rcases List.mem_cons.1 hmem with rfl | hmem
      · exact hfree.1 l' hu
      · exact hl (h.eq_of_mem hu hmem)
  · rcases (hmem l' u).1 hu with hold | ⟨rfl, rfl⟩
    · have hut : u ≠ t := fun he => hfree.1 l' (he ▸ hold)
      rw [hctl u hut]
      exact ⟨hstay u hut (h.linked l' u hold).1 (h.inTable_of_mem hold), (h.linked l' u hold).2⟩
    · rw [Function.update_self]
      exact ⟨hsusp u htab (Or.inl hb.state_self), hc⟩
  · have hut : u ≠ t := fun he => hfree.2 y (he ▸ hu)
    obtain ⟨hs, hnot, hwait⟩ := h.waking y u hu
    refine ⟨hstay u hut hs (h.inTable_of_waking hu), fun l' hold => ?_, ?_⟩
    · rcases (hmem l' u).1 hold with hold | ⟨-, he⟩
      · exact hnot l' hold
      · exact hut he
    · rw [hctl u hut]
      exact hwait
  · by_cases hut : u = t
    · subst hut
      have hrem : remaining.isSome := by
        rw [hb.delayTicks_self, hd] at hu
        cases remaining with
        | none => exact absurd hu (lt_irrefl 0)
        | some ms => rfl
      rw [Function.update_self]
      refine Or.inr ⟨by rw [Function.update_self]; exact hr hrem, ?_,
        Or.inl ⟨l, (hmem l u).2 (Or.inr ⟨rfl, rfl⟩)⟩⟩
      rw [Function.update_self, hc]
      exact hb.waitListHead_self hrem
    · rw [hb.delayTicks u hut] at hu
      rw [hctl u hut]
      refine (h.delay u hu).imp_right fun hw => ⟨by rw [hctl u hut]; exact hw.timed, ?_, ?_⟩
      · rw [hctl u hut, hb.waitListHead u hut]
        exact hw.head
      · refine hw.waits.imp_left ?_
        rintro ⟨l', hold⟩
        exact ⟨l', (hmem l' u).2 (Or.inl hold)⟩
  · rw [hb.currentTask] at hu
    exact (h.current u hu).imp_right (htable u)
  · have hun : u = n := Option.some.inj (hu.symm.trans hn)
    subst hun
    refine hrun.imp_right ?_
    rintro ⟨i, hi, hui, -⟩
    exact htable u ⟨i, hi, hui⟩
  · by_cases hut : u = t
    · subst hut
      exact htable u htab
    · rw [hctl u hut] at hu
      exact htable u (h.table u hu)
  · rw [Function.update_of_ne (by simp)]
    exact h.isr i

/-- A task is unlinked, and its control block is stored to so that it has no delay left. -/
theorem release (h : Coherent k ctl W L) (ht : t ∈ L l) (hlink : Relinked k k' l (L l))
    (hw : k'.Waiters l ((L l).erase t)) {f : Task → Task}
    (hd : (f (k'.tcb t)).delayTicks = 0) :
    Coherent (k'.modifyTask t f) ctl W (Function.update L l ((L l).erase t)) := by
  have hmem : ∀ l' u, u ∈ Function.update L l ((L l).erase t) l' ↔ u ∈ L l' ∧ u ≠ t := by
    intro l' u
    by_cases hl : l' = l
    · subst hl
      rw [Function.update_self, (h.waiters l').nodup.mem_erase_iff]
      tauto
    · rw [Function.update_of_ne hl]
      exact ⟨fun hu => ⟨hu, fun he => hl (h.eq_of_mem (he ▸ hu) ht)⟩, fun hu => hu.1⟩
  have hother : ∀ u, u ≠ t → (k'.modifyTask t f).tcb u = k'.tcb u := fun u hu =>
    Kernel.modifyTask_of_ne hu f
  have hstay : ∀ u, u ≠ t → Suspended k u → Suspended (k'.modifyTask t f) u := by
    intro u hu hs
    refine ⟨?_, ?_, ?_⟩
    · rw [hother u hu, hlink.state]
      exact hs.state
    · change k'.currentTask = _ → k'.pendsv = _
      rw [hlink.currentTask, hlink.pendsv]
      exact hs.current
    · change k'.nextTask ≠ _
      rw [hlink.nextTask]
      exact hs.next
  have htable : ∀ u, InTable k u → InTable (k'.modifyTask t f) u := by
    intro u hu
    change ∃ i < k'.taskCount, u = _
    rw [hlink.taskCount]
    exact hu
  have hkeep : ∀ l' ys, t ∉ ys → k'.Waiters l' ys → (k'.modifyTask t f).Waiters l' ys := by
    intro l' ys hnot hys
    refine hys.congr fun u hu => ?_
    unfold Kernel.waitNext
    rw [hother u (ne_of_mem_of_not_mem hu hnot)]
  refine ⟨fun l' => ?_, fun l' u hu => ?_, fun y u hu => ?_, h.unique, fun u hu => ?_,
    fun u hu => ?_, fun u hu => ?_, fun u hu => htable u (h.table u hu), h.isr⟩
  · refine hkeep l' _ (fun hin => ((hmem l' t).1 hin).2 rfl) ?_
    by_cases hl : l' = l
    · subst hl
      rw [Function.update_self]
      exact hw
    · rw [Function.update_of_ne hl]
      exact hlink.waiters_of_ne hl (h.waiters l') fun u hu hin => hl (h.eq_of_mem hu hin)
  · obtain ⟨hold, hut⟩ := (hmem l' u).1 hu
    exact ⟨hstay u hut (h.linked l' u hold).1, (h.linked l' u hold).2⟩
  · obtain ⟨hs, hnot, hwait⟩ := h.waking y u hu
    have hut : u ≠ t := fun he => hnot l (he ▸ ht)
    exact ⟨hstay u hut hs, fun l' hin => hnot l' ((hmem l' u).1 hin).1, hwait⟩
  · by_cases hut : u = t
    · subst hut
      rw [Kernel.modifyTask_self, hd] at hu
      exact absurd hu (lt_irrefl 0)
    · rw [hother u hut, hlink.delayTicks] at hu
      refine (h.delay u hu).imp_right fun hw => ⟨hw.timed, ?_, ?_⟩
      · rw [hother u hut, hlink.waitListHead]
        exact hw.head
      · exact hw.waits.imp_left fun ⟨l', hold⟩ => ⟨l', (hmem l' u).2 ⟨hold, hut⟩⟩
  · change k'.currentTask = some u at hu
    rw [hlink.currentTask] at hu
    exact (h.current u hu).imp_right (htable u)
  · change k'.nextTask = some u at hu
    rw [hlink.nextTask] at hu
    exact (h.next u hu).imp_right (htable u)

/-- The first task of a list is unlinked by a context that will wake it later. -/
theorem pop (h : Coherent k ctl W L) {xs : List TaskPtr} (hl : L l = t :: xs)
    (hx : W x = none) :
    Coherent (k.setHead l (k.waitNext t)) ctl (Function.update W x (some t))
      (Function.update L l xs) := by
  have ht : t ∈ L l := hl ▸ List.mem_cons_self
  have hchain : k.Waiters l (t :: xs) := hl ▸ h.waiters l
  have hmem : ∀ l' u, u ∈ Function.update L l xs l' ↔ u ∈ L l' ∧ u ≠ t := by
    intro l' u
    by_cases he : l' = l
    · subst he
      have hnot : t ∉ xs := (List.nodup_cons.1 hchain.nodup).1
      rw [Function.update_self, hl, List.mem_cons]
      refine ⟨fun hu => ⟨Or.inr hu, fun hut => hnot (hut ▸ hu)⟩, fun hu => ?_⟩
      exact hu.1.resolve_left hu.2
    · rw [Function.update_of_ne he]
      exact ⟨fun hu => ⟨hu, fun hut => he (h.eq_of_mem (hut ▸ hu) ht)⟩, fun hu => hu.1⟩
  have hwaking : ∀ y u, Function.update W x (some t) y = some u ↔
      (y = x ∧ u = t) ∨ W y = some u := by
    intro y u
    by_cases hy : y = x
    · subst hy
      rw [Function.update_self, hx]
      simp [eq_comm]
    · rw [Function.update_of_ne hy]
      simp [hy]
  have hstay : ∀ u, Suspended k u → Suspended (k.setHead l (k.waitNext t)) u := fun u hs =>
    ⟨hs.state, hs.current, hs.next⟩
  refine ⟨fun l' => ?_, fun l' u hu => ?_, fun y u hu => ?_, fun y z u hy hz => ?_,
    fun u hu => ?_, h.current, h.next, h.table, h.isr⟩
  · by_cases he : l' = l
    · subst he
      rw [Function.update_self]
      exact Kernel.waiters_setHead_of_cons hchain
    · rw [Function.update_of_ne he]
      exact (Relinked.setHead (S := []) _ l).waiters_of_ne he (h.waiters l') fun u _ => by simp
  · obtain ⟨hold, -⟩ := (hmem l' u).1 hu
    exact ⟨hstay u (h.linked l' u hold).1, (h.linked l' u hold).2⟩
  · rcases (hwaking y u).1 hu with ⟨-, rfl⟩ | hold
    · refine ⟨hstay u (h.linked l u ht).1, fun l' hin => ((hmem l' u).1 hin).2 rfl, ?_⟩
      rw [(h.linked l u ht).2]
      exact Option.some_ne_none l
    · obtain ⟨hs, hnot, hwait⟩ := h.waking y u hold
      exact ⟨hstay u hs, fun l' hin => hnot l' ((hmem l' u).1 hin).1, hwait⟩
  · have hnew : ∀ y, W y ≠ some t := fun y hy => (h.waking y t hy).2.1 l ht
    rcases (hwaking y u).1 hy with ⟨rfl, rfl⟩ | hy'
    · rcases (hwaking z u).1 hz with ⟨rfl, -⟩ | hz'
      · rfl
      · exact absurd hz' (hnew z)
    · rcases (hwaking z u).1 hz with ⟨-, rfl⟩ | hz'
      · exact absurd hy' (hnew y)
      · exact h.unique y z u hy' hz'
  · refine (h.delay u hu).imp_right fun hw => ⟨hw.timed, hw.head, ?_⟩
    rcases hw.waits with ⟨l', hold⟩ | ⟨y, hy⟩
    · by_cases hut : u = t
      · exact Or.inr ⟨x, (hwaking x u).2 (Or.inl ⟨rfl, hut⟩)⟩
      · exact Or.inl ⟨l', (hmem l' u).2 ⟨hold, hut⟩⟩
    · exact Or.inr ⟨y, (hwaking y u).2 (Or.inr hy)⟩

/-- A popped task is woken. -/
theorem wake (h : Coherent k ctl W L) (hx : W x = some t) :
    Coherent (k.wakeSection t) ctl (Function.update W x none) L := by
  have hwaking : ∀ y u, Function.update W x none y = some u → W y = some u ∧ u ≠ t := by
    intro y u hy
    by_cases he : y = x
    · subst he
      rw [Function.update_self] at hy
      cases hy
    · rw [Function.update_of_ne he] at hy
      exact ⟨hy, fun hut => he (h.unique y x t (hut ▸ hy) hx)⟩
  have hnot : ∀ l u, u ∈ L l → u ≠ t := fun l u hu he => (h.waking x t hx).2.1 l (he ▸ hu)
  refine Coherent.schedPickAndMark ?_
  set f : Task → Task := fun y => { y with waitNext := none, delayTicks := 0, state := .ready }
  have hother : ∀ u, u ≠ t → (k.modifyTask t f).tcb u = k.tcb u := fun u hu =>
    Kernel.modifyTask_of_ne hu f
  have hstay : ∀ u, u ≠ t → Suspended k u → Suspended (k.modifyTask t f) u := fun u hu hs =>
    ⟨by rw [hother u hu]; exact hs.state, hs.current, hs.next⟩
  refine ⟨fun l => ?_, fun l u hu => ?_, fun y u hu => ?_, fun y z u hy hz => ?_,
    fun u hu => ?_, h.current, h.next, h.table, h.isr⟩
  · refine (h.waiters l).congr fun u hu => ?_
    unfold Kernel.waitNext
    rw [hother u (hnot l u hu)]
  · exact ⟨hstay u (hnot l u hu) (h.linked l u hu).1, (h.linked l u hu).2⟩
  · obtain ⟨hold, hut⟩ := hwaking y u hu
    exact ⟨hstay u hut (h.waking y u hold).1, (h.waking y u hold).2⟩
  · exact h.unique y z u (hwaking y u hy).1 (hwaking z u hz).1
  · by_cases hut : u = t
    · subst hut
      rw [Kernel.modifyTask_self] at hu
      exact absurd hu (lt_irrefl 0)
    · rw [hother u hut] at hu
      refine (h.delay u hu).imp_right fun hw => ⟨hw.timed, ?_, hw.waits.imp_right ?_⟩
      · rw [hother u hut]
        exact hw.head
      · rintro ⟨y, hy⟩
        refine ⟨y, ?_⟩
        have hyx : y ≠ x := by
          rintro rfl
          exact hut (Option.some.inj (hy.symm.trans hx))
        rw [Function.update_of_ne hyx]
        exact hy

end Coherent

end TamgaOs
