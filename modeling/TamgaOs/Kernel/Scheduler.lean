import TamgaOs.Kernel.State
import Mathlib.Data.Set.Basic

/-!
# The scheduler

`scheduler.c`: the choice of the next task, the tick, and the primitives that block and wake
tasks. A function that walks a wait list returns `none` when the walk does not end. The memory
barriers and the MPU guard of the next task's stack have no effect on the state modelled here.

## Main definitions

* `Kernel.schedSelectNext`, `Kernel.schedCommitNext`: who runs next.
* `Kernel.schedWaitListRemove`, `Kernel.schedTickN`: the tick and the timeouts it expires.
* `Kernel.schedWakeTask`, `Kernel.schedBlockLocked`: waking and blocking, each split where an
  interrupt may come between.
* `Kernel.pendSV`: the context switch.

## Main results

* `Rescheduled`: what `schedCommitNext` may change, with `rescheduled_schedCommitNext`.
* `Quiet`: the part of the state that no scheduling primitive touches.
-/

namespace TamgaOs

namespace Kernel

variable (k : Kernel)

/-- `TASK_PRIORITY_IDLE`. -/
def taskPriorityIdle : ℕ := 3

/-- The body of the first loop of `sched_select_next`, on the pair `(best, chosen)`. -/
def selectBest (acc : ℕ × TaskPtr) (i : ℕ) : ℕ × TaskPtr :=
  if (k.tcb (.tcb i)).state = .ready ∧ (k.tcb (.tcb i)).priority < acc.1 then
    ((k.tcb (.tcb i)).priority, .tcb i)
  else acc

/-- `start` in `sched_select_next`: the index of `g_current_task`, or 0. -/
def selectStart : ℕ :=
  ((List.range k.taskCount).find? fun i => k.currentTask = some (.tcb i)).getD 0

/-- `sched_select_next`. -/
def schedSelectNext : TaskPtr :=
  let (best, chosen) := (List.range k.taskCount).foldl k.selectBest (0xFF, .idle)
  if chosen ≠ .idle ∧ k.currentTask ≠ none then
    let idx := fun j => (k.selectStart + j) % k.taskCount
    match (List.range' 1 (k.taskCount - 1)).find? fun j =>
        (k.tcb (.tcb (idx j))).state = .ready ∧ (k.tcb (.tcb (idx j))).priority = best with
    | some j => .tcb (idx j)
    | none => chosen
  else chosen

/-- The first statement of `sched_commit_next`: a task that lost a switch which had not been
taken yet is made ready again. -/
def releaseNext : Kernel :=
  match k.nextTask with
  | some n =>
    if k.nextTask ≠ k.currentTask ∧ (k.tcb n).state = .running then k.setState n .ready else k
  | none => k

/-- The rest of `sched_commit_next`. -/
def installNext (n : TaskPtr) : Kernel :=
  let k' := { k with nextTask := some n }
  if (k.tcb n).state = .ready then k'.setState n .running else k'

/-- `sched_commit_next`. -/
def schedCommitNext : Kernel := k.releaseNext.installNext k.releaseNext.schedSelectNext

/-- `if (g_current_task != NULL && g_current_task->state == TASK_RUNNING)
g_current_task->state = TASK_READY`. -/
def readyCurrent : Kernel :=
  match k.currentTask with
  | some c => if (k.tcb c).state = .running then k.setState c .ready else k
  | none => k

/-- `sched_pick_and_mark` and the scheduling decision at the end of the tick and of a wake. -/
def schedPickAndMark : Kernel := k.readyCurrent.schedCommitNext

/-- `if (g_next_task != g_current_task) trigger_pendsv()`. -/
def triggerIfSwitch : Kernel := if k.nextTask ≠ k.currentTask then k.triggerPendsv else k

/-! ### The tick -/

/-- `sched_wait_list_remove`, whose loop test is evaluated at most `fuel` times. -/
def schedWaitListRemoveWithin (fuel : ℕ) (l : WaitList) (t : TaskPtr) : Option Kernel :=
  if k.head l = some t then
    some (k.setHead l (k.waitNext t))
  else
    match IntrusiveList.seek k.waitNext t fuel (k.head l) with
    | some (some cur) => some (k.setWaitNext cur (k.waitNext t))
    | some none => some k
    | none => none

/-- `sched_wait_list_remove`. -/
def schedWaitListRemove (l : WaitList) (t : TaskPtr) : Option Kernel :=
  k.schedWaitListRemoveWithin k.walkFuel l t

/-- The expiry of a timeout or a delay in `sched_tick_n`. -/
def expire (t : TaskPtr) : Option Kernel :=
  match (k.tcb t).waitListHead with
  | some l =>
    (k.schedWaitListRemove l t).map fun k' =>
      k'.modifyTask t fun x =>
        { x with delayTicks := 0, waitListHead := none, timedOut := true, state := .ready }
  | none => some (k.modifyTask t fun x => { x with delayTicks := 0, state := .ready })

/-- The body of the loop of `sched_tick_n`. -/
def tickTask (elapsedMs : ℕ) (k : Kernel) (i : ℕ) : Option Kernel :=
  let x := k.tcb (.tcb i)
  if x.state = .blocked ∧ 0 < x.delayTicks then
    if x.delayTicks ≤ elapsedMs then
      k.expire (.tcb i)
    else
      some (k.modifyTask (.tcb i) fun x => { x with delayTicks := x.delayTicks - elapsedMs })
  else some k

/-- `sched_tick_n`. -/
def schedTickN (elapsedMs : ℕ) : Option Kernel :=
  ((List.range k.taskCount).foldlM (tickTask elapsedMs) k).map fun k' =>
    k'.schedPickAndMark.triggerIfSwitch

/-- `sched_tick`. -/
def schedTick : Option Kernel := k.schedTickN 1

/-- The body of the loop of `sched_get_next_wakeup_ms`. -/
def nextWakeup (soonest i : ℕ) : ℕ :=
  let x := k.tcb (.tcb i)
  if x.state = .blocked ∧ 0 < x.delayTicks then
    if x.delayTicks < soonest then x.delayTicks else soonest
  else soonest

/-- `sched_get_next_wakeup_ms`. -/
def schedGetNextWakeupMs : ℕ := (List.range k.taskCount).foldl k.nextWakeup 0xFFFFFFFF

/-! ### Blocking and waking -/

/-- `sched_block_locked`. -/
def schedBlockLocked : Kernel := k.schedPickAndMark.triggerPendsv

/-- The critical section of `sched_wake_task`, for a task that is not null. -/
def wakeSection (t : TaskPtr) : Kernel :=
  (k.modifyTask t fun x =>
    { x with waitNext := none, delayTicks := 0, state := .ready }).schedPickAndMark

/-- `sched_wake_task` called inside a critical section. -/
def schedWakeTask (t : TaskPtr) : Kernel := (k.wakeSection t).triggerIfSwitch

/-- The critical section of `sched_delay_ms`, run by the task `t`. -/
def delaySection (t : TaskPtr) (ms : ℕ) : Kernel :=
  (k.modifyTask t fun x => { x with delayTicks := ms, state := .blocked }).schedCommitNext

/-- The critical section of `sched_yield`. -/
def yieldSection : Kernel :=
  match k.currentTask with
  | some c => (k.setState c .ready).schedCommitNext
  | none => k

/-- `sched_task_pause`. -/
def schedTaskPause (index : ℕ) : Kernel :=
  if k.taskCount ≤ index then k else k.setState (.tcb index) .paused

/-- `sched_task_resume`. -/
def schedTaskResume (index : ℕ) : Kernel :=
  if k.taskCount ≤ index then k
  else if (k.tcb (.tcb index)).state = .paused then k.setState (.tcb index) .ready
  else k

/-- The critical section of `sched_task_create`. -/
def createSection (priority : ℕ) : Kernel :=
  { k.modifyTask (.tcb k.taskCount) fun x =>
      { x with
        priority := priority, state := .ready, delayTicks := 0, waitListHead := none
        timedOut := false, notifyPending := false, notifyValue := 0 } with
    taskCount := k.taskCount + 1 }

/-- `PendSV_Handler`, as far as the globals of the scheduler are concerned. -/
def pendSV : Kernel := { k with currentTask := k.nextTask, pendsv := false }

end Kernel

/-! ### What a scheduling decision changes -/

/-- `k'` has the kernel objects, the clock and the priorities of `k`, and only tasks in `T` may
have another timeout mark. -/
structure Quiet (k k' : Kernel) (T : Set TaskPtr) : Prop where
  sem : k'.sem = k.sem
  queue : k'.queue = k.queue
  mutex : k'.mutex = k.mutex
  group : k'.group = k.group
  pending : k'.pending = k.pending
  ticks : k'.ticks = k.ticks
  taskCount : k'.taskCount = k.taskCount
  priority : ∀ t, (k'.tcb t).priority = (k.tcb t).priority
  timedOut : ∀ t, t ∉ T → (k'.tcb t).timedOut = (k.tcb t).timedOut

namespace Quiet

variable {k k' k'' : Kernel} {T T' : Set TaskPtr}

theorem refl (k : Kernel) (T : Set TaskPtr) : Quiet k k T :=
  ⟨rfl, rfl, rfl, rfl, rfl, rfl, rfl, fun _ => rfl, fun _ _ => rfl⟩

theorem trans (h : Quiet k k' T) (h' : Quiet k' k'' T) : Quiet k k'' T :=
  ⟨h'.sem.trans h.sem, h'.queue.trans h.queue, h'.mutex.trans h.mutex, h'.group.trans h.group,
    h'.pending.trans h.pending, h'.ticks.trans h.ticks, h'.taskCount.trans h.taskCount,
    fun t => (h'.priority t).trans (h.priority t),
    fun t ht => (h'.timedOut t ht).trans (h.timedOut t ht)⟩

theorem mono (h : Quiet k k' T) (hT : T ⊆ T') : Quiet k k' T' :=
  { h with timedOut := fun t ht => h.timedOut t fun hmem => ht (hT hmem) }

/-- Stores to a control block that leave the priority alone. -/
theorem modifyTask (t : TaskPtr) {f : Task → Task}
    (hf : (f (k.tcb t)).priority = (k.tcb t).priority)
    (hT : t ∉ T → (f (k.tcb t)).timedOut = (k.tcb t).timedOut) :
    Quiet k (k.modifyTask t f) T := by
  refine ⟨rfl, rfl, rfl, rfl, rfl, rfl, rfl, fun u => ?_, fun u hu => ?_⟩
  · rw [Kernel.modifyTask_tcb]
    split_ifs with h
    · rw [hf, h]
    · rfl
  · rw [Kernel.modifyTask_tcb]
    split_ifs with h
    · subst h
      exact hT hu
    · rfl

theorem triggerPendsv (k : Kernel) : Quiet k k.triggerPendsv T :=
  ⟨rfl, rfl, rfl, rfl, rfl, rfl, rfl, fun _ => rfl, fun _ _ => rfl⟩

theorem triggerIfSwitch (k : Kernel) : Quiet k k.triggerIfSwitch T := by
  unfold Kernel.triggerIfSwitch
  split_ifs
  · exact .triggerPendsv k
  · exact .refl k T

end Quiet

/-- `k'` differs from `k` only in `g_next_task` and in which runnable tasks are marked running. -/
structure Rescheduled (k k' : Kernel) : Prop where
  eq : k' = { k with tcb := k'.tcb, nextTask := k'.nextTask }
  tcb : ∀ t, k'.tcb t = { k.tcb t with state := (k'.tcb t).state }
  state : ∀ t, ¬ (k.tcb t).state.Runnable → (k'.tcb t).state = (k.tcb t).state
  runnable : ∀ t, (k.tcb t).state.Runnable → (k'.tcb t).state.Runnable

namespace Rescheduled

variable {k k' k'' : Kernel}

theorem refl (k : Kernel) : Rescheduled k k := ⟨rfl, fun _ => rfl, fun _ _ => rfl, fun _ h => h⟩

theorem trans (h : Rescheduled k k') (h' : Rescheduled k' k'') : Rescheduled k k'' where
  eq := by rw [h'.eq, h.eq]
  tcb t := by rw [h'.tcb t, h.tcb t]
  state t ht := by
    have hs := h.state t ht
    rw [h'.state t (by rwa [hs]), hs]
  runnable t ht := h'.runnable t (h.runnable t ht)

theorem runnable_iff (h : Rescheduled k k') (t : TaskPtr) :
    (k'.tcb t).state.Runnable ↔ (k.tcb t).state.Runnable := by
  refine ⟨fun ht => ?_, h.runnable t⟩
  by_contra hn
  rw [h.state t hn] at ht
  exact hn ht

theorem state_iff (h : Rescheduled k k') {t : TaskPtr} {s : TaskState} (hs : ¬ s.Runnable) :
    (k'.tcb t).state = s ↔ (k.tcb t).state = s := by
  by_cases ht : (k.tcb t).state.Runnable
  · have ht' := h.runnable t ht
    exact ⟨fun he => absurd (he ▸ ht') hs, fun he => absurd (he ▸ ht) hs⟩
  · rw [h.state t ht]

section Fields

variable (h : Rescheduled k k')
include h

theorem head : k'.head = k.head := by rw [h.eq]
theorem currentTask : k'.currentTask = k.currentTask := by rw [h.eq]
theorem taskCount : k'.taskCount = k.taskCount := by rw [h.eq]
theorem pendsv : k'.pendsv = k.pendsv := by rw [h.eq]
theorem sem : k'.sem = k.sem := by rw [h.eq]
theorem queue : k'.queue = k.queue := by rw [h.eq]
theorem mutex : k'.mutex = k.mutex := by rw [h.eq]
theorem group : k'.group = k.group := by rw [h.eq]
theorem pending : k'.pending = k.pending := by rw [h.eq]
theorem ticks : k'.ticks = k.ticks := by rw [h.eq]
theorem priority (t : TaskPtr) : (k'.tcb t).priority = (k.tcb t).priority := by rw [h.tcb t]
theorem delayTicks (t : TaskPtr) : (k'.tcb t).delayTicks = (k.tcb t).delayTicks := by
  rw [h.tcb t]
theorem waitListHead (t : TaskPtr) : (k'.tcb t).waitListHead = (k.tcb t).waitListHead := by
  rw [h.tcb t]
theorem timedOut (t : TaskPtr) : (k'.tcb t).timedOut = (k.tcb t).timedOut := by rw [h.tcb t]
theorem waitNext : k'.waitNext = k.waitNext := by
  funext t
  change (k'.tcb t).waitNext = (k.tcb t).waitNext
  rw [h.tcb t]

theorem quiet : Quiet k k' ∅ :=
  ⟨h.sem, h.queue, h.mutex, h.group, h.pending, h.ticks, h.taskCount, h.priority,
    fun t _ => h.timedOut t⟩

end Fields

/-- Marking a runnable task ready or running. -/
theorem setState {t : TaskPtr} {s : TaskState} (ht : (k.tcb t).state.Runnable)
    (hs : s.Runnable) : Rescheduled k (k.setState t s) where
  eq := rfl
  tcb u := by
    by_cases hu : u = t
    · subst hu
      simp [Kernel.setState]
    · simp [Kernel.setState, Kernel.modifyTask_of_ne hu]
  state u hu := by
    have hne : u ≠ t := fun he => hu (he ▸ ht)
    simp [Kernel.setState, Kernel.modifyTask_of_ne hne]
  runnable u hu := by
    by_cases hne : u = t
    · subst hne
      simpa [Kernel.setState] using hs
    · simpa [Kernel.setState, Kernel.modifyTask_of_ne hne] using hu

end Rescheduled

namespace Kernel

variable {k : Kernel}

/-- The control blocks after the creation of a task. -/
theorem tcb_createSection (k : Kernel) (p : ℕ) (t : TaskPtr) :
    (k.createSection p).tcb t =
      if t = .tcb k.taskCount then
        { k.tcb (.tcb k.taskCount) with
          priority := p, state := .ready, delayTicks := 0, waitListHead := none
          timedOut := false, notifyPending := false, notifyValue := 0 }
      else k.tcb t :=
  Function.update_apply ..

theorem rescheduled_releaseNext : Rescheduled k k.releaseNext := by
  unfold releaseNext
  split
  · split_ifs with h
    · exact .setState (Or.inr h.2) (Or.inl rfl)
    · exact .refl k
  · exact .refl k

theorem rescheduled_installNext (n : TaskPtr) : Rescheduled k (k.installNext n) := by
  have hnext : Rescheduled k { k with nextTask := some n } :=
    ⟨rfl, fun _ => rfl, fun _ _ => rfl, fun _ h => h⟩
  unfold installNext
  dsimp only
  split_ifs with h
  · exact hnext.trans (.setState (Or.inl h) (Or.inr rfl))
  · exact hnext

@[simp] theorem nextTask_installNext (n : TaskPtr) : (k.installNext n).nextTask = some n := by
  unfold installNext
  dsimp only
  split_ifs <;> rfl

theorem rescheduled_schedCommitNext : Rescheduled k k.schedCommitNext :=
  rescheduled_releaseNext.trans (rescheduled_installNext _)

theorem rescheduled_readyCurrent : Rescheduled k k.readyCurrent := by
  unfold readyCurrent
  split
  · split_ifs with h
    · exact .setState (Or.inr h) (Or.inl rfl)
    · exact .refl k
  · exact .refl k

theorem rescheduled_schedPickAndMark : Rescheduled k k.schedPickAndMark :=
  rescheduled_readyCurrent.trans rescheduled_schedCommitNext

/-- The task at the index `i` is ready. -/
def Ready (k : Kernel) (i : ℕ) : Prop := (k.tcb (.tcb i)).state = .ready

instance (i : ℕ) : Decidable (k.Ready i) := inferInstanceAs (Decidable (_ = _))

/-- The first loop of `sched_select_next` finds the first one of the most urgent ready tasks, if one
is below the initial value of `best`. -/
theorem foldl_selectBest (k : Kernel) (n : ℕ) :
    ((List.range n).foldl k.selectBest (0xFF, .idle) = (0xFF, .idle) ∧
      ∀ j < n, k.Ready j → 0xFF ≤ (k.tcb (.tcb j)).priority) ∨
    ∃ i < n, (List.range n).foldl k.selectBest (0xFF, .idle) =
        ((k.tcb (.tcb i)).priority, .tcb i) ∧
      k.Ready i ∧ (k.tcb (.tcb i)).priority < 0xFF ∧
      (∀ j < n, k.Ready j → (k.tcb (.tcb i)).priority ≤ (k.tcb (.tcb j)).priority) ∧
      ∀ j < i, k.Ready j → (k.tcb (.tcb i)).priority < (k.tcb (.tcb j)).priority := by
  induction n with
  | zero => exact Or.inl ⟨rfl, fun j hj => absurd hj (Nat.not_lt_zero j)⟩
  | succ n ih =>
    rw [List.range_succ, List.foldl_append, List.foldl_cons, List.foldl_nil]
    -- the task at the index `n` is taken, or is not more urgent
    rcases ih with ⟨hr, hnone⟩ | ⟨i, hi, hr, hready, hlt, hmin, hfirst⟩
    · rw [hr]
      unfold selectBest
      split_ifs with h
      · refine Or.inr ⟨n, Nat.lt_succ_self n, rfl, h.1, h.2, fun j hj hrj => ?_, fun j hj hrj => ?_⟩
        · rcases Nat.lt_succ_iff_lt_or_eq.1 hj with hj | rfl
          · exact h.2.le.trans (hnone j hj hrj)
          · exact le_rfl
        · exact h.2.trans_le (hnone j hj hrj)
      · refine Or.inl ⟨rfl, fun j hj hrj => ?_⟩
        rcases Nat.lt_succ_iff_lt_or_eq.1 hj with hj | rfl
        · exact hnone j hj hrj
        · exact not_lt.1 fun hp => h ⟨hrj, hp⟩
    · rw [hr]
      unfold selectBest
      split_ifs with h
      · refine Or.inr ⟨n, Nat.lt_succ_self n, rfl, h.1, h.2.trans hlt, fun j hj hrj => ?_,
          fun j hj hrj => ?_⟩
        · rcases Nat.lt_succ_iff_lt_or_eq.1 hj with hj | rfl
          · exact h.2.le.trans (hmin j hj hrj)
          · exact le_rfl
        · exact h.2.trans_le (hmin j hj hrj)
      · refine Or.inr ⟨i, hi.trans (Nat.lt_succ_self n), rfl, hready, hlt, fun j hj hrj => ?_, hfirst⟩
        rcases Nat.lt_succ_iff_lt_or_eq.1 hj with hj | rfl
        · exact hmin j hj hrj
        · exact not_lt.1 fun hp => h ⟨hrj, hp⟩

/-- `sched_select_next` returns the idle task or a task of the table that is ready. -/
theorem schedSelectNext_spec : k.schedSelectNext = .idle ∨
    ∃ i < k.taskCount, k.schedSelectNext = .tcb i ∧ (k.tcb (.tcb i)).state = .ready := by
  unfold schedSelectNext
  rcases k.foldl_selectBest k.taskCount with ⟨hr, -⟩ | ⟨i, hi, hr, hready, -⟩
  · rw [hr]
    exact Or.inl (if_neg fun h => h.1 rfl)
  · rw [hr]
    dsimp only
    split_ifs
    · split
      · rename_i j hj
        have hp := List.find?_some hj
        simp only [decide_eq_true_eq] at hp
        exact Or.inr ⟨_, Nat.mod_lt _ (Nat.zero_lt_of_lt hi), rfl, hp.1⟩
      · exact Or.inr ⟨i, hi, rfl, hready⟩
    · exact Or.inr ⟨i, hi, rfl, hready⟩

/-- No ready task of the table is more urgent than the task that `sched_select_next` returns, and
the idle task is returned only when there is none below the initial value of `best`. -/
theorem schedSelectNext_minimal {i : ℕ} (hi : i < k.taskCount)
    (hready : (k.tcb (.tcb i)).state = .ready) :
    (k.schedSelectNext = .idle → 0xFF ≤ (k.tcb (.tcb i)).priority) ∧
      (k.schedSelectNext ≠ .idle →
        (k.tcb k.schedSelectNext).priority ≤ (k.tcb (.tcb i)).priority) := by
  unfold schedSelectNext
  rcases k.foldl_selectBest k.taskCount with ⟨hr, hnone⟩ | ⟨j, -, hr, -, -, hmin, -⟩
  · rw [hr]
    dsimp only
    rw [if_neg fun h => h.1 rfl]
    exact ⟨fun _ => hnone i hi hready, fun h => absurd rfl h⟩
  · have hle := hmin i hi hready
    rw [hr]
    dsimp only
    split_ifs
    · split
      · rename_i l hl
        have hp := List.find?_some hl
        simp only [decide_eq_true_eq] at hp
        exact ⟨nofun, fun _ => hp.2.trans_le hle⟩
      · exact ⟨nofun, fun _ => hle⟩
    · exact ⟨nofun, fun _ => hle⟩

/-- A scheduling decision selects the idle task or a runnable task of the table. -/
theorem schedCommitNext_next : ∃ n, k.schedCommitNext.nextTask = some n ∧
    (n = .idle ∨ ∃ i < k.taskCount, n = .tcb i ∧ (k.tcb n).state.Runnable) := by
  have hrel := rescheduled_releaseNext (k := k)
  refine ⟨k.releaseNext.schedSelectNext, nextTask_installNext _, ?_⟩
  rcases k.releaseNext.schedSelectNext_spec with h | ⟨i, hi, h, hready⟩
  · exact Or.inl h
  · refine Or.inr ⟨i, hrel.taskCount ▸ hi, h, ?_⟩
    rw [h]
    exact (hrel.runnable_iff _).1 (Or.inl hready)

theorem schedPickAndMark_next : ∃ n, k.schedPickAndMark.nextTask = some n ∧
    (n = .idle ∨ ∃ i < k.taskCount, n = .tcb i ∧ (k.tcb n).state.Runnable) := by
  have hrel := rescheduled_readyCurrent (k := k)
  obtain ⟨n, hn, hor⟩ := k.readyCurrent.schedCommitNext_next
  refine ⟨n, hn, hor.imp_right ?_⟩
  rintro ⟨i, hi, hni, hrun⟩
  exact ⟨i, hrel.taskCount ▸ hi, hni, (hrel.runnable_iff n).1 hrun⟩

/-! ### The loop of the tick -/

/-- Up to the scheduling decision, a relation that composes holds across a tick when the body of the loop
meets it. -/
theorem schedTickN_rel {R : Kernel → Kernel → Prop} {n : ℕ} (hrefl : ∀ k, R k k)
    (htrans : ∀ {k₁ k₂ k₃}, R k₁ k₂ → R k₂ k₃ → R k₁ k₃)
    (hbody : ∀ {i k k'}, tickTask n k i = some k' → R k k') {k' : Kernel}
    (h : k.schedTickN n = some k') :
    ∃ k₁, R k k₁ ∧ k' = k₁.schedPickAndMark.triggerIfSwitch := by
  have hloop (is : List ℕ) : ∀ k k', is.foldlM (tickTask n) k = some k' → R k k' := by
    induction is with
    | nil =>
      intro k k' hk
      cases hk
      exact hrefl k
    | cons i is ih =>
      intro k k' hk
      rw [List.foldlM_cons] at hk
      obtain ⟨k₁, hone, hrest⟩ := Option.bind_eq_some_iff.1 hk
      exact htrans (hbody hone) (ih k₁ k' hrest)
  obtain ⟨k₁, hfold, rfl⟩ := Option.map_eq_some_iff.1 h
  exact ⟨k₁, hloop _ k k₁ hfold, rfl⟩

end Kernel

end TamgaOs
