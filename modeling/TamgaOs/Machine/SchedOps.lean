import TamgaOs.Machine.Step

/-!
# What the calls ask of the scheduler

Every atomic step of every call changes the states, delays and priorities of tasks, and the choice
of the next task, through a few operations of `scheduler.c` and `mutex.c` only; all its other
stores leave them alone. This holds whatever the wait lists look like.

## Main definitions

* `SameTasks k k'`: nothing that the scheduler reads or writes has changed.
* `SchedOp`, `SchedOp.run`: the operations.
* `SchedPath k ops k'`: the operations `ops`, between stores that leave the tasks alone.
* `Ctl.schedOps`, `Machine.schedOps`: the operations of the next step of a context, and of an
  action.

## Main results

* `ctlStep_path`, `Machine.step_path`: a step consists of these operations.
* `SchedPath.invariant`: the invariant rule.
-/

namespace TamgaOs

/-- The tasks have the same states, delays and priorities, and the same one is current and next. -/
structure SameTasks (k k' : Kernel) : Prop where
  state : ∀ t, (k'.tcb t).state = (k.tcb t).state
  delayTicks : ∀ t, (k'.tcb t).delayTicks = (k.tcb t).delayTicks
  priority : ∀ t, (k'.tcb t).priority = (k.tcb t).priority
  taskCount : k'.taskCount = k.taskCount
  currentTask : k'.currentTask = k.currentTask
  nextTask : k'.nextTask = k.nextTask

/-- An operation on the tasks. -/
inductive SchedOp
  /-- `sched_tick_n`. -/
  | tick (n : ℕ)
  /-- The critical section of `sched_delay_ms`. -/
  | delay (ms : ℕ)
  /-- The critical section of `sched_yield`. -/
  | yield
  /-- The critical section of `sched_block`. -/
  | block
  /-- `sched_block_locked`, with the stores that mark the caller as blocked. -/
  | blockLocked (ms : Option ℕ)
  /-- The critical section of `sched_wake_task`. -/
  | wake (t : TaskPtr)
  | pause (index : ℕ)
  | resume (index : ℕ)
  /-- The critical section of `sched_task_create`. -/
  | create (priority : ℕ)
  /-- The elevation in `mutex_lock`, or the restoration in `mutex_unlock`. -/
  | setPriority (t : TaskPtr) (priority : ℕ)
  /-- `PendSV_Handler`. -/
  | pendSV
  deriving DecidableEq

/-- The caller `t` of a blocking primitive is marked, with a delay if it waits with a timeout. -/
def Kernel.markBlocked (k : Kernel) (t : TaskPtr) (ms : Option ℕ) : Kernel :=
  k.modifyTask t fun x => { x with state := .blocked, delayTicks := ms.getD x.delayTicks }

/-- The state after an operation; `none` when it needs a current task and there is none, or when
the tick walks a list that does not end. -/
def SchedOp.run (k : Kernel) : SchedOp → Option Kernel
  | tick n => k.schedTickN n
  | delay ms => k.currentTask.map fun t => k.delaySection t ms
  | yield => some k.yieldSection
  | block => some k.schedPickAndMark
  | blockLocked ms => k.currentTask.map fun t => (k.markBlocked t ms).schedBlockLocked
  | wake t => some (k.wakeSection t)
  | pause index => some (k.schedTaskPause index)
  | resume index => some (k.schedTaskResume index)
  | create priority => some (k.createSection priority)
  | setPriority t priority => some (k.setPriority t priority)
  | pendSV => some k.pendSV

/-- The operations `ops` lead from `k` to `k'`, between stores that leave the tasks alone. -/
inductive SchedPath : Kernel → List SchedOp → Kernel → Prop
  | done {k k' : Kernel} (h : SameTasks k k') : SchedPath k [] k'
  | op {k k₂ k' : Kernel} {op : SchedOp} {ops : List SchedOp} (k₁ : Kernel)
      (h : SameTasks k k₁) (hop : op.run k₁ = some k₂) (hrest : SchedPath k₂ ops k') : SchedPath k (op :: ops) k'

namespace SameTasks

variable {k k' k'' : Kernel} {t : TaskPtr} {l : WaitList} {S : List TaskPtr}

theorem refl (k : Kernel) : SameTasks k k :=
  ⟨fun _ => rfl, fun _ => rfl, fun _ => rfl, rfl, rfl, rfl⟩

theorem trans (h : SameTasks k k') (h' : SameTasks k' k'') : SameTasks k k'' :=
  ⟨fun t => (h'.state t).trans (h.state t), fun t => (h'.delayTicks t).trans (h.delayTicks t),
    fun t => (h'.priority t).trans (h.priority t), h'.taskCount.trans h.taskCount,
    h'.currentTask.trans h.currentTask, h'.nextTask.trans h.nextTask⟩

theorem symm (h : SameTasks k k') : SameTasks k' k :=
  ⟨fun t => (h.state t).symm, fun t => (h.delayTicks t).symm, fun t => (h.priority t).symm,
    h.taskCount.symm, h.currentTask.symm, h.nextTask.symm⟩

/-- Stores to other variables. -/
theorem of_eq (h : k'.tcb = k.tcb) (hcount : k'.taskCount = k.taskCount)
    (hcurrent : k'.currentTask = k.currentTask) (hnext : k'.nextTask = k.nextTask) :
    SameTasks k k' := by
  refine ⟨fun t => ?_, fun t => ?_, fun t => ?_, hcount, hcurrent, hnext⟩ <;> rw [h]

/-- Stores to other fields of a control block. -/
theorem modifyTask (t : TaskPtr) {f : Task → Task} (hs : ∀ x, (f x).state = x.state)
    (hd : ∀ x, (f x).delayTicks = x.delayTicks) (hp : ∀ x, (f x).priority = x.priority) :
    SameTasks k (k.modifyTask t f) := by
  refine ⟨fun u => ?_, fun u => ?_, fun u => ?_, rfl, rfl, rfl⟩
  all_goals
    rw [Kernel.modifyTask_tcb]
    split_ifs with hu
  · rw [hs, hu]
  · rfl
  · rw [hd, hu]
  · rfl
  · rw [hp, hu]
  · rfl

theorem of_relinked (h : Relinked k k' l S) : SameTasks k k' :=
  ⟨h.state, h.delayTicks, h.priority, h.taskCount, h.currentTask, h.nextTask⟩

theorem triggerPendsv (k : Kernel) : SameTasks k k.triggerPendsv := .of_eq rfl rfl rfl rfl

theorem triggerIfSwitch (k : Kernel) : SameTasks k k.triggerIfSwitch := by
  unfold Kernel.triggerIfSwitch
  split_ifs
  · exact .triggerPendsv k
  · exact .refl k

theorem semIncr (k : Kernel) (s : ℕ) : SameTasks k (k.semIncr s) := by
  unfold Kernel.semIncr
  split_ifs
  · exact .of_eq rfl rfl rfl rfl
  · exact .refl k

theorem eventAutoClear (k : Kernel) (w : EventWait) : SameTasks k (k.eventAutoClear w) := by
  unfold Kernel.eventAutoClear
  split_ifs
  · exact .of_eq rfl rfl rfl rfl
  · exact .refl k

theorem store (k : Kernel) (link : Link) (p : Option TaskPtr) : SameTasks k (k.store link p) := by
  cases link with
  | head l => exact .of_eq rfl rfl rfl rfl
  | next t =>
    exact .modifyTask t (f := fun x => { x with waitNext := p }) (fun _ => rfl) (fun _ => rfl)
      fun _ => rfl

end SameTasks

namespace SchedPath

variable {k k' k'' : Kernel} {op : SchedOp} {ops ops' : List SchedOp}

/-- Operations after others. -/
theorem trans (h : SchedPath k ops k') (h' : SchedPath k' ops' k'') :
    SchedPath k (ops ++ ops') k'' := by
  induction h with
  | @done k k' hsame =>
    cases h' with
    | done hsame' => exact .done (hsame.trans hsame')
    | op k₁ hsame' hop hrest => exact .op k₁ (hsame.trans hsame') hop hrest
  | op k₁ hsame hop _ ih => exact .op k₁ hsame hop (ih h')

theorem single (hop : op.run k = some k') : SchedPath k [op] k' :=
  .op k (.refl k) hop (.done (.refl k'))

theorem same_left (h : SameTasks k k') (h' : SchedPath k' ops k'') : SchedPath k ops k'' :=
  (SchedPath.done h).trans h'

theorem same_right (h : SchedPath k ops k') (h' : SameTasks k' k'') : SchedPath k ops k'' := by
  simpa using h.trans (.done h')

/-- The invariant rule. -/
theorem invariant {I : Kernel → Prop} (h : SchedPath k ops k') (hk : I k)
    (hsame : ∀ k k', SameTasks k k' → I k → I k')
    (hop : ∀ op ∈ ops, ∀ k k', I k → op.run k = some k' → I k') : I k' := by
  induction h with
  | done hs => exact hsame _ _ hs hk
  | op k₁ hs hrun _ ih =>
    exact ih (hop _ List.mem_cons_self _ _ (hsame _ _ hs hk) hrun)
      fun op hmem => hop op (List.mem_cons_of_mem _ hmem)

theorem wake (k : Kernel) (t : TaskPtr) : SchedPath k [.wake t] (k.wakeSection t) := .single rfl

theorem schedWakeTask (k : Kernel) (t : TaskPtr) : SchedPath k [.wake t] (k.schedWakeTask t) :=
  (wake k t).same_right (.triggerIfSwitch _)

/-- A primitive blocks its caller. -/
theorem blockOn {l : WaitList} {t : TaskPtr} {ms : Option ℕ} (ht : k.currentTask = some t)
    (h : k.blockOn l t ms = some k') : SchedPath k [.blockLocked ms] k' := by
  rw [Kernel.blockOn_eq] at h
  obtain ⟨k₁, hins, rfl⟩ := Option.map_eq_some_iff.1 h
  obtain ⟨S, hrel⟩ := Kernel.wqInsert_relinked hins
  -- the caller before its marks, with the links that it gets
  set k₀ := k₁.modifyTask t fun x =>
    { x with state := (k.tcb t).state, delayTicks := (k.tcb t).delayTicks } with hk₀
  have hmark : k₀.markBlocked t ms = k₁ := by
    have hx : k₁.tcb t = { k₁.tcb t with
        state := .blocked, delayTicks := ms.getD (k.tcb t).delayTicks } := by
      have hs := hrel.state t
      have hd := hrel.delayTicks t
      rw [Kernel.modifyTask_tcb, if_pos rfl] at hs hd
      rw [show (Kernel.blockedTask l ms (k.tcb t)).state = .blocked by cases ms <;> rfl] at hs
      rw [show (Kernel.blockedTask l ms (k.tcb t)).delayTicks = ms.getD (k.tcb t).delayTicks by
        cases ms <;> rfl] at hd
      rw [← hs, ← hd]
    simp only [Kernel.markBlocked, hk₀, Kernel.modifyTask, Function.update_idem,
      Function.update_self]
    rw [← hx, Function.update_eq_self]
  refine .op k₀ ⟨fun u => ?_, fun u => ?_, fun u => ?_, hrel.taskCount,
    hrel.currentTask, hrel.nextTask⟩ ?_ (.done (.refl _))
  · by_cases hu : u = t
    · simp [hk₀, hu]
    · rw [hk₀, Kernel.modifyTask_of_ne hu, hrel.state, Kernel.modifyTask_of_ne hu]
  · by_cases hu : u = t
    · simp [hk₀, hu]
    · rw [hk₀, Kernel.modifyTask_of_ne hu, hrel.delayTicks, Kernel.modifyTask_of_ne hu]
  · have hp : ((k.modifyTask t (Kernel.blockedTask l ms)).tcb u).priority =
        (k.tcb u).priority := by
      rw [Kernel.modifyTask_tcb]
      split_ifs with hu
      · cases ms <;> simp [Kernel.blockedTask, hu]
      · rfl
    rw [hk₀, Kernel.modifyTask_tcb]
    split_ifs with hu
    · rw [← hp, ← hrel.priority, hu]
    · rw [hrel.priority, hp]
  · have hcurrent : k₀.currentTask = some t := hrel.currentTask.trans ht
    rw [SchedOp.run, hcurrent, Option.map_some, hmark]

end SchedPath

/-! ### The tick -/

namespace Kernel

variable {k k' : Kernel} {n i : ℕ} {t : TaskPtr}

/-- The state and the delay of a task after `n` ms. -/
def ticked (k : Kernel) (n : ℕ) (t : TaskPtr) : TaskState × ℕ :=
  let x := k.tcb t
  if x.state = .blocked ∧ 0 < x.delayTicks then
    if x.delayTicks ≤ n then (.ready, 0) else (.blocked, x.delayTicks - n)
  else (x.state, x.delayTicks)

/-- The loop of `sched_tick_n`, run for the tasks at the indices `is`, whatever the wait lists look
like. -/
structure TickedOnly (n : ℕ) (is : List ℕ) (k k' : Kernel) : Prop where
  task : ∀ t, ((k'.tcb t).state, (k'.tcb t).delayTicks) =
    if ∃ i ∈ is, t = .tcb i then k.ticked n t else ((k.tcb t).state, (k.tcb t).delayTicks)
  priority : ∀ t, (k'.tcb t).priority = (k.tcb t).priority
  taskCount : k'.taskCount = k.taskCount
  currentTask : k'.currentTask = k.currentTask
  nextTask : k'.nextTask = k.nextTask
  pendsv : k'.pendsv = k.pendsv

/-- A task keeps its state and its delay, or its delay has been running and gets shorter or ends. -/
theorem TickedOnly.cases {is : List ℕ} (h : TickedOnly n is k k') (t : TaskPtr) :
    ((k'.tcb t).state = (k.tcb t).state ∧ (k'.tcb t).delayTicks = (k.tcb t).delayTicks) ∨
    ((k.tcb t).state = .blocked ∧ 0 < (k.tcb t).delayTicks ∧ (k.tcb t).delayTicks ≤ n ∧
      (k'.tcb t).state = .ready ∧ (k'.tcb t).delayTicks = 0) ∨
    ((k.tcb t).state = .blocked ∧ n < (k.tcb t).delayTicks ∧ (k'.tcb t).state = .blocked ∧
      (k'.tcb t).delayTicks = (k.tcb t).delayTicks - n) := by
  have ht := h.task t
  simp only [ticked] at ht
  split_ifs at ht with hmem hb hd
  · exact Or.inr (Or.inl ⟨hb.1, hb.2, hd, Prod.mk.inj ht⟩)
  · exact Or.inr (Or.inr ⟨hb.1, not_le.1 hd, Prod.mk.inj ht⟩)
  · exact Or.inl (Prod.mk.inj ht)
  · exact Or.inl (Prod.mk.inj ht)

/-- The expiry of a delay, whatever the wait lists look like. -/
theorem expire_only (h : k.expire t = some k') :
    (∀ u, u ≠ t → (k'.tcb u).state = (k.tcb u).state ∧
      (k'.tcb u).delayTicks = (k.tcb u).delayTicks) ∧
    (k'.tcb t).state = .ready ∧ (k'.tcb t).delayTicks = 0 ∧
    (∀ u, (k'.tcb u).priority = (k.tcb u).priority) ∧ k'.taskCount = k.taskCount ∧
    k'.currentTask = k.currentTask ∧ k'.nextTask = k.nextTask ∧ k'.pendsv = k.pendsv := by
  unfold expire at h
  split at h
  · rename_i l _
    obtain ⟨k₁, hrem, rfl⟩ := Option.map_eq_some_iff.1 h
    obtain ⟨S, hrel⟩ := schedWaitListRemove_relinked hrem
    refine ⟨fun u hu => ?_, by simp, by simp, fun u => ?_, hrel.taskCount, hrel.currentTask,
      hrel.nextTask, hrel.pendsv⟩
    · rw [modifyTask_of_ne hu]
      exact ⟨hrel.state u, hrel.delayTicks u⟩
    · rw [modifyTask_tcb]
      split_ifs with hu
      · rw [hu]
        exact hrel.priority t
      · exact hrel.priority u
  · cases h
    refine ⟨fun u hu => ?_, by simp, by simp, fun u => ?_, rfl, rfl, rfl, rfl⟩
    · rw [modifyTask_of_ne hu]
      exact ⟨rfl, rfl⟩
    · rw [modifyTask_tcb]
      split_ifs with hu
      · rw [hu]
      · rfl

theorem tickTask_only (h : tickTask n k i = some k') : TickedOnly n [i] k k' := by
  have hmem : ∀ t, (∃ j ∈ [i], t = TaskPtr.tcb j) ↔ t = .tcb i := by simp
  unfold tickTask at h
  dsimp only at h
  split_ifs at h with hb hd
  · obtain ⟨hother, hstate, hdelay, hp, hcount, hcur, hnext, hpend⟩ := expire_only h
    refine ⟨fun t => ?_, hp, hcount, hcur, hnext, hpend⟩
    rw [if_congr (hmem t) rfl rfl]
    split_ifs with ht
    · subst ht
      rw [hstate, hdelay]
      simp [ticked, hb, hd]
    · rw [(hother t ht).1, (hother t ht).2]
  · cases h
    refine ⟨fun t => ?_, fun t => ?_, rfl, rfl, rfl, rfl⟩
    · rw [if_congr (hmem t) rfl rfl]
      split_ifs with ht
      · subst ht
        simp [ticked, hb, hd]
      · rw [modifyTask_of_ne ht]
    · rw [modifyTask_tcb]
      split_ifs with ht
      · rw [ht]
      · rfl
  · cases h
    refine ⟨fun t => ?_, fun _ => rfl, rfl, rfl, rfl, rfl⟩
    rw [if_congr (hmem t) rfl rfl]
    split_ifs with ht
    · subst ht
      simp only [ticked, if_neg hb]
    · rfl

theorem tickLoop_only : ∀ {is : List ℕ} {k k' : Kernel}, is.Nodup →
    is.foldlM (tickTask n) k = some k' → TickedOnly n is k k'
  | [], k, k', _, h => by
    cases h
    exact ⟨fun t => by simp, fun _ => rfl, rfl, rfl, rfl, rfl⟩
  | i :: is, k, k', hnodup, h => by
    rw [List.foldlM_cons] at h
    obtain ⟨k₁, hone, hrest⟩ := Option.bind_eq_some_iff.1 h
    have h₁ := tickTask_only hone
    have h₂ := tickLoop_only (List.nodup_cons.1 hnodup).2 hrest
    refine ⟨fun t => ?_, fun t => (h₂.priority t).trans (h₁.priority t),
      h₂.taskCount.trans h₁.taskCount, h₂.currentTask.trans h₁.currentTask,
      h₂.nextTask.trans h₁.nextTask, h₂.pendsv.trans h₁.pendsv⟩
    have ht₁ := h₁.task t
    rw [h₂.task t]
    by_cases hti : t = .tcb i
    · have hnot : ¬ ∃ j ∈ is, t = .tcb j := by
        rintro ⟨j, hj, he⟩
        rw [hti] at he
        cases he
        exact (List.nodup_cons.1 hnodup).1 hj
      rw [if_neg hnot, ht₁, if_pos ⟨i, by simp, hti⟩, if_pos ⟨i, by simp, hti⟩]
    · have hiff : (∃ j ∈ i :: is, t = TaskPtr.tcb j) ↔ ∃ j ∈ is, t = .tcb j := by simp [hti]
      rw [if_neg (by simpa using hti)] at ht₁
      obtain ⟨hstate, hdelay⟩ := Prod.mk.inj ht₁
      rw [if_congr hiff rfl rfl]
      simp only [ticked, hstate, hdelay]

/-- The loop of `sched_tick_n` when the tick ends. -/
theorem schedTickN_only (h : k.schedTickN n = some k') :
    ∃ k₁, TickedOnly n (List.range k.taskCount) k k₁ ∧
      k' = k₁.schedPickAndMark.triggerIfSwitch := by
  obtain ⟨k₁, hloop, rfl⟩ := Option.map_eq_some_iff.1 h
  exact ⟨k₁, tickLoop_only List.nodup_range hloop, rfl⟩

end Kernel

/-- Only a context switch changes the current task. -/
theorem SchedOp.run_currentTask {op : SchedOp} {k k' : Kernel} (h : op.run k = some k')
    (hop : op ≠ .pendSV) : k'.currentTask = k.currentTask := by
  cases op with
  | tick n =>
    obtain ⟨k₁, htick, rfl⟩ := Kernel.schedTickN_only h
    rw [(SameTasks.triggerIfSwitch _).currentTask,
      Kernel.rescheduled_schedPickAndMark.currentTask, htick.currentTask]
  | delay ms =>
    obtain ⟨t, -, rfl⟩ := Option.map_eq_some_iff.1 h
    exact Kernel.rescheduled_schedCommitNext.currentTask
  | yield =>
    cases h
    unfold Kernel.yieldSection
    split
    · exact Kernel.rescheduled_schedCommitNext.currentTask
    · rfl
  | block =>
    cases h
    exact Kernel.rescheduled_schedPickAndMark.currentTask
  | blockLocked ms =>
    obtain ⟨t, -, rfl⟩ := Option.map_eq_some_iff.1 h
    exact Kernel.rescheduled_schedPickAndMark.currentTask
  | wake t =>
    cases h
    exact Kernel.rescheduled_schedPickAndMark.currentTask
  | pause index =>
    cases h
    unfold Kernel.schedTaskPause
    split_ifs <;> rfl
  | resume index =>
    cases h
    unfold Kernel.schedTaskResume
    split_ifs <;> rfl
  | create priority | setPriority t priority =>
    cases h
    rfl
  | pendSV => exact absurd rfl hop

/-- Only a creation changes the number of tasks. -/
theorem SchedOp.taskCount_of_run {op : SchedOp} {k k' : Kernel} (h : op.run k = some k')
    (hop : ∀ p, op ≠ .create p) : k'.taskCount = k.taskCount := by
  cases op with
  | tick n =>
    obtain ⟨k₁, htick, rfl⟩ := Kernel.schedTickN_only h
    rw [(SameTasks.triggerIfSwitch _).taskCount, Kernel.rescheduled_schedPickAndMark.taskCount,
      htick.taskCount]
  | delay ms =>
    obtain ⟨t, -, rfl⟩ := Option.map_eq_some_iff.1 h
    rw [Kernel.delaySection, Kernel.rescheduled_schedCommitNext.taskCount]
    rfl
  | yield =>
    cases h
    unfold Kernel.yieldSection
    split
    · rw [Kernel.rescheduled_schedCommitNext.taskCount]
      rfl
    · rfl
  | block =>
    cases h
    exact Kernel.rescheduled_schedPickAndMark.taskCount
  | blockLocked ms =>
    obtain ⟨t, -, rfl⟩ := Option.map_eq_some_iff.1 h
    rw [Kernel.schedBlockLocked, (SameTasks.triggerPendsv _).taskCount,
      Kernel.rescheduled_schedPickAndMark.taskCount]
    rfl
  | wake t =>
    cases h
    rw [Kernel.wakeSection, Kernel.rescheduled_schedPickAndMark.taskCount]
    rfl
  | pause j =>
    cases h
    unfold Kernel.schedTaskPause
    split_ifs <;> rfl
  | resume j =>
    cases h
    unfold Kernel.schedTaskResume
    split_ifs <;> rfl
  | create p => exact absurd rfl (hop p)
  | setPriority | pendSV =>
    cases h
    rfl

/-- The table of tasks never gets shorter. -/
theorem SchedOp.taskCount_le_of_run {op : SchedOp} {k k' : Kernel} (h : op.run k = some k') :
    k.taskCount ≤ k'.taskCount := by
  by_cases hop : ∃ p, op = .create p
  · obtain ⟨p, rfl⟩ := hop
    cases h
    exact Nat.le_succ _
  · exact (SchedOp.taskCount_of_run h fun p he => hop ⟨p, he⟩).ge

/-- The operation ends with `sched_commit_next`. -/
def SchedOp.commits : SchedOp → Bool
  | tick _ | delay _ | yield | block | blockLocked _ | wake _ => true
  | pause _ | resume _ | create _ | setPriority _ _ | pendSV => false

theorem SchedOp.commit_of_commits {op : SchedOp} {k k' : Kernel} (hop : op.commits = true)
    (hcur : op = .yield → k.currentTask ≠ none) (h : op.run k = some k') : ∃ k₁ : Kernel, SameTasks k₁.schedCommitNext k' := by
  cases op with
  | tick n =>
    obtain ⟨k₁, -, rfl⟩ := Kernel.schedTickN_only h
    exact ⟨_, .triggerIfSwitch _⟩
  | delay ms =>
    obtain ⟨t, -, rfl⟩ := Option.map_eq_some_iff.1 h
    exact ⟨_, .refl _⟩
  | yield =>
    cases h
    unfold Kernel.yieldSection
    cases hc : k.currentTask with
    | none => exact absurd hc (hcur rfl)
    | some c => exact ⟨_, .refl _⟩
  | block | wake t =>
    cases h
    exact ⟨_, .refl _⟩
  | blockLocked ms =>
    obtain ⟨t, -, rfl⟩ := Option.map_eq_some_iff.1 h
    exact ⟨_, .triggerPendsv _⟩
  | pause | resume | create | setPriority | pendSV => cases hop

/-- An operation leaves the next task alone, or ends with a decision. -/
theorem SchedOp.nextTask_of_run {op : SchedOp} {k k' : Kernel} (h : op.run k = some k') :
    k'.nextTask = k.nextTask ∨ ∃ k₁ : Kernel, SameTasks k₁.schedCommitNext k' := by
  by_cases hyield : op = .yield ∧ k.currentTask = none
  · obtain ⟨rfl, hnone⟩ := hyield
    cases h
    simp only [Kernel.yieldSection, hnone, true_or]
  · cases op with
    | tick | delay | yield | block | blockLocked | wake =>
      exact Or.inr (SchedOp.commit_of_commits rfl (fun he hnone => hyield ⟨he, hnone⟩) h)
    | pause i =>
      cases h
      refine Or.inl ?_
      unfold Kernel.schedTaskPause
      split_ifs <;> rfl
    | resume i =>
      cases h
      refine Or.inl ?_
      unfold Kernel.schedTaskResume
      split_ifs <;> rfl
    | create | setPriority | pendSV =>
      cases h
      exact Or.inl rfl

/-! ### The operations of every step -/

section Steps

variable {k k' k₂ : Kernel} {t : TaskPtr} {o : List Obs}

/-- The task at the head of a list is woken. -/
def Kernel.wakeHead (k : Kernel) (l : WaitList) : List SchedOp := (k.head l).toList.map .wake

/-- The operations of the next step of a semaphore call. -/
def semOps (k : Kernel) : SemCtl → List SchedOp
  | .take s _ => if 0 < (k.sem s).count then [] else [.blockLocked none]
  | .give s => k.wakeHead (.sem s)
  | _ => []

/-- The operations of the next step of a mutex call by `t`. -/
def mutexOps (k : Kernel) (t : TaskPtr) : MutexCtl → List SchedOp
  | .block m timeout =>
    match (k.mutex m).task with
    | none => []
    | some owner =>
      (if (k.tcb t).priority < (k.tcb owner).priority then
        [.setPriority owner (k.tcb t).priority] else []) ++
        [.blockLocked (timeout.map Prod.snd)]
  | .release m =>
    (match (k.mutex m).isElevated, (k.mutex m).task with
      | true, some owner => [.setPriority owner (k.mutex m).ownerOriginalPriority]
      | _, _ => []) ++ k.wakeHead (.mutex m)
  | _ => []

/-- The operations of the next step of a queue call. -/
def queueOps (k : Kernel) : QueueCtl → List SchedOp
  | .loop q op deadline _ =>
    if k.queueReady q op then []
    else
      match deadline with
      | none => [.blockLocked none]
      | some d => if d ≤ k.ticks then [] else [.blockLocked (some (d - k.ticks))]
  | .wake (some waiter) _ _ => [.wake waiter]
  | _ => []

/-- The operations of the next step of an event call. -/
def eventOps (k : Kernel) : EventCtl → List SchedOp
  | .set e bits =>
    match k.eventSet e bits with
    | some (_, gs) => gs.map fun g => .wake g.task
    | none => []
  | .loop w deadline =>
    if eventConditionMet (k.group w.group).bits w.mask w.mode then []
    else if deadline.any fun d => decide (d ≤ k.ticks) then []
    else if k.eventPendingSlot = none then []
    else [.blockLocked (deadline.map fun d => d - k.ticks)]
  | _ => []

/-- The operations of the next step of a notification call by `t`. -/
def notifyOps (k : Kernel) (t : TaskPtr) : NotifyCtl → List SchedOp
  | .wake t => [.wake t]
  | .wait timeoutMs =>
    if (k.tcb t).notifyPending then []
    else if timeoutMs = 0 then []
    else [.blockLocked (some timeoutMs)]
  | _ => []

/-- The operations of the next step of a call of `scheduler.c`. -/
def schedCtlOps : SchedCtl → List SchedOp
  | .delay ms => if ms = 0 then [] else [.delay ms]
  | .yield => [.yield]
  | .block => [.block]
  | .pause index => [.pause index]
  | .resume index => [.resume index]
  | .createSection priority => [.create priority]
  | _ => []

/-- The operations of the next step of a context while `t` is `g_current_task`. -/
def Ctl.schedOps (k : Kernel) (t : TaskPtr) : Ctl → List SchedOp
  | .app => []
  | .sem c => semOps k c
  | .mutex c => mutexOps k t c
  | .queue c => queueOps k c
  | .event c => eventOps k c
  | .notify c => notifyOps k t c
  | .sched c => schedCtlOps c

/-- The operations of `wq_pop` and the wake of the task popped, which come after `ops`. -/
theorem SchedPath.popWake {l : WaitList} {ops : List SchedOp} {k₁ : Kernel} {w : Option TaskPtr}
    (hpop : k.wqPop l = (k₁, w)) (hf : SchedPath k₁ ops k')
    (hwoken : Option.elim w (SameTasks k' k₂) fun w => SameTasks (k'.schedWakeTask w) k₂) :
    SchedPath k (ops ++ k.wakeHead l) k₂ := by
  have hrel := k.wqPop_relinked l
  rw [hpop] at hrel
  have hpath := hf.same_left (.of_relinked hrel)
  unfold Kernel.wqPop at hpop
  unfold Kernel.wakeHead
  split at hpop
  · rename_i u hl
    cases hpop
    rw [hl]
    exact hpath.trans ((SchedPath.schedWakeTask _ u).same_right hwoken)
  · rename_i hl
    cases hpop
    rw [hl, Option.toList_none, List.map_nil, List.append_nil]
    exact hpath.same_right hwoken

theorem semStep_path {c c' : SemCtl} (ht : k.currentTask = some t)
    (h : semStep k t c = some (k', c', o)) : SchedPath k (semOps k c) k' := by
  cases c with
  | take s retry =>
    simp only [semOps]
    rcases semStep_take h with ⟨hpos, rfl, -, -⟩ | ⟨hpos, hb, -, -⟩
    · rw [if_pos hpos]
      exact .done (.of_eq rfl rfl rfl rfl)
    · rw [if_neg (not_lt.2 hpos)]
      exact .blockOn ht hb
  | blocked s =>
    cases h
    exact .done (.refl k)
  | give s =>
    cases h
    cases hpop : k.wqPop (.sem s) with
    | mk k₁ w =>
      refine SchedPath.popWake hpop (.done (.semIncr k₁ s)) ?_
      cases w <;> simp only [Kernel.semGive, hpop] <;> exact .refl _
  | trytake s =>
    simp only [semStep, Kernel.semTrytake] at h
    split_ifs at h
    · cases h
      exact .done (.of_eq rfl rfl rfl rfl)
    · cases h
      exact .done (.refl k)
  | taken | given | trytaken => cases h

/-- The elevation of the owner by the caller. -/
theorem SchedPath.mutexElevate (k : Kernel) (m : ℕ) (owner t : TaskPtr) :
    SchedPath k (if (k.tcb t).priority < (k.tcb owner).priority then
      [.setPriority owner (k.tcb t).priority] else []) (k.mutexElevate m owner t) := by
  unfold Kernel.mutexElevate
  by_cases hlt : (k.tcb t).priority < (k.tcb owner).priority
  · rw [if_pos hlt, if_pos hlt]
    cases (k.mutex m).isElevated with
    | true => exact .single rfl
    | false =>
      have hrecord : SameTasks k (k.modifyMutex m fun x => { x with
          ownerOriginalPriority := (k.tcb owner).priority, isElevated := true }) :=
        .of_eq rfl rfl rfl rfl
      exact .same_left hrecord (.single rfl)
  · rw [if_neg hlt, if_neg hlt]
    exact .done (.refl k)

/-- The restoration of the priority of the owner. -/
theorem SchedPath.mutexRestore (k : Kernel) (m : ℕ) :
    SchedPath k (match (k.mutex m).isElevated, (k.mutex m).task with
      | true, some owner => [.setPriority owner (k.mutex m).ownerOriginalPriority]
      | _, _ => []) (k.mutexRestore m) := by
  unfold Kernel.mutexRestore
  cases he : (k.mutex m).isElevated with
  | false => exact .done (.refl k)
  | true =>
    rw [if_pos rfl]
    cases ht : (k.mutex m).task with
    | none => exact .done (.of_eq rfl rfl rfl rfl)
    | some owner =>
      have hset : SchedPath k [.setPriority owner (k.mutex m).ownerOriginalPriority]
          (k.setPriority owner (k.mutex m).ownerOriginalPriority) := .single rfl
      exact hset.same_right (.of_eq rfl rfl rfl rfl)

theorem mutexStep_path {c c' : MutexCtl} (ht : k.currentTask = some t)
    (h : mutexStep k t c = some (k', c', o)) : SchedPath k (mutexOps k t c) k' := by
  have htry : ∀ {m : ℕ} {k₁ : Kernel} {b : Bool}, k.mutexTryAcquire m t = (k₁, b) →
      SameTasks k k₁ := by
    intro m k₁ b htry
    unfold Kernel.mutexTryAcquire at htry
    split_ifs at htry <;> cases htry
    · exact .of_eq rfl rfl rfl rfl
    · exact .refl k
  cases c with
  | enter m timeoutMs =>
    cases h
    exact .done (.refl k)
  | attempt m deadline retry =>
    simp only [mutexStep] at h
    cases hb : k.mutexTryAcquire m t with
    | mk k₁ b =>
      rw [hb] at h
      cases b <;> cases deadline <;> cases h <;> exact .done (htry hb)
  | clock m d =>
    simp only [mutexStep] at h
    split_ifs at h <;> cases h <;> exact .done (.refl k)
  | block m timeout =>
    simp only [mutexOps]
    rcases mutexStep_block h with ⟨howner, rfl, -, -⟩ | ⟨owner, howner, hb, -, -⟩
    · rw [howner]
      exact .done (.refl _)
    · rw [howner]
      refine (SchedPath.mutexElevate k m owner t).trans (.blockOn ?_ hb)
      rw [← ht]
      unfold Kernel.mutexElevate
      dsimp only
      split_ifs <;> rfl
  | blocked m deadline =>
    simp only [mutexStep] at h
    split_ifs at h
    · cases h
      exact .done (.modifyTask t (fun _ => rfl) (fun _ => rfl) fun _ => rfl)
    · cases h
      exact .done (.refl k)
  | acquired m =>
    cases h
    exact .done (.modifyTask t (fun _ => rfl) (fun _ => rfl) fun _ => rfl)
  | trylock m =>
    simp only [mutexStep] at h
    cases hb : k.mutexTryAcquire m t with
    | mk k₁ b =>
      rw [hb] at h
      cases b <;> cases h <;> exact .done (htry hb)
  | unlock m =>
    simp only [mutexStep] at h
    split_ifs at h <;> cases h <;> exact .done (.refl k)
  | release m =>
    cases h
    cases hpop : k.wqPop (.mutex m) with
    | mk k₁ w =>
      have hfree : SameTasks (k₁.mutexRestore m)
          ((k₁.mutexRestore m).modifyMutex m fun x => { x with task := none }) :=
        .of_eq rfl rfl rfl rfl
      have hrest := (SchedPath.mutexRestore k₁ m).same_right hfree
      have hm : k₁.mutex = k.mutex := by
        have hrel := k.wqPop_relinked (.mutex m)
        rw [hpop] at hrel
        exact hrel.mutex
      rw [hm] at hrest
      refine SchedPath.popWake hpop hrest ?_
      cases w <;> simp only [Kernel.mutexReleaseSection, hpop] <;> exact .refl _
  | locked | lockTimeoutReturned | trylocked | unlocked => cases h

theorem queueStep_path {c c' : QueueCtl} (ht : k.currentTask = some t)
    (h : queueStep k t c = some (k', c', o)) : SchedPath k (queueOps k c) k' := by
  have htransfer : ∀ q op, SameTasks k (k.queueTransfer q op).1 := by
    intro q op
    cases op with
    | send item =>
      have hcopy : SameTasks k (k.queueCopyIn q item) := .of_eq rfl rfl rfl rfl
      exact hcopy.trans (.of_relinked ((k.queueCopyIn q item).wqPop_relinked _))
    | receive =>
      have hcopy : SameTasks k (k.queueCopyOut q).1 := .of_eq rfl rfl rfl rfl
      exact hcopy.trans (.of_relinked ((k.queueCopyOut q).1.wqPop_relinked _))
  have hblock : ∀ {q : ℕ} {op : QueueOp} {ms : Option ℕ} {k₁ : Kernel},
      k.blockOn (op.ownList q) t ms = some k₁ → SchedPath k [.blockLocked ms] k₁ :=
    fun hb => .blockOn ht hb
  cases c with
  | enter q op timeoutMs =>
    cases h
    exact .done (.refl k)
  | loop q op deadline retry =>
    simp only [queueOps]
    rcases queueStep_loop h with ⟨hready, rfl, -, -⟩ | ⟨d, hready, rfl, hle, rfl, -, -⟩ |
      ⟨hready, hlt, hb, -, -⟩
    · rw [if_pos hready]
      exact .done (htransfer q op)
    · simp only [hready, Bool.false_eq_true, if_false, if_pos hle]
      exact .done (.refl _)
    · simp only [hready, Bool.false_eq_true, if_false]
      cases deadline with
      | none => exact hblock hb
      | some d =>
        simp only [if_neg (not_le.2 (hlt d rfl))]
        exact hblock hb
  | blocked q op deadline =>
    simp only [queueStep] at h
    split_ifs at h
    · cases h
      exact .done (.modifyTask t (fun _ => rfl) (fun _ => rfl) fun _ => rfl)
    · cases h
      exact .done (.refl k)
  | attempt q op =>
    simp only [queueStep] at h
    split_ifs at h
    · cases h
      exact .done (htransfer q op)
    · cases h
      exact .done (.refl k)
  | wake w timed r =>
    cases w with
    | none =>
      cases h
      exact .done (.refl k)
    | some w =>
      cases h
      exact .wake k w
  | trigger timed r =>
    cases h
    exact .done (.triggerIfSwitch k)
  | finish timed r =>
    simp only [queueStep] at h
    split_ifs at h
    · cases h
      exact .done (.modifyTask t (fun _ => rfl) (fun _ => rfl) fun _ => rfl)
    · cases h
      exact .done (.refl k)
  | returned r => cases h

/-- `event_wake_satisfied` wakes the tasks whose waits it grants, in their order. -/
theorem SchedPath.eventWakeLoop (e : ℕ) : ∀ (fuel : ℕ) (cur : Link) (k : Kernel) {k' : Kernel}
    {gs : List EventGrant}, k.eventWakeLoop e fuel cur = some (k', gs) →
    SchedPath k (gs.map fun g => .wake g.task) k'
  | 0, _, _, _, _, h => by cases h
  | fuel + 1, cur, k, k', gs, h => by
    unfold Kernel.eventWakeLoop at h
    split at h
    · cases h
      exact .done (.refl k)
    · rename_i t _
      split at h
      · rename_i i _
        obtain ⟨⟨k₁, gs₁⟩, hrest, he⟩ := Option.map_eq_some_iff.1 h
        cases he
        refine SchedPath.trans (.same_left ?_ (.schedWakeTask _ t))
          (eventWakeLoop e fuel cur _ hrest)
        refine SameTasks.trans ?_
          (.modifyTask t (f := fun x => { x with waitNext := none, waitListHead := none })
            (fun _ => rfl) (fun _ => rfl) fun _ => rfl)
        refine SameTasks.trans ?_ (.store _ cur _)
        have hobserved : SameTasks k (k.modifyPending i fun p =>
            { p with observedBits := (k.group e).bits }) := .of_eq rfl rfl rfl rfl
        exact hobserved.trans (.eventAutoClear _ _)
      · exact eventWakeLoop e fuel _ k h

theorem eventStep_path {c c' : EventCtl} (ht : k.currentTask = some t)
    (h : eventStep k t c = some (k', c', o)) : SchedPath k (eventOps k c) k' := by
  cases c with
  | set e bits =>
    obtain ⟨⟨k₁, gs⟩, hset, he⟩ := Option.map_eq_some_iff.1 h
    cases he
    simp only [eventOps, hset]
    refine SchedPath.same_left ?_ (.eventWakeLoop e _ _ _ hset)
    exact .of_eq rfl rfl rfl rfl
  | clear e bits =>
    cases h
    exact .done (.of_eq rfl rfl rfl rfl)
  | get e =>
    cases h
    exact .done (.refl k)
  | enter w timeoutMs =>
    cases h
    exact .done (.refl k)
  | loop w deadline =>
    simp only [eventOps]
    rcases eventStep_loop h with ⟨hmet, rfl, -, -⟩ | ⟨hmet, ⟨d, rfl, hle, rfl, -, -⟩ | ⟨hlt, hblock⟩⟩
    · rw [if_pos hmet]
      exact .done (.eventAutoClear k w)
    · simp only [hmet, Bool.false_eq_true, if_false, Option.any_some, decide_eq_true hle, if_true]
      exact .done (.refl _)
    · have hexp : (deadline.any fun d => decide (d ≤ k.ticks)) = false := by
        rw [Option.any_eq_false]
        exact fun d hd => by simpa using hlt d hd
      simp only [hmet, hexp, Bool.false_eq_true, if_false]
      rcases hblock with ⟨hslot, rfl, -, -⟩ | ⟨i, hslot, hb, -, -⟩
      · rw [if_pos hslot]
        exact .done (.refl _)
      · rw [if_neg (by simp [hslot])]
        have hsame : SameTasks k (k.eventPrepared i t w deadline) := by
          have hfill : SameTasks k (k.eventPendingFill i t w) := .of_eq rfl rfl rfl rfl
          cases deadline with
          | none =>
            rw [Kernel.eventPrepared_none]
            exact hfill.trans (.modifyTask t (fun _ => rfl) (fun _ => rfl) fun _ => rfl)
          | some d => exact hfill
        exact (SchedPath.blockOn (hsame.currentTask.trans ht) hb).same_left hsame
  | blocked w deadline i =>
    simp only [eventStep] at h
    split_ifs at h
    · cases h
      have hclear : SameTasks k (k.modifyTask t fun x =>
          { x with timedOut := false, waitListHead := none }) :=
        .modifyTask t (fun _ => rfl) (fun _ => rfl) fun _ => rfl
      exact .done (hclear.trans (.of_eq rfl rfl rfl rfl))
    · cases h
      exact .done (.of_eq rfl rfl rfl rfl)
  | done | got | returned => cases h

theorem notifyStep_path {c c' : NotifyCtl} (ht : k.currentTask = some t)
    (h : notifyStep k t c = some (k', c', o)) : SchedPath k (notifyOps k t c) k' := by
  have htake : SameTasks k (k.notifyTake t) :=
    .modifyTask t (fun _ => rfl) (fun _ => rfl) fun _ => rfl
  cases c with
  | give u value =>
    cases u with
    | none =>
      cases h
      exact .done (.refl k)
    | some u =>
      simp only [notifyStep, Kernel.notifyGiveSection] at h
      have hgive : SameTasks k (k.modifyTask u fun x =>
          { x with notifyValue := value, notifyPending := true }) :=
        .modifyTask u (fun _ => rfl) (fun _ => rfl) fun _ => rfl
      split at h <;> cases h <;> rename_i he <;> rw [← (Prod.mk.inj he).1] <;> exact .done hgive
  | wake u =>
    cases h
    exact .wake k u
  | trigger =>
    cases h
    exact .done (.triggerIfSwitch k)
  | wait timeoutMs =>
    simp only [notifyStep] at h
    simp only [notifyOps]
    split_ifs at h ⊢
    · cases h
      exact .done htake
    · cases h
      exact .done (.refl k)
    · cases h
      refine .op (k.modifyTask t fun x => { x with waitListHead := none })
        (.modifyTask t (fun _ => rfl) (fun _ => rfl) fun _ => rfl) ?_ (.done (.refl _))
      have ht' : (k.modifyTask t fun x => { x with waitListHead := none }).currentTask = some t :=
        ht
      rw [SchedOp.run, ht', Option.map_some]
      simp [Kernel.notifyBlockSection, Kernel.markBlocked, Kernel.modifyTask]
  | blocked =>
    simp only [notifyStep] at h
    split_ifs at h
    · cases h
      exact .done htake
    · cases h
      exact .done (.refl k)
  | given | returned => cases h

theorem schedStep_path {c c' : SchedCtl} (ht : k.currentTask = some t)
    (h : schedStep k t c = some (k', c', o)) : SchedPath k (schedCtlOps c) k' := by
  cases c with
  | delay ms =>
    simp only [schedStep] at h
    simp only [schedCtlOps]
    split_ifs at h ⊢
    · cases h
      exact .done (.refl k)
    · cases h
      exact .single (by rw [SchedOp.run, ht, Option.map_some])
  | delayTrigger | trigger =>
    cases h
    exact .done (.triggerPendsv k)
  | delayWait | create isNull priority =>
    simp only [schedStep] at h
    split_ifs at h <;> cases h <;> exact .done (.refl k)
  | yield | block | pause | resume | createSection =>
    cases h
    exact .single rfl
  | createReturn =>
    cases h
    exact .done (.refl k)
  | returned | created => cases h

/-- The next step of a context consists of its operations. -/
theorem ctlStep_path {c c' : Ctl} (ht : k.currentTask = some t)
    (h : ctlStep k t c = some (k', c', o)) : SchedPath k (c.schedOps k t) k' := by
  cases ctlStep_cases h with
  | sem hs => exact semStep_path ht hs
  | mutex hs => exact mutexStep_path ht hs
  | queue hs => exact queueStep_path ht hs
  | event hs => exact eventStep_path ht hs
  | notify hs => exact notifyStep_path ht hs
  | sched hs => exact schedStep_path ht hs

end Steps

/-- Only a context switch changes the current task. -/
theorem SchedPath.currentTask {k k' : Kernel} {ops : List SchedOp} (h : SchedPath k ops k')
    (hops : ∀ op ∈ ops, op ≠ .pendSV) : k'.currentTask = k.currentTask :=
  h.invariant (I := fun k₁ => k₁.currentTask = k.currentTask) rfl
    (fun _ _ hs hk => hs.currentTask.trans hk)
    fun op hop _ _ hk hrun => (SchedOp.run_currentTask hrun (hops op hop)).trans hk

theorem SchedPath.taskCount {k k' : Kernel} {ops : List SchedOp} (h : SchedPath k ops k')
    (hops : ∀ op ∈ ops, ∀ p, op ≠ .create p) : k'.taskCount = k.taskCount :=
  h.invariant (I := fun k₁ => k₁.taskCount = k.taskCount) rfl
    (fun _ _ hs hk => hs.taskCount.trans hk)
    fun op hop _ _ hk hrun => (SchedOp.taskCount_of_run hrun (hops op hop)).trans hk

theorem SchedPath.taskCount_le {k k' : Kernel} {ops : List SchedOp} (h : SchedPath k ops k') :
    k.taskCount ≤ k'.taskCount :=
  h.invariant (I := fun k₁ => k.taskCount ≤ k₁.taskCount) le_rfl
    (fun _ _ hs hk => hs.taskCount ▸ hk)
    fun _ _ _ _ hk hrun => hk.trans (SchedOp.taskCount_le_of_run hrun)

/-- A path that ends with an operation. -/
theorem SchedPath.last {k k' : Kernel} {ops : List SchedOp} {op : SchedOp}
    (h : SchedPath k (ops ++ [op]) k') :
    ∃ k₁ k₂, SchedPath k ops k₁ ∧ op.run k₁ = some k₂ ∧ SameTasks k₂ k' := by
  induction ops generalizing k with
  | nil =>
    cases h with
    | op k₁ hs hrun hrest =>
      cases hrest with
      | done hs' => exact ⟨k₁, _, .done hs, hrun, hs'⟩
  | cons op' ops ih =>
    cases h with
    | op k₁ hs hrun hrest =>
      obtain ⟨k₂, k₃, hpath, hrun', hs'⟩ := ih hrest
      exact ⟨k₂, k₃, .op k₁ hs hrun hpath, hrun', hs'⟩

/-- The operation wakes a task or changes a priority. -/
def SchedOp.leads : SchedOp → Bool
  | .wake _ | .setPriority _ _ => true
  | _ => false

/-- No operation or one, or several that end with a choice and before it wake tasks and change
priorities only. -/
inductive SchedOp.Sequence : List SchedOp → Prop
  | nil : Sequence []
  | single (op : SchedOp) : Sequence [op]
  | commit (ops : List SchedOp) (op : SchedOp) (hop : op.commits = true)
      (hlead : ∀ op' ∈ ops, op'.leads = true) : Sequence (ops ++ [op])

theorem SchedOp.Sequence.of_length_le {ops : List SchedOp} (h : ops.length ≤ 1) :
    Sequence ops := by
  match ops, h with
  | [], _ => exact .nil
  | [op], _ => exact .single op

theorem SchedOp.Sequence.wakeHead {k : Kernel} {ops : List SchedOp} {l : WaitList}
    (hlen : ops.length ≤ 1) (hlead : ∀ op ∈ ops, op.leads = true) :
    Sequence (ops ++ k.wakeHead l) := by
  unfold Kernel.wakeHead
  cases k.head l with
  | none =>
    rw [Option.toList_none, List.map_nil, List.append_nil]
    exact .of_length_le hlen
  | some w => exact .commit ops (.wake w) rfl hlead

/-- The operations of a step of a call. -/
theorem Ctl.sequence_schedOps {k : Kernel} {t : TaskPtr} (c : Ctl) :
    SchedOp.Sequence (c.schedOps k t) := by
  cases c with
  | app => exact .nil
  | sem c =>
    cases c with
    | give s =>
      have hnone : ([] : List SchedOp).length ≤ 1 := Nat.zero_le 1
      exact SchedOp.Sequence.wakeHead hnone (by simp)
    | take s retry => exact .of_length_le (by simp only [schedOps, semOps]; split_ifs <;> simp)
    | blocked | trytake | taken | given | trytaken => exact .nil
  | mutex c =>
    cases c with
    | block m timeout =>
      simp only [schedOps, mutexOps]
      split
      · exact .nil
      · refine .commit _ _ rfl fun op hop => ?_
        split_ifs at hop
        · rw [List.mem_singleton.1 hop]
          rfl
        · cases hop
    | release m =>
      refine .wakeHead ?_ fun op hop => ?_
      · split <;> simp
      · split at hop
        · rw [List.mem_singleton.1 hop]
          rfl
        · cases hop
    | enter | attempt | clock | blocked | acquired | trylock | unlock | locked
    | lockTimeoutReturned | trylocked | unlocked => exact .nil
  | queue c =>
    cases c with
    | loop q op deadline retry =>
      refine .of_length_le ?_
      simp only [schedOps, queueOps]
      split_ifs
      · simp
      · split
        · simp
        · split_ifs <;> simp
    | wake w timed r => cases w <;> exact .of_length_le (by simp [schedOps, queueOps])
    | enter | blocked | attempt | trigger | finish | returned => exact .nil
  | event c =>
    cases c with
    | set e bits =>
      simp only [schedOps, eventOps]
      split
      · rename_i gs _
        rcases List.eq_nil_or_concat gs with rfl | ⟨gs', g, rfl⟩
        · exact .nil
        · rw [List.concat_eq_append, List.map_append]
          refine .commit _ _ rfl fun op hop => ?_
          obtain ⟨g', -, rfl⟩ := List.mem_map.1 hop
          rfl
      · exact .nil
    | loop w deadline =>
      refine .of_length_le ?_
      simp only [schedOps, eventOps]
      split_ifs <;> simp
    | clear | get | enter | blocked | done | got | returned => exact .nil
  | notify c =>
    cases c with
    | wait timeoutMs =>
      refine .of_length_le ?_
      simp only [schedOps, notifyOps]
      split_ifs <;> simp
    | wake u => exact .single _
    | give | trigger | blocked | given | returned => exact .nil
  | sched c =>
    cases c with
    | delay ms =>
      refine .of_length_le ?_
      simp only [schedOps, schedCtlOps]
      split_ifs <;> simp
    | yield | block | pause | resume | createSection => exact .single _
    | delayTrigger | delayWait | trigger | create | createReturn | returned | created => exact .nil

/-- The operations of an action. -/
def Machine.schedOps (m : Machine) : Action → List SchedOp
  | .exec =>
    match m.active, m.kernel.currentTask with
    | some x, some t => (m.ctl x).schedOps m.kernel t
    | _, _ => []
  | .tick n => [.tick n]
  | .pendSV => [.pendSV]
  | .call _ | .irq _ | .clock _ => []

/-- The operations of an action. -/
theorem Machine.sequence_schedOps (m : Machine) (a : Action) :
    SchedOp.Sequence (m.schedOps a) := by
  cases a with
  | exec =>
    simp only [Machine.schedOps]
    split
    · exact Ctl.sequence_schedOps _
    · exact .nil
  | tick | pendSV => exact .single _
  | call | irq | clock => exact .nil

/-- An action consists of its operations. -/
theorem Machine.step_path {m m' : Machine} {a : Action} {o : List Obs}
    (h : m.step a = some (m', o)) : SchedPath m.kernel (m.schedOps a) m'.kernel := by
  rcases Machine.step_cases h with ⟨c, i, rfl, -, -, rfl, -⟩ | ⟨x, t, k', c', rfl, hact, ht, hs, rfl⟩ |
    ⟨c, rfl, -, rfl, -⟩ | ⟨rfl, -, -, rfl, -⟩ | ⟨n, rfl, rfl, -⟩ | ⟨n, k', rfl, htick, rfl, -⟩
  · exact .done (.refl _)
  · simp only [Machine.schedOps, hact, ht]
    exact ctlStep_path ht hs
  · exact .done (.refl _)
  · exact .single rfl
  · exact .done (.of_eq rfl rfl rfl rfl)
  · exact .single htick

end TamgaOs
