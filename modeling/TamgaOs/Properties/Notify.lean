import TamgaOs.Machine.Step

/-!
# What a task notification disturbs

`task_notify_give` wakes every blocked task, whatever the task waits for: the kernel has one
blocked state for all primitives. The wake-up does not unlink the task, and clears the link through
which the waiters behind it are reached.

## Main definitions

* `NotifyFrame k k' t`: `k'` differs from `k` in the notification fields of `t` at most.

## Main results

* `notifyStep_taskNotifyGive`: the atomic steps of a call that is not interrupted.
* `taskNotifyGive_frame_iff`: the call has no other effect exactly when the task is not blocked.
* `notify_truncates_waitList`: notifying a taker drops the takers queued behind it.
-/

namespace TamgaOs

open Relation in
/-- A call of `task_notify_give` that nothing interrupts, from its first to its last step. -/
theorem notifyStep_taskNotifyGive (self : TaskPtr) (k : Kernel) (t : Option TaskPtr) (value : ℕ) :
    ReflTransGen
      (fun s s' : Kernel × NotifyCtl => ∃ o, notifyStep s.1 self s.2 = some (s'.1, s'.2, o))
      (k, .give t value) (k.taskNotifyGive t value, .given) := by
  cases t with
  | none => exact .single ⟨[], rfl⟩
  | some t =>
    by_cases hb : (k.tcb t).state = .blocked
    · have hgive : notifyStep k self (.give (some t) value) =
          some ((k.notifyGiveSection t value).1, .wake t, [.notifyGiven t value]) := by
        simp [notifyStep, Kernel.notifyGiveSection, hb]
      have hcall : k.taskNotifyGive (some t) value =
          ((k.notifyGiveSection t value).1.wakeSection t).triggerIfSwitch := by
        simp [Kernel.taskNotifyGive, Kernel.notifyGiveSection, hb, Kernel.schedWakeTask]
      rw [hcall]
      refine .head (b := ((k.notifyGiveSection t value).1, .wake t)) ⟨_, hgive⟩ ?_
      exact .head (b := (_, .trigger)) ⟨[], rfl⟩ (.single ⟨[], rfl⟩)
    · have hgive : notifyStep k self (.give (some t) value) =
          some ((k.notifyGiveSection t value).1, .given, [.notifyGiven t value]) := by
        simp [notifyStep, Kernel.notifyGiveSection, hb]
      have hcall : k.taskNotifyGive (some t) value = (k.notifyGiveSection t value).1 := by
        simp [Kernel.taskNotifyGive, Kernel.notifyGiveSection, hb]
      rw [hcall]
      exact .single ⟨_, hgive⟩

/-- `k'` differs from `k` in the notification fields of `t` at most: the state, the delay and the
link of every task, the wait lists, and everything else are the same. -/
structure NotifyFrame (k k' : Kernel) (t : TaskPtr) : Prop where
  eq : k' = { k with tcb := k'.tcb }
  others : ∀ u, u ≠ t → k'.tcb u = k.tcb u
  self : k'.tcb t = { k.tcb t with
    notifyValue := (k'.tcb t).notifyValue, notifyPending := (k'.tcb t).notifyPending }
  waiters : ∀ l xs, k'.Waiters l xs ↔ k.Waiters l xs

/-- The critical section of `task_notify_give` stores the value and nothing else. -/
theorem notifyGiveSection_frame (k : Kernel) (t : TaskPtr) (value : ℕ) :
    NotifyFrame k (k.notifyGiveSection t value).1 t := by
  have hget : ∀ u, (k.notifyGiveSection t value).1.tcb u = if u = t then
      { k.tcb t with notifyValue := value, notifyPending := true } else k.tcb u :=
    fun u => Function.update_apply ..
  refine ⟨rfl, fun u hu => by rw [hget, if_neg hu], by rw [hget, if_pos rfl], fun l xs => ?_⟩
  have hnext : (k.notifyGiveSection t value).1.waitNext = k.waitNext := by
    funext u
    unfold Kernel.waitNext
    rw [hget]
    split_ifs with hu
    · rw [hu]
    · rfl
  unfold Kernel.Waiters
  rw [hnext]
  exact Iff.rfl

/-- A task that has been woken can run. -/
theorem runnable_schedWakeTask (k : Kernel) (t : TaskPtr) :
    ((k.schedWakeTask t).tcb t).state.Runnable := by
  have hready : (((k.modifyTask t fun x =>
      { x with waitNext := none, delayTicks := 0, state := .ready }).schedPickAndMark).tcb
        t).state.Runnable :=
    Kernel.rescheduled_schedPickAndMark.runnable t (by simp [TaskState.Runnable])
  unfold Kernel.schedWakeTask Kernel.triggerIfSwitch
  split_ifs
  · exact hready
  · exact hready

/-- `task_notify_give` leaves everything but the notification of the task alone exactly when it
finds the task not blocked. -/
theorem taskNotifyGive_frame_iff (k : Kernel) (t : TaskPtr) (value : ℕ) :
    NotifyFrame k (k.taskNotifyGive (some t) value) t ↔ (k.tcb t).state ≠ .blocked := by
  constructor
  · intro hf hb
    have hrun : ((k.taskNotifyGive (some t) value).tcb t).state.Runnable := by
      simp only [Kernel.taskNotifyGive, Kernel.notifyGiveSection, hb, decide_true, if_true]
      exact runnable_schedWakeTask _ t
    rw [hf.self, hb] at hrun
    exact absurd hrun (by decide)
  · intro hb
    have hcall : k.taskNotifyGive (some t) value = (k.notifyGiveSection t value).1 := by
      simp [Kernel.taskNotifyGive, Kernel.notifyGiveSection, hb]
    rw [hcall]
    exact notifyGiveSection_frame k t value

/-- Two tasks wait for a semaphore. -/
def twoTakers : Scenario where
  config := { priorities := [1, 2], sem := fun _ => ⟨0, 1⟩ }
  actions := [.call (.semTake 0), .exec, .pendSV, .call (.semTake 0), .exec]
  possible := by decide +kernel

/-- A notification of the first taker makes it ready and drops the second one from the list. -/
theorem notify_truncates_waitList :
    (∃ out, Run.Reach Machine.step (fun _ a => a.Within fun c => c.family = some .sem)
      (Machine.start twoTakers.config) twoTakers.final out) ∧
    twoTakers.final.ctl (.thread (.tcb 0)) ≠ .notify .blocked ∧
    twoTakers.final.kernel.Waiters (.sem 0) [.tcb 0, .tcb 1] ∧
    (twoTakers.final.kernel.taskNotifyGive (some (.tcb 0)) 5).Waiters (.sem 0) [.tcb 0] ∧
    ¬ NotifyFrame twoTakers.final.kernel
      (twoTakers.final.kernel.taskNotifyGive (some (.tcb 0)) 5) (.tcb 0) := by
  refine ⟨⟨_, twoTakers.reach (by decide +kernel)⟩, by decide +kernel, ?_, ?_, ?_⟩
  · decide +kernel
  · decide +kernel
  · rw [taskNotifyGive_frame_iff]
    decide +kernel

end TamgaOs
