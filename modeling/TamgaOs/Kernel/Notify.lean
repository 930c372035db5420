import TamgaOs.Kernel.WaitQueue

/-!
# Task notifications

`notify.c`. A notification is one value and one flag in the control block of the task. The giver
looks at the state of the task inside its critical section and wakes it afterwards.

## Main definitions

* `Kernel.notifyGiveSection`, `Kernel.taskNotifyGive`.
* `Kernel.notifyTake`, `Kernel.notifyBlockSection`.
* `NotifyCtl`, `notifyStep`: the calls as atomic steps.
-/

namespace TamgaOs

/-- `TASK_NOTIFY_WAIT_FOREVER`. -/
def taskNotifyWaitForever : ℕ := 0xFFFFFFFF

namespace Kernel

variable (k : Kernel)

/-- The critical section of `task_notify_give`: the new state and `was_blocked`. -/
def notifyGiveSection (t : TaskPtr) (value : ℕ) : Kernel × Bool :=
  (k.modifyTask t fun x => { x with notifyValue := value, notifyPending := true },
    decide ((k.tcb t).state = .blocked))

/-- `task_notify_give`, when no interrupt comes between its two critical sections. -/
def taskNotifyGive (t : Option TaskPtr) (value : ℕ) : Kernel :=
  match t with
  | none => k
  | some t =>
    let (k', wasBlocked) := k.notifyGiveSection t value
    if wasBlocked then k'.schedWakeTask t else k'

/-- A pending notification of `t` is consumed. -/
def notifyTake (t : TaskPtr) : Kernel :=
  k.modifyTask t fun x => { x with notifyPending := false }

/-- The statements with which `task_notify_wait` blocks its caller `t`. -/
def notifyBlockSection (t : TaskPtr) (timeoutMs : ℕ) : Kernel :=
  (k.modifyTask t fun x =>
    { x with
      state := .blocked, delayTicks := timeoutMs, waitListHead := none }).schedBlockLocked

end Kernel

/-- Where in a notification call a context is. -/
inductive NotifyCtl
  | give (t : Option TaskPtr) (value : ℕ)
  /-- `task_notify_give`, before the call of `sched_wake_task`. -/
  | wake (t : TaskPtr)
  /-- After the critical section of `sched_wake_task`. -/
  | trigger
  | wait (timeoutMs : ℕ)
  /-- `task_notify_wait`, after `sched_block_locked`. -/
  | blocked
  | given
  /-- `task_notify_wait` has returned 1 with the value, or 0. -/
  | returned (value : Option ℕ)
  deriving DecidableEq

/-- One atomic step of a notification call; `self` is `g_current_task`. -/
def notifyStep (k : Kernel) (self : TaskPtr) : NotifyCtl → Option (Kernel × NotifyCtl × List Obs)
  | .give none _ => some (k, .given, [])
  | .give (some t) value =>
    match k.notifyGiveSection t value with
    | (k', true) => some (k', .wake t, [.notifyGiven t value])
    | (k', false) => some (k', .given, [.notifyGiven t value])
  | .wake t => some (k.wakeSection t, .trigger, [])
  | .trigger => some (k.triggerIfSwitch, .given, [])
  | .wait timeoutMs =>
    if (k.tcb self).notifyPending then
      some (k.notifyTake self, .returned (some (k.tcb self).notifyValue),
        [.notifyTaken self (k.tcb self).notifyValue])
    else if timeoutMs = 0 then some (k, .returned none, [])
    else some (k.notifyBlockSection self timeoutMs, .blocked, [])
  | .blocked =>
    if (k.tcb self).notifyPending then
      some (k.notifyTake self, .returned (some (k.tcb self).notifyValue),
        [.notifyTaken self (k.tcb self).notifyValue])
    else some (k, .returned none, [])
  | .given | .returned _ => none

end TamgaOs
