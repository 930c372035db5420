import TamgaOs.Kernel.Semaphore
import TamgaOs.Kernel.Mutex
import TamgaOs.Kernel.Queue
import TamgaOs.Kernel.Event
import TamgaOs.Kernel.Notify

/-!
# Kernel calls as atomic steps

The calls of `scheduler.c` that a task makes itself, and the union of the calls of all modules.
A call consists of the steps between which an interrupt or a preemption may fall: every critical
section is one step, and so is every access outside a critical section.

## Main definitions

* `SchedCtl`, `schedStep`: the calls of the scheduler.
* `Ctl`, `ctlStep`: where a context is, and its next step.
* `Call`: the entry points, with `Call.entry` and `Call.isrSafe`.
-/

namespace TamgaOs

/-- `TASK_MAX`. -/
def taskMax : ℕ := 12

/-- Where in a call of `scheduler.c` a context is. -/
inductive SchedCtl
  | delay (ms : ℕ)
  /-- `sched_delay_ms`, before `trigger_pendsv`. -/
  | delayTrigger
  /-- `sched_delay_ms`, in the loop that waits for `delay_ticks` to be 0. -/
  | delayWait
  | yield
  | block
  /-- `sched_yield` and `sched_block`, before `trigger_pendsv`. -/
  | trigger
  | pause (index : ℕ)
  | resume (index : ℕ)
  /-- `sched_task_create`, before its test; `isNull` when the entry function is null. -/
  | create (isNull : Bool) (priority : ℕ)
  | createSection (priority : ℕ)
  /-- `sched_task_create`, before it reads `s_task_count` for its result. -/
  | createReturn
  | returned
  | created (index : ℤ)
  deriving DecidableEq

/-- One atomic step of a call of `scheduler.c`; `t` is `g_current_task`. -/
def schedStep (k : Kernel) (t : TaskPtr) : SchedCtl → Option (Kernel × SchedCtl × List Obs)
  | .delay ms =>
    if ms = 0 then some (k, .returned, []) else some (k.delaySection t ms, .delayTrigger, [])
  | .delayTrigger => some (k.triggerPendsv, .delayWait, [])
  | .delayWait =>
    if 0 < (k.tcb t).delayTicks then some (k, .delayWait, []) else some (k, .returned, [])
  | .yield => some (k.yieldSection, .trigger, [])
  | .block => some (k.schedPickAndMark, .trigger, [])
  | .trigger => some (k.triggerPendsv, .returned, [])
  | .pause index => some (k.schedTaskPause index, .returned, [])
  | .resume index => some (k.schedTaskResume index, .returned, [])
  | .create isNull priority =>
    if taskMax ≤ k.taskCount ∨ isNull then some (k, .created (-1), [])
    else some (k, .createSection priority, [])
  | .createSection priority => some (k.createSection priority, .createReturn, [])
  | .createReturn => some (k, .created (k.taskCount - 1), [])
  | .returned | .created _ => none

/-- Where a context is: in application code, or in a call of one of the modules. -/
inductive Ctl
  | app
  | sem (c : SemCtl)
  | mutex (c : MutexCtl)
  | queue (c : QueueCtl)
  | event (c : EventCtl)
  | notify (c : NotifyCtl)
  | sched (c : SchedCtl)
  deriving DecidableEq

/-- The modules of the kernel. -/
inductive Family
  | sem
  | mutex
  | queue
  | event
  | notify
  | sched
  deriving DecidableEq

namespace Ctl

/-- The module whose call the context is in. -/
def family : Ctl → Option Family
  | app => none
  | sem _ => some .sem
  | mutex _ => some .mutex
  | queue _ => some .queue
  | event _ => some .event
  | notify _ => some .notify
  | sched _ => some .sched

/-- The context is in application code: outside every call, or just returned from one. -/
def atRest : Ctl → Bool
  | app => true
  | sem (.taken _) | sem (.given _) | sem (.trytaken _ _) => true
  | mutex (.locked _) | mutex (.lockTimeoutReturned _ _) | mutex (.trylocked _ _)
  | mutex (.unlocked _) => true
  | queue (.returned _) => true
  | event .done | event (.got _ _) | event (.returned _ _) => true
  | notify .given | notify (.returned _) => true
  | sched .returned | sched (.created _) => true
  | _ => false

/-- The wait list in which the context has linked itself, and in whose call it is suspended until
it runs again. -/
def waitsOn : Ctl → Option WaitList
  | sem (.blocked s) => some (.sem s)
  | mutex (.blocked m _) => some (.mutex m)
  | queue (.blocked q op _) => some (op.ownList q)
  | event (.blocked w _ _) => some (.event w.group)
  | _ => none

/-- The wait of a context in a wait list has a timeout. -/
def timed : Ctl → Bool
  | mutex (.blocked _ d) => d.isSome
  | queue (.blocked _ _ d) => d.isSome
  | event (.blocked _ d _) => d.isSome
  | _ => false

/-- The context sleeps in `sched_delay_ms`. -/
def delaying : Ctl → Bool
  | sched .delayTrigger | sched .delayWait => true
  | _ => false

/-- The task that the context has popped from a wait list and is about to wake. -/
def wakes : Ctl → Option TaskPtr
  | queue (.wake w _ _) => w
  | _ => none

/-- The list whose test the context re-runs next because it has been woken. -/
def retries : Ctl → Option WaitList
  | sem (.take s true) => some (.sem s)
  | mutex (.attempt m _ true) => some (.mutex m)
  | queue (.loop q op _ true) => some (op.ownList q)
  | _ => none

/-- The program points that a handler can reach from the calls it may make. -/
def isrSafe : Ctl → Bool
  | app => true
  | sem (.give _) | sem (.given _) | sem (.trytake _) | sem (.trytaken _ _) => true
  | queue (.attempt _ _) | queue (.wake _ false _) | queue (.trigger false _)
  | queue (.finish false _) | queue (.returned _) => true
  | event (.set _ _) | event (.clear _ _) | event (.get _) | event .done
  | event (.got _ _) => true
  | notify (.give _ _) | notify (.wake _) | notify .trigger | notify .given => true
  | sched (.pause _) | sched (.resume _) | sched .returned => true
  | _ => false

end Ctl

/-- The next atomic step of a context; `t` is `g_current_task`. -/
def ctlStep (k : Kernel) (t : TaskPtr) : Ctl → Option (Kernel × Ctl × List Obs)
  | .app => none
  | .sem c => (semStep k t c).map fun (k', c', o) => (k', .sem c', o)
  | .mutex c => (mutexStep k t c).map fun (k', c', o) => (k', .mutex c', o)
  | .queue c => (queueStep k t c).map fun (k', c', o) => (k', .queue c', o)
  | .event c => (eventStep k t c).map fun (k', c', o) => (k', .event c', o)
  | .notify c => (notifyStep k t c).map fun (k', c', o) => (k', .notify c', o)
  | .sched c => (schedStep k t c).map fun (k', c', o) => (k', .sched c', o)

/-- A step of a context is a step of the module that it is in. -/
inductive CtlStep (k : Kernel) (t : TaskPtr) (k' : Kernel) (o : List Obs) : Ctl → Ctl → Prop
  | sem {c c' : SemCtl} (h : semStep k t c = some (k', c', o)) : CtlStep k t k' o (.sem c) (.sem c')
  | mutex {c c' : MutexCtl} (h : mutexStep k t c = some (k', c', o)) :
      CtlStep k t k' o (.mutex c) (.mutex c')
  | queue {c c' : QueueCtl} (h : queueStep k t c = some (k', c', o)) :
      CtlStep k t k' o (.queue c) (.queue c')
  | event {c c' : EventCtl} (h : eventStep k t c = some (k', c', o)) :
      CtlStep k t k' o (.event c) (.event c')
  | notify {c c' : NotifyCtl} (h : notifyStep k t c = some (k', c', o)) :
      CtlStep k t k' o (.notify c) (.notify c')
  | sched {c c' : SchedCtl} (h : schedStep k t c = some (k', c', o)) :
      CtlStep k t k' o (.sched c) (.sched c')

/-- The inversion of `ctlStep`. -/
theorem ctlStep_cases {k k' : Kernel} {t : TaskPtr} {c c' : Ctl} {o : List Obs}
    (h : ctlStep k t c = some (k', c', o)) : CtlStep k t k' o c c' := by
  cases c with
  | app => cases h
  | sem c =>
    obtain ⟨_, hs, he⟩ := Option.map_eq_some_iff.1 h
    cases he
    exact .sem hs
  | mutex c =>
    obtain ⟨_, hs, he⟩ := Option.map_eq_some_iff.1 h
    cases he
    exact .mutex hs
  | queue c =>
    obtain ⟨_, hs, he⟩ := Option.map_eq_some_iff.1 h
    cases he
    exact .queue hs
  | event c =>
    obtain ⟨_, hs, he⟩ := Option.map_eq_some_iff.1 h
    cases he
    exact .event hs
  | notify c =>
    obtain ⟨_, hs, he⟩ := Option.map_eq_some_iff.1 h
    cases he
    exact .notify hs
  | sched c =>
    obtain ⟨_, hs, he⟩ := Option.map_eq_some_iff.1 h
    cases he
    exact .sched hs

/-- The entry points of the kernel. -/
inductive Call
  | semTake (s : ℕ)
  | semGive (s : ℕ)
  | semTrytake (s : ℕ)
  | mutexLock (m : ℕ)
  | mutexLockTimeout (m : ℕ) (timeoutMs : ℕ)
  | mutexTrylock (m : ℕ)
  | mutexUnlock (m : ℕ)
  | queueSend (q : ℕ) (item : List UInt8)
  | queueReceive (q : ℕ)
  | queueSendTimeout (q : ℕ) (item : List UInt8) (timeoutMs : ℕ)
  | queueReceiveTimeout (q : ℕ) (timeoutMs : ℕ)
  | queueTrySend (q : ℕ) (item : List UInt8)
  | queueTryReceive (q : ℕ)
  | eventSet (e : ℕ) (bits : BitVec 32)
  | eventClear (e : ℕ) (bits : BitVec 32)
  | eventGet (e : ℕ)
  | eventWait (w : EventWait)
  | eventWaitTimeout (w : EventWait) (timeoutMs : ℕ)
  | taskNotifyGive (t : Option TaskPtr) (value : ℕ)
  | taskNotifyWait (timeoutMs : ℕ)
  | schedDelayMs (ms : ℕ)
  | schedYield
  | schedBlock
  | schedTaskPause (index : ℕ)
  | schedTaskResume (index : ℕ)
  | schedTaskCreate (isNull : Bool) (priority : ℕ)
  deriving DecidableEq

namespace Call

/-- The first program point of a call. -/
def entry : Call → Ctl
  | semTake s => .sem (.take s false)
  | semGive s => .sem (.give s)
  | semTrytake s => .sem (.trytake s)
  | mutexLock m => .mutex (.attempt m none false)
  | mutexLockTimeout m timeoutMs => .mutex (.enter m timeoutMs)
  | mutexTrylock m => .mutex (.trylock m)
  | mutexUnlock m => .mutex (.unlock m)
  | queueSend q item => .queue (.loop q (.send item) none false)
  | queueReceive q => .queue (.loop q .receive none false)
  | queueSendTimeout q item timeoutMs => .queue (.enter q (.send item) timeoutMs)
  | queueReceiveTimeout q timeoutMs => .queue (.enter q .receive timeoutMs)
  | queueTrySend q item => .queue (.attempt q (.send item))
  | queueTryReceive q => .queue (.attempt q .receive)
  | eventSet e bits => .event (.set e bits)
  | eventClear e bits => .event (.clear e bits)
  | eventGet e => .event (.get e)
  | eventWait w => .event (.loop w none)
  | eventWaitTimeout w timeoutMs => .event (.enter w timeoutMs)
  | taskNotifyGive t value => .notify (.give t value)
  | taskNotifyWait timeoutMs => .notify (.wait timeoutMs)
  | schedDelayMs ms => .sched (.delay ms)
  | schedYield => .sched .yield
  | schedBlock => .sched .block
  | schedTaskPause index => .sched (.pause index)
  | schedTaskResume index => .sched (.resume index)
  | schedTaskCreate isNull priority => .sched (.create isNull priority)

/-- The module of a call. -/
def family (c : Call) : Option Family := c.entry.family

/-- The call is `sched_task_resume`. -/
def isResume : Call → Bool
  | schedTaskResume _ => true
  | _ => false

/-- The call is `sched_task_create`. -/
def isCreate : Call → Bool
  | schedTaskCreate _ _ => true
  | _ => false

/-- The calls that never block, and that interrupt handlers may therefore make. -/
def isrSafe : Call → Bool
  | semGive _ | semTrytake _ | queueTrySend _ _ | queueTryReceive _ | eventSet _ _
  | eventClear _ _ | eventGet _ | taskNotifyGive _ _ | schedTaskPause _
  | schedTaskResume _ => true
  | _ => false

end Call

end TamgaOs
