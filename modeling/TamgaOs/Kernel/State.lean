import TamgaOs.Library.Chain

/-!
# The state of the kernel

The variables that the kernel functions read and write: the task control blocks with their link
field `wait_next`, the head pointer of every wait list, the globals of the scheduler, the kernel
objects and the millisecond counter. A `task_t *` is `TaskPtr`, a `task_t **` that points to the
head of a wait list is `WaitList`, and a null pointer is `none`. Stack pointers, entry functions
and stacks are not part of the state: no function modelled here reads them.

## Main definitions

* `TaskState`, `Task`: `task_state_t` and `task_t` of `task.h`.
* `Sem`, `Queue`, `Mutex`, `EventGroup`, `EventPending`: the kernel objects, without their wait
  lists.
* `Kernel`: the whole state, with the elementary stores `modifyTask`, `setWaitNext`, `setHead`.
* `Kernel.Waiters k l xs`: the wait list `l` holds the tasks `xs`, in this order.
-/

namespace TamgaOs

/-- `task_state_t`. -/
inductive TaskState
  | ready
  | running
  | blocked
  | paused
  | dead
  deriving DecidableEq, Repr

/-- A task that the scheduler may select or has selected. -/
def TaskState.Runnable (s : TaskState) : Prop := s = .ready ∨ s = .running

instance (s : TaskState) : Decidable s.Runnable := inferInstanceAs (Decidable (_ ∨ _))

/-- A pointer to a task control block: `&s_idle_tcb` or `&s_tasks[i]`. -/
inductive TaskPtr
  | idle
  | tcb (i : ℕ)
  deriving DecidableEq, Repr

/-- The address of the head pointer of a wait list. -/
inductive WaitList
  | sem (s : ℕ)
  | mutex (m : ℕ)
  | queueSend (q : ℕ)
  | queueReceive (q : ℕ)
  | event (e : ℕ)
  deriving DecidableEq, Repr

/-- `task_t`. -/
structure Task where
  state : TaskState := .ready
  priority : ℕ := 0
  delayTicks : ℕ := 0
  waitNext : Option TaskPtr := none
  waitListHead : Option WaitList := none
  timedOut : Bool := false
  notifyPending : Bool := false
  notifyValue : ℕ := 0

/-- `sem_t`. -/
structure Sem where
  count : ℤ
  max : ℤ

/-- `queue_t`. The buffer is addressed by byte offsets from `q->buffer`. -/
structure Queue where
  itemSize : UInt16
  capacity : UInt16
  buffer : ℕ → UInt8 := fun _ => 0
  count : ℕ := 0
  head : ℕ := 0
  tail : ℕ := 0

/-- `mutex_t`. -/
structure Mutex where
  task : Option TaskPtr := none
  ownerOriginalPriority : ℕ := 0
  isElevated : Bool := false

/-- `event_wait_mode_t`. -/
inductive EventWaitMode
  | any
  | all
  deriving DecidableEq, Repr

/-- `event_group_t`. -/
structure EventGroup where
  bits : BitVec 32 := 0

/-- The arguments of an event wait, without its timeout. -/
structure EventWait where
  group : ℕ
  mask : BitVec 32
  mode : EventWaitMode
  autoClear : Bool
  deriving DecidableEq

/-- `event_pending_t`, a slot of `s_pending`. -/
structure EventPending where
  task : Option TaskPtr := none
  group : ℕ := 0
  mask : BitVec 32 := 0
  mode : EventWaitMode := .any
  autoClear : Bool := false
  observedBits : BitVec 32 := 0

/-- What an atomic step of a kernel call reports about itself. Reports are never read by the
kernel; they record the history of a run. -/
inductive Obs
  /-- `sem_take` or `sem_trytake` has taken a token. -/
  | semTaken (s : ℕ)
  /-- `sem_give` has been executed; `dropped` when the count is at its maximum and nobody waits. -/
  | semGiven (s : ℕ) (dropped : Bool)
  /-- The result of `mutex_try_acquire` is 1 in the task `t`. -/
  | mutexAcquired (t : TaskPtr) (m : ℕ)
  /-- The task `t` has left the critical section of `mutex_unlock`. -/
  | mutexReleased (t : TaskPtr) (m : ℕ)
  /-- An item has been copied into the queue. -/
  | queueSent (q : ℕ) (item : List UInt8)
  /-- An item has been copied out of the queue. -/
  | queueReceived (q : ℕ) (item : List UInt8)
  | eventSet (e : ℕ) (bits : BitVec 32)
  | eventCleared (e : ℕ) (bits : BitVec 32)
  /-- The wait `w` of the task `t` has been granted when the bits were `observed`. -/
  | eventGranted (t : TaskPtr) (w : EventWait) (observed : BitVec 32)
  | notifyGiven (t : TaskPtr) (value : ℕ)
  /-- The task `t` has consumed its notification. -/
  | notifyTaken (t : TaskPtr) (value : ℕ)
  deriving DecidableEq

/-- The variables of the kernel. -/
structure Kernel where
  tcb : TaskPtr → Task
  taskCount : ℕ
  currentTask : Option TaskPtr
  nextTask : Option TaskPtr
  /-- `PENDSVSET` has been written and the exception has not been taken yet. -/
  pendsv : Bool
  head : WaitList → Option TaskPtr
  sem : ℕ → Sem
  queue : ℕ → Queue
  mutex : ℕ → Mutex
  group : ℕ → EventGroup
  pending : ℕ → EventPending
  /-- `s_ticks`, what `systick_get_ms` returns. -/
  ticks : ℕ

namespace Kernel

variable (k : Kernel)

/-! ### Elementary stores -/

/-- A store to fields of the control block of `t`. -/
def modifyTask (t : TaskPtr) (f : Task → Task) : Kernel :=
  { k with tcb := Function.update k.tcb t (f (k.tcb t)) }

/-- A store to a head pointer. -/
def setHead (l : WaitList) (h : Option TaskPtr) : Kernel :=
  { k with head := Function.update k.head l h }

/-- `t->state = s`. -/
def setState (t : TaskPtr) (s : TaskState) : Kernel :=
  k.modifyTask t fun x => { x with state := s }

/-- `t->wait_next = n`. -/
def setWaitNext (t : TaskPtr) (n : Option TaskPtr) : Kernel :=
  k.modifyTask t fun x => { x with waitNext := n }

/-- `SCB_ICSR = PENDSVSET`. -/
def triggerPendsv : Kernel := { k with pendsv := true }

/-- `systick_get_ms() + timeout_ms`, in the 32-bit arithmetic of the callers. -/
def deadline (timeoutMs : ℕ) : ℕ := (k.ticks + timeoutMs) % 2 ^ 32

/-- The link field of every control block. -/
def waitNext (t : TaskPtr) : Option TaskPtr := (k.tcb t).waitNext

/-- The wait list `l` holds the tasks `xs`, in this order, and ends. -/
def Waiters (l : WaitList) (xs : List TaskPtr) : Prop :=
  IntrusiveList.IsChain k.waitNext (k.head l) xs

instance (l : WaitList) (xs : List TaskPtr) : Decidable (k.Waiters l xs) :=
  IntrusiveList.decidableIsChain k.waitNext xs (k.head l)

/-- Walking a list visits every control block at most once; a walk that evaluates its loop test
more often than this never ends. -/
def walkFuel : ℕ := k.taskCount + 2

variable {k} {t u : TaskPtr} {l l' : WaitList}

@[simp] theorem modifyTask_self (f : Task → Task) :
    (k.modifyTask t f).tcb t = f (k.tcb t) :=
  Function.update_self ..

theorem modifyTask_of_ne (h : u ≠ t) (f : Task → Task) : (k.modifyTask t f).tcb u = k.tcb u :=
  Function.update_of_ne h ..

theorem modifyTask_tcb (f : Task → Task) :
    (k.modifyTask t f).tcb u = if u = t then f (k.tcb t) else k.tcb u :=
  Function.update_apply ..

@[simp] theorem setHead_self (h : Option TaskPtr) : (k.setHead l h).head l = h :=
  Function.update_self ..

theorem setHead_of_ne (hne : l' ≠ l) (h : Option TaskPtr) :
    (k.setHead l h).head l' = k.head l' :=
  Function.update_of_ne hne ..

theorem waitNext_setWaitNext (n : Option TaskPtr) :
    (k.setWaitNext t n).waitNext = Function.update k.waitNext t n := by
  funext u
  by_cases h : u = t
  · subst h
    simp [waitNext, setWaitNext]
  · simp [waitNext, setWaitNext, modifyTask_of_ne h, Function.update_of_ne h]

@[simp] theorem waitNext_setHead (h : Option TaskPtr) :
    (k.setHead l h).waitNext = k.waitNext := rfl

end Kernel

end TamgaOs
