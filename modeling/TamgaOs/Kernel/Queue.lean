import TamgaOs.Kernel.WaitQueue

/-!
# Message queues

`queue.c`. Sending and receiving are mirror images: `QueueOp` says which of the two a call does,
and each function of the source is one of the definitions below at one value of `QueueOp`, with
or without a deadline. In contrast to the other primitives, a successful call wakes the waiter it
has popped after its critical section has ended.

## Main definitions

* `Kernel.queueCopyIn`, `Kernel.queueCopyOut`, `Kernel.queueTransfer`.
* `Kernel.queueSection`: the critical section of the blocking calls.
* `QueueCtl`, `queueStep`: the calls as atomic steps.

## Main results

* `queueStep_loop`: the inversion of a pass of the loop.
-/

namespace TamgaOs

/-- The direction of a queue call, with the bytes at `item` when it sends. -/
inductive QueueOp
  | send (item : List UInt8)
  | receive
  deriving DecidableEq

/-- The list in which the callers wait. -/
def QueueOp.ownList (q : ℕ) : QueueOp → WaitList
  | .send _ => .queueSend q
  | .receive => .queueReceive q

/-- The list from which a successful call pops the task it wakes. -/
def QueueOp.peerList (q : ℕ) : QueueOp → WaitList
  | .send _ => .queueReceive q
  | .receive => .queueSend q

namespace Kernel

variable (k : Kernel)

/-- A store to fields of a queue. -/
def modifyQueue (q : ℕ) (f : Queue → Queue) : Kernel :=
  { k with queue := Function.update k.queue q (f (k.queue q)) }

/-- `queue_copy_in`. -/
def queueCopyIn (q : ℕ) (item : List UInt8) : Kernel :=
  k.modifyQueue q fun x =>
    let dst := x.tail * x.itemSize.toNat
    { x with
      buffer := fun o =>
        if dst ≤ o ∧ o < dst + x.itemSize.toNat then item.getD (o - dst) 0 else x.buffer o
      tail := (x.tail + 1) % x.capacity.toNat % 2 ^ 16
      count := (x.count + 1) % 2 ^ 16 }

/-- `queue_copy_out`: the new state and the bytes written to `item`. -/
def queueCopyOut (q : ℕ) : Kernel × List UInt8 :=
  let x := k.queue q
  let src := x.head * x.itemSize.toNat
  (k.modifyQueue q fun x =>
      { x with
        head := (x.head + 1) % x.capacity.toNat % 2 ^ 16
        count := x.count - 1 },
    (List.range x.itemSize.toNat).map fun i => x.buffer (src + i))

/-- The test of a call: `count < capacity` to send, `count > 0` to receive. -/
def queueReady (q : ℕ) : QueueOp → Bool
  | .send _ => decide ((k.queue q).count < (k.queue q).capacity.toNat)
  | .receive => decide (0 < (k.queue q).count)

/-- The transfer after a successful test: the new state, the bytes received, and the task popped
from the other side. -/
def queueTransfer (q : ℕ) : QueueOp → Kernel × List UInt8 × Option TaskPtr
  | .send item =>
    let (k', waiter) := (k.queueCopyIn q item).wqPop (.queueReceive q)
    (k', [], waiter)
  | .receive =>
    let (k₁, item) := k.queueCopyOut q
    let (k', waiter) := k₁.wqPop (.queueSend q)
    (k', item, waiter)

/-- How a critical section of a queue call ends. -/
inductive QueueOutcome
  | done (item : List UInt8) (waiter : Option TaskPtr)
  | expired
  | blocked

/-- The critical section of `queue_send`, `queue_receive` and, with a deadline, of
`queue_send_timeout` and `queue_receive_timeout`, run by `t`. -/
def queueSection (q : ℕ) (op : QueueOp) (t : TaskPtr) (deadline : Option ℕ) :
    Option (Kernel × QueueOutcome) :=
  if k.queueReady q op then
    let (k', item, waiter) := k.queueTransfer q op
    some (k', .done item waiter)
  else
    match deadline with
    | none => (k.blockOn (op.ownList q) t none).map fun k' => (k', .blocked)
    | some d =>
      if d ≤ k.ticks then some (k, .expired)
      else (k.blockOn (op.ownList q) t (some (d - k.ticks))).map fun k' => (k', .blocked)

end Kernel

/-- How a queue call ends: the value returned, and the bytes received. -/
structure QueueReturn where
  queue : ℕ
  op : QueueOp
  value : ℤ
  item : List UInt8
  deriving DecidableEq

/-- Where in a queue call a context is. -/
inductive QueueCtl
  /-- A call with a timeout, before it reads the clock. -/
  | enter (q : ℕ) (op : QueueOp) (timeoutMs : ℕ)
  /-- A blocking call before its critical section; `retry` after a wake-up. -/
  | loop (q : ℕ) (op : QueueOp) (deadline : Option ℕ) (retry : Bool)
  /-- A blocking call after `sched_block_locked`. -/
  | blocked (q : ℕ) (op : QueueOp) (deadline : Option ℕ)
  /-- `queue_try_send`, `queue_try_receive`. -/
  | attempt (q : ℕ) (op : QueueOp)
  /-- Before the call of `sched_wake_task`; `timed` for the calls with a timeout. -/
  | wake (waiter : Option TaskPtr) (timed : Bool) (r : QueueReturn)
  /-- After the critical section of `sched_wake_task`. -/
  | trigger (timed : Bool) (r : QueueReturn)
  /-- After the call of `sched_wake_task`. -/
  | finish (timed : Bool) (r : QueueReturn)
  | returned (r : QueueReturn)
  deriving DecidableEq

/-- What a successful transfer reports. -/
def queueObs (q : ℕ) (op : QueueOp) (item : List UInt8) : Obs :=
  match op with
  | .send sent => .queueSent q sent
  | .receive => .queueReceived q item

/-- One atomic step of a queue call; `t` is `g_current_task`. -/
def queueStep (k : Kernel) (t : TaskPtr) : QueueCtl → Option (Kernel × QueueCtl × List Obs)
  | .enter q op timeoutMs => some (k, .loop q op (some (k.deadline timeoutMs)) false, [])
  | .loop q op deadline _ =>
    match k.queueSection q op t deadline with
    | some (k', .done item waiter) =>
      some (k', .wake waiter deadline.isSome ⟨q, op, 0, item⟩, [queueObs q op item])
    | some (k', .expired) => some (k', .returned ⟨q, op, -1, []⟩, [])
    | some (k', .blocked) => some (k', .blocked q op deadline, [])
    | none => none
  | .blocked q op deadline =>
    if deadline.isSome ∧ (k.tcb t).timedOut then
      some (k.modifyTask t fun x => { x with timedOut := false, waitListHead := none },
        .returned ⟨q, op, -1, []⟩, [])
    else some (k, .loop q op deadline true, [])
  | .attempt q op =>
    if k.queueReady q op then
      let (k', item, waiter) := k.queueTransfer q op
      some (k', .wake waiter false ⟨q, op, 1, item⟩, [queueObs q op item])
    else some (k, .returned ⟨q, op, 0, []⟩, [])
  | .wake (some waiter) timed r => some (k.wakeSection waiter, .trigger timed r, [])
  | .wake none timed r => some (k, .finish timed r, [])
  | .trigger timed r => some (k.triggerIfSwitch, .finish timed r, [])
  | .finish timed r =>
    if timed then
      some (k.modifyTask t fun x => { x with waitListHead := none }, .returned r, [])
    else some (k, .returned r, [])
  | .returned _ => none

/-- What a pass of the loop of a queue call can do: it moves an item, it finds the deadline passed, or it
blocks. -/
theorem queueStep_loop {k k' : Kernel} {t : TaskPtr} {q : ℕ} {op : QueueOp} {deadline : Option ℕ}
    {retry : Bool} {c' : QueueCtl} {o : List Obs}
    (h : queueStep k t (.loop q op deadline retry) = some (k', c', o)) :
    (k.queueReady q op = true ∧ k' = (k.queueTransfer q op).1 ∧
      c' = .wake (k.queueTransfer q op).2.2 deadline.isSome ⟨q, op, 0, (k.queueTransfer q op).2.1⟩ ∧
      o = [queueObs q op (k.queueTransfer q op).2.1]) ∨
    (∃ d, k.queueReady q op = false ∧ deadline = some d ∧ d ≤ k.ticks ∧ k' = k ∧
      c' = .returned ⟨q, op, -1, []⟩ ∧ o = []) ∨
    (k.queueReady q op = false ∧ (∀ d, deadline = some d → k.ticks < d) ∧
      k.blockOn (op.ownList q) t (deadline.map fun d => d - k.ticks) = some k' ∧
      c' = .blocked q op deadline ∧ o = []) := by
  simp only [queueStep, Kernel.queueSection] at h
  by_cases hready : k.queueReady q op = true
  · rw [if_pos hready] at h
    cases h
    exact .inl ⟨hready, rfl, rfl, rfl⟩
  · rw [if_neg hready] at h
    rw [Bool.not_eq_true] at hready
    cases deadline with
    | none =>
      cases hb : k.blockOn (op.ownList q) t none with
      | none =>
        rw [hb] at h
        cases h
      | some k₁ =>
        rw [hb] at h
        cases h
        exact .inr (.inr ⟨hready, by simp, hb, rfl, rfl⟩)
    | some d =>
      by_cases hle : d ≤ k.ticks
      · simp only [if_pos hle] at h
        cases h
        exact .inr (.inl ⟨d, hready, rfl, hle, rfl, rfl, rfl⟩)
      · simp only [if_neg hle] at h
        cases hb : k.blockOn (op.ownList q) t (some (d - k.ticks)) with
        | none =>
          rw [hb] at h
          cases h
        | some k₁ =>
          rw [hb] at h
          cases h
          refine .inr (.inr ⟨hready, fun d' he => ?_, hb, rfl, rfl⟩)
          cases he
          exact not_le.1 hle

end TamgaOs
