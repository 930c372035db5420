import TamgaOs.Kernel.WaitQueue

/-!
# Mutexes with priority inheritance

`mutex.c`. A task that blocks on a mutex raises the priority of the owner to its own; the mutex
keeps the priority that its owner had when it was first raised, and `mutex_unlock` restores it.
`mutex_lock` and `mutex_lock_timeout` share their loop: with a timeout the clock is read between
the failed attempt and the critical section in which the caller blocks.

## Main definitions

* `Kernel.mutexTryAcquire`, `Kernel.mutexElevate`, `Kernel.mutexBlockSection`,
  `Kernel.mutexReleaseSection`.
* `MutexCtl`, `mutexStep`: the calls as atomic steps.

## Main results

* `mutexStep_block`: the inversion of the critical section that blocks.
-/

namespace TamgaOs

namespace Kernel

variable (k : Kernel)

/-- A store to fields of a mutex. -/
def modifyMutex (m : ℕ) (f : Mutex → Mutex) : Kernel :=
  { k with mutex := Function.update k.mutex m (f (k.mutex m)) }

/-- `t->priority = p`. -/
def setPriority (t : TaskPtr) (p : ℕ) : Kernel :=
  k.modifyTask t fun x => { x with priority := p }

/-- `mutex_try_acquire`, run by `t`. -/
def mutexTryAcquire (m : ℕ) (t : TaskPtr) : Kernel × Bool :=
  if (k.mutex m).task = none then
    (k.modifyMutex m fun x => { x with task := some t }, true)
  else (k, false)

/-- The elevation of `owner` by the caller `t` that is about to block. -/
def mutexElevate (m : ℕ) (owner t : TaskPtr) : Kernel :=
  if (k.tcb t).priority < (k.tcb owner).priority then
    let k' :=
      if (k.mutex m).isElevated then k
      else k.modifyMutex m fun x =>
        { x with ownerOriginalPriority := (k.tcb owner).priority, isElevated := true }
    k'.setPriority owner (k.tcb t).priority
  else k

/-- The critical section in which `mutex_lock` and `mutex_lock_timeout` block their caller `t`:
`false` when the mutex has become free and the caller goes on to try again. -/
def mutexBlockSection (m : ℕ) (t : TaskPtr) (remaining : Option ℕ) : Option (Kernel × Bool) :=
  match (k.mutex m).task with
  | none => some (k, false)
  | some owner =>
    ((k.mutexElevate m owner t).blockOn (.mutex m) t remaining).map fun k' => (k', true)

/-- The restoration of the priority in `mutex_unlock`. -/
def mutexRestore (m : ℕ) : Kernel :=
  if (k.mutex m).isElevated then
    let k' :=
      match (k.mutex m).task with
      | some owner => k.setPriority owner (k.mutex m).ownerOriginalPriority
      | none => k
    k'.modifyMutex m fun x => { x with isElevated := false }
  else k

/-- The critical section of `mutex_unlock`. -/
def mutexReleaseSection (m : ℕ) : Kernel :=
  let (k₁, waiter) := k.wqPop (.mutex m)
  let k₂ := (k₁.mutexRestore m).modifyMutex m fun x => { x with task := none }
  match waiter with
  | some w => k₂.schedWakeTask w
  | none => k₂

end Kernel

/-- Where in a mutex call a context is. -/
inductive MutexCtl
  /-- `mutex_lock_timeout`, before it reads the clock. -/
  | enter (m : ℕ) (timeoutMs : ℕ)
  /-- Before `mutex_try_acquire` in the loop; `retry` after a wake-up. -/
  | attempt (m : ℕ) (deadline : Option ℕ) (retry : Bool)
  /-- `mutex_lock_timeout` after a failed attempt, before it reads the clock. -/
  | clock (m : ℕ) (deadline : ℕ)
  /-- Before the critical section that blocks; with a timeout, the deadline and what is left. -/
  | block (m : ℕ) (timeout : Option (ℕ × ℕ))
  /-- After `sched_block_locked`. -/
  | blocked (m : ℕ) (deadline : Option ℕ)
  /-- `mutex_lock_timeout` after a successful attempt. -/
  | acquired (m : ℕ)
  | trylock (m : ℕ)
  /-- `mutex_unlock`, before it compares the owner. -/
  | unlock (m : ℕ)
  /-- `mutex_unlock` by the owner, before its critical section. -/
  | release (m : ℕ)
  | locked (m : ℕ)
  | lockTimeoutReturned (m : ℕ) (value : ℤ)
  | trylocked (m : ℕ) (result : Bool)
  | unlocked (m : ℕ)
  deriving DecidableEq

/-- One atomic step of a mutex call; `t` is `g_current_task`. -/
def mutexStep (k : Kernel) (t : TaskPtr) : MutexCtl → Option (Kernel × MutexCtl × List Obs)
  | .enter m timeoutMs => some (k, .attempt m (some (k.deadline timeoutMs)) false, [])
  | .attempt m deadline _ =>
    match k.mutexTryAcquire m t, deadline with
    | (k', true), none => some (k', .locked m, [.mutexAcquired t m])
    | (k', true), some _ => some (k', .acquired m, [.mutexAcquired t m])
    | (k', false), none => some (k', .block m none, [])
    | (k', false), some d => some (k', .clock m d, [])
  | .clock m d =>
    if d ≤ k.ticks then some (k, .lockTimeoutReturned m (-1), [])
    else some (k, .block m (some (d, d - k.ticks)), [])
  | .block m timeout =>
    match k.mutexBlockSection m t (timeout.map Prod.snd) with
    | some (k', true) => some (k', .blocked m (timeout.map Prod.fst), [])
    | some (k', false) => some (k', .attempt m (timeout.map Prod.fst) false, [])
    | none => none
  | .blocked m deadline =>
    if deadline.isSome ∧ (k.tcb t).timedOut then
      some (k.modifyTask t fun x => { x with timedOut := false, waitListHead := none },
        .lockTimeoutReturned m (-1), [])
    else some (k, .attempt m deadline true, [])
  | .acquired m =>
    some (k.modifyTask t fun x => { x with waitListHead := none }, .lockTimeoutReturned m 0, [])
  | .trylock m =>
    match k.mutexTryAcquire m t with
    | (k', true) => some (k', .trylocked m true, [.mutexAcquired t m])
    | (k', false) => some (k', .trylocked m false, [])
  | .unlock m =>
    if (k.mutex m).task = some t then some (k, .release m, []) else some (k, .unlocked m, [])
  | .release m => some (k.mutexReleaseSection m, .unlocked m, [.mutexReleased t m])
  | .locked _ | .lockTimeoutReturned _ _ | .trylocked _ _ | .unlocked _ => none

/-- What the critical section that blocks can do: it finds the mutex free, or it raises the owner's
priority and blocks. -/
theorem mutexStep_block {k k' : Kernel} {t : TaskPtr} {m : ℕ} {timeout : Option (ℕ × ℕ)} {c' : MutexCtl}
    {o : List Obs} (h : mutexStep k t (.block m timeout) = some (k', c', o)) :
    ((k.mutex m).task = none ∧ k' = k ∧ c' = .attempt m (timeout.map Prod.fst) false ∧ o = []) ∨
    ∃ owner, (k.mutex m).task = some owner ∧
      (k.mutexElevate m owner t).blockOn (.mutex m) t (timeout.map Prod.snd) = some k' ∧
      c' = .blocked m (timeout.map Prod.fst) ∧ o = [] := by
  simp only [mutexStep, Kernel.mutexBlockSection] at h
  cases howner : (k.mutex m).task with
  | none =>
    rw [howner] at h
    cases h
    exact .inl ⟨rfl, rfl, rfl, rfl⟩
  | some owner =>
    rw [howner] at h
    dsimp only at h
    cases hb : (k.mutexElevate m owner t).blockOn (.mutex m) t (timeout.map Prod.snd) with
    | none =>
      rw [hb] at h
      cases h
    | some k₁ =>
      rw [hb] at h
      cases h
      exact .inr ⟨owner, rfl, hb, rfl, rfl⟩

end TamgaOs
