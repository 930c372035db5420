import TamgaOs.Kernel.WaitQueue

/-!
# Counting semaphores

`semaphore.c`. A call is a sequence of atomic steps, one for each critical section; `SemCtl` says
where in a call a task or an interrupt handler is.

## Main definitions

* `Kernel.semTakeSection`, `Kernel.semGive`, `Kernel.semTrytake`.
* `SemCtl`, `semStep`: the calls as atomic steps.

## Main results

* `semStep_take`: the inversion of a pass of the loop of `sem_take`.
-/

namespace TamgaOs

namespace Kernel

variable (k : Kernel)

/-- `s->count = c`. -/
def setSemCount (s : ℕ) (c : ℤ) : Kernel :=
  { k with sem := Function.update k.sem s { k.sem s with count := c } }

/-- `if (s->count < s->max) s->count++`. -/
def semIncr (s : ℕ) : Kernel :=
  if (k.sem s).count < (k.sem s).max then k.setSemCount s ((k.sem s).count + 1) else k

/-- The body of the loop of `sem_take`, run by `t`: whether a token was taken. Otherwise the
caller is blocked. -/
def semTakeSection (s : ℕ) (t : TaskPtr) : Option (Kernel × Bool) :=
  if 0 < (k.sem s).count then
    some (k.setSemCount s ((k.sem s).count - 1), true)
  else
    (k.blockOn (.sem s) t none).map fun k' => (k', false)

/-- `sem_give`. -/
def semGive (s : ℕ) : Kernel :=
  match k.wqPop (.sem s) with
  | (k', some waiter) => (k'.semIncr s).schedWakeTask waiter
  | (k', none) => k'.semIncr s

/-- The token given is lost: the count is at its maximum and nobody waits. -/
def semGiveDropped (s : ℕ) : Bool :=
  !decide ((k.sem s).count < (k.sem s).max) && (k.head (.sem s)).isNone

/-- `sem_trytake`. -/
def semTrytake (s : ℕ) : Kernel × Bool :=
  if 0 < (k.sem s).count then (k.setSemCount s ((k.sem s).count - 1), true) else (k, false)

end Kernel

/-- Where in a semaphore call a context is. -/
inductive SemCtl
  /-- `sem_take`, before its critical section; `retry` after a wake-up. -/
  | take (s : ℕ) (retry : Bool)
  /-- `sem_take`, after `sched_block_locked`. -/
  | blocked (s : ℕ)
  | give (s : ℕ)
  | trytake (s : ℕ)
  | taken (s : ℕ)
  | given (s : ℕ)
  | trytaken (s : ℕ) (result : Bool)
  deriving DecidableEq

/-- One atomic step of a semaphore call; `t` is `g_current_task`. -/
def semStep (k : Kernel) (t : TaskPtr) : SemCtl → Option (Kernel × SemCtl × List Obs)
  | .take s _ =>
    match k.semTakeSection s t with
    | some (k', true) => some (k', .taken s, [.semTaken s])
    | some (k', false) => some (k', .blocked s, [])
    | none => none
  | .blocked s => some (k, .take s true, [])
  | .give s => some (k.semGive s, .given s, [.semGiven s (k.semGiveDropped s)])
  | .trytake s =>
    match k.semTrytake s with
    | (k', true) => some (k', .trytaken s true, [.semTaken s])
    | (k', false) => some (k', .trytaken s false, [])
  | .taken _ | .given _ | .trytaken _ _ => none

/-- What a pass of the loop of `sem_take` can do: it takes a token, or it blocks. -/
theorem semStep_take {k k' : Kernel} {t : TaskPtr} {s : ℕ} {retry : Bool} {c' : SemCtl} {o : List Obs}
    (h : semStep k t (.take s retry) = some (k', c', o)) :
    (0 < (k.sem s).count ∧ k' = k.setSemCount s ((k.sem s).count - 1) ∧ c' = .taken s ∧
      o = [.semTaken s]) ∨
    ((k.sem s).count ≤ 0 ∧ k.blockOn (.sem s) t none = some k' ∧ c' = .blocked s ∧ o = []) := by
  simp only [semStep, Kernel.semTakeSection] at h
  by_cases hpos : 0 < (k.sem s).count
  · rw [if_pos hpos] at h
    cases h
    exact .inl ⟨hpos, rfl, rfl, rfl⟩
  · rw [if_neg hpos] at h
    cases hb : k.blockOn (.sem s) t none with
    | none =>
      rw [hb] at h
      cases h
    | some k₁ =>
      rw [hb] at h
      cases h
      exact .inr ⟨not_lt.1 hpos, rfl, rfl, rfl⟩

end TamgaOs
