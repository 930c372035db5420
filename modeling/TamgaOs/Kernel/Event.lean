import TamgaOs.Kernel.WaitQueue

/-!
# Event groups

`event.c`. The parameters of a wait are kept in a slot of the table `s_pending` from the moment
the task blocks until it has read its result. `event_wake_satisfied` walks the wait list of a
group through a pointer to a link, so that it can unlink the task it stands at.

## Main definitions

* `eventConditionMet`.
* `Kernel.eventPendingFind`, `Kernel.eventPendingFill`, `Kernel.eventPendingFree`.
* `Kernel.eventWakeLoop`, `Kernel.eventSet`, `Kernel.eventWaitSection`.
* `EventCtl`, `eventStep`: the calls as atomic steps.

## Main results

* `eventStep_loop`: the inversion of the critical section of a wait.
-/

namespace TamgaOs

/-- `event_condition_met`. -/
def eventConditionMet (bits mask : BitVec 32) : EventWaitMode → Bool
  | .all => bits &&& mask == mask
  | .any => bits &&& mask != 0

/-- `EVENT_PENDING_MAX`. -/
def eventPendingMax : ℕ := 12

/-- The address of a `task_t *` variable: the head of a list or the link of a control block. -/
inductive Link
  | head (l : WaitList)
  | next (t : TaskPtr)
  deriving DecidableEq

/-- A wait granted by `event_wake_satisfied`. -/
structure EventGrant where
  task : TaskPtr
  wait : EventWait
  observed : BitVec 32

/-- The wait described by a slot of the table. -/
def EventPending.wait (p : EventPending) : EventWait := ⟨p.group, p.mask, p.mode, p.autoClear⟩

namespace Kernel

variable (k : Kernel)

/-- `*link`. -/
def load : Link → Option TaskPtr
  | .head l => k.head l
  | .next t => k.waitNext t

/-- `*link = p`. -/
def store (link : Link) (p : Option TaskPtr) : Kernel :=
  match link with
  | .head l => k.setHead l p
  | .next t => k.setWaitNext t p

/-- `e->bits = b`. -/
def setEventBits (e : ℕ) (b : BitVec 32) : Kernel :=
  { k with group := Function.update k.group e { k.group e with bits := b } }

/-- A store to fields of a slot of `s_pending`. -/
def modifyPending (i : ℕ) (f : EventPending → EventPending) : Kernel :=
  { k with pending := Function.update k.pending i (f (k.pending i)) }

/-- `event_pending_find`: the index of the slot. -/
def eventPendingFind (t : TaskPtr) : Option ℕ :=
  (List.range eventPendingMax).find? fun i => (k.pending i).task = some t

/-- The free slot that `event_pending_alloc` takes. -/
def eventPendingSlot : Option ℕ :=
  (List.range eventPendingMax).find? fun i => (k.pending i).task = none

/-- `event_pending_alloc` for `t`, and the stores with which the caller fills the slot. -/
def eventPendingFill (i : ℕ) (t : TaskPtr) (w : EventWait) : Kernel :=
  k.modifyPending i fun p =>
    { p with
      task := some t, group := w.group, mask := w.mask, mode := w.mode
      autoClear := w.autoClear }

/-- `event_pending_free`. -/
def eventPendingFree (i : ℕ) : Kernel := k.modifyPending i fun p => { p with task := none }

/-- `if (auto_clear) e->bits &= ~mask`. -/
def eventAutoClear (w : EventWait) : Kernel :=
  if w.autoClear then k.setEventBits w.group ((k.group w.group).bits &&& ~~~w.mask) else k

/-- The body of the loop of `event_wake_satisfied` for a waiter `t` whose condition is met: `link`
points to `t`, and `i` is its slot. The bits that are cleared are those of the group `e` whose list
is walked. -/
def eventGrant (e : ℕ) (link : Link) (t : TaskPtr) (i : ℕ) : Kernel :=
  let p := k.pending i
  let k := k.modifyPending i fun p => { p with observedBits := (k.group e).bits }
  let k := k.eventAutoClear ⟨e, p.mask, p.mode, p.autoClear⟩
  let k := k.store link (k.waitNext t)
  let k := k.modifyTask t fun x => { x with waitNext := none, waitListHead := none }
  k.schedWakeTask t

/-- The slot of the waiter `t` when its condition is met by the bits of the group `e`. -/
def eventSatisfied (e : ℕ) (t : TaskPtr) : Option ℕ :=
  match k.eventPendingFind t with
  | some i =>
    if eventConditionMet (k.group e).bits (k.pending i).mask (k.pending i).mode then some i
    else none
  | none => none

/-- The loop of `event_wake_satisfied`, with the waits it grants in their order; `none` when the
loop test has been evaluated `fuel` times. -/
def eventWakeLoop (e : ℕ) : ℕ → Link → Kernel → Option (Kernel × List EventGrant)
  | 0, _, _ => none
  | fuel + 1, cur, k =>
    match k.load cur with
    | none => some (k, [])
    | some t =>
      match k.eventSatisfied e t with
      | some i =>
        (eventWakeLoop e fuel cur (k.eventGrant e cur t i)).map fun (k', gs) =>
          (k', ⟨t, (k.pending i).wait, (k.group e).bits⟩ :: gs)
      | none => eventWakeLoop e fuel (.next t) k

/-- `event_wake_satisfied`. -/
def eventWakeSatisfied (e : ℕ) : Option (Kernel × List EventGrant) :=
  eventWakeLoop e k.walkFuel (.head (.event e)) k

/-- `event_set`. -/
def eventSet (e : ℕ) (bitsToSet : BitVec 32) : Option (Kernel × List EventGrant) :=
  (k.setEventBits e ((k.group e).bits ||| bitsToSet)).eventWakeSatisfied e

/-- `event_clear`. -/
def eventClear (e : ℕ) (bitsToClear : BitVec 32) : Kernel :=
  k.setEventBits e ((k.group e).bits &&& ~~~bitsToClear)

/-- How the critical section of an event wait ends. -/
inductive EventOutcome
  | granted (observed : BitVec 32)
  | expired
  | noSlot
  | blocked (slot : ℕ)

/-- The critical section of `event_wait` and, with a deadline, of `event_wait_timeout`, run by
`t`. Without a deadline the caller clears its `wait_list_head`. -/
def eventWaitSection (w : EventWait) (t : TaskPtr) (deadline : Option ℕ) :
    Option (Kernel × EventOutcome) :=
  if eventConditionMet (k.group w.group).bits w.mask w.mode then
    some (k.eventAutoClear w, .granted (k.group w.group).bits)
  else if deadline.any fun d => decide (d ≤ k.ticks) then
    some (k, .expired)
  else
    match k.eventPendingSlot with
    | none => some (k, .noSlot)
    | some i =>
      let k₁ := k.eventPendingFill i t w
      let k₂ :=
        match deadline with
        | none => k₁.modifyTask t fun x => { x with waitListHead := none }
        | some _ => k₁
      (k₂.blockOn (.event w.group) t (deadline.map fun d => d - k.ticks)).map fun k' =>
        (k', .blocked i)

end Kernel

/-- Why an event wait returns. -/
inductive EventReturn
  /-- The event has been observed. -/
  | granted (observed : BitVec 32)
  /-- The time is over. -/
  | expired
  /-- The table of pending waits is full. -/
  | noSlot
  deriving DecidableEq

/-- The value that an event wait returns. -/
def EventReturn.value : EventReturn → BitVec 32
  | .granted observed => observed
  | .expired | .noSlot => 0xFFFFFFFF

/-- Where in an event call a context is. -/
inductive EventCtl
  | set (e : ℕ) (bits : BitVec 32)
  | clear (e : ℕ) (bits : BitVec 32)
  | get (e : ℕ)
  /-- `event_wait_timeout`, before it reads the clock. -/
  | enter (w : EventWait) (timeoutMs : ℕ)
  /-- A wait before its critical section. -/
  | loop (w : EventWait) (deadline : Option ℕ)
  /-- A wait after `sched_block_locked`; `slot` is the slot that `pend` points to. -/
  | blocked (w : EventWait) (deadline : Option ℕ) (slot : ℕ)
  | done
  | got (e : ℕ) (bits : BitVec 32)
  | returned (w : EventWait) (r : EventReturn)
  deriving DecidableEq

/-- One atomic step of an event call; `t` is `g_current_task`. -/
def eventStep (k : Kernel) (t : TaskPtr) : EventCtl → Option (Kernel × EventCtl × List Obs)
  | .set e bits =>
    (k.eventSet e bits).map fun (k', gs) =>
      (k', .done, .eventSet e bits :: gs.map fun g => .eventGranted g.task g.wait g.observed)
  | .clear e bits => some (k.eventClear e bits, .done, [.eventCleared e bits])
  | .get e => some (k, .got e (k.group e).bits, [])
  | .enter w timeoutMs => some (k, .loop w (some (k.deadline timeoutMs)), [])
  | .loop w deadline =>
    match k.eventWaitSection w t deadline with
    | some (k', .granted v) => some (k', .returned w (.granted v), [.eventGranted t w v])
    | some (k', .expired) => some (k', .returned w .expired, [])
    | some (k', .noSlot) =>
      match deadline with
      | none => some (k', .loop w none, [])
      | some _ => some (k', .returned w .noSlot, [])
    | some (k', .blocked i) => some (k', .blocked w deadline i, [])
    | none => none
  | .blocked w deadline i =>
    if deadline.isSome ∧ (k.tcb t).timedOut then
      some ((k.modifyTask t fun x =>
          { x with timedOut := false, waitListHead := none }).eventPendingFree i,
        .returned w .expired, [])
    else
      some (k.eventPendingFree i, .returned w (.granted (k.pending i).observedBits), [])
  | .done | .got _ _ | .returned _ _ => none

/-- The state in which an event wait blocks: its slot is filled, and without a deadline the caller has
cleared its `wait_list_head`. -/
def Kernel.eventPrepared (k : Kernel) (i : ℕ) (t : TaskPtr) (w : EventWait) (deadline : Option ℕ) :
    Kernel :=
  match deadline with
  | none => (k.eventPendingFill i t w).modifyTask t fun x => { x with waitListHead := none }
  | some _ => k.eventPendingFill i t w

theorem Kernel.eventPrepared_none (k : Kernel) (i : ℕ) (t : TaskPtr) (w : EventWait) :
    k.eventPrepared i t w none =
      (k.eventPendingFill i t w).modifyTask t fun x => { x with waitListHead := none } :=
  rfl

/-- What the critical section of an event wait can do: it finds the condition met, it finds the deadline
passed, it finds no slot, or it blocks. -/
theorem eventStep_loop {k k' : Kernel} {t : TaskPtr} {w : EventWait} {deadline : Option ℕ} {c' : EventCtl}
    {o : List Obs} (h : eventStep k t (.loop w deadline) = some (k', c', o)) :
    (eventConditionMet (k.group w.group).bits w.mask w.mode = true ∧ k' = k.eventAutoClear w ∧
      c' = .returned w (.granted (k.group w.group).bits) ∧
      o = [.eventGranted t w (k.group w.group).bits]) ∨
    (eventConditionMet (k.group w.group).bits w.mask w.mode = false ∧
      ((∃ d, deadline = some d ∧ d ≤ k.ticks ∧ k' = k ∧ c' = .returned w .expired ∧ o = []) ∨
      ((∀ d, deadline = some d → k.ticks < d) ∧
        ((k.eventPendingSlot = none ∧ k' = k ∧
          c' = (if deadline.isSome then .returned w .noSlot else .loop w none) ∧ o = []) ∨
        ∃ i, k.eventPendingSlot = some i ∧
          (k.eventPrepared i t w deadline).blockOn (.event w.group) t
            (deadline.map fun d => d - k.ticks) = some k' ∧
          c' = .blocked w deadline i ∧ o = [])))) := by
  simp only [eventStep, Kernel.eventWaitSection] at h
  by_cases hmet : eventConditionMet (k.group w.group).bits w.mask w.mode = true
  · rw [if_pos hmet] at h
    cases h
    exact .inl ⟨hmet, rfl, rfl, rfl⟩
  rw [if_neg hmet] at h
  refine .inr ⟨Bool.eq_false_iff.2 hmet, ?_⟩
  by_cases hexp : (deadline.any fun d => decide (d ≤ k.ticks)) = true
  · rw [if_pos hexp] at h
    cases h
    obtain ⟨d, hd, hle⟩ := (Option.any_eq_true _ _).1 hexp
    exact .inl ⟨d, hd, of_decide_eq_true hle, rfl, rfl, rfl⟩
  rw [if_neg hexp] at h
  refine .inr ⟨fun d hd => ?_, ?_⟩
  · subst hd
    simpa using hexp
  cases hslot : k.eventPendingSlot with
  | none =>
    rw [hslot] at h
    cases deadline <;> cases h <;> exact .inl ⟨rfl, rfl, rfl, rfl⟩
  | some i =>
    simp only [hslot] at h
    cases deadline with
    | none =>
      generalize hb : Kernel.blockOn _ _ _ _ = r at h
      cases r <;> cases h
      exact .inr ⟨i, rfl, hb, rfl, rfl⟩
    | some d =>
      generalize hb : Kernel.blockOn _ _ _ _ = r at h
      cases r <;> cases h
      exact .inr ⟨i, rfl, hb, rfl, rfl⟩

end TamgaOs
