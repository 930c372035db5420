import Mathlib.Data.Int.Notation
import Mathlib.Data.Nat.Notation
import Mathlib.Tactic.Common
import Mathlib.Logic.Function.Basic
import Mathlib.Order.Basic
import Mathlib.Algebra.Order.Ring.Nat

/-!
# Software timers

`timer.c`: sixteen timers whose deadlines are compared with the millisecond counter by the sign of
the 32-bit difference. `timer_service_tick` runs in the tick handler, and in the idle task after a
sleep, in both cases outside a critical section.

## Main definitions

* `Timer`, `Timers`: `timer_t` and the table `s_timers`.
* `int32Sub`: the signed difference of two counter values.
* `TimerOp`: the calls by which an application changes the table.
* `Timers.serviceTickWith`, `Timers.getNextReadyInMs`; a callback may call `timer.c` itself.
* `Timers.serviceTick`: the service when none does.
-/

namespace TamgaOs

/-- `TIMER_MAX_COUNT`. -/
def timerMaxCount : ℕ := 16

/-- `(int32_t)(a - b)`. -/
def int32Sub (a b : ℕ) : ℤ := Int.bmod ((a : ℤ) - b) (2 ^ 32)

/-- `timer_t`. A callback is the address of a function. -/
structure Timer where
  inUse : Bool := false
  active : Bool := false
  autoReload : Bool := false
  periodMs : ℕ := 0
  deadlineMs : ℕ := 0
  callback : Option ℕ := none
  arg : ℕ := 0
  deriving DecidableEq

/-- A call `cb(arg)` for the timer at an index, and the counter at the call. -/
structure TimerCall where
  index : ℕ
  callback : ℕ
  arg : ℕ
  ticks : ℕ
  deriving DecidableEq

namespace Timer

variable (x : Timer)

/-- `in_use && active`. -/
def running : Bool := x.inUse && x.active

/-- The test of `timer_service_tick`. -/
def due (now : ℕ) : Bool := decide (0 ≤ int32Sub now x.deadlineMs)

/-- What `timer_service_tick` stores when the timer is due. -/
def reload : Timer :=
  if x.autoReload then { x with deadlineMs := (x.deadlineMs + x.periodMs) % 2 ^ 32 }
  else { x with active := false }

/-- The call of the callback for the timer at the index `i`. -/
def calls (i now : ℕ) : List TimerCall :=
  match x.callback with
  | some cb => [⟨i, cb, x.arg, now⟩]
  | none => []

/-- `remaining_ms` in `timer_get_next_ready_in_ms`. -/
def remainingMs (now : ℕ) : ℕ := (int32Sub x.deadlineMs now).toNat

end Timer

/-- `s_timers`. -/
abbrev Timers : Type := ℕ → Timer

/-- The calls of `timer.c` that change the table. -/
inductive TimerOp
  | create (periodMs : ℕ) (autoReload : Bool) (callback : Option ℕ) (arg : ℕ)
  | start (handle : ℤ)
  | stop (handle : ℤ)
  | setPeriod (handle : ℤ) (periodMs : ℕ)
  | delete (handle : ℤ)
  deriving DecidableEq

namespace Timers

variable (ts : Timers)

/-- A store to fields of the timer at the index `i`. -/
def modify (i : ℕ) (f : Timer → Timer) : Timers := Function.update ts i (f (ts i))

/-- The free slot that `timer_create` takes. -/
def freeSlot : Option ℕ := (List.range timerMaxCount).find? fun i => !(ts i).inUse

/-- `timer_create`: the table and the handle. -/
def create (periodMs : ℕ) (autoReload : Bool) (callback : Option ℕ) (arg : ℕ) : Timers × ℤ :=
  match callback, ts.freeSlot with
  | some cb, some i =>
    (ts.modify i fun _ =>
      { inUse := true, active := false, autoReload := autoReload, periodMs := periodMs
        deadlineMs := 0, callback := some cb, arg := arg }, i)
  | _, _ => (ts, -1)

/-- The index of a handle that passes the range check and whose slot is in use. -/
def slotOf (handle : ℤ) : Option ℕ :=
  if handle < 0 ∨ timerMaxCount ≤ handle then none
  else if (ts handle.toNat).inUse then some handle.toNat
  else none

/-- A store to fields of the timer that a handle denotes. -/
def onHandle (handle : ℤ) (f : Timer → Timer) : Timers :=
  match ts.slotOf handle with
  | some i => ts.modify i f
  | none => ts

/-- `timer_start` when the counter is `now`. -/
def start (now : ℕ) (handle : ℤ) : Timers :=
  ts.onHandle handle fun x =>
    { x with deadlineMs := (now + x.periodMs) % 2 ^ 32, active := true }

/-- `timer_stop`. -/
def stop (handle : ℤ) : Timers := ts.onHandle handle fun x => { x with active := false }

/-- `timer_set_period`. -/
def setPeriod (handle : ℤ) (periodMs : ℕ) : Timers :=
  ts.onHandle handle fun x => { x with periodMs := periodMs }

/-- `timer_delete`. It stores to a slot that is not in use, too. -/
def delete (handle : ℤ) : Timers :=
  if handle < 0 ∨ timerMaxCount ≤ handle then ts
  else ts.modify handle.toNat fun x => { x with inUse := false, active := false }

/-- The table after a call when the counter is `now`. -/
def call (now : ℕ) : TimerOp → Timers
  | .create periodMs autoReload callback arg => (ts.create periodMs autoReload callback arg).1
  | .start handle => ts.start now handle
  | .stop handle => ts.stop handle
  | .setPeriod handle periodMs => ts.setPeriod handle periodMs
  | .delete handle => ts.delete handle

/-- The table after a callback has made its calls, each when the counter is what it reads. -/
def callback (calls : List (ℕ × TimerOp)) : Timers := calls.foldl (fun ts p => ts.call p.1 p.2) ts

/-- The table after the callbacks `cs`. The calls that a callback makes are `body`, which may look at
the table. -/
def callbacks (body : TimerCall → Timers → List (ℕ × TimerOp)) (cs : List TimerCall) : Timers :=
  cs.foldl (fun ts c => ts.callback (body c ts)) ts

/-- The body of the loop of `timer_service_tick`, with the calls of the callbacks so far. The timer is
stored before the callback runs. -/
def serviceTimerWith (body : TimerCall → Timers → List (ℕ × TimerOp)) (now : ℕ)
    (acc : Timers × List TimerCall) (i : ℕ) : Timers × List TimerCall :=
  let x := acc.1 i
  if x.running && x.due now then
    ((acc.1.modify i Timer.reload).callbacks body (x.calls i now), acc.2 ++ x.calls i now)
  else acc

/-- `timer_service_tick` when the counter is `now`, with the calls of the callbacks. -/
def serviceTickWith (body : TimerCall → Timers → List (ℕ × TimerOp)) (now : ℕ) :
    Timers × List TimerCall :=
  (List.range timerMaxCount).foldl (serviceTimerWith body now) (ts, [])

/-- `timer_service_tick` when the callbacks do not call `timer.c`. -/
def serviceTick (now : ℕ) : Timers × List TimerCall := ts.serviceTickWith (fun _ _ => []) now

/-- The body of the loop of `timer_get_next_ready_in_ms`. -/
def nextReady (now soonest i : ℕ) : ℕ :=
  if (ts i).running then
    if (ts i).remainingMs now < soonest then (ts i).remainingMs now else soonest
  else soonest

/-- `timer_get_next_ready_in_ms` when the counter was `now`. -/
def getNextReadyInMs (now : ℕ) : ℕ := (List.range timerMaxCount).foldl (ts.nextReady now) 0xFFFFFFFF

/-- Some timer is due. -/
def anyDue (now : ℕ) : Bool :=
  (List.range timerMaxCount).any fun i => (ts i).running && (ts i).due now

/-- The callbacks that `timer_service_tick` calls. -/
def dueCalls (now : ℕ) (is : List ℕ) : List TimerCall :=
  is.flatMap fun i => if (ts i).running && (ts i).due now then (ts i).calls i now else []

end Timers

/-! ### Due timers -/

variable {x : Timer} {ts : Timers} {now j i : ℕ}

theorem int32Sub_eq (a b : ℕ) : int32Sub a b =
    if ((a : ℤ) - b) % 4294967296 < 2147483648 then ((a : ℤ) - b) % 4294967296
    else ((a : ℤ) - b) % 4294967296 - 4294967296 := by
  simp [int32Sub, Int.bmod_def]

/-- A timer is not due before its remaining time has passed, whatever the counter is. -/
theorem Timer.not_due_of_lt (h : j < x.remainingMs now) : x.due ((now + j) % 2 ^ 32) = false := by
  unfold remainingMs at h
  rw [int32Sub_eq] at h
  unfold due
  rw [decide_eq_false_iff_not, int32Sub_eq]
  split_ifs at h ⊢ <;> omega

/-- Time that passes shortens the remaining time. -/
theorem Timer.remainingMs_pos_of_lt (h : j < x.remainingMs now) :
    0 < x.remainingMs ((now + j) % 2 ^ 32) := by
  unfold remainingMs at h ⊢
  rw [int32Sub_eq] at h ⊢
  split_ifs at h ⊢ <;> omega

namespace Timers

theorem serviceTimerWith_of_not_due {body : TimerCall → Timers → List (ℕ × TimerOp)}
    {acc : Timers × List TimerCall} (h : ((acc.1 i).running && (acc.1 i).due now) = false) :
    serviceTimerWith body now acc i = acc := by
  unfold serviceTimerWith
  dsimp only
  rw [h]
  exact if_neg Bool.false_ne_true

/-- Nothing happens when no timer is due. -/
theorem serviceTickWith_of_none {body : TimerCall → Timers → List (ℕ × TimerOp)}
    (h : ts.anyDue now = false) : ts.serviceTickWith body now = (ts, []) := by
  have hloop : ∀ is : List ℕ, (∀ i ∈ is, ((ts i).running && (ts i).due now) = false) →
      is.foldl (serviceTimerWith body now) (ts, []) = (ts, []) := by
    intro is
    induction is with
    | nil => exact fun _ => rfl
    | cons i is ih =>
      intro hnone
      rw [List.foldl_cons, serviceTimerWith_of_not_due (hnone i List.mem_cons_self)]
      exact ih fun j hj => hnone j (List.mem_cons_of_mem i hj)
  refine hloop _ fun i hi => ?_
  unfold anyDue at h
  exact List.any_eq_false.1 h i hi |> Bool.eq_false_iff.2

/-- The pass of the loop for one timer when the callbacks make no calls. -/
theorem serviceTimerWith_nil {acc : Timers × List TimerCall} :
    serviceTimerWith (fun _ _ => []) now acc i =
      if (acc.1 i).running && (acc.1 i).due now then
        (acc.1.modify i Timer.reload, acc.2 ++ (acc.1 i).calls i now)
      else acc := by
  have hnone : ∀ (cs : List TimerCall) (ts : Timers), ts.callbacks (fun _ _ => []) cs = ts := by
    intro cs
    induction cs with
    | nil => exact fun _ => rfl
    | cons c cs ih => exact fun ts => ih ts
  unfold serviceTimerWith
  dsimp only
  rw [hnone]

/-- Every timer is served by its own pass through the loop. -/
theorem serviceTick_calls : (ts.serviceTick now).2 = ts.dueCalls now (List.range timerMaxCount) := by
  have hloop : ∀ (is : List ℕ) (ts' : Timers) (o : List TimerCall), is.Nodup →
      (∀ i ∈ is, ts' i = ts i) →
      (is.foldl (serviceTimerWith (fun _ _ => []) now) (ts', o)).2 = o ++ ts.dueCalls now is := by
    intro is
    induction is with
    | nil => exact fun ts' o _ _ => (List.append_nil o).symm
    | cons i is ih =>
      intro ts' o hnodup hsame
      obtain ⟨hi, hnodup⟩ := List.nodup_cons.1 hnodup
      have hrest : ∀ j ∈ is, ts' j = ts j := fun j hj => hsame j (List.mem_cons_of_mem i hj)
      have hone := hsame i List.mem_cons_self
      have hstep : serviceTimerWith (fun _ _ => []) now (ts', o) i =
          if (ts i).running && (ts i).due now then
            (ts'.modify i Timer.reload, o ++ (ts i).calls i now)
          else (ts', o) := by
        simp only [serviceTimerWith_nil, hone]
      rw [List.foldl_cons, hstep, dueCalls, List.flatMap_cons]
      split_ifs
      · rw [ih _ _ hnodup fun j hj => ?_, List.append_assoc]
        · rfl
        · have hne : j ≠ i := fun he => hi (he ▸ hj)
          exact (Function.update_of_ne hne ..).trans (hrest j hj)
      · rw [ih _ _ hnodup hrest]
        rfl
  exact hloop _ _ _ List.nodup_range fun _ _ => rfl

/-- What `timer_service_tick` stores to a timer. -/
theorem serviceTick_timer : (ts.serviceTick now).1 j =
    if j < timerMaxCount ∧ (ts j).running = true ∧ (ts j).due now = true then (ts j).reload
    else ts j := by
  have hloop : ∀ (is : List ℕ) (acc : Timers × List TimerCall), is.Nodup →
      (is.foldl (serviceTimerWith (fun _ _ => []) now) acc).1 j =
        if j ∈ is ∧ (acc.1 j).running = true ∧ (acc.1 j).due now = true then (acc.1 j).reload
        else acc.1 j := by
    intro is
    induction is with
    | nil => intro acc _; simp
    | cons i is ih =>
      intro acc hnodup
      obtain ⟨hi, hnodup⟩ := List.nodup_cons.1 hnodup
      have hstep : (serviceTimerWith (fun _ _ => []) now acc i).1 j =
          if j = i ∧ (acc.1 j).running = true ∧ (acc.1 j).due now = true then (acc.1 j).reload
          else acc.1 j := by
        rw [serviceTimerWith_nil]
        by_cases hj : j = i
        · subst hj
          by_cases hc : (acc.1 j).running = true ∧ (acc.1 j).due now = true
          · rw [if_pos (by simp [hc]), if_pos ⟨rfl, hc⟩]
            exact Function.update_self ..
          · rw [if_neg (by simpa using hc), if_neg fun h => hc h.2]
        · rw [if_neg (show ¬(j = i ∧ _) from fun h => hj h.1)]
          split_ifs
          · exact Function.update_of_ne hj ..
          · rfl
      rw [List.foldl_cons, ih _ hnodup, hstep]
      by_cases hj : j = i
      · subst hj
        rw [if_neg fun h => hi h.1]
        simp
      · simp [hj]
  rw [serviceTick, serviceTickWith, hloop _ _ List.nodup_range]
  simp only [List.mem_range]

/-- The number of calls for one timer. -/
theorem countP_dueCalls {is : List ℕ} (h : is.Nodup) :
    (ts.dueCalls now is).countP (fun c => decide (c.index = j)) =
      if j ∈ is ∧ (ts j).running = true ∧ (ts j).due now = true then
        (ts j).callback.isSome.toNat else 0 := by
  induction is with
  | nil => simp [dueCalls]
  | cons i is ih =>
    obtain ⟨hi, hnodup⟩ := List.nodup_cons.1 h
    have hone : ((if (ts i).running && (ts i).due now then (ts i).calls i now else []).countP
        fun c => decide (c.index = j)) =
        if j = i ∧ (ts j).running = true ∧ (ts j).due now = true then
          (ts j).callback.isSome.toNat else 0 := by
      by_cases hj : j = i
      · subst hj
        by_cases hc : (ts j).running = true ∧ (ts j).due now = true
        · rw [if_pos (by simp [hc]), if_pos ⟨rfl, hc⟩, Timer.calls]
          cases (ts j).callback <;> simp
        · rw [if_neg (by simpa using hc), if_neg fun h => hc h.2]
          rfl
      · rw [if_neg (show ¬(j = i ∧ _) from fun h => hj h.1)]
        split_ifs
        · rw [Timer.calls]
          cases (ts i).callback <;> simp [Ne.symm hj]
        · rfl
    have ih' := ih hnodup
    rw [dueCalls] at ih' ⊢
    rw [List.flatMap_cons, List.countP_append, hone, ih']
    by_cases hj : j = i
    · subst hj
      simp [hi]
    · simp [hj]

/-- The time that `timer_get_next_ready_in_ms` returns is over for no running timer. -/
theorem getNextReadyInMs_le (hi : i < timerMaxCount) (hrun : (ts i).running = true) :
    ts.getNextReadyInMs now ≤ (ts i).remainingMs now := by
  have hone : ∀ soonest j, ts.nextReady now soonest j ≤ soonest := by
    intro soonest j
    unfold nextReady
    split_ifs with h h' <;> omega
  have hloop : ∀ (is : List ℕ) (soonest : ℕ), is.foldl (ts.nextReady now) soonest ≤ soonest ∧
      (i ∈ is → is.foldl (ts.nextReady now) soonest ≤ (ts i).remainingMs now) := by
    intro is
    induction is with
    | nil => exact fun _ => ⟨le_rfl, fun h => by cases h⟩
    | cons j is ih =>
      intro soonest
      obtain ⟨hle, hmem⟩ := ih (ts.nextReady now soonest j)
      refine ⟨hle.trans (hone soonest j), fun hj => ?_⟩
      rcases List.mem_cons.1 hj with rfl | hj
      · refine hle.trans ?_
        unfold nextReady
        rw [if_pos hrun]
        split_ifs <;> omega
      · exact hmem hj
  exact (hloop _ _).2 (List.mem_range.2 hi)

theorem getNextReadyInMs_pos
    (h : ∀ i < timerMaxCount, (ts i).running = true → 0 < (ts i).remainingMs now) :
    0 < ts.getNextReadyInMs now := by
  have hloop : ∀ (is : List ℕ) (soonest : ℕ), (∀ i ∈ is, i < timerMaxCount) → 0 < soonest →
      0 < is.foldl (ts.nextReady now) soonest := by
    intro is
    induction is with
    | nil => exact fun _ _ hpos => hpos
    | cons i is ih =>
      intro soonest hlt hpos
      refine ih _ (fun j hj => hlt j (List.mem_cons_of_mem i hj)) ?_
      unfold nextReady
      split_ifs with hrun
      · exact h i (hlt i List.mem_cons_self) hrun
      · exact hpos
      · exact hpos
  exact hloop _ _ (fun i => List.mem_range.1) (by decide)

/-- No timer is due before the time that `timer_get_next_ready_in_ms` returns is over. -/
theorem anyDue_of_lt (h : j < ts.getNextReadyInMs now) :
    ts.anyDue ((now + j) % 2 ^ 32) = false := by
  unfold anyDue
  rw [List.any_eq_false]
  intro i hi hc
  obtain ⟨hrun, hdue⟩ := (Bool.and_eq_true _ _).mp hc
  rw [Timer.not_due_of_lt (h.trans_le (getNextReadyInMs_le (List.mem_range.1 hi) hrun))] at hdue
  cases hdue

end Timers

/-! ### What a call changes -/

namespace TimerOp

/-- The timer that a call creates or starts. -/
def starts (ts : Timers) : TimerOp → Option ℕ
  | create _ _ (some _) _ => ts.freeSlot
  | start handle => ts.slotOf handle
  | create _ _ none _ | stop _ | setPeriod _ _ | delete _ => none

/-- The timer whose period a call sets. -/
def paces (ts : Timers) : TimerOp → Option ℕ
  | setPeriod handle _ => ts.slotOf handle
  | create _ _ _ _ | start _ | stop _ | delete _ => none

end TimerOp

/-- `y` is `x` with another period, perhaps stopped or deleted. -/
structure Timer.Unstarted (x y : Timer) : Prop where
  autoReload : y.autoReload = x.autoReload
  deadlineMs : y.deadlineMs = x.deadlineMs
  active : y.active = true → x.active = true

namespace Timers

theorem onHandle_timer (handle : ℤ) (f : Timer → Timer) :
    ts.onHandle handle f j = if ts.slotOf handle = some j then f (ts j) else ts j := by
  unfold onHandle
  cases h : ts.slotOf handle with
  | none => simp
  | some i =>
    by_cases hj : j = i
    · subst hj
      simp [modify]
    · rw [if_neg (by simpa using Ne.symm hj)]
      exact Function.update_of_ne hj ..

/-- A call that does not start the timer. -/
theorem unstarted_call {op : TimerOp} (h : op.starts ts ≠ some j) :
    (ts j).Unstarted (ts.call now op j) ∧
      (op.paces ts ≠ some j → (ts.call now op j).periodMs = (ts j).periodMs) := by
  have hsame : (ts j).Unstarted (ts j) := ⟨rfl, rfl, fun h => h⟩
  cases op with
  | create periodMs autoReload callback arg =>
    have hother : ts.call now (.create periodMs autoReload callback arg) j = ts j := by
      show (ts.create periodMs autoReload callback arg).1 j = ts j
      unfold create
      cases callback with
      | none => rfl
      | some cb =>
        cases hslot : ts.freeSlot with
        | none => rfl
        | some i =>
          refine Function.update_of_ne (fun he => h ?_) ..
          rw [he]
          exact hslot
    rw [hother]
    exact ⟨hsame, fun _ => rfl⟩
  | start handle =>
    have hother : ts.call now (.start handle) j = ts j :=
      (onHandle_timer handle _).trans (if_neg h)
    rw [hother]
    exact ⟨hsame, fun _ => rfl⟩
  | stop handle =>
    show (ts j).Unstarted (ts.onHandle handle _ j) ∧ (_ → (ts.onHandle handle _ j).periodMs = _)
    rw [onHandle_timer]
    split_ifs
    · exact ⟨⟨rfl, rfl, fun h => by cases h⟩, fun _ => rfl⟩
    · exact ⟨hsame, fun _ => rfl⟩
  | setPeriod handle periodMs =>
    show (ts j).Unstarted (ts.onHandle handle _ j) ∧ (_ → (ts.onHandle handle _ j).periodMs = _)
    rw [onHandle_timer]
    split_ifs with hslot
    · exact ⟨⟨rfl, rfl, fun h => h⟩, fun hp => absurd hslot hp⟩
    · exact ⟨hsame, fun _ => rfl⟩
  | delete handle =>
    show (ts j).Unstarted (ts.delete handle j) ∧ (_ → (ts.delete handle j).periodMs = _)
    unfold delete
    split_ifs
    · exact ⟨hsame, fun _ => rfl⟩
    · by_cases hj : j = handle.toNat
      · subst hj
        rw [modify, Function.update_self]
        exact ⟨⟨rfl, rfl, fun h => by cases h⟩, fun _ => rfl⟩
      · rw [modify, Function.update_of_ne hj]
        exact ⟨hsame, fun _ => rfl⟩

end Timers

namespace Timers

/-- A timer in use has a callback: `timer_create` refuses to make one without. -/
def Callable (ts : Timers) : Prop := ∀ i, (ts i).inUse = true → (ts i).callback.isSome

/-- Every table that `timer.c` makes is callable. -/
theorem Callable.call {op : TimerOp} (h : ts.Callable) : (ts.call now op).Callable := by
  intro i huse
  have honHandle : ∀ (handle : ℤ) (f : Timer → Timer), (f (ts i)).inUse = (ts i).inUse →
      (f (ts i)).callback = (ts i).callback → (ts.onHandle handle f i).inUse = true →
      (ts.onHandle handle f i).callback.isSome := by
    intro handle f hin hcb
    rw [onHandle_timer]
    split_ifs
    · rw [hin, hcb]
      exact h i
    · exact h i
  cases op with
  | create periodMs autoReload callback arg =>
    revert huse
    show ((ts.create periodMs autoReload callback arg).1 i).inUse = true →
      ((ts.create periodMs autoReload callback arg).1 i).callback.isSome
    unfold create
    split
    · rename_i k _
      by_cases hik : i = k
      · subst hik
        exact fun _ => by simp [modify]
      · simp only [modify, Function.update_of_ne hik]
        exact h i
    · exact h i
  | start handle => exact honHandle handle _ rfl rfl huse
  | stop handle => exact honHandle handle _ rfl rfl huse
  | setPeriod handle periodMs => exact honHandle handle _ rfl rfl huse
  | delete handle =>
    revert huse
    show (ts.delete handle i).inUse = true → (ts.delete handle i).callback.isSome
    unfold delete
    split_ifs
    · exact h i
    · by_cases hi : i = handle.toNat
      · subst hi
        intro huse
        simp [modify] at huse
      · simp only [modify, Function.update_of_ne hi]
        exact h i

end Timers

/-! ### Callbacks that call the service -/

/-- A call that does not start, stop, re-period or delete the timer at the index `j`. A timer in use
is no free slot for `timer_create`. -/
def TimerOp.Spares (j : ℕ) : TimerOp → Prop
  | create _ _ _ _ => True
  | start handle | stop handle | setPeriod handle _ | delete handle => handle ≠ j

instance (j : ℕ) : DecidablePred (TimerOp.Spares j) := fun op => by
  cases op <;> unfold TimerOp.Spares <;> infer_instance

namespace Timers

/-- Every callback spares the timer at the index `j`. -/
def BodySpares (j : ℕ) (body : TimerCall → Timers → List (ℕ × TimerOp)) : Prop :=
  ∀ c ts, ∀ p ∈ body c ts, p.2.Spares j

variable {body : TimerCall → Timers → List (ℕ × TimerOp)}

theorem slotOf_eq_some {handle : ℤ} (h : ts.slotOf handle = some j) :
    handle = j ∧ j < timerMaxCount ∧ (ts j).inUse = true := by
  unfold slotOf at h
  split_ifs at h with hrange huse
  obtain rfl : handle.toNat = j := Option.some.inj h
  refine ⟨by omega, by omega, huse⟩

theorem freeSlot_ne (h : (ts j).inUse = true) : ts.freeSlot ≠ some j := by
  intro hfree
  have hnot := List.find?_some hfree
  simp [h] at hnot

/-- A call that spares a timer in use leaves it as it is. -/
theorem call_of_spares {op : TimerOp} (h : op.Spares j) (huse : (ts j).inUse = true) :
    ts.call now op j = ts j := by
  have hslot : ∀ handle : ℤ, handle ≠ j → ts.slotOf handle ≠ some j :=
    fun handle hne he => hne (slotOf_eq_some he).1
  cases op with
  | create periodMs autoReload callback arg =>
    show (ts.create periodMs autoReload callback arg).1 j = ts j
    unfold create
    cases callback with
    | none => rfl
    | some cb =>
      cases hfree : ts.freeSlot with
      | none => rfl
      | some i =>
        refine Function.update_of_ne (fun he => freeSlot_ne huse ?_) ..
        rw [he]
        exact hfree
  | start handle => exact (onHandle_timer handle _).trans (if_neg (hslot handle h))
  | stop handle => exact (onHandle_timer handle _).trans (if_neg (hslot handle h))
  | setPeriod handle periodMs => exact (onHandle_timer handle _).trans (if_neg (hslot handle h))
  | delete handle =>
    show ts.delete handle j = ts j
    unfold delete
    split_ifs with hrange
    · rfl
    · refine Function.update_of_ne (fun he => h ?_) ..
      omega

theorem callback_of_spares {calls : List (ℕ × TimerOp)} (h : ∀ p ∈ calls, p.2.Spares j)
    (huse : (ts j).inUse = true) : ts.callback calls j = ts j := by
  unfold callback
  induction calls generalizing ts with
  | nil => rfl
  | cons p calls ih =>
    have hone : ts.call p.1 p.2 j = ts j := call_of_spares (h p List.mem_cons_self) huse
    rw [List.foldl_cons, ih (fun q hq => h q (List.mem_cons_of_mem p hq)) (by rw [hone, huse]), hone]

theorem callbacks_of_spares {cs : List TimerCall} (h : BodySpares j body)
    (huse : (ts j).inUse = true) : ts.callbacks body cs j = ts j := by
  unfold callbacks
  induction cs generalizing ts with
  | nil => rfl
  | cons c cs ih =>
    have hone : ts.callback (body c ts) j = ts j := callback_of_spares (h c ts) huse
    rw [List.foldl_cons, ih (by rw [hone, huse]), hone]

/-- The pass of the loop for one timer, as the timer at the index `j` sees it. -/
theorem serviceTimerWith_timer {acc : Timers × List TimerCall} (h : BodySpares j body)
    (huse : (acc.1 j).inUse = true) (now i : ℕ) :
    (serviceTimerWith body now acc i).1 j =
        (if j = i ∧ (acc.1 j).running = true ∧ (acc.1 j).due now = true then (acc.1 j).reload
        else acc.1 j) ∧
      (serviceTimerWith body now acc i).2.countP (fun c => decide (c.index = j)) =
        acc.2.countP (fun c => decide (c.index = j)) +
          if j = i ∧ (acc.1 j).running = true ∧ (acc.1 j).due now = true then
            (acc.1 j).callback.isSome.toNat
          else 0 := by
  unfold serviceTimerWith
  dsimp only
  by_cases hj : j = i
  · subst hj
    by_cases hc : (acc.1 j).running = true ∧ (acc.1 j).due now = true
    · have hmod : acc.1.modify j Timer.reload j = (acc.1 j).reload := Function.update_self ..
      have hin : (acc.1.modify j Timer.reload j).inUse = true := by
        rw [hmod, Timer.reload]
        split_ifs <;> exact huse
      rw [if_pos (by simp [hc]), if_pos ⟨rfl, hc⟩, if_pos ⟨rfl, hc⟩]
      refine ⟨(callbacks_of_spares h hin).trans hmod, ?_⟩
      rw [List.countP_append, Timer.calls]
      cases (acc.1 j).callback <;> simp
    · have hnot : ¬(j = j ∧ (acc.1 j).running = true ∧ (acc.1 j).due now = true) :=
        fun h => hc h.2
      rw [if_neg (by simpa using hc), if_neg hnot, if_neg hnot]
      exact ⟨rfl, rfl⟩
  · have hnot : ¬(j = i ∧ (acc.1 j).running = true ∧ (acc.1 j).due now = true) := fun h => hj h.1
    rw [if_neg hnot, if_neg hnot]
    split_ifs
    · have hmod : acc.1.modify i Timer.reload j = acc.1 j := Function.update_of_ne hj ..
      refine ⟨(callbacks_of_spares h (by rw [hmod, huse])).trans hmod, ?_⟩
      rw [List.countP_append, Timer.calls]
      cases (acc.1 i).callback <;> simp [Ne.symm hj]
    · exact ⟨rfl, rfl⟩

/-- The service of a timer that no callback touches: its own pass through the loop decides what is
stored to it and whether its callback is called, whatever the other timers do. -/
theorem serviceTickWith_timer (h : BodySpares j body) (hj : j < timerMaxCount)
    (huse : (ts j).inUse = true) (now : ℕ) :
    (ts.serviceTickWith body now).1 j =
        (if (ts j).running = true ∧ (ts j).due now = true then (ts j).reload else ts j) ∧
      (ts.serviceTickWith body now).2.countP (fun c => decide (c.index = j)) =
        if (ts j).running = true ∧ (ts j).due now = true then (ts j).callback.isSome.toNat
        else 0 := by
  have hrest : ∀ (is : List ℕ) (acc : Timers × List TimerCall), j ∉ is → (acc.1 j).inUse = true →
      (is.foldl (serviceTimerWith body now) acc).1 j = acc.1 j ∧
        (is.foldl (serviceTimerWith body now) acc).2.countP (fun c => decide (c.index = j)) =
          acc.2.countP fun c => decide (c.index = j) := by
    intro is
    induction is with
    | nil => exact fun _ _ _ => ⟨rfl, rfl⟩
    | cons i is ih =>
      intro acc hmem hin
      obtain ⟨hne, hmem⟩ := not_or.1 fun hc => hmem (List.mem_cons.2 hc)
      obtain ⟨htimer, hcount⟩ := serviceTimerWith_timer h hin now i
      have hnot : ¬(j = i ∧ (acc.1 j).running = true ∧ (acc.1 j).due now = true) :=
        fun h => hne h.1
      rw [if_neg hnot] at htimer hcount
      obtain ⟨htimer', hcount'⟩ := ih _ hmem (by rw [htimer, hin])
      exact ⟨htimer'.trans htimer, hcount'.trans hcount⟩
  have hloop : ∀ (is : List ℕ) (acc : Timers × List TimerCall), is.Nodup → j ∈ is →
      (acc.1 j).inUse = true →
      (is.foldl (serviceTimerWith body now) acc).1 j =
          (if (acc.1 j).running = true ∧ (acc.1 j).due now = true then (acc.1 j).reload
          else acc.1 j) ∧
        (is.foldl (serviceTimerWith body now) acc).2.countP (fun c => decide (c.index = j)) =
          acc.2.countP (fun c => decide (c.index = j)) +
            if (acc.1 j).running = true ∧ (acc.1 j).due now = true then
              (acc.1 j).callback.isSome.toNat
            else 0 := by
    intro is
    induction is with
    | nil => exact fun _ _ hmem => by cases hmem
    | cons i is ih =>
      intro acc hnodup hmem hin
      obtain ⟨hi, hnodup⟩ := List.nodup_cons.1 hnodup
      obtain ⟨htimer, hcount⟩ := serviceTimerWith_timer h hin now i
      by_cases hij : j = i
      · subst hij
        have hin' : ((serviceTimerWith body now acc j).1 j).inUse = true := by
          rw [htimer]
          split_ifs
          · rw [Timer.reload]
            split_ifs <;> exact hin
          · exact hin
        obtain ⟨htimer', hcount'⟩ := hrest is _ hi hin'
        rw [List.foldl_cons, htimer', htimer, hcount', hcount]
        simp only [true_and, and_self]
      · have hnot : ¬(j = i ∧ (acc.1 j).running = true ∧ (acc.1 j).due now = true) :=
          fun h => hij h.1
        rw [if_neg hnot] at htimer hcount
        obtain ⟨htimer', hcount'⟩ :=
          ih _ hnodup ((List.mem_cons.1 hmem).resolve_left hij) (by rw [htimer, hin])
        rw [List.foldl_cons, htimer', hcount', htimer, hcount]
        exact ⟨rfl, rfl⟩
  obtain ⟨htimer, hcount⟩ := hloop _ (ts, []) List.nodup_range (List.mem_range.2 hj) huse
  exact ⟨htimer, by rw [serviceTickWith, hcount]; simp⟩

end Timers

end TamgaOs
