import TamgaOs.Kernel.Event
import TamgaOs.Kernel.Timer

/-!
# The statements of the idle task

`idle_task_func` calls `sched_tick_n` and `timer_service_tick` in thread mode and outside a critical
section, and `systick_tickless_sleep` programs the counter with interrupts enabled. An interrupt may
fall between any two of their statements, so each statement is a step of its own here; a test and the
store that it guards are two. `sched_select_next` reads the table at once.

## Main definitions

* `TickCtl`, `tickStep`: the statements of `sched_tick_n`.
* `ServiceCtl`, `serviceStep`: the statements of `timer_service_tick`.
* `SysTick`: the counter. `SleepCtl`: the program points of `systick_tickless_sleep`.
* `IdleCtl`: the program points of `idle_task_func`.
-/

namespace TamgaOs

/-! ### `sched_tick_n` -/

/-- The program points of `sched_tick_n`; `i` is the index of the loop. -/
inductive TickCtl
  /-- The test of the loop, and `t->state == TASK_BLOCKED && t->delay_ticks > 0`. -/
  | test (i : ℕ)
  /-- `t->delay_ticks <= elapsed_ms`. -/
  | compare (i : ℕ)
  /-- `t->delay_ticks = 0`. -/
  | zero (i : ℕ)
  /-- `t->wait_list_head != NULL`. -/
  | headTest (i : ℕ)
  /-- `sched_wait_list_remove(t->wait_list_head, t)`, up to `*head == t`. -/
  | remove (i : ℕ)
  /-- `*head = t->wait_next`. -/
  | removeHead (i : ℕ) (l : WaitList)
  /-- `cur = *head`. -/
  | removeStart (i : ℕ) (l : WaitList)
  /-- `cur != NULL && cur->wait_next != t`. -/
  | removeTest (i : ℕ) (cur : Option TaskPtr)
  /-- `cur = cur->wait_next`. -/
  | removeNext (i : ℕ) (cur : TaskPtr)
  /-- `cur->wait_next = t->wait_next`. -/
  | removeLink (i : ℕ) (cur : TaskPtr)
  /-- `t->wait_list_head = NULL`. -/
  | clearHead (i : ℕ)
  /-- `t->timed_out = 1`. -/
  | mark (i : ℕ)
  /-- `t->state = TASK_READY`. -/
  | ready (i : ℕ)
  /-- `t->delay_ticks -= elapsed_ms`. -/
  | subtract (i : ℕ)
  /-- `g_current_task != NULL && g_current_task->state == TASK_RUNNING`. -/
  | currentTest
  /-- `g_current_task->state = TASK_READY`. -/
  | currentReady
  /-- The test of the first statement of `sched_commit_next`. -/
  | nextTest
  /-- `g_next_task->state = TASK_READY`. -/
  | nextReady
  /-- `sched_select_next`. -/
  | select
  /-- `g_next_task = chosen`. -/
  | install (chosen : TaskPtr)
  /-- `g_next_task->state == TASK_READY`. -/
  | runTest
  /-- `g_next_task->state = TASK_RUNNING`. -/
  | run
  /-- `g_next_task != g_current_task`. -/
  | switchTest
  /-- `trigger_pendsv`. -/
  | switch
  deriving DecidableEq

/-- `t->delay_ticks - elapsed_ms` in 32 bits. -/
def uint32Sub (a b : ℕ) : ℕ := if b ≤ a then a - b else a + 2 ^ 32 - b

/-- The next statement of `sched_tick_n`; `none` for the program point when it returns, and no step
when a null pointer is dereferenced. -/
def tickStep (k : Kernel) (elapsedMs : ℕ) : TickCtl → Option (Kernel × Option TickCtl)
  | .test i =>
    if i < k.taskCount then
      if (k.tcb (.tcb i)).state = .blocked ∧ 0 < (k.tcb (.tcb i)).delayTicks then
        some (k, some (.compare i))
      else some (k, some (.test (i + 1)))
    else some (k, some .currentTest)
  | .compare i =>
    if (k.tcb (.tcb i)).delayTicks ≤ elapsedMs then some (k, some (.zero i))
    else some (k, some (.subtract i))
  | .zero i =>
    some (k.modifyTask (.tcb i) fun x => { x with delayTicks := 0 }, some (.headTest i))
  | .headTest i =>
    match (k.tcb (.tcb i)).waitListHead with
    | some _ => some (k, some (.remove i))
    | none => some (k, some (.ready i))
  | .remove i =>
    match (k.tcb (.tcb i)).waitListHead with
    | some l =>
      if k.head l = some (.tcb i) then some (k, some (.removeHead i l))
      else some (k, some (.removeStart i l))
    | none => none
  | .removeHead i l => some (k.setHead l (k.waitNext (.tcb i)), some (.clearHead i))
  | .removeStart i l => some (k, some (.removeTest i (k.head l)))
  | .removeTest i cur =>
    match cur with
    | some c =>
      if k.waitNext c ≠ some (.tcb i) then some (k, some (.removeNext i c))
      else some (k, some (.removeLink i c))
    | none => some (k, some (.clearHead i))
  | .removeNext i cur => some (k, some (.removeTest i (k.waitNext cur)))
  | .removeLink i cur => some (k.setWaitNext cur (k.waitNext (.tcb i)), some (.clearHead i))
  | .clearHead i =>
    some (k.modifyTask (.tcb i) fun x => { x with waitListHead := none }, some (.mark i))
  | .mark i => some (k.modifyTask (.tcb i) fun x => { x with timedOut := true }, some (.ready i))
  | .ready i => some (k.setState (.tcb i) .ready, some (.test (i + 1)))
  | .subtract i =>
    some (k.modifyTask (.tcb i) fun x =>
      { x with delayTicks := uint32Sub x.delayTicks elapsedMs }, some (.test (i + 1)))
  | .currentTest =>
    match k.currentTask with
    | some c =>
      if (k.tcb c).state = .running then some (k, some .currentReady)
      else some (k, some .nextTest)
    | none => some (k, some .nextTest)
  | .currentReady => k.currentTask.map fun c => (k.setState c .ready, some .nextTest)
  | .nextTest =>
    match k.nextTask with
    | some n =>
      if k.nextTask ≠ k.currentTask ∧ (k.tcb n).state = .running then some (k, some .nextReady)
      else some (k, some .select)
    | none => some (k, some .select)
  | .nextReady => k.nextTask.map fun n => (k.setState n .ready, some .select)
  | .select => some (k, some (.install k.schedSelectNext))
  | .install chosen => some ({ k with nextTask := some chosen }, some .runTest)
  | .runTest =>
    k.nextTask.map fun n =>
      (k, if (k.tcb n).state = .ready then some .run else some .switchTest)
  | .run => k.nextTask.map fun n => (k.setState n .running, some .switchTest)
  | .switchTest => some (k, if k.nextTask ≠ k.currentTask then some .switch else none)
  | .switch => some (k.triggerPendsv, none)

/-! ### `timer_service_tick` -/

/-- The program points of `timer_service_tick`. -/
inductive ServiceCtl
  /-- `now = systick_get_ms()`. -/
  | now
  /-- The test of the loop, and `!in_use || !active`. -/
  | test (now i : ℕ)
  /-- `(int32_t)(now - deadline_ms) >= 0`. -/
  | due (now i : ℕ)
  /-- `cb = callback`. -/
  | loadCallback (now i : ℕ)
  /-- `arg = s_timers[i].arg`. -/
  | loadArg (now i : ℕ) (cb : Option ℕ)
  /-- `auto_reload`. -/
  | reloadTest (now i : ℕ) (cb : Option ℕ) (arg : ℕ)
  /-- `deadline_ms += period_ms`. -/
  | advance (now i : ℕ) (cb : Option ℕ) (arg : ℕ)
  /-- `active = false`. -/
  | deactivate (now i : ℕ) (cb : Option ℕ) (arg : ℕ)
  /-- `if (cb != 0) cb(arg)`. -/
  | call (now i : ℕ) (cb : Option ℕ) (arg : ℕ)
  deriving DecidableEq

/-- The next statement of `timer_service_tick` when the counter is `ticks`, with the call that it
makes. -/
def serviceStep (ts : Timers) (ticks : ℕ) : ServiceCtl → Timers × Option ServiceCtl × List TimerCall
  | .now => (ts, some (.test ticks 0), [])
  | .test now i =>
    if i < timerMaxCount then
      if (ts i).running then (ts, some (.due now i), []) else (ts, some (.test now (i + 1)), [])
    else (ts, none, [])
  | .due now i =>
    if (ts i).due now then (ts, some (.loadCallback now i), [])
    else (ts, some (.test now (i + 1)), [])
  | .loadCallback now i => (ts, some (.loadArg now i (ts i).callback), [])
  | .loadArg now i cb => (ts, some (.reloadTest now i cb (ts i).arg), [])
  | .reloadTest now i cb arg =>
    (ts, some (if (ts i).autoReload then .advance now i cb arg else .deactivate now i cb arg), [])
  | .advance now i cb arg =>
    (ts.modify i fun x => { x with deadlineMs := (x.deadlineMs + x.periodMs) % 2 ^ 32 },
      some (.call now i cb arg), [])
  | .deactivate now i cb arg =>
    (ts.modify i fun x => { x with active := false }, some (.call now i cb arg), [])
  | .call now i cb arg =>
    (ts, some (.test now (i + 1)), (cb.map fun f => ⟨i, f, arg, ticks⟩).toList)

/-! ### The counter and the sleep -/

/-- The SysTick counter. `TICKINT` is set by `systick_init` and never cleared. -/
structure SysTick where
  enable : Bool
  rvr : ℕ
  cvr : ℕ
  countFlag : Bool
  /-- The exception is pending. -/
  pending : Bool
  deriving DecidableEq

/-- One cycle of the clock of the counter. -/
def SysTick.cycle (d : SysTick) : SysTick :=
  if d.enable then
    if d.cvr = 0 then { d with cvr := d.rvr }
    else if d.cvr = 1 then { d with cvr := 0, countFlag := true, pending := true }
    else { d with cvr := d.cvr - 1 }
  else d

/-- The program points of `systick_tickless_sleep`. -/
inductive SleepCtl
  /-- `SYST_CSR &= ~SYST_CSR_ENABLE`. -/
  | disable (maxMs : ℕ)
  /-- `SYST_RVR = reload_ticks - 1`. -/
  | program (maxMs : ℕ)
  /-- `SYST_CVR = 0`. -/
  | clear (maxMs : ℕ)
  /-- `s_tickless_active = 1`. -/
  | activate (maxMs : ℕ)
  /-- `SYST_CSR |= SYST_CSR_ENABLE | SYST_CSR_TICKINT`. -/
  | enable (maxMs : ℕ)
  | wfi (maxMs : ℕ)
  /-- `s_tickless_active = 0`. -/
  | deactivate (maxMs : ℕ)
  /-- `(SYST_CSR & SYST_CSR_COUNTFLAG) != 0`. -/
  | readFlag (maxMs : ℕ)
  /-- `elapsed_ticks = (reload_ticks - 1) - SYST_CVR`. -/
  | readCounter (maxMs : ℕ)
  /-- `SYST_CSR &= ~SYST_CSR_ENABLE`. -/
  | stop (elapsedMs : ℕ)
  /-- `SYST_RVR = TICKLESS_TICKS_PER_MS - 1`. -/
  | restore (elapsedMs : ℕ)
  /-- `SYST_CVR = 0`. -/
  | restart (elapsedMs : ℕ)
  /-- `SYST_CSR |= SYST_CSR_ENABLE | SYST_CSR_TICKINT`. -/
  | start (elapsedMs : ℕ)
  /-- `s_ticks += elapsed_ms`. -/
  | advance (elapsedMs : ℕ)
  deriving DecidableEq

/-! ### The loop -/

/-- The program points of `idle_task_func` with tickless idle enabled. -/
inductive IdleCtl
  /-- Before `sched_get_next_wakeup_ms`. -/
  | loop
  /-- `timer_get_next_ready_in_ms`, before it reads the counter. -/
  | timerNow (nextTaskMs : ℕ)
  /-- `timer_get_next_ready_in_ms`, before its critical section. -/
  | timerScan (nextTaskMs now : ℕ)
  /-- The `wfi` without a budget. -/
  | wfi
  | sleep (c : SleepCtl)
  | tick (elapsedMs : ℕ) (c : TickCtl)
  | service (c : ServiceCtl)
  deriving DecidableEq

end TamgaOs
