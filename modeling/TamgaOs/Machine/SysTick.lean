import TamgaOs.Machine.Elapse
import TamgaOs.Machine.Tick
import TamgaOs.Kernel.Timer

/-!
# The tick handler and the tickless idle task

`SysTick_Handler` of `systick.c`, and one pass through the loop of `idle_task_func` with its sleep.
Here the counter is the only source of interrupts, so that a sleep lasts until the counter has
expired, and a pass is interrupted by the context switch that it pends itself only.

## Main definitions

* `Board`: the ports, with `TICKLESS_TICKS_PER_MS`.
* `Board.ticklessReload`, `Board.sleepToExpiry`: the length of a sleep in `systick_tickless_sleep`.
* `Ticking`, `Ticking.sysTickHandler`: the kernel with its timers, and the handler.
* `Ticking.idleBudget`, `Ticking.idlePass`: the loop of the idle task.

## Main results

* `Board.sleepToExpiry_le`: a sleep is not longer than what has been asked for.
* `Kernel.pendsv_schedTickN`: when a tick pends a switch.
-/

namespace TamgaOs

/-! ### The counter -/

/-- The ports of `systick.c`. -/
inductive Board
  | stm32h753zi
  | k64f
  deriving DecidableEq

namespace Board

/-- `CORE_CLOCK_HZ`. -/
def coreClockHz : Board → ℕ
  | stm32h753zi => 480000000
  | k64f => 120000000

/-- `TICKLESS_TICKS_PER_MS`. -/
def ticksPerMs : Board → ℕ
  | stm32h753zi => coreClockHz stm32h753zi / 8 / 1000
  | k64f => coreClockHz k64f / 1000

/-- `TICKLESS_MAX_RELOAD`. -/
def ticklessMaxReload : ℕ := 0x00FFFFFF

/-- `reload_ticks` in `systick_tickless_sleep`. -/
def ticklessReload (b : Board) (maxMs : ℕ) : ℕ :=
  let reloadTicks := maxMs * b.ticksPerMs % 2 ^ 32
  if reloadTicks = 0 ∨ ticklessMaxReload < reloadTicks then ticklessMaxReload else reloadTicks

/-- `elapsed_ms` in `systick_tickless_sleep`. -/
def elapsedMs (b : Board) (elapsedTicks : ℕ) : ℕ :=
  if elapsedTicks / b.ticksPerMs = 0 then 1 else elapsedTicks / b.ticksPerMs

/-- What `systick_tickless_sleep` returns when the counter has expired. -/
def sleepToExpiry (b : Board) (maxMs : ℕ) : ℕ := b.elapsedMs (b.ticklessReload maxMs)

end Board

/-- `TICKLESS_MAX_SLEEP_MS`. -/
def ticklessMaxSleepMs : ℕ := 1000

namespace Board

variable {b : Board} {maxMs : ℕ}

theorem ticksPerMs_pos (b : Board) : 0 < b.ticksPerMs := by cases b <;> decide

theorem ticksPerMs_le (b : Board) : b.ticksPerMs ≤ 120000 := by cases b <;> decide

theorem elapsedMs_pos (b : Board) (n : ℕ) : 0 < b.elapsedMs n := by
  unfold elapsedMs
  split_ifs with h
  · exact Nat.one_pos
  · exact Nat.pos_of_ne_zero h

/-- The product of a budget does not wrap. -/
theorem ticklessReload_le (hpos : 0 < maxMs) (hle : maxMs ≤ ticklessMaxSleepMs) :
    b.ticklessReload maxMs ≤ maxMs * b.ticksPerMs := by
  have hprod : maxMs * b.ticksPerMs ≤ 1000 * 120000 := Nat.mul_le_mul hle b.ticksPerMs_le
  have hne : 0 < maxMs * b.ticksPerMs := Nat.mul_pos hpos b.ticksPerMs_pos
  have hmod : maxMs * b.ticksPerMs % 2 ^ 32 = maxMs * b.ticksPerMs := Nat.mod_eq_of_lt (by omega)
  unfold ticklessReload
  dsimp only
  rw [hmod]
  split_ifs <;> omega

/-- A sleep is not longer than what has been asked for. -/
theorem sleepToExpiry_le (hpos : 0 < maxMs) (hle : maxMs ≤ ticklessMaxSleepMs) :
    b.sleepToExpiry maxMs ≤ maxMs := by
  unfold sleepToExpiry elapsedMs
  split_ifs
  · exact hpos
  · refine Nat.div_le_of_le_mul ?_
    rw [Nat.mul_comm]
    exact ticklessReload_le hpos hle

end Board

/-! ### The handler and the idle task -/

/-- The kernel with its software timers. -/
structure Ticking where
  kernel : Kernel
  timers : Timers

namespace Ticking

variable (s : Ticking)

/-- `timer_service_tick`. -/
def serviceTick : Ticking × List TimerCall :=
  ({ s with timers := (s.timers.serviceTick s.kernel.ticks).1 },
    (s.timers.serviceTick s.kernel.ticks).2)

/-- `SysTick_Handler` with `s_tickless_active` cleared, after `sched_start`. -/
def sysTickHandler : Option (Ticking × List TimerCall) :=
  (s.kernel.advanceClock 1).schedTick.map fun k => { s with kernel := k }.serviceTick

/-- `idle_budget`. -/
def idleBudget : ℕ :=
  let nextTaskMs := s.kernel.schedGetNextWakeupMs
  let nextTimerMs := s.timers.getNextReadyInMs s.kernel.ticks
  let budget := if nextTaskMs < nextTimerMs then nextTaskMs else nextTimerMs
  if ticklessMaxSleepMs < budget then ticklessMaxSleepMs else budget

/-- A pass through the loop of `idle_task_func`, with its length. Without a budget it waits for the
interrupt of the counter. The switch that `sched_tick_n` pends is taken before
`timer_service_tick`. -/
def idlePass (b : Board) : Option (Ticking × List TimerCall × ℕ) :=
  if s.idleBudget = 0 then s.sysTickHandler.map fun r => (r.1, r.2, 1)
  else
    let elapsedMs := b.sleepToExpiry s.idleBudget
    ((s.kernel.advanceClock elapsedMs).schedTickN elapsedMs).map fun k =>
      if k.pendsv then ({ s with kernel := k }, [], elapsedMs)
      else
        let r := { s with kernel := k }.serviceTick
        (r.1, r.2, elapsedMs)

end Ticking

/-! ### The budget -/

namespace Kernel

variable {k k' : Kernel} {n i : ℕ}

/-- The time that `sched_get_next_wakeup_ms` returns is over for no waiting task. -/
theorem schedGetNextWakeupMs_le (hi : i < k.taskCount) (hw : k.Waiting i) :
    k.schedGetNextWakeupMs ≤ (k.tcb (.tcb i)).delayTicks := by
  have hone : ∀ soonest j, k.nextWakeup soonest j ≤ soonest := by
    intro soonest j
    unfold nextWakeup
    dsimp only
    split_ifs <;> omega
  have hloop : ∀ (is : List ℕ) (soonest : ℕ), is.foldl k.nextWakeup soonest ≤ soonest ∧
      (i ∈ is → is.foldl k.nextWakeup soonest ≤ (k.tcb (.tcb i)).delayTicks) := by
    intro is
    induction is with
    | nil => exact fun _ => ⟨le_rfl, fun h => by cases h⟩
    | cons j is ih =>
      intro soonest
      obtain ⟨hle, hmem⟩ := ih (k.nextWakeup soonest j)
      refine ⟨hle.trans (hone soonest j), fun hj => ?_⟩
      rcases List.mem_cons.1 hj with rfl | hj
      · refine hle.trans ?_
        unfold nextWakeup
        dsimp only
        rw [if_pos (show _ ∧ _ from hw)]
        split_ifs <;> omega
      · exact hmem hj
  exact (hloop _ _).2 (List.mem_range.2 hi)

theorem schedGetNextWakeupMs_pos (k : Kernel) : 0 < k.schedGetNextWakeupMs := by
  have hloop : ∀ (is : List ℕ) (soonest : ℕ), 0 < soonest →
      0 < is.foldl k.nextWakeup soonest := by
    intro is
    induction is with
    | nil => exact fun _ hpos => hpos
    | cons i is ih =>
      intro soonest hpos
      refine ih _ ?_
      unfold nextWakeup
      dsimp only
      split_ifs with hw
      · exact hw.2
      · exact hpos
      · exact hpos
  exact hloop _ _ (by decide)

/-! ### The switch that a tick pends -/

/-- `sched_select_next` returns a task of the table only when a ready one is below the initial value
of `best`. -/
theorem exists_ready_of_schedSelectNext (h : k.schedSelectNext ≠ .idle) : ∃ i < k.taskCount,
    (k.tcb (.tcb i)).state = .ready ∧ (k.tcb (.tcb i)).priority < 0xFF := by
  by_contra hnone
  have hloop : ∀ is : List ℕ, (∀ i ∈ is, i < k.taskCount) →
      is.foldl k.selectBest (0xFF, .idle) = (0xFF, .idle) := by
    intro is
    induction is with
    | nil => exact fun _ => rfl
    | cons i is ih =>
      intro hlt
      have hone : k.selectBest (0xFF, .idle) i = (0xFF, .idle) := by
        unfold selectBest
        exact if_neg fun hc => hnone ⟨i, hlt i List.mem_cons_self, hc⟩
      rw [List.foldl_cons, hone]
      exact ih fun j hj => hlt j (List.mem_cons_of_mem i hj)
  apply h
  unfold schedSelectNext
  rw [hloop _ fun i => List.mem_range.1]
  exact if_neg fun hc => hc.1 rfl

/-- A tick while the kernel rests pends a switch when it makes a task ready that can be chosen. -/
theorem pendsv_schedTickN (h : k.Resting) (hs : k.schedTickN n = some k') : k'.pendsv = true ↔
    ∃ i < k.taskCount, k.expires n (.tcb i) = true ∧ (k.tcb (.tcb i)).priority < 0xFF := by
  obtain ⟨k₁, honly, rfl⟩ := schedTickN_only hs
  have hidle : (k₁.tcb .idle).state = .running := by
    have htask := honly.task .idle
    rw [if_neg (by rintro ⟨i, -, he⟩; cases he)] at htask
    exact (Prod.mk.inj htask).1.trans h.idle
  have hcur : k₁.currentTask = some .idle := honly.currentTask.trans h.currentTask
  have hnext : k₁.nextTask = some .idle := honly.nextTask.trans h.nextTask
  have hpend : k₁.pendsv = false := honly.pendsv.trans h.pendsv
  let k₂ := k₁.setState .idle .ready
  have hpick : k₁.schedPickAndMark = k₂.installNext k₂.schedSelectNext :=
    schedPickAndMark_of_idle hcur hnext hidle
  have hselect : k₁.schedPickAndMark.triggerIfSwitch.pendsv = true ↔ k₂.schedSelectNext ≠ .idle := by
    have hcur' : k₁.schedPickAndMark.currentTask = some .idle :=
      rescheduled_schedPickAndMark.currentTask.trans hcur
    have hnext' : k₁.schedPickAndMark.nextTask = some k₂.schedSelectNext := by
      rw [hpick, nextTask_installNext]
    have hpend' : k₁.schedPickAndMark.pendsv = false :=
      rescheduled_schedPickAndMark.pendsv.trans hpend
    unfold triggerIfSwitch
    rw [hcur', hnext']
    split_ifs with hne
    · exact ⟨fun _ he => hne (congrArg some he), fun _ => rfl⟩
    · rw [hpend']
      exact iff_of_false (by simp) fun hn => hne fun he => hn (Option.some.inj he)
  -- a task of the table is ready when its delay has ended
  have hstate : ∀ i, k₂.tcb (.tcb i) = k₁.tcb (.tcb i) := fun i => modifyTask_of_ne (by simp) _
  have hready : ∀ i < k.taskCount, (k₁.tcb (.tcb i)).state = .ready ↔
      k.expires n (.tcb i) = true := by
    intro i hi
    have htask := honly.task (.tcb i)
    rw [if_pos ⟨i, List.mem_range.2 hi, rfl⟩] at htask
    simp only [ticked] at htask
    rw [expires_tcb]
    split_ifs at htask with hw hle
    · rw [(Prod.mk.inj htask).1]
      exact ⟨fun _ => ⟨hi, hw.1, hw.2, hle⟩, fun _ => rfl⟩
    · rw [(Prod.mk.inj htask).1]
      exact iff_of_false (by simp) fun he => hle he.2.2.2
    · rw [(Prod.mk.inj htask).1]
      exact ⟨fun he => absurd he (h.ready i hi), fun he => absurd ⟨he.2.1, he.2.2.1⟩ hw⟩
  have hcount : k₂.taskCount = k.taskCount := honly.taskCount
  rw [hselect]
  constructor
  · intro hne
    obtain ⟨i, hi, hs, hp⟩ := exists_ready_of_schedSelectNext hne
    rw [hcount] at hi
    rw [hstate] at hs hp
    exact ⟨i, hi, (hready i hi).1 hs, honly.priority (.tcb i) ▸ hp⟩
  · rintro ⟨i, hi, he, hp⟩ hidle'
    have hs : (k₂.tcb (.tcb i)).state = .ready := by
      rw [hstate]
      exact (hready i hi).2 he
    have hmin := (schedSelectNext_minimal (hcount ▸ hi) hs).1 hidle'
    rw [hstate, honly.priority] at hmin
    omega

end Kernel

end TamgaOs
