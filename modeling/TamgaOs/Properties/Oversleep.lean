import TamgaOs.Machine.Tickless

/-!
# The budget of a sleep

The idle task computes the length of its sleep from the table of the tasks and from the table of the
timers, in two critical sections, and programs the counter later, with interrupts enabled. Whatever
comes between may make the budget too long.

## Main definitions

* `Tickless.Within`: no running delay and no timer ends before a bound.
* `Tickless.Budgeted`: the counter is programmed with such a bound.
* `Tickless.bound`: the budget, from the program point that has read the first bound on.
* `Tickless.KeepsBudget`: the condition on the steps after that point.

## Main results

* `neverOversleeps`: along the runs whose steps meet the condition.
* `oversleeps_short_delay`: an interrupt after the readings wakes a task that blocks for 5 ms.
-/

namespace TamgaOs

namespace Tickless

variable (b : Board) (s : Tickless)

/-- No running delay and no running timer ends in less than `bound` ms. -/
structure Within (bound : ℕ) : Prop where
  delay : ∀ i < s.kernel.taskCount, s.kernel.Waiting i →
    bound ≤ (s.kernel.tcb (.tcb i)).delayTicks
  timer : ∀ i < timerMaxCount, (s.timers i).running = true →
    bound ≤ (s.timers i).remainingMs s.kernel.ticks

instance (bound : ℕ) : Decidable (s.Within bound) :=
  decidable_of_iff (_ ∧ _) ⟨fun h => ⟨h.1, h.2⟩, fun h => ⟨h.delay, h.timer⟩⟩

/-- When the idle task is about to program the reload register, the requested budget is over for no
delay and no timer. -/
def Budgeted : Prop := ∀ maxMs, s.idle = .sleep (.program maxMs) → s.Within maxMs

/-- The budget of the sleep that the idle task is about to begin, once it has read
`sched_get_next_wakeup_ms`. Before it has read the timers, it is what they would give now. -/
def bound : Option ℕ :=
  match s.idle with
  | .timerNow nextTaskMs =>
    some (budgetOf nextTaskMs (s.timers.getNextReadyInMs s.kernel.ticks))
  | .timerScan nextTaskMs now => some (budgetOf nextTaskMs (s.timers.getNextReadyInMs now))
  | .sleep (.disable maxMs) | .sleep (.program maxMs) => some maxMs
  | _ => none

/-- No running delay and no running timer ends before the budget. -/
def FitsBudget : Prop := ∀ bound ∈ s.bound, s.Within bound

instance : Decidable s.FitsBudget := inferInstanceAs (Decidable (∀ bound ∈ s.bound, _))

/-- The timers and the clock after a tick of the handler, with the delays before it. -/
def clockTick : Tickless :=
  { s.withKernel (s.kernel.advanceClock 1) with
    timers := (s.timers.serviceTick ((s.kernel.ticks + 1) % 2 ^ 32)).1 }

/-- Every delay that a tick does not end has more time left than the budget, and every timer that
runs after it at least the budget. -/
def FitsTick : Prop :=
  ∀ bound ∈ s.clockTick.bound,
    (∀ i < s.kernel.taskCount, s.kernel.Waiting i →
      (s.kernel.tcb (.tcb i)).delayTicks = 1 ∨ bound < (s.kernel.tcb (.tcb i)).delayTicks) ∧
    ∀ i < timerMaxCount, (s.clockTick.timers i).running = true →
      bound ≤ (s.clockTick.timers i).remainingMs s.clockTick.kernel.ticks

instance : Decidable s.FitsTick := inferInstanceAs (Decidable (∀ bound ∈ s.clockTick.bound, _ ∧ _))

/-- Between the reading of the delays and the store to the reload register, no task blocks with a
delay below the budget, no call of `timer.c` leaves a delay or a timer below it, and a tick comes
only when no delay and no timer gets below it. -/
def KeepsBudget : TicklessAction → Prop
  | .kernel a => ∀ bound ∈ s.bound, ∀ ms ∈ s.machine.waits a, ms = 0 ∨ bound ≤ ms
  | .timer op => FitsBudget { s with timers := s.timers.call s.kernel.ticks op }
  | .sysTick => s.ticklessActive = false → s.FitsTick
  | .idle | .cycle => True

instance : DecidablePred s.KeepsBudget
  | .kernel a => inferInstanceAs (Decidable (∀ bound ∈ s.bound, ∀ ms ∈ s.machine.waits a, _))
  | .timer op =>
    inferInstanceAs (Decidable (FitsBudget { s with timers := s.timers.call s.kernel.ticks op }))
  | .sysTick => inferInstanceAs (Decidable (_ → _))
  | .idle | .cycle => inferInstanceAs (Decidable True)

variable {b s} {s' : Tickless} {a : TicklessAction} {o : List TicklessObs} {bound : ℕ}

theorem budgetOf_le (m n : ℕ) : budgetOf m n ≤ m ∧ budgetOf m n ≤ n := by
  unfold budgetOf
  dsimp only
  split_ifs <;> omega

/-! ### The steps -/

theorem fitsBudget_idle (h : s.FitsBudget) (hs : s.idleStep b = some (s', o)) :
    s'.FitsBudget := by
  unfold idleStep at hs
  split at hs
  · -- the budget is computed from the delays that have just been read
    cases hs
    intro bound hb
    obtain ⟨hle, hle'⟩ := budgetOf_le s.kernel.schedGetNextWakeupMs
      (s.timers.getNextReadyInMs s.kernel.ticks)
    cases hb
    exact ⟨fun i hi hw => hle.trans (Kernel.schedGetNextWakeupMs_le hi hw),
      fun i hi hrun => hle'.trans (Timers.getNextReadyInMs_le hi hrun)⟩
  · rename_i nextTaskMs hidle
    cases hs
    have hbound : s.bound =
        some (budgetOf nextTaskMs (s.timers.getNextReadyInMs s.kernel.ticks)) := by
      simp only [Tickless.bound, hidle]
    intro bound hb
    cases hb
    exact ⟨(h _ hbound).delay, (h _ hbound).timer⟩
  · rename_i nextTaskMs now hidle
    cases hs
    have hbound : s.bound = some (budgetOf nextTaskMs (s.timers.getNextReadyInMs now)) := by
      simp only [Tickless.bound, hidle]
    intro bound hb
    simp only [Tickless.bound] at hb
    split_ifs at hb
    · cases hb
    · cases hb
      exact ⟨(h _ hbound).delay, (h _ hbound).timer⟩
  · cases hs
    exact fun bound hb => by cases hb
  · rename_i c hidle
    cases hs
    cases c with
    | disable maxMs =>
      have hbound : s.bound = some maxMs := by simp only [Tickless.bound, hidle]
      intro bound hb
      cases hb
      exact ⟨(h _ hbound).delay, (h _ hbound).timer⟩
    | readFlag maxMs =>
      intro bound hb
      simp only [sleepStep, Tickless.bound] at hb
      split_ifs at hb <;> cases hb
    | program | clear | activate | enable | wfi | deactivate | readCounter | stop | restore
    | restart | start | advance => exact fun bound hb => by cases hb
  · obtain ⟨⟨k', c'⟩, -, he⟩ := Option.map_eq_some_iff.1 hs
    cases he
    intro bound hb
    cases c' <;> cases hb
  · rename_i c hidle
    cases hs
    intro bound hb
    simp only [Tickless.bound] at hb
    cases hnext : (serviceStep s.timers s.kernel.ticks c).2.1 <;> rw [hnext] at hb <;> cases hb

theorem fitsBudget_step (ht : s.Tabled) (hm : s.machine.IdleApart) (h : s.FitsBudget)
    (hok : s.KeepsBudget a) (hs : s.step b a = some (s', o)) : s'.FitsBudget := by
  rcases step_cases hs with ⟨a', m', o', rfl, hticks, -, hst, rfl, -⟩ | ⟨op, rfl, rfl, -⟩ |
    ⟨rfl, -, -, hidle⟩ | ⟨rfl, rfl, -⟩ | ⟨rfl, -, hh⟩
  · have hclock := ticks_of_kernel hticks hst
    have hbound : ({ s with machine := m' } : Tickless).bound = s.bound := by
      simp only [Tickless.bound, kernel, hclock]
    intro bound hb
    rw [hbound] at hb
    refine ⟨fun i _ hw => ?_, fun i hi hrun => ?_⟩
    · have hno : ∀ n, a' ≠ .tick n := by
        rintro n rfl
        cases hticks
      rcases Machine.wait_of_step hm hst hno hw.1 with ⟨hbl, hd⟩ | ⟨-, -, -, hmem⟩
      · obtain ⟨j, hj, he⟩ := ht.blocked _ hbl
        cases he
        have hpos : 0 < (s.kernel.tcb (.tcb i)).delayTicks := hd ▸ hw.2
        exact ((h bound hb).delay i hj ⟨hbl, hpos⟩).trans hd.ge
      · exact (hok bound hb _ hmem).resolve_left hw.2.ne'
    · show bound ≤ (s.timers i).remainingMs m'.kernel.ticks
      rw [hclock]
      exact (h bound hb).timer i hi hrun
  · exact hok
  · exact fitsBudget_idle h hidle
  · exact fun bound hb => ⟨(h bound hb).delay, (h bound hb).timer⟩
  · rcases handlerStep_cases hh with ⟨-, -, rfl⟩ | ⟨k', hact, hk, rfl, -⟩
    · exact fun bound hb => ⟨(h bound hb).delay, (h bound hb).timer⟩
    · have hclock : k'.ticks = (s.kernel.ticks + 1) % 2 ^ 32 := (SameObjects.schedTickN hk).ticks
      intro bound hb
      have hb' : bound ∈ s.clockTick.bound := by
        simp only [Tickless.bound, kernel, hclock] at hb
        exact hb
      obtain ⟨hdelay, htimer⟩ := hok hact bound hb'
      refine ⟨fun i _ hw => ?_, fun i hi hrun => ?_⟩
      · obtain ⟨hd, hbl⟩ := Kernel.delay_schedTickN hk i
        have hw' : (k'.tcb (.tcb i)).state = .blocked ∧ 0 < (k'.tcb (.tcb i)).delayTicks := hw
        rw [hbl, hd] at hw'
        show bound ≤ (k'.tcb (.tcb i)).delayTicks
        rw [hd]
        split_ifs at hw' ⊢ with hi
        · simp only [Kernel.ticked] at hw' ⊢
          split_ifs at hw' ⊢ with hwait hle
          · cases hw'.1
          · rcases hdelay i hi hwait with hone | hlt
            · exact absurd hone.le hle
            · exact Nat.le_sub_one_of_lt hlt
          · exact absurd hw' hwait
        · obtain ⟨j, hj, he⟩ := ht.blocked _ hw'.1
          cases he
          exact absurd hj hi
      · show bound ≤ ((s.timers.serviceTick k'.ticks).1 i).remainingMs k'.ticks
        have hrun' : ((s.timers.serviceTick k'.ticks).1 i).running = true := hrun
        rw [hclock] at hrun' ⊢
        exact htimer i hi hrun'

end Tickless

/-! ### All runs -/

open Tickless in
/-- No task that blocks, no call of `timer.c` and no tick after the readings gets below the budget.
Then the counter is never programmed with a budget that is longer than a delay or a timer. -/
theorem neverOversleeps (b : Board) (cfg : Config) {s : Tickless} {out : List TicklessObs}
    (h : Run.Reach (step b) KeepsBudget (start b cfg) s out) : s.Budgeted := by
  have hinv : s.machine.IdleApart ∧ s.Tabled ∧ s.FitsBudget := by
    refine h.invariant (I := fun s => s.machine.IdleApart ∧ s.Tabled ∧ s.FitsBudget)
      ⟨Machine.idleApart_start cfg, tabled_start b cfg, fun bound hb => by cases hb⟩ ?_
    intro s s' a o ⟨hm, ht, hs⟩ hok hst
    exact ⟨idleApart_step hm hst, ht.step hm hst, fitsBudget_step ht hm hs hok hst⟩
  intro maxMs hidle
  refine hinv.2.2 maxMs ?_
  simp only [Tickless.bound, hidle]
  rfl

/-- One task has called `sched_delay_ms(1000)`, another one waits for a semaphore, and the idle task
has read both bounds. -/
def idleAfterReadings : List TicklessAction :=
  [.kernel (.call (.schedDelayMs 1000)), .kernel .exec, .kernel .exec, .kernel .pendSV,
    .kernel (.call (.semTake 0)), .kernel .exec, .kernel .pendSV, .idle, .idle]

/-- The idle task programs the counter at once. -/
def sleepAtOnce : TicklessScenario where
  board := .k64f
  config := { priorities := [1, 2], sem := fun _ => ⟨0, 1⟩ }
  actions := idleAfterReadings ++ [.idle, .idle]
  possible := by decide +kernel

theorem sleepAtOnce_budgeted : sleepAtOnce.final.idle = .sleep (.program 1000) ∧
    sleepAtOnce.final.Budgeted :=
  ⟨by decide +kernel, neverOversleeps .k64f { priorities := [1, 2], sem := fun _ => ⟨0, 1⟩ }
    (sleepAtOnce.reach (by decide +kernel))⟩

/-- A handler gives the semaphore, and the task that has waited for it delays itself for 5 ms. -/
def shortDelay : TicklessScenario where
  board := .k64f
  config := { priorities := [1, 2], sem := fun _ => ⟨0, 1⟩ }
  actions := idleAfterReadings ++
    [.kernel (.irq (.semGive 0)), .kernel .exec, .kernel .pendSV, .kernel .exec, .kernel .exec,
      .kernel (.call (.schedDelayMs 5)), .kernel .exec, .kernel .exec, .kernel .pendSV,
      .idle, .idle]
  possible := by decide +kernel

/-- The idle task programs a sleep of 1000 ms while a delay of 5 ms runs. -/
theorem oversleeps_short_delay : ∃ (cfg : Config) (s : Tickless) (out : List TicklessObs),
    Run.Reach (Tickless.step .k64f) (fun _ _ => True) (Tickless.start .k64f cfg) s out ∧
      ¬s.Budgeted := by
  refine ⟨_, shortDelay.final, shortDelay.reports, shortDelay.reach (by decide +kernel), fun h => ?_⟩
  have hwithin := h 1000 (by decide +kernel)
  have hdelay : shortDelay.final.kernel.Waiting 1 ∧
      (shortDelay.final.kernel.tcb (.tcb 1)).delayTicks = 5 := by decide +kernel
  have hle := hwithin.delay 1 (by decide +kernel) hdelay.1
  rw [hdelay.2] at hle
  omega

end TamgaOs
