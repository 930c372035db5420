import TamgaOs.Machine.Delays
import TamgaOs.Machine.Split
import TamgaOs.Library.Wrap

/-!
# Bounded waits

The calls with a timeout compute a deadline from the millisecond counter and compare it with later
readings as plain numbers, and they block for what is left. The counter wraps,
`mutex_lock_timeout` reads it before the critical section in which it blocks, and
`event_wait_timeout` may return the observed bits `0xFFFFFFFF`, which stand for a timeout.

## Main definitions

* `Timing`, `Timings`, `Machine.timed`: the machine with the budget of every call and the time that
  has passed since.
* `Machine.Periodic`: `SysTick_Handler` advances the counter and runs `sched_tick`.
* `Machine.BudgetsHonoured`: a timeout is reported only when the budget is over, and the delay of a
  blocked caller is what is left of it.
* `Machine.ReadsInTime`: the condition on the readings of the counter and of the observed bits.

## Main results

* `boundedWaits_iff`: runs whose readings meet the condition honour the budgets, and a step that
  does not breaks one.
* `boundedWaits_broken`: a wrap of the counter, and a tick between the reading and the blocking.
-/

namespace TamgaOs

open Wrap

/-! ### The program points of a bounded wait -/

/-- The timeout of a call that is about to read the clock for its deadline. -/
def Ctl.begins : Ctl → Option ℕ
  | .mutex (.enter _ ms) | .queue (.enter _ _ ms) | .event (.enter _ ms) => some ms
  | _ => none

/-- `mutex_lock_timeout` is about to read the clock again. -/
def Ctl.reads : Ctl → Bool
  | .mutex (.clock _ _) => true
  | _ => false

/-- The deadline of a bounded wait. -/
def Ctl.deadline : Ctl → Option ℕ
  | .mutex (.attempt _ d _) | .mutex (.blocked _ d) => d
  | .mutex (.clock _ d) => some d
  | .mutex (.block _ timeout) => timeout.map Prod.fst
  | .queue (.loop _ _ d _) | .queue (.blocked _ _ d) => d
  | .event (.loop _ d) | .event (.blocked _ d _) => d
  | _ => none

/-- The call has returned the value that tells its caller that the time is over. -/
def Ctl.reportsTimeout : Ctl → Bool
  | .mutex (.lockTimeoutReturned _ value) => decide (value = -1)
  | .queue (.returned r) => decide (r.value = -1)
  | .event (.returned _ r) => decide (r.value = 0xFFFFFFFF)
  | _ => false

/-- The value that a queue call is going to return. -/
def Ctl.queueResult : Ctl → Option ℤ
  | .queue (.wake _ _ r) | .queue (.trigger _ r) | .queue (.finish _ r) => some r.value
  | _ => none

/-- The timeout of an entry point. -/
def Call.budget : Call → Option ℕ
  | mutexLockTimeout _ ms | queueSendTimeout _ _ ms | queueReceiveTimeout _ ms
  | eventWaitTimeout _ ms => some ms
  | _ => none

/-- The timeout is a 32-bit number. -/
def Call.InRange (c : Call) : Prop := ∀ ms ∈ c.budget, ms < 2 ^ 32

instance (c : Call) : Decidable c.InRange := inferInstanceAs (Decidable (∀ ms ∈ c.budget, _))

/-! ### Budgets -/

/-- What is known about the bounded wait of a task: its timeout, the counter when it computed its
deadline, and the milliseconds that have passed since then and since its last reading. -/
structure Timing where
  budget : ℕ
  start : ℕ
  elapsed : ℕ := 0
  sinceRead : ℕ := 0
  deriving DecidableEq

namespace Timing

variable (r : Timing)

/-- Time passes. -/
def pass (n : ℕ) : Timing := { r with elapsed := r.elapsed + n, sinceRead := r.sinceRead + n }

/-- The clock is read. -/
def read : Timing := { r with sinceRead := 0 }

/-- The deadline, as the code computes it. -/
def deadline : ℕ := (r.start + r.budget) % 2 ^ 32

/-- The counter. -/
def now : ℕ := (r.start + r.elapsed) % 2 ^ 32

/-- The counter does not wrap between now and the end of the budget. -/
def InPeriod : Prop := Unwrapped (2 ^ 32) (r.start + r.elapsed) (r.start + r.budget)

instance : Decidable r.InPeriod := inferInstanceAs (Decidable (Unwrapped ..))

variable {r}

theorem sub_of_inPeriod (h : r.InPeriod) (hlt : r.elapsed < r.budget) :
    r.now < r.deadline ∧ r.deadline - r.now = r.budget - r.elapsed := by
  refine ⟨h.lt_iff.2 (by omega), ?_⟩
  have hsub := h.sub
  unfold deadline now
  omega

theorem deadline_lt_of_not_inPeriod (h : ¬ r.InPeriod) (hlt : r.elapsed < r.budget)
    (hword : r.budget < 2 ^ 32) : r.deadline < r.now :=
  lt_of_not_unwrapped h (by omega) (by omega)

end Timing

/-- The bounded waits of the tasks; `due` between the advance of the counter and `sched_tick`. A task
has a timing from the reading of the clock for its deadline until it makes its next call. -/
structure Timings where
  due : Bool := false
  of : TaskPtr → Option Timing := fun _ => none

/-- The timing of a task that executes a step at the program point `c`. -/
def Ctl.timing (k : Kernel) (c : Ctl) (r : Option Timing) : Option Timing :=
  match c.begins with
  | some ms => some { budget := ms, start := k.ticks }
  | none => if c.reads then r.map Timing.read else r

namespace Machine

variable (m : Machine) (g : Timings)

/-- The timings after an action. -/
def time (m : Machine) (a : Action) (_ : List Obs) (g : Timings) : Timings :=
  match a with
  | .clock n => { due := true, of := fun t => (g.of t).map fun r => r.pass n }
  | .tick _ => { g with due := false }
  | .exec =>
    match m.active with
    | some (.thread t) =>
      { g with of := Function.update g.of t ((m.ctl (.thread t)).timing m.kernel (g.of t)) }
    | _ => g
  | .call _ =>
    match m.active with
    | some (.thread t) => { g with of := Function.update g.of t none }
    | _ => g
  | .irq _ | .pendSV => g

/-- The machine with its timings. -/
def timed : Machine × Timings → Action → Option ((Machine × Timings) × List Obs) :=
  Run.annotate step time

/-- The periodic tick: the handler advances the counter by 1 and then runs `sched_tick`, and no task
executes in between. The timeouts are 32-bit numbers. -/
def Periodic : Action → Prop
  | .clock n => n = 1 ∧ g.due = false
  | .tick n => n = 1 ∧ g.due = true
  | .exec => g.due = true → m.depth ≠ 0
  | .call c => g.due = false ∧ c.InRange
  | .pendSV => g.due = false
  | .irq _ => True

instance : DecidablePred (m.Periodic g)
  | .clock _ | .tick _ | .call _ => inferInstanceAs (Decidable (_ ∧ _))
  | .exec => inferInstanceAs (Decidable (_ → _))
  | .pendSV => inferInstanceAs (Decidable (_ = _))
  | .irq _ => inferInstanceAs (Decidable True)

end Machine

/-- A task at the program point `c` has not reported a timeout before its budget is over; and while
it is blocked, it has a running delay, which is what is left of its budget (one more between the
advance of the counter and `sched_tick`): it is made ready when the budget is over. -/
structure Ctl.Honours (k : Kernel) (due : Bool) (t : TaskPtr) (c : Ctl) (r : Timing) : Prop where
  reports : c.reportsTimeout = true → r.budget ≤ r.elapsed
  running : c.timed = true → (k.tcb t).state = .blocked →
    0 < (k.tcb t).delayTicks ∧ (k.tcb t).delayTicks + r.elapsed = r.budget + due.toNat

/-- Every bounded call has a timing, and honours its budget while it waits and when it returns. -/
def Machine.BudgetsHonoured (m : Machine) (g : Timings) : Prop :=
  ∀ t, ((m.ctl (.thread t)).deadline.isSome = true → (g.of t).isSome = true) ∧
    ∀ r, g.of t = some r → (m.ctl (.thread t)).Honours m.kernel g.due t r

/-- The condition on a reading of the counter that decides about a timeout: the counter does not wrap
between the reading and the end of the budget; when the budget is over, the counter is not below the
deadline. -/
def Timing.Decides (r : Timing) : Prop :=
  (r.elapsed < r.budget → r.InPeriod) ∧ (r.budget ≤ r.elapsed → r.deadline ≤ r.now)

instance : DecidablePred Timing.Decides := fun _ => inferInstanceAs (Decidable (_ ∧ _))

/-- The condition on a step of a bounded call: where the test fails, the reading of the counter
decides right; `mutex_lock_timeout` blocks in the millisecond of its reading, and before its budget
is over; and an event wait that has time left finds a slot, and does not observe all 32 bits of its
group set, which is the value for a timeout. -/
def Ctl.ReadsInTime (k : Kernel) (r : Timing) : Ctl → Prop
  | .mutex (.clock _ _) => r.elapsed < r.budget → r.InPeriod
  | .mutex (.block m (some _)) =>
    (k.mutex m).task ≠ none → r.elapsed < r.budget ∧ r.sinceRead = 0
  | .queue (.loop q op (some _) _) => k.queueReady q op = false → r.Decides
  | .event (.loop w deadline) =>
    (eventConditionMet (k.group w.group).bits w.mask w.mode = true →
      (k.group w.group).bits = 0xFFFFFFFF → r.budget ≤ r.elapsed) ∧
    (deadline.isSome = true → eventConditionMet (k.group w.group).bits w.mask w.mode = false →
      (r.elapsed < r.budget → r.InPeriod ∧ k.eventPendingSlot ≠ none) ∧
        (r.budget ≤ r.elapsed → r.deadline ≤ r.now ∨ k.eventPendingSlot = none))
  | .event (.blocked _ _ i) => (k.pending i).observedBits = 0xFFFFFFFF → r.budget ≤ r.elapsed
  | _ => True

instance (k : Kernel) (r : Timing) : DecidablePred (Ctl.ReadsInTime k r)
  | .mutex (.clock _ _) => inferInstanceAs (Decidable (_ → _))
  | .mutex (.block _ (some _)) => inferInstanceAs (Decidable (_ → _))
  | .queue (.loop _ _ (some _) _) => inferInstanceAs (Decidable (_ → _))
  | .event (.loop _ _) => inferInstanceAs (Decidable (_ ∧ _))
  | .event (.blocked _ _ _) => inferInstanceAs (Decidable (_ → _))
  | .mutex (.block _ none) | .queue (.loop _ _ none _) => inferInstanceAs (Decidable True)
  | .app | .sem _ | .notify _ | .sched _ => inferInstanceAs (Decidable True)
  | .mutex (.enter _ _) | .mutex (.attempt _ _ _) | .mutex (.blocked _ _) | .mutex (.acquired _)
  | .mutex (.trylock _) | .mutex (.unlock _) | .mutex (.release _) | .mutex (.locked _)
  | .mutex (.lockTimeoutReturned _ _) | .mutex (.trylocked _ _) | .mutex (.unlocked _) =>
    inferInstanceAs (Decidable True)
  | .queue (.enter _ _ _) | .queue (.blocked _ _ _) | .queue (.attempt _ _) | .queue (.wake _ _ _)
  | .queue (.trigger _ _) | .queue (.finish _ _) | .queue (.returned _) =>
    inferInstanceAs (Decidable True)
  | .event (.set _ _) | .event (.clear _ _) | .event (.get _) | .event (.enter _ _) | .event .done
  | .event (.got _ _) | .event (.returned _ _) => inferInstanceAs (Decidable True)

/-- The reading of the counter by the executing task, if the step is one, is in time. -/
def Machine.ReadsInTime (m : Machine) (g : Timings) : Action → Prop
  | .exec =>
    match m.active with
    | some (.thread t) => ∀ r ∈ g.of t, (m.ctl (.thread t)).ReadsInTime m.kernel r
    | _ => True
  | _ => True

instance (m : Machine) (g : Timings) : DecidablePred (m.ReadsInTime g)
  | .exec =>
    match h : m.active with
    | some (.thread t) =>
      decidable_of_iff (∀ r ∈ g.of t, (m.ctl (.thread t)).ReadsInTime m.kernel r) (by
        simp only [Machine.ReadsInTime, h])
    | some (.isr _) | none => .isTrue (by simp only [Machine.ReadsInTime, h])
  | .call _ | .irq _ | .pendSV | .clock _ | .tick _ => inferInstanceAs (Decidable True)

theorem Machine.readsInTime_exec {m : Machine} {g : Timings} {t : TaskPtr}
    (hact : m.active = some (.thread t)) : m.ReadsInTime g .exec ↔
      ∀ r, g.of t = some r → (m.ctl (.thread t)).ReadsInTime m.kernel r := by
  simp only [Machine.ReadsInTime, hact, Option.mem_def]

/-! ### What is known about a bounded wait -/

/-- What `mutex_lock_timeout` has computed as the time that is left. -/
def Ctl.remaining : Ctl → Option ℕ
  | .mutex (.block _ timeout) => timeout.map Prod.snd
  | _ => none

/-- The timing `r` of the task `t` at the program point `c` agrees with the kernel. -/
structure Agrees (k : Kernel) (due : Bool) (t : TaskPtr) (c : Ctl) (r : Timing) : Prop
    extends c.Honours k due t r where
  counter : k.ticks = r.now
  word : r.budget < 2 ^ 32
  deadline : ∀ d, c.deadline = some d → d = r.deadline
  remaining : ∀ rem, c.remaining = some rem → 0 < rem ∧ r.sinceRead ≤ r.elapsed ∧
    (r.elapsed - r.sinceRead < r.budget → rem + (r.elapsed - r.sinceRead) = r.budget)
  marked : c.timed = true → (k.tcb t).timedOut = true → r.budget ≤ r.elapsed

variable {k k' : Kernel} {t : TaskPtr} {due : Bool} {c c' : Ctl} {r : Timing} {o : List Obs}

/-- A program point at which nothing is reported and nothing is waited for. -/
structure Ctl.Calm (c : Ctl) : Prop where
  timed : c.timed = false
  reportsTimeout : c.reportsTimeout = false
  remaining : c.remaining = none

theorem Ctl.Calm.honours (h : c.Calm) : c.Honours k due t r where
  reports he := by
    rw [h.reportsTimeout] at he
    cases he
  running he := by
    rw [h.timed] at he
    cases he

theorem Ctl.Calm.agrees (hc : c'.Calm) (h : Agrees k due t c r) (hticks : k'.ticks = k.ticks)
    (hd : ∀ d, c'.deadline = some d → c.deadline = some d) : Agrees k' due t c' r where
  toHonours := hc.honours
  counter := hticks.trans h.counter
  word := h.word
  deadline d he := h.deadline d (hd d he)
  remaining rem he := by
    rw [hc.remaining] at he
    cases he
  marked he := by
    rw [hc.timed] at he
    cases he

theorem Agrees.read (h : Agrees k due t c r) (hc : c.Calm) : Agrees k due t c r.read where
  toHonours := hc.honours
  counter := h.counter
  word := h.word
  deadline := h.deadline
  remaining rem he := by
    rw [hc.remaining] at he
    cases he
  marked := h.marked

/-- Blocking with a timeout. -/
theorem Kernel.blockOn_self {l : WaitList} {ms : ℕ} (h : k.blockOn l t (some ms) = some k') :
    (k'.tcb t).state = .blocked ∧ (k'.tcb t).delayTicks = ms ∧ (k'.tcb t).timedOut = false := by
  rw [blockOn_eq] at h
  obtain ⟨k₁, hins, rfl⟩ := Option.map_eq_some_iff.1 h
  obtain ⟨S, hrel⟩ := wqInsert_relinked hins
  have htcb := hrel.tcb t
  rw [modifyTask_self] at htcb
  have hres := k₁.rescheduled_schedPickAndMark
  have hstate : (k₁.tcb t).state = .blocked := by
    rw [htcb]
    rfl
  refine ⟨(hres.state_iff (by rintro (h | h) <;> cases h)).2 hstate,
    (hres.delayTicks t).trans ?_, (hres.timedOut t).trans ?_⟩
  · rw [htcb]
    rfl
  · rw [htcb]
    rfl

variable (c') in
/-- A caller that has just blocked for `ms` agrees with its timing exactly when `ms` is what is left
of its budget. -/
theorem Agrees.block (h : Agrees k false t c r) (hticks : k'.ticks = k.ticks) {ms : ℕ}
    (hk : (k'.tcb t).state = .blocked ∧ (k'.tcb t).delayTicks = ms ∧
      (k'.tcb t).timedOut = false) (hc : c'.timed = true) (hrep : c'.reportsTimeout = false)
    (hrem : c'.remaining = none) (hd : ∀ d, c'.deadline = some d → c.deadline = some d) :
    (0 < ms ∧ ms + r.elapsed = r.budget → Agrees k' false t c' r) ∧
      (c'.Honours k' false t r → 0 < ms ∧ ms + r.elapsed = r.budget) := by
  obtain ⟨hstate, hdelay, hmark⟩ := hk
  refine ⟨fun hms => ?_, fun hh => ?_⟩
  · refine ⟨⟨fun he => ?_, fun _ _ => ?_⟩, hticks.trans h.counter, h.word,
      fun d he => h.deadline d (hd d he), fun rem he => ?_, fun _ he => ?_⟩
    · rw [hrep] at he
      cases he
    · rw [hdelay]
      exact hms
    · rw [hrem] at he
      cases he
    · rw [hmark] at he
      cases he
  · have hrun := hh.running hc hstate
    rw [hdelay] at hrun
    exact hrun

variable (c') in
/-- A caller that has just reported a timeout agrees with its timing exactly when its budget is
over. -/
theorem Agrees.report (h : Agrees k false t c r) (hticks : k'.ticks = k.ticks)
    (hc : c'.timed = false) (hrep : c'.reportsTimeout = true) (hrem : c'.remaining = none)
    (hd : c'.deadline = none) :
    (r.budget ≤ r.elapsed → Agrees k' false t c' r) ∧
      (c'.Honours k' false t r → r.budget ≤ r.elapsed) := by
  refine ⟨fun hle => ⟨⟨fun _ => hle, fun he => ?_⟩, hticks.trans h.counter, h.word, fun d he => ?_,
    fun rem he => ?_, fun he => ?_⟩, fun hh => hh.reports hrep⟩
  · rw [hc] at he
    cases he
  · rw [hd] at he
    cases he
  · rw [hrem] at he
    cases he
  · rw [hc] at he
    cases he

/-! ### The test of the deadline -/

/-- The call goes on and blocks for `deadline - now`: this is what is left of the budget exactly when
the reading decides right. -/
theorem Timing.left_iff (hlt : r.now < r.deadline) :
    0 < r.deadline - r.now ∧ r.deadline - r.now + r.elapsed = r.budget ↔ r.Decides := by
  refine ⟨fun ⟨hpos, hleft⟩ => ⟨fun _ => ?_, fun hle => ?_⟩, fun ⟨hin, hover⟩ => ?_⟩
  · by_contra hwrap
    have hword : r.budget < r.elapsed + 2 ^ 32 := by
      unfold deadline now at hleft
      omega
    have hd := lt_of_not_unwrapped hwrap (by omega) (by omega)
    unfold deadline now at hlt
    omega
  · omega
  · have hbudget : r.elapsed < r.budget := by
      by_contra hle
      have hd := hover (by omega)
      omega
    obtain ⟨-, hsub⟩ := sub_of_inPeriod (hin hbudget) hbudget
    omega

/-- The call gives up: the budget is over exactly when the reading decides right. -/
theorem Timing.over_iff (hle : r.deadline ≤ r.now) : r.budget ≤ r.elapsed ↔ r.Decides := by
  refine ⟨fun hover => ⟨fun hlt => by omega, fun _ => hle⟩, fun ⟨hin, _⟩ => ?_⟩
  by_contra hlt
  have hd := (sub_of_inPeriod (hin (by omega)) (by omega)).1
  omega

/-! ### The steps of the executing task -/

/-- The timing after a step that is not the beginning of a bounded wait. -/
def Timing.next (r : Timing) (c : Ctl) : Timing := if c.reads then r.read else r

/-- A step from `k`, `c` to `k'`, `c'`: when its reading is in time, what is known about the wait is
kept, and the budget is honoured only when it is. -/
structure Judged (k : Kernel) (t : TaskPtr) (c : Ctl) (r : Timing) (k' : Kernel) (c' : Ctl) :
    Prop where
  agrees : c.ReadsInTime k r → Agrees k' false t c' (r.next c)
  inTime : c'.Honours k' false t (r.next c) → c.ReadsInTime k r

theorem Agrees.judged (h : Agrees k' false t c' (r.next c)) (hin : c.ReadsInTime k r) :
    Judged k t c r k' c' :=
  ⟨fun _ => h, fun _ => hin⟩

namespace Agrees

/-- The steps of the mutex calls. -/
theorem mutexStep {c c' : MutexCtl} (h : Agrees k false t (.mutex c) r)
    (hb : (Ctl.mutex c).begins = none) (hs : mutexStep k t c = some (k', c', o)) :
    Judged k t (.mutex c) r k' (.mutex c') := by
  have hticks : k'.ticks = k.ticks := (mutexStep_stores hs).objects.ticks
  -- the steps to a program point at which nothing is reported and nothing is waited for
  have hcalm : (Ctl.mutex c').Calm → (Ctl.mutex c).reads = false →
      (∀ d, (Ctl.mutex c').deadline = some d → (Ctl.mutex c).deadline = some d) →
      (Ctl.mutex c).ReadsInTime k r → Judged k t (.mutex c) r k' (.mutex c') := by
    intro hc hr hd hin
    refine Agrees.judged ?_ hin
    rw [Timing.next, hr]
    exact hc.agrees h hticks hd
  cases c with
  | enter m ms => cases hb
  | attempt m deadline retry =>
    simp only [TamgaOs.mutexStep] at hs
    split at hs <;> cases hs
    · exact hcalm ⟨rfl, rfl, rfl⟩ rfl (fun d he => by cases he) trivial
    · exact hcalm ⟨rfl, rfl, rfl⟩ rfl (fun d he => by cases he) trivial
    · exact hcalm ⟨rfl, rfl, rfl⟩ rfl (fun d he => by cases he) trivial
    · exact hcalm ⟨rfl, rfl, rfl⟩ rfl (fun d he => he) trivial
  | clock m d =>
    have hd : d = r.deadline := h.deadline d rfl
    subst hd
    simp only [TamgaOs.mutexStep, h.counter] at hs
    have hread : r.next (.mutex (.clock m r.deadline)) = r.read := rfl
    have hhead : Agrees k false t (.mutex (.clock m r.deadline)) r.read := h.read ⟨rfl, rfl, rfl⟩
    split_ifs at hs with hle <;> cases hs
    · obtain ⟨hto, hfrom⟩ := hhead.report (.mutex (.lockTimeoutReturned m (-1))) hticks rfl
        rfl rfl rfl
      have hiff := Timing.over_iff hle
      refine ⟨fun hin => ?_, fun hh hlt => ?_⟩
      · rw [hread]
        refine hto (not_lt.1 fun hlt => ?_)
        have hd := (Timing.sub_of_inPeriod (hin hlt) hlt).1
        omega
      · rw [hread] at hh
        exact (hiff.1 (hfrom hh)).1 hlt
    · have hiff := Timing.left_iff (not_le.1 hle)
      refine ⟨fun hin => ?_, fun _ hlt => ?_⟩
      · rw [hread]
        refine ⟨⟨fun he => (by cases he), fun he => (by cases he)⟩, h.counter, h.word,
          fun d he => (Option.some.inj he).symm, fun rem he => ?_, fun he => (by cases he)⟩
        obtain rfl : r.deadline - r.now = rem := Option.some.inj he
        refine ⟨by omega, Nat.zero_le _, fun hlt => ?_⟩
        exact (Timing.sub_of_inPeriod (hin hlt) hlt).2 ▸ Nat.sub_add_cancel hlt.le
      · by_contra hwrap
        have hd := Timing.deadline_lt_of_not_inPeriod hwrap hlt h.word
        omega
  | block m timeout =>
    rcases mutexStep_block hs with ⟨hfree, rfl, rfl, -⟩ | ⟨owner, howner, hblock, rfl, -⟩
    · cases timeout with
      | none => exact hcalm ⟨rfl, rfl, rfl⟩ rfl (fun d he => by cases he) trivial
      | some p => exact hcalm ⟨rfl, rfl, rfl⟩ rfl (fun d he => he) fun hne => absurd hfree hne
    · cases timeout with
      | none => exact hcalm ⟨rfl, rfl, rfl⟩ rfl (fun d he => by cases he) trivial
      | some p =>
        obtain ⟨d, rem⟩ := p
        obtain ⟨hpos, hread, hleft⟩ := h.remaining rem rfl
        obtain ⟨hto, hfrom⟩ := h.block (.mutex (.blocked m (some d))) hticks
          (Kernel.blockOn_self hblock) rfl rfl rfl fun d he => he
        have hnext : r.next (.mutex (.block m (some (d, rem)))) = r := rfl
        have htask : (k.mutex m).task ≠ none := by
          rw [howner]
          simp
        refine ⟨fun hin => ?_, fun hh _ => ?_⟩
        · obtain ⟨hlt, hzero⟩ := hin htask
          rw [hnext]
          exact hto ⟨hpos, by have := hleft (by omega); omega⟩
        · rw [hnext] at hh
          obtain ⟨-, hsum⟩ := hfrom hh
          have hle := hleft (by omega)
          omega
  | blocked m deadline =>
    simp only [TamgaOs.mutexStep] at hs
    split_ifs at hs with hmark <;> cases hs
    · have hto := (h.report (.mutex (.lockTimeoutReturned m (-1))) hticks rfl rfl rfl rfl).1
      exact Agrees.judged (hto (h.marked hmark.1 hmark.2)) trivial
    · exact hcalm ⟨rfl, rfl, rfl⟩ rfl (fun d he => he) trivial
  | acquired m =>
    cases hs
    exact hcalm ⟨rfl, rfl, rfl⟩ rfl (fun d he => by cases he) trivial
  | trylock m =>
    simp only [TamgaOs.mutexStep] at hs
    split at hs <;> cases hs <;>
      exact hcalm ⟨rfl, rfl, rfl⟩ rfl (fun d he => by cases he) trivial
  | unlock m =>
    simp only [TamgaOs.mutexStep] at hs
    split_ifs at hs <;> cases hs <;>
      exact hcalm ⟨rfl, rfl, rfl⟩ rfl (fun d he => by cases he) trivial
  | release m =>
    cases hs
    exact hcalm ⟨rfl, rfl, rfl⟩ rfl (fun d he => by cases he) trivial
  | locked m | lockTimeoutReturned m v | trylocked m b | unlocked m => cases hs

/-- The steps of the queue calls. -/
theorem queueStep {c c' : QueueCtl} (h : Agrees k false t (.queue c) r)
    (hb : (Ctl.queue c).begins = none)
    (hresult : ∀ v, (Ctl.queue c).queueResult = some v → v ≠ -1)
    (hs : queueStep k t c = some (k', c', o)) : Judged k t (.queue c) r k' (.queue c') := by
  have hticks : k'.ticks = k.ticks := (queueStep_stores hs).objects.ticks
  have hnext : r.next (.queue c) = r := by cases c <;> rfl
  have hcalm : (Ctl.queue c').Calm →
      (∀ d, (Ctl.queue c').deadline = some d → (Ctl.queue c).deadline = some d) →
      (Ctl.queue c).ReadsInTime k r → Judged k t (.queue c) r k' (.queue c') := by
    intro hc hd hin
    refine Agrees.judged ?_ hin
    rw [hnext]
    exact hc.agrees h hticks hd
  cases c with
  | enter q op ms => cases hb
  | loop q op deadline retry =>
    rcases queueStep_loop hs with ⟨hready, rfl, rfl, -⟩ | ⟨d, hready, rfl, hle, rfl, rfl, -⟩ |
      ⟨hready, hlt, hblock, rfl, -⟩
    · cases deadline with
      | none => exact hcalm ⟨rfl, rfl, rfl⟩ (fun d he => by cases he) trivial
      | some d =>
        refine hcalm ⟨rfl, rfl, rfl⟩ (fun d he => by cases he) fun hno => ?_
        rw [hready] at hno
        cases hno
    · obtain rfl := h.deadline d rfl
      rw [h.counter] at hle
      obtain ⟨hto, hfrom⟩ := h.report (.queue (.returned ⟨q, op, -1, []⟩)) hticks rfl rfl rfl rfl
      refine ⟨fun hi => ?_, fun hh => ?_⟩
      · rw [hnext]
        exact hto ((Timing.over_iff hle).2 (hi hready))
      · rw [hnext] at hh
        exact fun _ => (Timing.over_iff hle).1 (hfrom hh)
    · cases deadline with
      | none => exact hcalm ⟨rfl, rfl, rfl⟩ (fun d he => by cases he) trivial
      | some d =>
        obtain rfl := h.deadline d rfl
        have hlt := hlt _ rfl
        rw [Option.map_some] at hblock
        rw [h.counter] at hlt hblock
        obtain ⟨hto, hfrom⟩ := h.block (.queue (.blocked q op (some r.deadline))) hticks
          (Kernel.blockOn_self hblock) rfl rfl rfl fun d he => he
        have hiff := Timing.left_iff hlt
        refine ⟨fun hi => ?_, fun hh => ?_⟩
        · rw [hnext]
          exact hto (hiff.2 (hi hready))
        · rw [hnext] at hh
          exact fun _ => hiff.1 (hfrom hh)
  | blocked q op deadline =>
    simp only [TamgaOs.queueStep] at hs
    split_ifs at hs with hmark <;> cases hs
    · have hto := (h.report (.queue (.returned ⟨q, op, -1, []⟩)) hticks rfl rfl rfl rfl).1
      refine Agrees.judged ?_ trivial
      rw [hnext]
      exact hto (h.marked hmark.1 hmark.2)
    · refine hcalm ⟨rfl, rfl, rfl⟩ (fun d he => he) ?_
      cases deadline <;> trivial
  | attempt q op =>
    simp only [TamgaOs.queueStep] at hs
    split_ifs at hs <;> cases hs <;>
      exact hcalm ⟨rfl, rfl, rfl⟩ (fun d he => by cases he) trivial
  | wake w timed ret =>
    cases w <;> cases hs <;> exact hcalm ⟨rfl, rfl, rfl⟩ (fun d he => by cases he) trivial
  | trigger timed ret =>
    cases hs
    exact hcalm ⟨rfl, rfl, rfl⟩ (fun d he => by cases he) trivial
  | finish timed ret =>
    have hvalue : decide (ret.value = -1) = false := decide_eq_false (hresult _ rfl)
    simp only [TamgaOs.queueStep] at hs
    split_ifs at hs <;> cases hs <;>
      exact hcalm ⟨rfl, hvalue, rfl⟩ (fun d he => by cases he) trivial
  | returned ret => cases hs

/-- The steps of the event calls. -/
theorem eventStep {c c' : EventCtl} (h : Agrees k false t (.event c) r)
    (hb : (Ctl.event c).begins = none) (hs : eventStep k t c = some (k', c', o)) :
    Judged k t (.event c) r k' (.event c') := by
  have hticks : k'.ticks = k.ticks := (eventStep_stores hs).objects.ticks
  have hnext : r.next (.event c) = r := by cases c <;> rfl
  have hcalm : (Ctl.event c').Calm →
      (∀ d, (Ctl.event c').deadline = some d → (Ctl.event c).deadline = some d) →
      (Ctl.event c).ReadsInTime k r → Judged k t (.event c) r k' (.event c') := by
    intro hc hd hin
    refine Agrees.judged ?_ hin
    rw [hnext]
    exact hc.agrees h hticks hd
  -- a return with the bits that have been observed
  have hgrant : ∀ {w : EventWait} {b : BitVec 32}, c' = .returned w (.granted b) →
      ((Ctl.event c).ReadsInTime k r ↔ (b = 0xFFFFFFFF → r.budget ≤ r.elapsed)) →
      Judged k t (.event c) r k' (.event c') := by
    rintro w b rfl hin
    by_cases hb : b = 0xFFFFFFFF
    · obtain ⟨hto, hfrom⟩ := h.report (.event (.returned w (.granted b))) hticks rfl
        (decide_eq_true hb) rfl rfl
      rw [← hnext] at hto hfrom
      refine ⟨fun hi => hto ?_, fun hh => hin.2 fun _ => ?_⟩
      · rw [hnext]
        exact hin.1 hi hb
      · have hover := hfrom hh
        rwa [hnext] at hover
    · have hother : (Ctl.event (.returned w (.granted b))).reportsTimeout = false :=
        decide_eq_false hb
      exact hcalm ⟨rfl, hother, rfl⟩ (fun d he => by cases he) (hin.2 fun he => absurd he hb)
  cases c with
  | enter w ms => cases hb
  | set e bits =>
    obtain ⟨p, -, he⟩ := Option.map_eq_some_iff.1 hs
    cases he
    exact hcalm ⟨rfl, rfl, rfl⟩ (fun d he => by cases he) trivial
  | clear e bits =>
    cases hs
    exact hcalm ⟨rfl, rfl, rfl⟩ (fun d he => by cases he) trivial
  | get e =>
    cases hs
    exact hcalm ⟨rfl, rfl, rfl⟩ (fun d he => by cases he) trivial
  | loop w deadline =>
    have hpass := eventStep_loop hs
    cases deadline with
    | none =>
      have hunmet : eventConditionMet (k.group w.group).bits w.mask w.mode = false →
          (Ctl.event (.loop w none)).ReadsInTime k r := by
        refine fun hno => ⟨fun hmet => ?_, fun he => by cases he⟩
        rw [hno] at hmet
        cases hmet
      rcases hpass with ⟨hmet, -, hc', -⟩ |
        ⟨hno, ⟨d, he, -⟩ | ⟨-, ⟨-, rfl, rfl, -⟩ | ⟨i, -, -, rfl, -⟩⟩⟩
      · exact hgrant hc' ⟨fun hi => hi.1 hmet, fun hle => ⟨fun _ => hle, fun he => by cases he⟩⟩
      · cases he
      · exact hcalm ⟨rfl, rfl, rfl⟩ (fun d he => by cases he) (hunmet hno)
      · exact hcalm ⟨rfl, rfl, rfl⟩ (fun d he => by cases he) (hunmet hno)
    | some d =>
      obtain rfl := h.deadline d rfl
      -- the condition is not met
      have hlast : (eventConditionMet (k.group w.group).bits w.mask w.mode = false →
          (r.elapsed < r.budget → r.InPeriod ∧ k.eventPendingSlot ≠ none) ∧
            (r.budget ≤ r.elapsed → r.deadline ≤ r.now ∨ k.eventPendingSlot = none)) →
          eventConditionMet (k.group w.group).bits w.mask w.mode = false →
          (Ctl.event (.loop w (some r.deadline))).ReadsInTime k r := by
        refine fun hi hno => ⟨fun hmet => ?_, fun _ => hi⟩
        rw [hno] at hmet
        cases hmet
      have hreport := fun (ret : EventReturn) (hret : (Ctl.event (.returned w ret)).reportsTimeout
          = true) => h.report (.event (.returned w ret)) hticks rfl hret rfl rfl
      rcases hpass with ⟨hmet, -, hc', -⟩ | ⟨hno, ⟨d, he, hle, rfl, rfl, -⟩ | ⟨hlt, hblock⟩⟩
      · refine hgrant hc' ⟨fun hi => hi.1 hmet, fun hle => ⟨fun _ => hle, fun _ hno => ?_⟩⟩
        rw [hmet] at hno
        cases hno
      · cases he
        rw [h.counter] at hle
        obtain ⟨hto, hfrom⟩ := hreport .expired rfl
        rw [← hnext] at hto hfrom
        refine ⟨fun hi => hto ?_, fun hh => hlast (fun _ => ?_) hno⟩
        · obtain ⟨hearly, -⟩ := hi.2 rfl hno
          by_contra hlt
          rw [hnext] at hlt
          have hd := (Timing.sub_of_inPeriod (hearly (by omega)).1 (by omega)).1
          omega
        · have hover := hfrom hh
          rw [hnext] at hover
          exact ⟨fun hlt => by omega, fun _ => Or.inl hle⟩
      · have hle : ¬ r.deadline ≤ r.now := by
          rw [← h.counter]
          exact not_le.2 (hlt _ rfl)
        rcases hblock with ⟨hslot, rfl, rfl, -⟩ | ⟨i, hslot, hblock, rfl, -⟩
        · obtain ⟨hto, hfrom⟩ := hreport .noSlot rfl
          rw [← hnext] at hto hfrom
          refine ⟨fun hi => hto ?_, fun hh => hlast (fun _ => ?_) hno⟩
          · rw [hnext]
            by_contra hlt
            exact ((hi.2 rfl hno).1 (by omega)).2 hslot
          · have hover := hfrom hh
            rw [hnext] at hover
            exact ⟨fun hlt => by omega, fun _ => Or.inr hslot⟩
        · rw [Option.map_some, h.counter] at hblock
          obtain ⟨hto, hfrom⟩ := h.block (.event (.blocked w (some r.deadline) i)) hticks
            (Kernel.blockOn_self hblock) rfl rfl rfl fun d he => he
          rw [← hnext] at hto hfrom
          have hiff := Timing.left_iff (not_le.1 hle)
          have hsome : k.eventPendingSlot ≠ none := by
            rw [hslot]
            simp
          refine ⟨fun hi => hto ?_, fun hh => hlast (fun _ => ?_) hno⟩
          · obtain ⟨hearly, hlate⟩ := hi.2 rfl hno
            rw [hnext]
            exact hiff.2 ⟨fun hlt => (hearly hlt).1, fun hover => (hlate hover).resolve_right hsome⟩
          · have hleft := hfrom hh
            rw [hnext] at hleft
            obtain ⟨hearly, hlate⟩ := hiff.1 hleft
            exact ⟨fun hlt => ⟨hearly hlt, hsome⟩, fun hover => Or.inl (hlate hover)⟩
  | blocked w deadline i =>
    simp only [TamgaOs.eventStep] at hs
    split_ifs at hs with hmark <;> cases hs
    · have hover : r.budget ≤ r.elapsed := h.marked hmark.1 hmark.2
      have hto := (h.report (.event (.returned w .expired)) hticks rfl rfl rfl rfl).1
      refine Agrees.judged ?_ fun _ => hover
      rw [hnext]
      exact hto hover
    · exact hgrant rfl Iff.rfl
  | done | got e b | returned w ret => cases hs

/-- The steps of all calls. -/
theorem ctlStep (h : Agrees k false t c r) (hb : c.begins = none)
    (hresult : ∀ v, c.queueResult = some v → v ≠ -1) (hs : ctlStep k t c = some (k', c', o)) :
    Judged k t c r k' c' := by
  cases ctlStep_cases hs with
  | mutex hst => exact h.mutexStep hb hst
  | queue hst => exact h.queueStep hb hresult hst
  | event hst => exact h.eventStep hb hst
  | sem c | notify c | sched c =>
    obtain ⟨⟨k₁, c₁, o₁⟩, -, he⟩ := Option.map_eq_some_iff.1 hs
    have hticks := (ctlStep_stores rfl hs).objects.ticks
    cases he
    exact Agrees.judged (Ctl.Calm.agrees ⟨rfl, rfl, rfl⟩ h hticks fun d he => by cases he) trivial

/-- A bounded wait begins. -/
theorem begin {ms : ℕ} (hb : c.begins = some ms) (hms : ms < 2 ^ 32) (hk : k.ticks < 2 ^ 32)
    (hs : TamgaOs.ctlStep k t c = some (k', c', o)) :
    Agrees k' false t c' { budget := ms, start := k.ticks } := by
  have hstep : k' = k ∧ c'.Calm ∧ ∀ d, c'.deadline = some d → d = k.deadline ms := by
    cases c with
    | mutex c =>
      cases c with
      | enter m ms' =>
        cases hb
        cases hs
        exact ⟨rfl, ⟨rfl, rfl, rfl⟩, fun d he => (Option.some.inj he).symm⟩
      | _ => cases hb
    | queue c =>
      cases c with
      | enter q op ms' =>
        cases hb
        cases hs
        exact ⟨rfl, ⟨rfl, rfl, rfl⟩, fun d he => (Option.some.inj he).symm⟩
      | _ => cases hb
    | event c =>
      cases c with
      | enter w ms' =>
        cases hb
        cases hs
        exact ⟨rfl, ⟨rfl, rfl, rfl⟩, fun d he => (Option.some.inj he).symm⟩
      | _ => cases hb
    | _ => cases hb
  obtain ⟨rfl, hcalm, hd⟩ := hstep
  refine ⟨hcalm.honours, (Nat.mod_eq_of_lt hk).symm, hms, hd, fun rem he => ?_, fun he => ?_⟩
  · rw [hcalm.remaining] at he
    cases he
  · rw [hcalm.timed] at he
    cases he

/-! ### The steps of others -/

/-- Whatever keeps the counter, sets no mark and does not touch the delay of a blocked task keeps
what is known about its wait. -/
theorem frame (h : Agrees k due t c r) (hticks : k'.ticks = k.ticks)
    (hmark : (k'.tcb t).timedOut = true → (k.tcb t).timedOut = true)
    (hblocked : (k'.tcb t).state = .blocked → (k.tcb t).state = .blocked ∧
      (k'.tcb t).delayTicks = (k.tcb t).delayTicks) : Agrees k' due t c r where
  reports := h.reports
  running hc hb := by
    obtain ⟨hstate, hdelay⟩ := hblocked hb
    rw [hdelay]
    exact h.running hc hstate
  counter := hticks.trans h.counter
  word := h.word
  deadline := h.deadline
  remaining := h.remaining
  marked hc hm := h.marked hc (hmark hm)

/-- The counter advances. -/
theorem pass (h : Agrees k false t c r) : Agrees (k.advanceClock 1) true t c (r.pass 1) where
  reports hc := (h.reports hc).trans (Nat.le_add_right ..)
  running hc hb := by
    obtain ⟨hpos, hsum⟩ := h.running hc hb
    refine ⟨hpos, ?_⟩
    change (k.tcb t).delayTicks + (r.elapsed + 1) = r.budget + 1
    rw [← Nat.add_assoc, hsum]
    rfl
  counter := by
    change (k.ticks + 1) % 2 ^ 32 = (r.start + (r.elapsed + 1)) % 2 ^ 32
    rw [h.counter, Timing.now, Nat.mod_add_mod, Nat.add_assoc]
  word := h.word
  deadline := h.deadline
  remaining rem he := by
    obtain ⟨hpos, hread, hleft⟩ := h.remaining rem he
    refine ⟨hpos, Nat.add_le_add_right hread 1, ?_⟩
    change r.elapsed + 1 - (r.sinceRead + 1) < r.budget →
      rem + (r.elapsed + 1 - (r.sinceRead + 1)) = r.budget
    rwa [Nat.add_sub_add_right]
  marked hc hm := (h.marked hc hm).trans (Nat.le_add_right ..)

/-- `sched_tick`. -/
theorem tick (h : Agrees k true t c r) (htable : c.timed = true → InTable k t)
    (hs : k.schedTickN 1 = some k') : Agrees k' false t c r where
  reports := h.reports
  running hc hb := by
    obtain ⟨k₁, honly, rfl⟩ := Kernel.schedTickN_only hs
    have hres := k₁.rescheduled_schedPickAndMark
    have htcb : k₁.schedPickAndMark.triggerIfSwitch.tcb t = k₁.schedPickAndMark.tcb t := by
      unfold Kernel.triggerIfSwitch
      split_ifs <;> rfl
    rw [htcb] at hb ⊢
    obtain ⟨hstate, hdelay⟩ := hres.blocked hb
    rw [hdelay]
    obtain ⟨i, hi, rfl⟩ := htable hc
    have htask := honly.task (.tcb i)
    rw [if_pos ⟨i, List.mem_range.2 hi, rfl⟩] at htask
    simp only [Kernel.ticked] at htask
    split_ifs at htask with hrun hover
    · rw [(Prod.mk.inj htask).1] at hstate
      cases hstate
    · obtain ⟨hpos, hsum⟩ := h.running hc hrun.1
      rw [(Prod.mk.inj htask).2]
      simp only [Bool.toNat_true, Bool.toNat_false] at hsum ⊢
      omega
    · rw [(Prod.mk.inj htask).1] at hstate
      obtain ⟨hpos, -⟩ := h.running hc hstate
      exact absurd ⟨hstate, hpos⟩ hrun
  counter := (SameObjects.schedTickN hs).ticks.trans h.counter
  word := h.word
  deadline := h.deadline
  remaining := h.remaining
  marked hc hm := by
    rcases Kernel.timedOut_schedTickN hs hm with hold | hexp
    · exact h.marked hc hold
    · obtain ⟨i, hi, rfl⟩ := htable hc
      obtain ⟨-, hstate, hpos, hle⟩ := Kernel.expires_tcb.1 hexp
      obtain ⟨-, hsum⟩ := h.running hc hstate
      simp only [Bool.toNat_true] at hsum
      omega

end Agrees

/-! ### The steps of the machine -/

theorem Call.entry_points (c : Call) : c.entry.deadline = none ∧ c.entry.queueResult = none ∧
    c.entry.begins = c.budget := by
  cases c <;> exact ⟨rfl, rfl, rfl⟩

/-- What a step leads to: not to the beginning of a bounded wait; to the value -1 of a queue call
only where it was to be returned already; and to a deadline from one, or from the beginning of a
bounded wait. -/
structure Ctl.Follows (c c' : Ctl) : Prop where
  begins : c'.begins = none
  result : (∀ v, c.queueResult = some v → v ≠ -1) → ∀ v, c'.queueResult = some v → v ≠ -1
  bounded : c'.deadline.isSome = true → c.begins.isSome = true ∨ c.deadline.isSome = true

/-- To a program point that is in no bounded wait. -/
theorem Ctl.Follows.leave (hb : c'.begins = none) (hv : ∀ v, c'.queueResult = some v → v ≠ -1)
    (hd : c'.deadline = none) : c.Follows c' := by
  refine ⟨hb, fun _ => hv, fun he => ?_⟩
  rw [hd] at he
  cases he

/-- From a program point in a bounded wait, or from its beginning. -/
theorem Ctl.Follows.stay (hb : c'.begins = none) (hv : c'.queueResult = none)
    (hc : c.begins.isSome = true ∨ c.deadline.isSome = true) : c.Follows c' := by
  refine ⟨hb, fun _ v he => ?_, fun _ => hc⟩
  rw [hv] at he
  cases he

theorem mutexStep_follows {c c' : MutexCtl} (hs : mutexStep k t c = some (k', c', o)) :
    (Ctl.mutex c).Follows (.mutex c') := by
  have hleave : (Ctl.mutex c').begins = none → (Ctl.mutex c').deadline = none →
      (Ctl.mutex c).Follows (.mutex c') :=
    fun hb hd => .leave hb (fun v he => by cases he) hd
  cases c with
  | enter m ms =>
    cases hs
    exact .stay rfl rfl (Or.inl rfl)
  | attempt m deadline retry =>
    simp only [mutexStep] at hs
    split at hs <;> cases hs
    · exact hleave rfl rfl
    · exact hleave rfl rfl
    · exact hleave rfl rfl
    · exact .stay rfl rfl (Or.inr rfl)
  | clock m d =>
    simp only [mutexStep] at hs
    split_ifs at hs <;> cases hs <;> exact .stay rfl rfl (Or.inr rfl)
  | block m timeout =>
    simp only [mutexStep] at hs
    split at hs <;> cases hs <;> cases timeout
    · exact hleave rfl rfl
    · exact .stay rfl rfl (Or.inr rfl)
    · exact hleave rfl rfl
    · exact .stay rfl rfl (Or.inr rfl)
  | blocked m deadline =>
    simp only [mutexStep] at hs
    split_ifs at hs with hmark <;> cases hs
    · exact .stay rfl rfl (Or.inr hmark.1)
    · cases deadline with
      | none => exact hleave rfl rfl
      | some d => exact .stay rfl rfl (Or.inr rfl)
  | acquired m | release m =>
    cases hs
    exact hleave rfl rfl
  | trylock m =>
    simp only [mutexStep] at hs
    split at hs <;> cases hs <;> exact hleave rfl rfl
  | unlock m =>
    simp only [mutexStep] at hs
    split_ifs at hs <;> cases hs <;> exact hleave rfl rfl
  | locked m | lockTimeoutReturned m v | trylocked m b | unlocked m => cases hs

theorem queueStep_follows {c c' : QueueCtl} (hs : queueStep k t c = some (k', c', o)) :
    (Ctl.queue c).Follows (.queue c') := by
  have hleave : (Ctl.queue c').begins = none →
      (∀ v, (Ctl.queue c').queueResult = some v → v ≠ -1) → (Ctl.queue c').deadline = none →
      (Ctl.queue c).Follows (.queue c') :=
    fun hb hv hd => .leave hb hv hd
  cases c with
  | enter q op ms =>
    cases hs
    exact .stay rfl rfl (Or.inl rfl)
  | loop q op deadline retry =>
    rcases queueStep_loop hs with ⟨-, -, rfl, -⟩ | ⟨d, -, rfl, -, -, rfl, -⟩ | ⟨-, -, -, rfl, -⟩
    · exact hleave rfl (fun v he => Option.some.inj he ▸ by simp) rfl
    · exact .stay rfl rfl (Or.inr rfl)
    · cases deadline with
      | none => exact hleave rfl (fun v he => by cases he) rfl
      | some d => exact .stay rfl rfl (Or.inr rfl)
  | blocked q op deadline =>
    simp only [queueStep] at hs
    split_ifs at hs with hmark <;> cases hs
    · exact .stay rfl rfl (Or.inr hmark.1)
    · cases deadline with
      | none => exact hleave rfl (fun v he => by cases he) rfl
      | some d => exact .stay rfl rfl (Or.inr rfl)
  | attempt q op =>
    simp only [queueStep] at hs
    split_ifs at hs <;> cases hs
    · exact hleave rfl (fun v he => Option.some.inj he ▸ by simp) rfl
    · exact hleave rfl (fun v he => by cases he) rfl
  | wake w timed ret =>
    cases w <;> cases hs <;> exact ⟨rfl, fun hv => hv, fun he => by cases he⟩
  | trigger timed ret =>
    cases hs
    exact ⟨rfl, fun hv => hv, fun he => by cases he⟩
  | finish timed ret =>
    simp only [queueStep] at hs
    split_ifs at hs <;> cases hs <;>
      exact ⟨rfl, fun _ v he => (by cases he), fun he => by cases he⟩
  | returned ret => cases hs

theorem eventStep_follows {c c' : EventCtl} (hs : eventStep k t c = some (k', c', o)) :
    (Ctl.event c).Follows (.event c') := by
  have hleave : (Ctl.event c').begins = none → (Ctl.event c').deadline = none →
      (Ctl.event c).Follows (.event c') :=
    fun hb hd => .leave hb (fun v he => by cases he) hd
  cases c with
  | enter w ms =>
    cases hs
    exact .stay rfl rfl (Or.inl rfl)
  | set e bits =>
    obtain ⟨p, -, he⟩ := Option.map_eq_some_iff.1 hs
    cases he
    exact hleave rfl rfl
  | clear e bits | get e =>
    cases hs
    exact hleave rfl rfl
  | loop w deadline =>
    cases deadline with
    | some d =>
      have hb : (Ctl.event c').begins = none ∧ (Ctl.event c').queueResult = none := by
        simp only [eventStep] at hs
        split at hs <;> cases hs <;> exact ⟨rfl, rfl⟩
      exact .stay hb.1 hb.2 (Or.inr rfl)
    | none =>
      rcases eventStep_loop hs with ⟨-, -, rfl, -⟩ |
        ⟨-, ⟨d, he, -⟩ | ⟨-, ⟨-, -, rfl, -⟩ | ⟨i, -, -, rfl, -⟩⟩⟩
      · exact hleave rfl rfl
      · cases he
      · exact hleave rfl rfl
      · exact hleave rfl rfl
  | blocked w deadline i =>
    simp only [eventStep] at hs
    split_ifs at hs with hmark <;> cases hs
    · exact .stay rfl rfl (Or.inr hmark.1)
    · exact hleave rfl rfl
  | done | got e b | returned w ret => cases hs

theorem ctlStep_follows (hs : ctlStep k t c = some (k', c', o)) : c.Follows c' := by
  cases ctlStep_cases hs with
  | mutex hst => exact mutexStep_follows hst
  | queue hst => exact queueStep_follows hst
  | event hst => exact eventStep_follows hst
  | sem c | notify c | sched c =>
    obtain ⟨⟨k₁, c₁, o₁⟩, -, he⟩ := Option.map_eq_some_iff.1 hs
    cases he
    exact .leave rfl (fun v he => by cases he) rfl

/-- Everything that is known about the task `t` at the program point `c`, and about its timing. -/
structure Tracked (k : Kernel) (due : Bool) (t : TaskPtr) (c : Ctl) (timing : Option Timing) :
    Prop where
  begins : ∀ ms, c.begins = some ms → ms < 2 ^ 32
  result : ∀ v, c.queueResult = some v → v ≠ -1
  known : c.deadline.isSome = true → timing.isSome = true
  agrees : ∀ r, timing = some r → Agrees k due t c r

namespace Tracked

variable {timing : Option Timing}

/-- A call begins. -/
theorem entry {call : Call} (hrange : call.InRange) : Tracked k due t call.entry none := by
  obtain ⟨hdead, hresult, hbegins⟩ := call.entry_points
  refine ⟨fun ms hb => hrange ms (hbegins ▸ hb), fun v hv => ?_, fun he => ?_, fun r hr => ?_⟩
  · rw [hresult] at hv
    cases hv
  · rw [hdead] at he
    cases he
  · cases hr

/-- The steps of others. -/
theorem frame (h : Tracked k due t c timing) (hticks : k'.ticks = k.ticks)
    (hmark : (k'.tcb t).timedOut = true → (k.tcb t).timedOut = true)
    (hblocked : (k'.tcb t).state = .blocked → (k.tcb t).state = .blocked ∧
      (k'.tcb t).delayTicks = (k.tcb t).delayTicks) : Tracked k' due t c timing :=
  ⟨h.begins, h.result, h.known, fun r hr => (h.agrees r hr).frame hticks hmark hblocked⟩

/-- The steps of the task itself. -/
theorem exec (h : Tracked k false t c timing) (hk : k.ticks < 2 ^ 32)
    (hin : ∀ r, timing = some r → c.ReadsInTime k r)
    (hs : ctlStep k t c = some (k', c', o)) : Tracked k' false t c' (c.timing k timing) := by
  obtain ⟨hbegins, hresult, hbounded⟩ := ctlStep_follows hs
  refine ⟨fun ms hb => ?_, hresult h.result, fun hb => ?_, fun r hr => ?_⟩
  · rw [hbegins] at hb
    cases hb
  · unfold Ctl.timing
    split
    · rfl
    · rename_i hnone
      have hknown := h.known ((hbounded hb).resolve_left (by simp [hnone]))
      split_ifs
      · rwa [Option.isSome_map]
      · exact hknown
  · unfold Ctl.timing at hr
    split at hr
    · rename_i ms hms
      cases hr
      exact Agrees.begin hms (h.begins ms hms) hk hs
    · rename_i hnone
      have hnext : ∃ r₁, timing = some r₁ ∧ r = r₁.next c := by
        unfold Timing.next
        split_ifs at hr ⊢
        · obtain ⟨r₁, hr₁, he⟩ := Option.map_eq_some_iff.1 hr
          exact ⟨r₁, hr₁, he.symm⟩
        · exact ⟨r, hr, rfl⟩
      obtain ⟨r₁, hr₁, rfl⟩ := hnext
      exact ((h.agrees r₁ hr₁).ctlStep hnone h.result hs).agrees (hin r₁ hr₁)

end Tracked

namespace Machine

/-- Everything that is known about the bounded waits of a run. -/
structure OnTime (m : Machine) (g : Timings) : Prop where
  apart : m.IdleApart
  tabled : m.Tabled
  word : m.kernel.ticks < 2 ^ 32
  tracked : ∀ t, Tracked m.kernel g.due t (m.ctl (.thread t)) (g.of t)

variable {m m' : Machine} {g g' : Timings} {a : Action}

theorem OnTime.honoured (h : m.OnTime g) : m.BudgetsHonoured g :=
  fun t => ⟨(h.tracked t).known, fun r hr => ((h.tracked t).agrees r hr).toHonours⟩

theorem BudgetsHonoured.honours (h : m.BudgetsHonoured g) {r : Timing} (hr : g.of t = some r) :
    (m.ctl (.thread t)).Honours m.kernel g.due t r :=
  (h t).2 r hr

/-- Between the advance of the counter and `sched_tick` no task runs. -/
theorem Periodic.not_due (hok : m.Periodic g .exec) (hact : m.active = some (.thread t)) :
    g.due = false := by
  by_contra hdue
  exact hok (by simpa using hdue) (Machine.active_thread hact).1

/-- A step whose reading is in time. -/
theorem OnTime.step (h : m.OnTime g) (hok : m.Periodic g a) (hin : m.ReadsInTime g a)
    (hs : timed (m, g) a = some ((m', g'), o)) : m'.OnTime g' := by
  obtain ⟨hst, rfl⟩ := Run.annotate_eq_some.1 hs
  refine ⟨h.apart.step hst, h.tabled.step hst, Machine.ticks_lt_of_step hst h.word, fun t => ?_⟩
  have hframe : (∀ n, a ≠ .tick n) → (a = .exec → m.active ≠ some (.thread t)) →
      m'.kernel.ticks = m.kernel.ticks →
      Tracked m'.kernel g.due t (m.ctl (.thread t)) (g.of t) := by
    intro htick hself hticks
    refine (h.tracked t).frame hticks (fun hm => ?_)
      fun hb => Machine.blocked_of_step h.apart hst htick hself hb
    rcases Machine.timedOut_of_step hst hm with hold | ⟨n, he, -⟩
    · exact hold
    · exact absurd he (htick n)
  rcases Machine.step_cases hst with ⟨c, i, rfl, hact, hrest, rfl, -⟩ |
    ⟨x, u, k', c', rfl, hact, hu, hst', rfl⟩ | ⟨c, rfl, -, rfl, -⟩ | ⟨rfl, -, -, rfl, -⟩ |
    ⟨n, rfl, rfl, -⟩ | ⟨n, k', rfl, htick, rfl, -⟩
  · have htime : m.time (.call c) o g =
        { g with of := Function.update g.of (.tcb i) none } := by
      simp only [time, hact]
    rw [htime]
    show Tracked m.kernel g.due t (Function.update m.ctl (.thread (.tcb i)) c.entry (.thread t))
      (Function.update g.of (.tcb i) none t)
    by_cases ht : t = .tcb i
    · subst ht
      rw [Function.update_self, Function.update_self]
      exact .entry hok.2
    · rw [Function.update_of_ne (by simpa using ht), Function.update_of_ne ht]
      exact h.tracked t
  · obtain ⟨F, -, hstores⟩ := ctlStep_family_stores hst'
    have hticks := hstores.objects.ticks
    cases x with
    | isr d =>
      have htime : m.time .exec o g = g := by simp only [time, hact]
      have hkept := hframe (fun n he => by cases he) (fun _ he => by rw [hact] at he; cases he)
        hticks
      rw [htime]
      show Tracked k' g.due t (Function.update m.ctl (.isr d) c' (.thread t)) (g.of t)
      rw [Machine.update_isr]
      exact hkept
    | thread v =>
      obtain rfl : u = v := Option.some.inj (hu.symm.trans (Machine.active_thread hact).2.2)
      have hdue := hok.not_due hact
      have htime : m.time .exec o g =
          { g with
            of := Function.update g.of u ((m.ctl (.thread u)).timing m.kernel (g.of u)) } := by
        simp only [time, hact]
      rw [htime]
      show Tracked k' g.due t (Function.update m.ctl (.thread u) c' (.thread t))
        (Function.update g.of u _ t)
      by_cases ht : t = u
      · subst ht
        rw [Function.update_self, Function.update_self, hdue]
        exact (hdue ▸ h.tracked t).exec h.word ((readsInTime_exec hact).1 hin) hst'
      · rw [Function.update_of_ne (by simpa using ht), Function.update_of_ne ht]
        refine hframe (fun n he => by cases he) (fun _ he => ?_) hticks
        rw [hact] at he
        cases he
        exact ht rfl
  · show Tracked m.kernel g.due t (Function.update m.ctl (.isr m.depth) c.entry (.thread t)) (g.of t)
    rw [Machine.update_isr]
    exact h.tracked t
  · exact hframe (fun n he => by cases he) (fun he => by cases he) rfl
  · obtain ⟨rfl, hdue⟩ := hok
    refine ⟨(h.tracked t).begins, (h.tracked t).result, fun hb => ?_, fun r hr => ?_⟩
    · exact Option.isSome_map.trans ((h.tracked t).known hb)
    · obtain ⟨r₁, hr₁, rfl⟩ := Option.map_eq_some_iff.1 hr
      exact (hdue ▸ (h.tracked t).agrees r₁ hr₁).pass
  · obtain ⟨rfl, hdue⟩ := hok
    refine ⟨(h.tracked t).begins, (h.tracked t).result, (h.tracked t).known, fun r hr => ?_⟩
    refine Agrees.tick (hdue ▸ (h.tracked t).agrees r hr) (fun hc => h.tabled.ctl t fun he => ?_)
      htick
    rw [he] at hc
    cases hc

/-- A step that honours the budgets reads the counter in time. -/
theorem OnTime.readsInTime (h : m.OnTime g) (hok : m.Periodic g a)
    (hs : timed (m, g) a = some ((m', g'), o)) (hh : m'.BudgetsHonoured g') :
    m.ReadsInTime g a := by
  cases a with
  | exec =>
    by_cases hthread : ∃ t, m.active = some (.thread t)
    swap
    · simp only [ReadsInTime]
      split
      · rename_i hact
        exact absurd ⟨_, hact⟩ hthread
      · trivial
    obtain ⟨t, hact⟩ := hthread
    refine (readsInTime_exec hact).2 fun r hr => ?_
    obtain ⟨hst, rfl⟩ := Run.annotate_eq_some.1 hs
    obtain ⟨-, -, hcur⟩ := Machine.active_thread hact
    have hdue := hok.not_due hact
    cases hb : (m.ctl (.thread t)).begins with
    | some ms =>
      generalize m.ctl (.thread t) = c at hb
      cases c with
      | mutex c => cases c <;> trivial
      | queue c => cases c <;> trivial
      | event c => cases c <;> trivial
      | _ => cases hb
    | none =>
      rcases Machine.step_cases hst with ⟨c, i, he, -⟩ | ⟨x, u, k', c', -, hx, hu, hst', rfl⟩ |
        ⟨c, he, -⟩ | ⟨he, -⟩ | ⟨n, he, -⟩ | ⟨n, k', he, -⟩
      · cases he
      · obtain rfl : .thread t = x := Option.some.inj (hact.symm.trans hx)
        obtain rfl : t = u := Option.some.inj (hcur.symm.trans hu)
        have hjudged := (hdue ▸ (h.tracked t).agrees r hr : Agrees _ false _ _ _).ctlStep hb
          (h.tracked t).result hst'
        refine hjudged.inTime ?_
        have hnext : (m.time .exec o g).of t = some (r.next (m.ctl (.thread t))) := by
          simp only [time, hact, Function.update_self, Ctl.timing, hb, hr, Timing.next,
            Option.map_some]
          split_ifs <;> rfl
        have hdue' : (m.time .exec o g).due = false := by
          simp only [time, hact]
          exact hdue
        have hctl := hh.honours hnext
        rw [hdue'] at hctl
        simpa using hctl
      all_goals cases he
  | call c | irq c | pendSV | clock n | tick n => trivial

/-- At the start no wait is known. -/
theorem onTime_start {cfg : Config} (hticks : cfg.ticks < 2 ^ 32) : (start cfg).OnTime {} := by
  refine ⟨idleApart_start cfg, tabled_start cfg, ?_, fun t => ⟨fun ms hb => ?_, fun v hv => ?_,
    fun hb => ?_, fun r hr => ?_⟩⟩
  · exact cfg.created_induct (I := fun k => k.ticks < 2 ^ 32) hticks fun _ _ hk => hk
  · cases hb
  · cases hv
  · cases hb
  · cases hr

/-- In every run whose readings of the counter are in time, every bounded call honours its budget;
and from every state of such a run, a step that is not in time breaks a budget. -/
theorem boundedWaits_of_reach {cfg : Config} (hticks : cfg.ticks < 2 ^ 32) {out : List Obs}
    (h : Run.Reach timed (fun p a => p.1.Periodic p.2 a ∧ p.1.ReadsInTime p.2 a) (start cfg, {})
      (m, g) out) :
    m.BudgetsHonoured g ∧ ∀ a m' g' o, m.Periodic g a → timed (m, g) a = some ((m', g'), o) →
      (m'.BudgetsHonoured g' ↔ m.ReadsInTime g a) := by
  have hall : OnTime (m, g).1 (m, g).2 := by
    refine h.invariant (I := fun p => OnTime p.1 p.2) (onTime_start hticks) ?_
    rintro ⟨m, g⟩ ⟨m', g'⟩ a o hI ⟨hok, hin⟩ hs
    exact hI.step hok hin hs
  have honTime : m.OnTime g := hall
  exact ⟨honTime.honoured, fun a m' g' o hok hs =>
    ⟨honTime.readsInTime hok hs, fun hin => (honTime.step hok hin hs).honoured⟩⟩

end Machine

/-- In every run of the periodic tick in which nothing comes between the statements of `sched_tick` and
the readings of the counter are in time, every bounded call honours its budget; and a further step does
so if and only if it meets the condition. -/
theorem boundedWaits_iff (cfg : Config) (hticks : cfg.ticks < 2 ^ 32) {s : Split} {g : Timings}
    {out : List Obs}
    (h : Run.Reach (Split.noted Machine.time)
      (Split.WholeNoted Machine.time fun p a => p.1.Periodic p.2 a ∧ p.1.ReadsInTime p.2 a)
      (Split.start cfg, {}) (s, g) out) (hs : s.ticking = false) :
    s.machine.BudgetsHonoured g ∧ ∀ a s' g' o, s.machine.Periodic g a →
      Split.noted Machine.time (s, g) (.kernel a) = some ((s', g'), o) →
      (s'.machine.BudgetsHonoured g' ↔ s.machine.ReadsInTime g a) := by
  obtain ⟨hbudgets, hnext⟩ := Machine.boundedWaits_of_reach hticks (Split.reach_noted h hs)
  refine ⟨hbudgets, fun a s' g' o hok hst => hnext a s'.machine g' o hok ?_⟩
  obtain ⟨hstep, hg⟩ := Run.annotate_eq_some.1 hst
  exact Run.annotate_eq_some.2 ⟨(Split.kernel_step hstep).1, hg⟩

/-! ### Runs -/

/-- A receive with a timeout of 1 ms on an empty queue. -/
def receiveInTime : Scenario where
  config := { priorities := [0], queue := fun _ => (1, 1) }
  actions := [.call (.queueReceiveTimeout 0 1), .exec, .exec, .pendSV, .clock 1, .tick 1, .pendSV,
    .exec]
  possible := by decide +kernel

/-- The call reports the timeout after 1 ms. -/
theorem receiveInTime_honoured :
    (receiveInTime.noted Machine.time {}).1.BudgetsHonoured (receiveInTime.noted Machine.time {}).2 ∧
    (receiveInTime.noted Machine.time {}).1.ctl (.thread (.tcb 0)) =
      .queue (.returned ⟨0, .receive, -1, []⟩) := by
  have hpermitted : Run.Permitted Machine.timed
      (fun p a => (p.1.Periodic p.2 a ∧ p.1.ReadsInTime p.2 a) ∧ p.1.Timely a)
      (Machine.start receiveInTime.config, {}) receiveInTime.actions := by decide +kernel
  obtain ⟨out, hreach⟩ := receiveInTime.reach_noted Machine.time {} hpermitted
  have hctl : (receiveInTime.noted Machine.time {}).1.ctl (.thread (.tcb 0)) =
      .queue (.returned ⟨0, .receive, -1, []⟩) := by decide +kernel
  obtain ⟨s, hs, hm, hsplit⟩ := Split.exists_of_noted hreach
  rw [← hm] at hctl ⊢
  exact ⟨(boundedWaits_iff receiveInTime.config (by decide) hsplit hs).1, hctl⟩

/-- A receive with a timeout of 10 ms, 1 ms before the counter wraps. -/
def receiveAtWrap : Scenario where
  config := { priorities := [0], queue := fun _ => (1, 1), ticks := 4294967295 }
  actions := [.call (.queueReceiveTimeout 0 10), .exec, .exec]
  possible := by decide +kernel

/-- Task 1 holds a mutex; a tick comes between the reading of the counter by task 0, which wants to
wait for 5 ms, and its blocking. -/
def lockAcrossTick : Scenario where
  config := { priorities := [0, 1] }
  actions := [.call (.schedDelayMs 1), .exec, .exec, .pendSV, .call (.mutexTrylock 0), .exec,
    .clock 1, .tick 1, .pendSV, .exec, .call (.mutexLockTimeout 0 5), .exec, .exec, .exec, .clock 1,
    .tick 1, .exec]
  possible := by decide +kernel

/-- The receive reports the timeout at once; the lock is blocked for 5 ms although 1 ms has
passed. -/
theorem boundedWaits_broken :
    (∃ s g out r, Run.Reach (Split.noted Machine.time)
        (Split.WholeNoted Machine.time fun p a => p.1.Periodic p.2 a)
        (Split.start receiveAtWrap.config, {}) (s, g) out ∧ s.ticking = false ∧
      ¬ s.machine.BudgetsHonoured g ∧
      s.machine.ctl (.thread (.tcb 0)) = .queue (.returned ⟨0, .receive, -1, []⟩) ∧
      g.of (.tcb 0) = some r ∧ r.budget = 10 ∧ r.elapsed = 0) ∧
    ∃ s g out r, Run.Reach (Split.noted Machine.time)
        (Split.WholeNoted Machine.time fun p a => p.1.Periodic p.2 a)
        (Split.start lockAcrossTick.config, {}) (s, g) out ∧ s.ticking = false ∧
      ¬ s.machine.BudgetsHonoured g ∧
      s.machine.ctl (.thread (.tcb 0)) = .mutex (.blocked 0 (some 6)) ∧
      (s.kernel.tcb (.tcb 0)).state = .blocked ∧ (s.kernel.tcb (.tcb 0)).delayTicks = 5 ∧
      g.of (.tcb 0) = some r ∧ r.budget = 5 ∧ r.elapsed = 1 := by
  constructor
  · have hpermitted : Run.Permitted Machine.timed (fun p a => p.1.Periodic p.2 a ∧ p.1.Timely a)
        (Machine.start receiveAtWrap.config, {}) receiveAtWrap.actions := by decide +kernel
    obtain ⟨out, hreach⟩ := receiveAtWrap.reach_noted Machine.time {} hpermitted
    have hctl : (receiveAtWrap.noted Machine.time {}).1.ctl (.thread (.tcb 0)) =
        .queue (.returned ⟨0, .receive, -1, []⟩) := by decide +kernel
    have htiming : (receiveAtWrap.noted Machine.time {}).2.of (.tcb 0) =
        some { budget := 10, start := 4294967295 } := by decide +kernel
    obtain ⟨s, hs, hm, hsplit⟩ := Split.exists_of_noted hreach
    rw [← hm] at hctl
    refine ⟨s, _, out, _, hsplit, hs, fun h => ?_, hctl, htiming, rfl, rfl⟩
    have hover := (h.honours htiming).reports (by rw [hctl]; rfl)
    exact absurd hover (by decide)
  · have hpermitted : Run.Permitted Machine.timed (fun p a => p.1.Periodic p.2 a ∧ p.1.Timely a)
        (Machine.start lockAcrossTick.config, {}) lockAcrossTick.actions := by decide +kernel
    obtain ⟨out, hreach⟩ := lockAcrossTick.reach_noted Machine.time {} hpermitted
    have hctl : (lockAcrossTick.noted Machine.time {}).1.ctl (.thread (.tcb 0)) =
        .mutex (.blocked 0 (some 6)) := by decide +kernel
    have hstate : ((lockAcrossTick.noted Machine.time {}).1.kernel.tcb (.tcb 0)).state = .blocked := by
      decide +kernel
    have hdelay : ((lockAcrossTick.noted Machine.time {}).1.kernel.tcb (.tcb 0)).delayTicks = 5 := by
      decide +kernel
    have htiming : (lockAcrossTick.noted Machine.time {}).2.of (.tcb 0) =
        some { budget := 5, start := 1, elapsed := 1, sinceRead := 1 } := by decide +kernel
    have hdue : (lockAcrossTick.noted Machine.time {}).2.due = false := by decide +kernel
    obtain ⟨s, hs, hm, hsplit⟩ := Split.exists_of_noted hreach
    rw [← hm] at hctl hstate hdelay
    refine ⟨s, _, out, _, hsplit, hs, fun h => ?_, hctl, hstate, hdelay, htiming, rfl, rfl⟩
    have hsum := ((h.honours htiming).running (by rw [hctl]; rfl) hstate).2
    rw [hdelay, hdue] at hsum
    exact absurd hsum (by decide)

end TamgaOs
