import TamgaOs.Kernel.IdleTask
import TamgaOs.Machine.SysTick

/-!
# The machine with tickless idle

The tasks, the interrupt handlers and the context switches of `Machine`, with the SysTick counter,
its handler and the statements of the idle task. `SysTick_Handler` has the lowest priority, and runs
when no other handler is active, before the current task executes anything; it runs at once.

## Main definitions

* `Tickless`, `TicklessAction`, `Tickless.step`: the machine.
* `Tickless.sleepStep`, `Tickless.idleStep`: the statements of the idle task.
* `Tickless.start`: the state after `sched_start`. `TicklessScenario`: a run given by its actions.
* `Tickless.Tabled`: an invariant about the table of the tasks.

## Main results

* `Tickless.step_cases`: what an action can do.
* `TickStmt.of_tickStep`: what a statement of `sched_tick_n` leaves alone.
* `Tickless.idleApart_of_reach`: the idle task makes no calls in this machine either.
-/

namespace TamgaOs

/-- What a step of the machine reports. -/
inductive TicklessObs
  | kernel (o : Obs)
  /-- A callback of a timer has been called. -/
  | called (c : TimerCall)
  deriving DecidableEq

/-- The machine with the counter and the timers. -/
structure Tickless where
  machine : Machine
  timers : Timers
  sysTick : SysTick
  /-- `s_tickless_active`. -/
  ticklessActive : Bool
  idle : IdleCtl

/-- What can happen next. -/
inductive TicklessAction
  /-- A call or a step of a task, an interrupt or a context switch. -/
  | kernel (a : Action)
  /-- A call of `timer.c` by a task, a handler or a callback. -/
  | timer (op : TimerOp)
  /-- The next statement of the idle task. -/
  | idle
  /-- A cycle of the clock of the counter. -/
  | cycle
  /-- `SysTick_Handler`. -/
  | sysTick
  deriving DecidableEq

/-- The counter and the tick are advanced by the handler and by the idle task only. -/
def Action.ticks : Action → Bool
  | clock _ | tick _ => true
  | call _ | exec | irq _ | pendSV => false

/-- The running context executes something. -/
def Action.executes : Action → Bool
  | call _ | exec => true
  | irq _ | pendSV | clock _ | tick _ => false

namespace Tickless

variable (b : Board) (s : Tickless)

abbrev kernel : Kernel := s.machine.kernel

/-- The machine with another state of the kernel. -/
def withKernel (k : Kernel) : Tickless := { s with machine := { s.machine with kernel := k } }

/-- `SysTick_Handler` comes before the current task. -/
def interrupted : Bool := decide (s.machine.depth = 0) && s.sysTick.pending

/-- `SysTick_Handler`, after `sched_start`. -/
def handlerStep : Option (Tickless × List TicklessObs) :=
  let s := { s with sysTick := { s.sysTick with pending := false } }
  if s.ticklessActive then some (s, [])
  else
    (Ticking.sysTickHandler ⟨s.kernel, s.timers⟩).map fun r =>
      ({ s.withKernel r.1.kernel with timers := r.1.timers }, r.2.map .called)

/-- The next statement of `systick_tickless_sleep`. -/
def sleepStep : SleepCtl → Tickless
  | .disable maxMs =>
    { s with
      sysTick := { s.sysTick with enable := false, countFlag := false }
      idle := .sleep (.program maxMs) }
  | .program maxMs =>
    { s with
      sysTick := { s.sysTick with rvr := b.ticklessReload maxMs - 1 }
      idle := .sleep (.clear maxMs) }
  | .clear maxMs =>
    { s with
      sysTick := { s.sysTick with cvr := 0, countFlag := false }
      idle := .sleep (.activate maxMs) }
  | .activate maxMs => { s with ticklessActive := true, idle := .sleep (.enable maxMs) }
  | .enable maxMs =>
    { s with
      sysTick := { s.sysTick with enable := true, countFlag := false }
      idle := .sleep (.wfi maxMs) }
  | .wfi maxMs => { s with idle := .sleep (.deactivate maxMs) }
  | .deactivate maxMs => { s with ticklessActive := false, idle := .sleep (.readFlag maxMs) }
  | .readFlag maxMs =>
    { s with
      sysTick := { s.sysTick with countFlag := false }
      idle :=
        if s.sysTick.countFlag then .sleep (.stop (b.elapsedMs (b.ticklessReload maxMs)))
        else .sleep (.readCounter maxMs) }
  | .readCounter maxMs =>
    { s with
      idle := .sleep (.stop
        (b.elapsedMs (uint32Sub (b.ticklessReload maxMs - 1) s.sysTick.cvr))) }
  | .stop elapsedMs =>
    { s with
      sysTick := { s.sysTick with enable := false, countFlag := false }
      idle := .sleep (.restore elapsedMs) }
  | .restore elapsedMs =>
    { s with
      sysTick := { s.sysTick with rvr := b.ticksPerMs - 1 }
      idle := .sleep (.restart elapsedMs) }
  | .restart elapsedMs =>
    { s with
      sysTick := { s.sysTick with cvr := 0, countFlag := false }
      idle := .sleep (.start elapsedMs) }
  | .start elapsedMs =>
    { s with
      sysTick := { s.sysTick with enable := true, countFlag := false }
      idle := .sleep (.advance elapsedMs) }
  | .advance elapsedMs =>
    { s.withKernel (s.kernel.advanceClock elapsedMs) with idle := .tick elapsedMs (.test 0) }

/-- `idle_budget`, from the two bounds. -/
def budgetOf (nextTaskMs nextTimerMs : ℕ) : ℕ :=
  let budget := if nextTaskMs < nextTimerMs then nextTaskMs else nextTimerMs
  if ticklessMaxSleepMs < budget then ticklessMaxSleepMs else budget

/-- The next statement of the idle task. -/
def idleStep : Option (Tickless × List TicklessObs) :=
  match s.idle with
  | .loop => some ({ s with idle := .timerNow s.kernel.schedGetNextWakeupMs }, [])
  | .timerNow nextTaskMs => some ({ s with idle := .timerScan nextTaskMs s.kernel.ticks }, [])
  | .timerScan nextTaskMs now =>
    let budget := budgetOf nextTaskMs (s.timers.getNextReadyInMs now)
    some ({ s with idle := if budget = 0 then .wfi else .sleep (.disable budget) }, [])
  | .wfi => some ({ s with idle := .loop }, [])
  | .sleep c => some (s.sleepStep b c, [])
  | .tick elapsedMs c =>
    (tickStep s.kernel elapsedMs c).map fun r =>
      ({ s.withKernel r.1 with idle := (r.2.map (IdleCtl.tick elapsedMs)).getD (.service .now) },
        [])
  | .service c =>
    let r := serviceStep s.timers s.kernel.ticks c
    some ({ s with timers := r.1, idle := (r.2.1.map IdleCtl.service).getD .loop },
      r.2.2.map .called)

/-- The machine after an action, and what the action has reported. -/
def step (s : Tickless) : TicklessAction → Option (Tickless × List TicklessObs)
  | .kernel a =>
    if a.ticks then none
    else if a.executes && s.interrupted then none
    else (s.machine.step a).map fun r => ({ s with machine := r.1 }, r.2.map .kernel)
  | .timer op => some ({ s with timers := s.timers.call s.kernel.ticks op }, [])
  | .idle =>
    if s.machine.active = some (.thread .idle) ∧ s.interrupted = false then s.idleStep b else none
  | .cycle => some ({ s with sysTick := s.sysTick.cycle }, [])
  | .sysTick => if s.interrupted then s.handlerStep else none

/-- The machine that starts to run the first task, after `systick_init`. -/
def start (cfg : Config) : Tickless where
  machine := Machine.start cfg
  timers _ := {}
  sysTick :=
    { enable := true, rvr := b.ticksPerMs - 1, cvr := 0, countFlag := false, pending := false }
  ticklessActive := false
  idle := .loop

/-! ### What an action can do -/

variable {b s} {s' : Tickless} {a : TicklessAction} {o : List TicklessObs}

/-- The inversion of `step`: the kinds of action. -/
theorem step_cases (h : s.step b a = some (s', o)) :
    (∃ a' m' o', a = .kernel a' ∧ a'.ticks = false ∧
      (a'.executes = true → s.interrupted = false) ∧
      s.machine.step a' = some (m', o') ∧ s' = { s with machine := m' } ∧ o = o'.map .kernel) ∨
    (∃ op, a = .timer op ∧ s' = { s with timers := s.timers.call s.kernel.ticks op } ∧ o = []) ∨
    (a = .idle ∧ s.machine.active = some (.thread .idle) ∧ s.interrupted = false ∧
      s.idleStep b = some (s', o)) ∨
    (a = .cycle ∧ s' = { s with sysTick := s.sysTick.cycle } ∧ o = []) ∨
    (a = .sysTick ∧ s.interrupted = true ∧ s.handlerStep = some (s', o)) := by
  cases a with
  | kernel a' =>
    left
    simp only [step] at h
    split_ifs at h with hticks hint
    obtain ⟨r, hr, he⟩ := Option.map_eq_some_iff.1 h
    cases he
    exact ⟨a', r.1, r.2, rfl, by simpa using hticks, fun ha => by simpa [ha] using hint, hr, rfl,
      rfl⟩
  | timer op =>
    right; left
    cases h
    exact ⟨op, rfl, rfl, rfl⟩
  | idle =>
    right; right; left
    simp only [step] at h
    split_ifs at h with hact
    exact ⟨rfl, hact.1, hact.2, h⟩
  | cycle =>
    right; right; right; left
    cases h
    exact ⟨rfl, rfl, rfl⟩
  | sysTick =>
    right; right; right; right
    simp only [step] at h
    split_ifs at h with hint
    exact ⟨rfl, hint, h⟩

/-- The two cases of the handler. -/
theorem handlerStep_cases (h : s.handlerStep = some (s', o)) :
    (s.ticklessActive = true ∧ o = [] ∧
      s' = { s with sysTick := { s.sysTick with pending := false } }) ∨
    ∃ k', s.ticklessActive = false ∧ (s.kernel.advanceClock 1).schedTickN 1 = some k' ∧
      s' = { s with
        machine := { s.machine with kernel := k' }
        timers := (s.timers.serviceTick k'.ticks).1
        sysTick := { s.sysTick with pending := false } } ∧
      o = (s.timers.serviceTick k'.ticks).2.map .called := by
  unfold handlerStep at h
  dsimp only at h
  split_ifs at h with hact
  · cases h
    exact Or.inl ⟨hact, rfl, rfl⟩
  · obtain ⟨r, hr, he⟩ := Option.map_eq_some_iff.1 h
    obtain ⟨k', hk, rfl⟩ := Option.map_eq_some_iff.1 hr
    cases he
    exact Or.inr ⟨k', by simpa using hact, hk, rfl, rfl⟩

/-- The kernel after a statement of the idle task. -/
theorem idleStep_machine (h : s.idleStep b = some (s', o)) :
    s'.machine = { s.machine with kernel := s'.kernel } ∧
    (s'.kernel = s.kernel ∨
      (∃ e, s.idle = .sleep (.advance e) ∧ s'.kernel = s.kernel.advanceClock e) ∨
      ∃ n c c', s.idle = .tick n c ∧ tickStep s.kernel n c = some (s'.kernel, c')) := by
  unfold idleStep at h
  split at h
  · cases h
    exact ⟨rfl, Or.inl rfl⟩
  · cases h
    exact ⟨rfl, Or.inl rfl⟩
  · cases h
    exact ⟨rfl, Or.inl rfl⟩
  · cases h
    exact ⟨rfl, Or.inl rfl⟩
  · rename_i c hc
    cases h
    cases c with
    | advance e => exact ⟨rfl, Or.inr (Or.inl ⟨e, hc, rfl⟩)⟩
    | disable | program | clear | activate | enable | wfi | deactivate | readFlag | readCounter
    | stop | restore | restart | start => exact ⟨rfl, Or.inl rfl⟩
  · rename_i n c hc
    obtain ⟨r, hr, he⟩ := Option.map_eq_some_iff.1 h
    cases he
    exact ⟨rfl, Or.inr (Or.inr ⟨n, c, r.2, hc, hr⟩)⟩
  · cases h
    exact ⟨rfl, Or.inl rfl⟩

end Tickless

/-! ### The statements of `sched_tick_n` -/

/-- The index of the task whose delay a statement of `sched_tick_n` stores to. -/
def TickCtl.charges : TickCtl → Option ℕ
  | zero i | subtract i => some i
  | _ => none

/-- What a statement of `sched_tick_n` that charges the task at the index `charged` leaves alone. -/
structure TickStmt (charged : Option ℕ) (k k' : Kernel) : Prop where
  objects : SameObjects k k'
  taskCount : k'.taskCount = k.taskCount
  currentTask : k'.currentTask = k.currentTask
  priority : ∀ t, (k'.tcb t).priority = (k.tcb t).priority
  delayTicks : ∀ t, (∀ i, charged = some i → t ≠ .tcb i) →
    (k'.tcb t).delayTicks = (k.tcb t).delayTicks
  blocked : ∀ t, (k'.tcb t).state = .blocked → (k.tcb t).state = .blocked
  idle : (k.tcb .idle).state.Runnable → (k'.tcb .idle).state.Runnable

namespace TickStmt

variable {k k' : Kernel} {charged : Option ℕ} {t : TaskPtr} {n : ℕ} {c : TickCtl}
  {c' : Option TickCtl}

theorem refl (k : Kernel) : TickStmt charged k k :=
  ⟨.refl k, rfl, rfl, fun _ => rfl, fun _ _ => rfl, fun _ h => h, fun h => h⟩

/-- A store to a control block that is no store to the state. -/
theorem modifyTask (k : Kernel) (t : TaskPtr) {f : Task → Task}
    (hstate : ∀ x, (f x).state = x.state) (hprio : ∀ x, (f x).priority = x.priority)
    (hdelay : (∀ i, charged = some i → t ≠ .tcb i) → ∀ x, (f x).delayTicks = x.delayTicks) :
    TickStmt charged k (k.modifyTask t f) := by
  have hs : ∀ u, ((k.modifyTask t f).tcb u).state = (k.tcb u).state := by
    intro u
    rw [Kernel.modifyTask_tcb]
    split_ifs with hu
    · rw [hstate, hu]
    · rfl
  refine ⟨.modifyTask k t f, rfl, rfl, fun u => ?_, fun u hne => ?_, fun u hb => hs u ▸ hb,
    fun h => (hs .idle).symm ▸ h⟩
  · rw [Kernel.modifyTask_tcb]
    split_ifs with hu
    · rw [hprio, hu]
    · rfl
  · rw [Kernel.modifyTask_tcb]
    split_ifs with hu
    · subst hu
      exact hdelay hne _
    · rfl

/-- A store that makes a task ready or running. -/
theorem setState (k : Kernel) (t : TaskPtr) {x : TaskState} (hx : x.Runnable) :
    TickStmt charged k (k.setState t x) := by
  have hs : ∀ u, ((k.setState t x).tcb u).state = if u = t then x else (k.tcb u).state := by
    intro u
    rw [Kernel.setState, Kernel.modifyTask_tcb]
    split_ifs <;> rfl
  refine ⟨.modifyTask k t _, rfl, rfl, fun u => ?_, fun u _ => ?_, fun u hb => ?_, fun h => ?_⟩
  · rw [Kernel.setState, Kernel.modifyTask_tcb]
    split_ifs with hu
    · rw [hu]
    · rfl
  · rw [Kernel.setState, Kernel.modifyTask_tcb]
    split_ifs with hu
    · rw [hu]
    · rfl
  · rw [hs] at hb
    split_ifs at hb
    · subst hb
      rcases hx with h | h <;> cases h
    · exact hb
  · rw [hs]
    split_ifs
    · exact hx
    · exact h

/-- Every statement. -/
theorem of_tickStep (h : tickStep k n c = some (k', c')) : TickStmt c.charges k k' := by
  have hready : TaskState.Runnable .ready := Or.inl rfl
  cases c with
  | test i =>
    simp only [tickStep] at h
    split_ifs at h <;> cases h <;> exact .refl k
  | compare i =>
    simp only [tickStep] at h
    split_ifs at h <;> cases h <;> exact .refl k
  | headTest i | currentTest | nextTest =>
    simp only [tickStep] at h
    split at h
    · first
      | cases h
        exact .refl k
      | split_ifs at h <;> cases h <;> exact .refl k
    · cases h
      exact .refl k
  | remove i =>
    simp only [tickStep] at h
    split at h
    · split_ifs at h <;> cases h <;> exact .refl k
    · cases h
  | removeTest i cur =>
    simp only [tickStep] at h
    split at h
    · split_ifs at h <;> cases h <;> exact .refl k
    · cases h
      exact .refl k
  | zero i | subtract i =>
    cases h
    exact .modifyTask k _ (fun _ => rfl) (fun _ => rfl) fun hne => absurd rfl (hne i rfl)
  | removeHead i l =>
    cases h
    exact ⟨⟨rfl, rfl, rfl, rfl, rfl, rfl⟩, rfl, rfl, fun _ => rfl, fun _ _ => rfl, fun _ h => h,
      fun h => h⟩
  | removeStart | removeNext | select | switchTest =>
    cases h
    exact .refl k
  | removeLink i cur | clearHead i | mark i =>
    cases h
    exact .modifyTask k _ (fun _ => rfl) (fun _ => rfl) fun _ _ => rfl
  | ready i =>
    cases h
    exact .setState k _ hready
  | currentReady | nextReady =>
    obtain ⟨t, -, he⟩ := Option.map_eq_some_iff.1 h
    cases he
    exact .setState k t hready
  | install chosen | switch =>
    cases h
    exact ⟨⟨rfl, rfl, rfl, rfl, rfl, rfl⟩, rfl, rfl, fun _ => rfl, fun _ _ => rfl, fun _ h => h,
      fun h => h⟩
  | runTest =>
    obtain ⟨t, -, he⟩ := Option.map_eq_some_iff.1 h
    cases he
    exact .refl k
  | run =>
    obtain ⟨t, -, he⟩ := Option.map_eq_some_iff.1 h
    cases he
    exact .setState k t (Or.inr rfl)

end TickStmt

/-! ### The idle task stays apart -/

namespace Machine.IdleApart

variable {m : Machine} {k' : Kernel}

theorem withKernel (h : m.IdleApart) (hobj : k'.mutex = m.kernel.mutex)
    (hprio : (k'.tcb .idle).priority = (m.kernel.tcb .idle).priority)
    (hstate : (k'.tcb .idle).state.Runnable) : IdleApart { m with kernel := k' } :=
  ⟨h.ctl, h.isr, fun x => (congrArg (fun f => (f x).task ≠ some .idle) hobj).mpr (h.owner x),
    hprio.trans h.priority, hstate⟩

end Machine.IdleApart

namespace Tickless

variable {b : Board} {s s' : Tickless} {a : TicklessAction} {o : List TicklessObs}

/-- The tick of the handler is a step of the machine. -/
theorem handlerStep_machine (h : s.handlerStep = some (s', o)) : s'.machine = s.machine ∨
    ∃ m₁, s.machine.step (.clock 1) = some (m₁, []) ∧ m₁.step (.tick 1) = some (s'.machine, []) := by
  rcases handlerStep_cases h with ⟨-, -, rfl⟩ | ⟨k', -, hk, rfl, -⟩
  · exact Or.inl rfl
  · refine Or.inr ⟨{ s.machine with kernel := s.kernel.advanceClock 1 }, rfl, ?_⟩
    simp only [Machine.step, hk]
    rfl

theorem idleApart_step (h : s.machine.IdleApart) (hs : s.step b a = some (s', o)) :
    s'.machine.IdleApart := by
  rcases step_cases hs with ⟨a', m', o', rfl, -, -, hm, rfl, -⟩ | ⟨op, rfl, rfl, -⟩ |
    ⟨rfl, -, -, hidle⟩ | ⟨rfl, rfl, -⟩ | ⟨rfl, -, hh⟩
  · exact h.step hm
  · exact h
  · obtain ⟨hm, hk⟩ := idleStep_machine hidle
    rw [hm]
    rcases hk with hk | ⟨e, -, hk⟩ | ⟨n, c, c', -, hk⟩
    · rw [hk]
      exact h
    · rw [hk]
      exact h.withKernel rfl rfl h.state
    · have hstmt := TickStmt.of_tickStep hk
      exact h.withKernel hstmt.objects.mutex (hstmt.priority _) (hstmt.idle h.state)
  · exact h
  · rcases handlerStep_machine hh with hm | ⟨m₁, hclock, htick⟩
    · rw [hm]
      exact h
    · exact (h.step hclock).step htick

theorem idleApart_of_reach {cfg : Config} {ok : Tickless → TicklessAction → Prop}
    {out : List TicklessObs} (h : Run.Reach (step b) ok (start b cfg) s out) :
    s.machine.IdleApart :=
  h.invariant (I := fun s => s.machine.IdleApart) (Machine.idleApart_start cfg)
    fun _ _ _ _ hI _ hs => idleApart_step hI hs

/-- The tasks and the handlers leave the counter alone. -/
theorem ticks_of_kernel {a' : Action} {m' : Machine} {o' : List Obs} (ha : a'.ticks = false)
    (hs : s.machine.step a' = some (m', o')) : m'.kernel.ticks = s.kernel.ticks := by
  rcases Machine.step_cases hs with ⟨c, i, rfl, -, -, rfl, -⟩ |
    ⟨x, u, k', c', rfl, -, -, hst, rfl⟩ | ⟨c, rfl, -, rfl, -⟩ | ⟨rfl, -, -, rfl, -⟩ |
    ⟨n, rfl, -⟩ | ⟨n, k', rfl, -⟩
  · rfl
  · obtain ⟨F, -, hstores⟩ := ctlStep_family_stores hst
    exact hstores.objects.ticks
  · rfl
  · rfl
  · cases ha
  · cases ha

/-! ### The tasks of the table -/

/-- Of the statements of `sched_tick_n` one stores to `g_next_task`. -/
theorem nextTask_tickStep {k k' : Kernel} {n : ℕ} {c : TickCtl} {c' : Option TickCtl}
    (h : tickStep k n c = some (k', c')) : (∃ t, c = .install t ∧ k'.nextTask = some t) ∨
      ((∀ t, c ≠ .install t) ∧ k'.nextTask = k.nextTask) := by
  cases c with
  | install t =>
    cases h
    exact Or.inl ⟨t, rfl, rfl⟩
  | test i | compare i =>
    refine Or.inr ⟨by simp, ?_⟩
    simp only [tickStep] at h
    split_ifs at h <;> cases h <;> rfl
  | headTest i | currentTest | nextTest | remove i | removeTest i cur =>
    refine Or.inr ⟨by simp, ?_⟩
    simp only [tickStep] at h
    split at h
    · first
      | cases h
        rfl
      | split_ifs at h <;> cases h <;> rfl
    · cases h
      try rfl
  | currentReady | nextReady | runTest | run =>
    obtain ⟨t, -, he⟩ := Option.map_eq_some_iff.1 h
    cases he
    exact Or.inr ⟨by simp, rfl⟩
  | zero | removeHead | removeStart | removeNext | removeLink | clearHead | mark | ready | subtract
  | select | switchTest | switch =>
    cases h
    exact Or.inr ⟨by simp, rfl⟩

/-- The task that `sched_select_next` has chosen. -/
theorem eq_of_install {k k' : Kernel} {n : ℕ} {c : TickCtl} {t : TaskPtr}
    (h : tickStep k n c = some (k', some (.install t))) : k' = k ∧ t = k.schedSelectNext := by
  cases c with
  | select =>
    cases h
    exact ⟨rfl, rfl⟩
  | test i | compare i =>
    simp only [tickStep] at h
    split_ifs at h <;> cases h
  | headTest i | currentTest | nextTest | remove i | removeTest i cur =>
    simp only [tickStep] at h
    split at h
    · first
      | cases h
      | split_ifs at h
        all_goals cases h
    · cases h
  | currentReady | nextReady | run =>
    obtain ⟨t, -, he⟩ := Option.map_eq_some_iff.1 h
    cases he
  | runTest =>
    obtain ⟨t, -, he⟩ := Option.map_eq_some_iff.1 h
    obtain ⟨-, he⟩ := Prod.mk.inj he
    split_ifs at he <;> cases he
  | switchTest =>
    obtain ⟨-, he⟩ := Prod.mk.inj (Option.some.inj h)
    split_ifs at he
    cases he
  | zero | removeHead | removeStart | removeNext | removeLink | clearHead | mark | ready | subtract
  | install | switch => cases h

/-- The tasks that run, are chosen, are in a call or are blocked, are the idle task or tasks of the
table. -/
structure Tabled (s : Tickless) : Prop where
  machine : s.machine.Tabled
  install : ∀ n t, s.idle = .tick n (.install t) → t = .idle ∨ InTable s.kernel t
  blocked : ∀ t, (s.kernel.tcb t).state = .blocked → InTable s.kernel t

/-- How the idle task gets to a program point of `sched_tick_n`. -/
theorem idleStep_tick {n : ℕ} {c' : TickCtl} (h : s.idleStep b = some (s', o))
    (hc : s'.idle = .tick n c') :
    (∃ c, s.idle = .tick n c ∧ tickStep s.kernel n c = some (s'.kernel, some c')) ∨
      (s.idle = .sleep (.advance n) ∧ c' = .test 0 ∧ s'.kernel = s.kernel.advanceClock n) := by
  unfold idleStep at h
  split at h
  · cases h
    cases hc
  · cases h
    cases hc
  · cases h
    simp only at hc
    split_ifs at hc
  · cases h
    cases hc
  · rename_i c hsleep
    cases h
    cases c with
    | advance e =>
      cases hc
      exact Or.inr ⟨hsleep, rfl, rfl⟩
    | readFlag m =>
      simp only [sleepStep] at hc
      split_ifs at hc
    | disable | program | clear | activate | enable | wfi | deactivate | readCounter
    | stop | restore | restart | start => cases hc
  · rename_i e c htick
    obtain ⟨⟨k', c''⟩, hr, he⟩ := Option.map_eq_some_iff.1 h
    cases he
    cases c'' with
    | none => cases hc
    | some c'' =>
      cases hc
      exact Or.inl ⟨c, htick, hr⟩
  · rename_i c hservice
    cases h
    simp only at hc
    cases hnext : (serviceStep s.timers s.kernel.ticks c).2.1 <;> rw [hnext] at hc <;> cases hc

theorem Tabled.step (h : s.Tabled) (hm : s.machine.IdleApart) (hs : s.step b a = some (s', o)) :
    s'.Tabled := by
  rcases step_cases hs with ⟨a', m', o', rfl, hticks, -, hst, rfl, -⟩ | ⟨op, rfl, rfl, -⟩ |
    ⟨rfl, -, -, hidle⟩ | ⟨rfl, rfl, -⟩ | ⟨rfl, -, hh⟩
  · have hle : s.kernel.taskCount ≤ m'.kernel.taskCount := (Machine.step_path hst).taskCount_le
    refine ⟨h.machine.step hst, fun n t ht => (h.install n t ht).imp_right fun hin => hin.mono hle,
      fun t hb => ?_⟩
    have hno : ∀ n, a' ≠ .tick n := by
      rintro n rfl
      cases hticks
    rcases Machine.wait_of_step hm hst hno hb with ⟨hb', -⟩ | ⟨-, -, happ, -⟩
    · exact (h.blocked t hb').mono hle
    · exact (h.machine.ctl t happ).mono hle
  · exact ⟨h.machine, h.install, h.blocked⟩
  · obtain ⟨hmach, hk⟩ := idleStep_machine hidle
    -- the clock, or a statement of `sched_tick_n`
    have hkernel : s'.kernel.taskCount = s.kernel.taskCount ∧ s'.kernel.Chosen ∧
        ∀ t, (s'.kernel.tcb t).state = .blocked → (s.kernel.tcb t).state = .blocked := by
      rcases hk with hk | ⟨e, -, hk⟩ | ⟨n, c, c', hc, hk⟩
      · rw [hk]
        exact ⟨rfl, h.machine.chosen, fun _ hb => hb⟩
      · rw [hk]
        exact ⟨rfl, ⟨h.machine.chosen.current, h.machine.chosen.next⟩, fun _ hb => hb⟩
      · have hstmt := TickStmt.of_tickStep hk
        have hin : ∀ t, t = .idle ∨ InTable s.kernel t → t = .idle ∨ InTable s'.kernel t :=
          fun t ht => ht.imp_right fun hin => hin.mono hstmt.taskCount.ge
        refine ⟨hstmt.taskCount, ⟨fun t ht => hin t (h.machine.chosen.current t
          (hstmt.currentTask ▸ ht)), fun t ht => hin t ?_⟩, hstmt.blocked⟩
        rcases nextTask_tickStep hk with ⟨u, rfl, hu⟩ | ⟨-, hnext⟩
        · obtain rfl : u = t := Option.some.inj (hu.symm.trans ht)
          exact h.install n u hc
        · exact h.machine.chosen.next t (hnext ▸ ht)
    obtain ⟨hcount, hchosen, hblocked⟩ := hkernel
    refine ⟨⟨hchosen, fun t ht => ?_⟩, fun n t hc => ?_,
      fun t hb => (h.blocked t (hblocked t hb)).mono hcount.ge⟩
    · rw [hmach] at ht
      exact (h.machine.ctl t ht).mono hcount.ge
    · rcases idleStep_tick hidle hc with ⟨c, -, hstep⟩ | ⟨-, he, -⟩
      · obtain ⟨hsame, rfl⟩ := eq_of_install hstep
        rw [hsame]
        exact s.kernel.schedSelectNext_spec.imp_right fun ⟨i, hi, hsel, _⟩ => ⟨i, hi, hsel⟩
      · cases he
  · exact ⟨h.machine, h.install, h.blocked⟩
  · rcases handlerStep_cases hh with ⟨-, -, rfl⟩ | ⟨k', -, hk, rfl, -⟩
    · exact ⟨h.machine, h.install, h.blocked⟩
    · have hclock : s.machine.step (.clock 1) =
          some ({ s.machine with kernel := s.kernel.advanceClock 1 }, []) := rfl
      have htick : Machine.step { s.machine with kernel := s.kernel.advanceClock 1 } (.tick 1) =
          some ({ s.machine with kernel := k' }, []) := by
        simp only [Machine.step, hk]
        rfl
      have hle : s.kernel.taskCount ≤ k'.taskCount := (Machine.step_path htick).taskCount_le
      refine ⟨(h.machine.step hclock).step htick,
        fun n t ht => (h.install n t ht).imp_right fun hin => hin.mono hle, fun t hb => ?_⟩
      obtain ⟨k₁, honly, rfl⟩ := Kernel.schedTickN_only hk
      have hb₁ := (Kernel.rescheduled_schedPickAndMark (k := k₁)).blocked (t := t) (by
        rw [Kernel.triggerIfSwitch] at hb
        split_ifs at hb <;> exact hb)
      refine (h.blocked t ?_).mono hle
      rcases honly.cases t with ⟨he, -⟩ | ⟨hb', -⟩ | ⟨hb', -⟩
      · exact he.symm.trans hb₁.1
      · exact hb'
      · exact hb'

theorem tabled_start (b : Board) (cfg : Config) : (start b cfg).Tabled := by
  refine ⟨Machine.tabled_start cfg, fun n t ht => (by cases ht), fun t hb => ?_⟩
  have hstate : ((start b cfg).kernel.tcb t).state ≠ .blocked := by
    show (cfg.created.schedStart.tcb t).state ≠ .blocked
    rw [Kernel.tcb_schedStart]
    dsimp only
    split_ifs
    · simp
    · rw [cfg.fresh_created.state t]
      simp
  exact absurd hb hstate

end Tickless

/-! ### Cycles of the counter -/

/-- The counter after `n` cycles. -/
def SysTick.cycles (n : ℕ) (d : SysTick) : SysTick := SysTick.cycle^[n] d

/-- The counter counts down to 1. -/
theorem SysTick.cycles_of_lt {d : SysTick} (henable : d.enable = true) :
    ∀ {n : ℕ}, n < d.cvr → d.cycles n = { d with cvr := d.cvr - n }
  | 0, _ => rfl
  | n + 1, h => by
    have ih := cycles_of_lt henable (Nat.lt_of_succ_lt h)
    unfold cycles at ih ⊢
    rw [Function.iterate_succ_apply', ih]
    unfold cycle
    rw [if_pos henable, if_neg (by simp only; omega), if_neg (by simp only; omega)]
    simp only [Nat.sub_sub]

/-- From 0 the counter is loaded first. -/
theorem SysTick.cycles_of_zero {d : SysTick} (henable : d.enable = true) (hzero : d.cvr = 0)
    {n c : ℕ} (hc : 0 < c) (h : c + n = d.rvr) : d.cycles (n + 1) = { d with cvr := c } := by
  have hload : d.cycle = { d with cvr := d.rvr } := by
    unfold cycle
    rw [if_pos henable, if_pos hzero]
  have hcount : SysTick.cycles n { d with cvr := d.rvr } = { d with cvr := d.rvr - n } :=
    cycles_of_lt (d := { d with cvr := d.rvr }) henable (by simp only; omega)
  unfold cycles at hcount ⊢
  rw [Function.iterate_succ_apply, hload, hcount, ← h, Nat.add_sub_cancel]

theorem Tickless.reach_cycles {b : Board} {s₀ s : Tickless} {ok : Tickless → TicklessAction → Prop}
    {out : List TicklessObs} (h : Run.Reach (step b) ok s₀ s out) (hok : ∀ s, ok s .cycle) :
    ∀ n, Run.Reach (step b) ok s₀ { s with sysTick := s.sysTick.cycles n } out
  | 0 => h
  | n + 1 => by
    have hstep := (reach_cycles h hok n).step (hok _) (a := .cycle) rfl
    rw [List.append_nil] at hstep
    unfold SysTick.cycles at hstep ⊢
    rw [Function.iterate_succ_apply']
    exact hstep

/-- A run along actions that are all possible. -/
structure TicklessScenario where
  board : Board
  config : Config
  actions : List TicklessAction
  possible : (Run.exec (Tickless.step board) (Tickless.start board config) actions).isSome = true

namespace TicklessScenario

variable (s : TicklessScenario)

/-- The machine after the run. -/
def final : Tickless :=
  ((Run.exec (Tickless.step s.board) (Tickless.start s.board s.config) s.actions).get s.possible).1

/-- What the run has reported. -/
def reports : List TicklessObs :=
  ((Run.exec (Tickless.step s.board) (Tickless.start s.board s.config) s.actions).get s.possible).2

theorem reach {ok : Tickless → TicklessAction → Prop}
    (h : Run.Permitted (Tickless.step s.board) ok (Tickless.start s.board s.config) s.actions) :
    Run.Reach (Tickless.step s.board) ok (Tickless.start s.board s.config) s.final s.reports :=
  Run.Reach.exec h s.possible

end TicklessScenario

end TamgaOs
