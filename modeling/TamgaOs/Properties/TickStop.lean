import TamgaOs.Machine.Switching

/-!
# The tick while tasks run

While `s_tickless_active` is set, `SysTick_Handler` returns at once. The idle task sets the flag before
it waits for an interrupt and clears it afterwards, with interrupts enabled: a handler that wakes a
task in between has it run with the flag set.

## Main definitions

* `Tickless.Ticks`: the flag is not set while a task runs, and a tick is counted.
* `SleepCtl.flagged`: the program points at which the flag is set.
* `Tickless.Undisturbed`: the condition that no handler wakes a task while the flag is set.

## Main results

* `tick_runs`: along the runs whose steps meet the condition.
* `tick_stops`: a handler gives a semaphore while the idle task waits.
-/

namespace TamgaOs

namespace Tickless

/-- While a task runs the flag is not set, and the handler advances `s_ticks` and runs
`sched_tick`. -/
def Ticks (b : Board) (s : Tickless) : Prop :=
  ∀ t, s.kernel.currentTask = some t → t ≠ .idle → s.ticklessActive = false ∧
    ∀ s' o, s.step b .sysTick = some (s', o) →
      (s.kernel.advanceClock 1).schedTickN 1 = some s'.kernel

end Tickless

/-- The operation is `sched_wake_task`. -/
def SchedOp.wakes : SchedOp → Bool
  | wake _ => true
  | _ => false

/-- No handler wakes a task while the flag is set. -/
def Tickless.Undisturbed (s : Tickless) : TicklessAction → Prop
  | .kernel a => s.ticklessActive = true → ∀ op ∈ s.machine.schedOps a, op.wakes = false
  | _ => True

instance (s : Tickless) : DecidablePred s.Undisturbed
  | .kernel _ => inferInstanceAs (Decidable (_ → ∀ op ∈ _, _))
  | .idle | .sysTick | .timer _ | .cycle => inferInstanceAs (Decidable True)

/-- The idle task is between the two stores to the flag. -/
def IdleCtl.flagged : IdleCtl → Bool
  | .sleep (.enable _) | .sleep (.wfi _) | .sleep (.deactivate _) => true
  | _ => false

namespace Tickless

/-- The flag is set between the two stores only, and then the idle task is the next task, too. -/
structure Waits (s : Tickless) : Prop where
  flagged : s.ticklessActive = true → s.idle.flagged = true
  currentTask : s.ticklessActive = true → s.kernel.currentTask = some .idle
  nextTask : s.ticklessActive = true → s.kernel.nextTask = some .idle

variable {b : Board} {s s' : Tickless} {a : TicklessAction} {o : List TicklessObs}

/-- Operations that pause and resume tasks choose no next task. -/
theorem nextTask_of_path {k k' : Kernel} {ops : List SchedOp} (h : SchedPath k ops k')
    (hother : ∀ op ∈ ops, op.onOther = true) (hwake : ∀ op ∈ ops, op.wakes = false) :
    k'.nextTask = k.nextTask := by
  refine h.invariant (I := fun k₁ => k₁.nextTask = k.nextTask) rfl
    (fun _ _ hs hk => hs.nextTask.trans hk) fun op hop k₁ k₂ hk hrun => ?_
  cases op with
  | wake t => cases hwake _ hop
  | pause i =>
    cases hrun
    rw [← hk]
    unfold Kernel.schedTaskPause
    split_ifs <;> rfl
  | resume i =>
    cases hrun
    rw [← hk]
    unfold Kernel.schedTaskResume
    split_ifs <;> rfl
  | tick | delay | yield | block | blockLocked | create | setPriority | pendSV =>
    exact absurd (hother _ hop) (by simp [SchedOp.onOther])

/-- A step of a task or of a handler that wakes no task while the flag is set. -/
theorem Waits.machine {m' : Machine} {a' : Action} {o' : List Obs} (h : s.Waits)
    (hm : s.machine.IdleApart) (ha : a'.ticks = false) (hok : s.Undisturbed (.kernel a'))
    (hs : s.machine.step a' = some (m', o')) : Waits { s with machine := m' } := by
  -- what is to be shown about the kernel while the flag is set
  suffices hkernel : s.ticklessActive = true →
      m'.kernel.currentTask = some .idle ∧ m'.kernel.nextTask = some .idle from
    ⟨h.flagged, fun hflag => (hkernel hflag).1, fun hflag => (hkernel hflag).2⟩
  intro hflag
  have hcur := h.currentTask hflag
  have hnext := h.nextTask hflag
  rcases Machine.step_cases hs with ⟨c, i, rfl, hact, -, rfl, -⟩ |
    ⟨x, u, k', c', rfl, hact, hu, hst, rfl⟩ | ⟨c, rfl, -, rfl, -⟩ | ⟨rfl, -, -, rfl, -⟩ |
    ⟨n, rfl, -⟩ | ⟨n, k', rfl, -⟩
  · exact ⟨hcur, hnext⟩
  · have hops : s.machine.schedOps .exec = (s.machine.ctl x).schedOps s.kernel u := by
      simp only [Machine.schedOps, hact, hu]
    have hpath := ctlStep_path hu hst
    have hsame : k'.currentTask = s.kernel.currentTask :=
      hpath.currentTask fun op hop => (Ctl.owner_of_setPriority hop).1.1
    refine ⟨hsame.trans hcur, ?_⟩
    cases x with
    | thread v =>
      -- the idle task makes no call
      obtain ⟨-, -, hv⟩ := Machine.active_thread hact
      have hidle : some TaskPtr.idle = some v := hcur.symm.trans hv
      cases hidle
      rw [hm.ctl] at hst
      cases hst
    | isr d =>
      refine (nextTask_of_path hpath (fun op => Ctl.schedOps_of_isrSafe (hm.isr d)) ?_).trans hnext
      exact hops ▸ hok hflag
  · exact ⟨hcur, hnext⟩
  · exact ⟨hnext, hnext⟩
  · cases ha
  · cases ha

theorem Waits.of_not_active (h : s.ticklessActive = false) : s.Waits := by
  have hne : s.ticklessActive ≠ true := by simp [h]
  exact ⟨fun hflag => absurd hflag hne, fun hflag => absurd hflag hne,
    fun hflag => absurd hflag hne⟩

/-- A statement of the idle task. When it sets the flag, it is itself the next task. -/
theorem Waits.idle (h : s.Waits) (hdue : s.SwitchDue)
    (hact : s.machine.active = some (.thread .idle)) (hs : s.idleStep b = some (s', o)) :
    s'.Waits := by
  obtain ⟨-, -, hcur⟩ := Machine.active_thread hact
  have hclear (hflagged : s.idle.flagged = false) : s.ticklessActive = false :=
    eq_false_of_ne_true fun hflag => absurd ((h.flagged hflag).symm.trans hflagged) (by decide)
  unfold idleStep at hs
  split at hs
  all_goals rename_i hidle
  · cases hs
    exact .of_not_active (hclear (by rw [hidle]; rfl))
  · cases hs
    exact .of_not_active (hclear (by rw [hidle]; rfl))
  · cases hs
    exact .of_not_active (hclear (by rw [hidle]; rfl))
  · cases hs
    exact .of_not_active (hclear (by rw [hidle]; rfl))
  · cases hs
    rename_i c
    cases c with
    | enable n | wfi n => exact ⟨fun _ => rfl, h.currentTask, h.nextTask⟩
    | deactivate n => exact .of_not_active rfl
    | activate n =>
      exact ⟨fun _ => rfl, fun _ => hcur, fun _ => hdue.next_idle hact (by rw [hidle]; rfl)⟩
    | disable | program | clear | readFlag | readCounter | stop | restore | restart | start
    | advance => exact .of_not_active (hclear (by rw [hidle]; rfl))
  · obtain ⟨r, -, he⟩ := Option.map_eq_some_iff.1 hs
    cases he
    exact .of_not_active (hclear (by rw [hidle]; rfl))
  · cases hs
    exact .of_not_active (hclear (by rw [hidle]; rfl))

theorem Waits.step (h : s.Waits) (hm : s.machine.IdleApart) (hdue : s.SwitchDue)
    (hok : s.Undisturbed a) (hs : s.step b a = some (s', o)) : s'.Waits := by
  rcases step_cases hs with ⟨a', m', o', rfl, ha, -, hst, rfl, -⟩ | ⟨op, rfl, rfl, -⟩ |
    ⟨rfl, hact, -, hidle⟩ | ⟨rfl, rfl, -⟩ | ⟨rfl, -, hh⟩
  · exact h.machine hm ha hok hst
  · exact ⟨h.flagged, h.currentTask, h.nextTask⟩
  · exact h.idle hdue hact hidle
  · exact ⟨h.flagged, h.currentTask, h.nextTask⟩
  · rcases handlerStep_cases hh with ⟨-, -, rfl⟩ | ⟨k', hflag, -, rfl, -⟩
    · exact ⟨h.flagged, h.currentTask, h.nextTask⟩
    · have hno : s.ticklessActive ≠ true := by simp [hflag]
      exact ⟨fun ht => absurd ht hno, fun ht => absurd ht hno, fun ht => absurd ht hno⟩

theorem waits_of_reach {cfg : Config} {out : List TicklessObs}
    (h : Run.Reach (step b) Undisturbed (start b cfg) s out) : s.Waits := by
  have hinv : (s.machine.IdleApart ∧ s.SwitchDue) ∧ s.Waits :=
    h.invariant (I := fun s => (s.machine.IdleApart ∧ s.SwitchDue) ∧ s.Waits)
      ⟨⟨Machine.idleApart_start cfg, switchDue_start b cfg⟩, nofun, nofun, nofun⟩
      fun _ _ _ _ hI hok hs =>
        ⟨⟨idleApart_step hI.1.1 hs, hI.1.2.step hI.1.1 hs⟩, hI.2.step hI.1.1 hI.1.2 hok hs⟩
  exact hinv.2

end Tickless

open Tickless in
/-- In every run in which no handler wakes a task while the flag is set, the tick does not stop while a
task runs. -/
theorem tick_runs {b : Board} {cfg : Config} {s : Tickless} {out : List TicklessObs}
    (h : Run.Reach (step b) Undisturbed (start b cfg) s out) : s.Ticks b := by
  intro t ht hne
  have hflag : s.ticklessActive = false := by
    refine eq_false_of_ne_true fun hflag => hne ?_
    exact Option.some.inj (ht.symm.trans ((waits_of_reach h).currentTask hflag))
  refine ⟨hflag, fun s' o hs => ?_⟩
  rcases step_cases hs with ⟨a', m', o', ha, -⟩ | ⟨op, ha, -⟩ | ⟨ha, -⟩ | ⟨ha, -⟩ | ⟨-, -, hh⟩
  · cases ha
  · cases ha
  · cases ha
  · cases ha
  · rcases handlerStep_cases hh with ⟨hset, -⟩ | ⟨k', -, hk, rfl, -⟩
    · exact absurd (hset.symm.trans hflag) (by decide)
    · exact hk

/-- A task waits for a semaphore, and the idle task is about to wait for an interrupt. -/
def waitWithFlag : TicklessScenario where
  board := .k64f
  config := { priorities := [1] }
  actions := [.kernel (.call (.semTake 0)), .kernel .exec, .kernel .pendSV] ++
    List.replicate 8 .idle
  possible := by decide +kernel

/-- The semaphore is given after the idle task has cleared the flag. -/
def giveLate : TicklessScenario where
  board := .k64f
  config := { priorities := [1] }
  actions := waitWithFlag.actions ++ [.kernel (.irq (.semTrytake 0)), .kernel .exec] ++
    List.replicate 2 .idle ++ [.kernel (.irq (.semGive 0)), .kernel .exec, .kernel .pendSV]
  possible := by decide +kernel

/-- A handler gives the semaphore while the idle task waits. -/
def giveInSleep : TicklessScenario where
  board := .k64f
  config := { priorities := [1] }
  actions := waitWithFlag.actions ++
    [.kernel (.irq (.semGive 0)), .kernel .exec, .kernel .pendSV]
  possible := by decide +kernel

theorem giveLate_ticks : giveLate.final.Ticks .k64f ∧
    giveLate.final.kernel.currentTask = some (.tcb 0) :=
  ⟨tick_runs (giveLate.reach (by decide +kernel)), by decide +kernel⟩

/-- The handler that ends the sleep wakes the task, which runs with the flag set: the tick stops. -/
theorem tick_stops :
    Run.Reach (Tickless.step .k64f) (fun _ _ => True) (Tickless.start .k64f { priorities := [1] })
      giveInSleep.final giveInSleep.reports ∧
    giveInSleep.final.kernel.currentTask = some (.tcb 0) ∧
    giveInSleep.final.ticklessActive = true ∧ ¬giveInSleep.final.Ticks .k64f := by
  have hcur : giveInSleep.final.kernel.currentTask = some (.tcb 0) := by decide +kernel
  have hflag : giveInSleep.final.ticklessActive = true := by decide +kernel
  refine ⟨giveInSleep.reach (.of_forall _ fun _ _ _ => trivial), hcur, hflag, fun h => ?_⟩
  exact absurd (hflag.symm.trans (h (.tcb 0) hcur (by decide)).1) (by decide)

end TamgaOs
