import TamgaOs.Machine.Orderly
import TamgaOs.Machine.Split

/-!
# Semaphores stay in bounds and strand no taker

The idle task executes `sched_tick_n` outside of a critical section. When it is preempted between its
choice of the next task and the store of this choice, the task may have blocked in `sem_take` meanwhile;
the store makes it run in the middle of its wait, and it links itself a second time.

## Main results

* `semaphore_inBounds_and_covered`: along every run of steady calls with whole ticks every count is
  between 0 and its maximum, and no taker is left waiting for a token that nobody comes back for.
* `semaphore_strands_taker`: a switch within a tick breaks it.
-/

namespace TamgaOs

/-- One orderly step keeps every semaphore in bounds. -/
theorem StepEffect.inBounds {m m' : Machine} {L L' : WaitList → List TaskPtr} {a : Action}
    {o : List Obs} (he : StepEffect m L a m' L' o) (h : ∀ s, (m.kernel.sem s).InBounds) (s : ℕ) :
    (m'.kernel.sem s).InBounds := by
  cases he with
  | call _ _ | irq _ | pendSV | clock => exact h s
  | tick he =>
    simp only [he.quiet.sem]
    exact h s
  | sem _ _ he _ _ => exact (he.inBounds h s).1
  | mutex _ _ _ hu _ | queue _ _ _ hu | event _ _ _ hu | sched _ _ hu _ =>
    simp only [Machine.kernel_resume, hu.sem (by simp)]
    exact h s

theorem Machine.inBounds_of_reach {cfg : Config} (hcfg : ∀ s, (cfg.sem s).InBounds)
    {ok : Machine → Action → Prop} (hok : ∀ m a, ok m a → m.Orderly a) {m : Machine}
    {out : List Obs} (h : Run.Reach Machine.step ok (Machine.start cfg) m out) (s : ℕ) :
    (m.kernel.sem s).InBounds := by
  have hstart : ∀ s, ((Machine.start cfg).kernel.sem s).InBounds := by
    intro s
    change (cfg.created.sem s).InBounds
    rw [cfg.fresh_created.sem]
    exact hcfg s
  obtain ⟨L, -, hb⟩ := Machine.orderly_induct hok (I := fun m _ _ => ∀ s, (m.kernel.sem s).InBounds) h hstart
    fun _ _ hb _ _ he _ => he.inBounds hb
  exact hb s

/-- The runs with whole ticks. -/
theorem Machine.inBounds_and_covered_of_reach {cfg : Config}
    (hcfg : ∀ s, 0 ≤ (cfg.sem s).count ∧ (cfg.sem s).count ≤ (cfg.sem s).max) {m : Machine}
    {out : List Obs}
    (h : Run.Reach Machine.step (fun _ a => a.Within Call.Steady) (Machine.start cfg) m out)
    (s : ℕ) :
    0 ≤ (m.kernel.sem s).count ∧ (m.kernel.sem s).count ≤ (m.kernel.sem s).max ∧
      m.NoLostWakeup (.sem s) (m.kernel.sem s).count.toNat := by
  have hord := Machine.orderly_of_steady (fun _ _ => id) h
  have hb := Machine.inBounds_of_reach hcfg (fun _ _ => And.right) hord s
  obtain ⟨L, hs⟩ := Machine.sound_of_reach (fun _ _ => And.right) hord
  exact ⟨hb.1, hb.2, hs.noLostWakeup (.sem s)⟩

/-- Whatever the tasks and the handlers do with semaphores and the other steady calls, as long as nothing
comes between the statements of a tick, every count is between 0 and its maximum, and as long as a taker
waits, at least as many takers that have been popped still have to test again as there are tokens. -/
theorem semaphore_inBounds_and_covered (cfg : Config)
    (hcfg : ∀ x, 0 ≤ (cfg.sem x).count ∧ (cfg.sem x).count ≤ (cfg.sem x).max) {s : Split}
    {out : List Obs}
    (h : Run.Reach Split.step (Split.Whole fun _ a => a.Within Call.Steady) (Split.start cfg) s out)
    (hs : s.ticking = false) (x : ℕ) :
    0 ≤ (s.kernel.sem x).count ∧ (s.kernel.sem x).count ≤ (s.kernel.sem x).max ∧
      s.machine.NoLostWakeup (.sem x) (s.kernel.sem x).count.toNat :=
  Machine.inBounds_and_covered_of_reach hcfg (Split.reach_machine h hs) x

/-- Two tasks wait for a semaphore, and an interrupt handler gives a token: the first waiter has
been popped and has not run yet, the second one is still linked. -/
def oneTokenTwoTakers : Scenario where
  config := { priorities := [1, 2], sem := fun _ => ⟨0, 3⟩ }
  actions := [.call (.semTake 0), .exec, .pendSV, .call (.semTake 0), .exec, .irq (.semGive 0),
    .exec]
  possible := by decide +kernel

theorem oneTokenTwoTakers_inBounds_and_covered :
    0 ≤ (oneTokenTwoTakers.final.kernel.sem 0).count ∧
      (oneTokenTwoTakers.final.kernel.sem 0).count ≤
        (oneTokenTwoTakers.final.kernel.sem 0).max ∧
      oneTokenTwoTakers.final.NoLostWakeup (.sem 0)
        (oneTokenTwoTakers.final.kernel.sem 0).count.toNat := by
  have hrun : Run.Reach Machine.step (fun m a => a.Within Call.Steady ∧ m.Timely a)
      (Machine.start oneTokenTwoTakers.config) oneTokenTwoTakers.final oneTokenTwoTakers.reports :=
    oneTokenTwoTakers.reach (by decide +kernel)
  obtain ⟨s, hs, hm, hreach⟩ := Split.exists_of_machine hrun
  rw [← hm]
  exact semaphore_inBounds_and_covered oneTokenTwoTakers.config
    (fun _ => by simp [oneTokenTwoTakers]) hreach hs 0

example : (oneTokenTwoTakers.final.kernel.sem 0).count = 1 ∧
    oneTokenTwoTakers.final.kernel.head (.sem 0) = some (.tcb 1) := by decide +kernel

/-- The thread that runs is one of `ts`. -/
def Split.RunsOneOf (ts : List TaskPtr) (s : Split) : Prop :=
  match s.machine.active with
  | some (.thread t) => t ∈ ts
  | _ => True

instance (ts : List TaskPtr) : DecidablePred (Split.RunsOneOf ts) := fun s => by
  unfold Split.RunsOneOf
  split <;> infer_instance

/-- A task that never runs is in no call. -/
theorem Split.ctl_eq_app_of_reach {ts : List TaskPtr} {ok : Split → SplitAction → Prop} {cfg : Config}
    {s : Split} {out : List Obs} (hok : ∀ s a, ok s a → s.RunsOneOf ts)
    (h : Run.Reach Split.step ok (Split.start cfg) s out) {t : TaskPtr} (ht : t ∉ ts) :
    s.machine.ctl (.thread t) = .app := by
  refine h.invariant (I := fun s => s.machine.ctl (.thread t) = .app) rfl fun s s' a o hs hoka hst => ?_
  have hidle : s.machine.active ≠ some (.thread t) := by
    intro hact
    have hone := hok s a hoka
    unfold Split.RunsOneOf at hone
    rw [hact] at hone
    exact ht hone
  rcases Split.step_cases hst with ⟨a', m', rfl, -, -, hm, rfl⟩ | ⟨-, -, -, rfl, -⟩ |
    ⟨n, -, -, -, -, rfl, -⟩ | ⟨c, k', c', -, -, -, -, rfl, -⟩ | ⟨n, c, k', c', -, -, -, -, -, rfl, -⟩
  · rcases Machine.step_cases hm with ⟨c, i, -, hact, -, rfl, -⟩ |
      ⟨x, u, k', c', -, hact, -, -, rfl⟩ | ⟨c, -, -, rfl, -⟩ | ⟨-, -, -, rfl, -⟩ | ⟨n, -, rfl, -⟩ |
      ⟨n, k', -, -, rfl, -⟩
    · have hne : Ctx.thread t ≠ .thread (.tcb i) := fun he => hidle (he ▸ hact)
      exact (Function.update_of_ne hne ..).trans hs
    · have hne : Ctx.thread t ≠ x := fun he => hidle (he ▸ hact)
      exact (Function.update_of_ne hne ..).trans hs
    · exact (Machine.update_isr s.machine.ctl s.machine.depth c.entry t).trans hs
    · exact hs
    · exact hs
    · exact hs
  · exact hs
  · exact hs
  · exact hs
  · exact hs

/-- Both tasks sleep. The idle task has slept for 1 ms; its tick wakes task 0, has chosen it, and is
about to store the choice, when `SysTick_Handler` makes the same choice. Task 0 waits for the semaphore,
and the idle task goes on: task 0 runs again, still waiting, and links itself behind itself. A handler
gives a token, which task 0 takes, still linked; it sleeps. Task 1 wakes and waits behind task 0, and a
handler gives a token: it pops and wakes task 0. -/
def switchWithinTick : SplitScenario where
  config := { priorities := [0, 1], sem := fun _ => ⟨0, 3⟩ }
  actions :=
    [.kernel (.call (.schedDelayMs 1)), .kernel .exec, .kernel .exec, .kernel .pendSV,
      .kernel (.call (.schedDelayMs 3)), .kernel .exec, .kernel .exec, .kernel .pendSV,
      .kernel (.clock 1), .idleTick 1] ++ List.replicate 13 .statement ++
    [.kernel (.clock 1), .sysTick] ++ List.replicate 13 .statement ++
    [.kernel .pendSV, .kernel .exec, .kernel (.call (.semTake 0)), .kernel .exec, .kernel .pendSV] ++
    List.replicate 4 .statement ++
    [.kernel .pendSV, .kernel .exec, .kernel .exec, .kernel .pendSV, .kernel (.irq (.semGive 0)),
      .kernel .exec, .kernel .pendSV, .kernel .exec, .kernel .exec, .kernel (.call (.schedDelayMs 9)),
      .kernel .exec, .kernel .exec, .kernel .pendSV, .kernel (.clock 1), .sysTick] ++
    List.replicate 18 .statement ++
    [.kernel .pendSV, .kernel .exec, .kernel (.call (.semTake 0)), .kernel .exec, .kernel .pendSV,
      .kernel (.irq (.semGive 0)), .kernel .exec]
  possible := by decide +kernel

/-- There is a token, task 1 waits for one, and nobody will test again. -/
theorem semaphore_strands_taker :
    ∃ s out, Run.Reach Split.step
      (fun s a => (∀ a' ∈ a.op, a'.Within fun c => c.family = some .sem ∨ c.family = some .sched) ∧
        s.RunsOneOf [.idle, .tcb 0, .tcb 1])
      (Split.start switchWithinTick.config) s out ∧ s.ticking = false ∧
      (s.kernel.sem 0).count = 1 ∧ s.kernel.Waiters (.sem 0) [.tcb 1] ∧
      ¬ s.machine.NoLostWakeup (.sem 0) (s.kernel.sem 0).count.toNat := by
  have hcount : (switchWithinTick.final.kernel.sem 0).count = 1 := by decide +kernel
  have hlist : switchWithinTick.final.kernel.Waiters (.sem 0) [.tcb 1] := by decide +kernel
  have hidle : switchWithinTick.final.ticking = false := by decide +kernel
  have hretries : ∀ t ∈ [TaskPtr.idle, .tcb 0, .tcb 1],
      (switchWithinTick.final.machine.ctl (.thread t)).retries ≠ some (.sem 0) := by decide +kernel
  have hwaits : ∀ t ∈ [TaskPtr.idle, .tcb 0],
      (switchWithinTick.final.machine.ctl (.thread t)).waitsOn ≠ some (.sem 0) := by decide +kernel
  have hreach : Run.Reach Split.step
      (fun s a => (∀ a' ∈ a.op, a'.Within fun c => c.family = some .sem ∨ c.family = some .sched) ∧
        s.RunsOneOf [.idle, .tcb 0, .tcb 1])
      (Split.start switchWithinTick.config) switchWithinTick.final switchWithinTick.reports :=
    switchWithinTick.reach (by decide +kernel)
  generalize switchWithinTick.final = s at hcount hlist hidle hretries hwaits hreach
  refine ⟨s, _, hreach, hidle, hcount, hlist, ?_⟩
  rintro ⟨xs, hxs, hP⟩
  obtain rfl := hlist.unique hxs
  obtain ⟨P, hcard, hmust⟩ := hP (by simp)
  rw [hcount] at hcard
  obtain ⟨t, ht⟩ := Finset.card_pos.1 hcard
  have happ : t ∉ [TaskPtr.idle, .tcb 0, .tcb 1] → s.machine.ctl (.thread t) = .app :=
    Split.ctl_eq_app_of_reach (fun _ _ h => h.2) hreach
  rcases hmust t ht with hr | ⟨hw, hout, -⟩
  · by_cases hin : t ∈ [TaskPtr.idle, .tcb 0, .tcb 1]
    · exact hretries t hin hr
    · rw [happ hin] at hr
      cases hr
  · by_cases hin : t ∈ [TaskPtr.idle, .tcb 0, .tcb 1]
    · have hone : t ≠ .tcb 1 := fun he => hout _ hlist (he ▸ List.mem_cons_self)
      exact hwaits t (by simpa [hone] using hin) hw
    · rw [happ hin] at hw
      cases hw

end TamgaOs
