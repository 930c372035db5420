import TamgaOs.Machine.Split

/-!
# Pausing a task

A paused task leaves this state without `sched_task_resume` when it is woken, and when it was
current while it was paused and then sleeps, yields or blocks. A `sched_tick_n` that is under way when
the task is paused may still store another state into it. PendSV installs the task when it was the next
task while it was paused. Nothing else touches it.

## Main definitions

* `SchedOp.Unpauses k i`: the operation takes the task `i` out of its state.
* `Machine.KeepsPaused`: no operation of the action does, and no switch to the task is taken.
* `TickCtl.Unpauses k i`: the statement of a tick takes the task `i` out of its state.
* `Split.KeepsPaused`: the condition on every step.

## Main results

* `SchedPath.stays_paused_iff`: a task stays paused if and only if no operation unpauses it.
* `paused_iff`: the same along the runs after `sched_task_pause`, with the context switches and the
  statements of the ticks.
* `give_unpauses`: `sem_give` makes a paused waiter run.
-/

namespace TamgaOs

namespace SchedOp

variable {k k' : Kernel} {op : SchedOp} {i : ℕ}

/-- The operation sets the state of the task `i`, without being asked to resume it. -/
def Unpauses (k : Kernel) (i : ℕ) : SchedOp → Prop
  | wake t => t = .tcb i
  | delay _ | yield | blockLocked _ => k.currentTask = some (.tcb i)
  | tick _ | block | pause _ | resume _ | create _ | setPriority _ _ | pendSV => False

instance (k : Kernel) (i : ℕ) : DecidablePred (Unpauses k i)
  | wake t => inferInstanceAs (Decidable (t = .tcb i))
  | delay _ | yield | blockLocked _ =>
    inferInstanceAs (Decidable (k.currentTask = some (.tcb i)))
  | tick _ | block | pause _ | resume _ | create _ | setPriority _ _ | pendSV =>
    inferInstanceAs (Decidable False)

theorem paused_modifyTask {t u : TaskPtr} {f : Task → Task}
    (hf : (f (k.tcb t)).state ≠ .paused) :
    ((k.modifyTask t f).tcb u).state = .paused ↔ (k.tcb u).state = .paused ∧ t ≠ u := by
  rw [Kernel.modifyTask_tcb]
  split_ifs with hu
  · exact ⟨fun h => absurd h hf, fun h => absurd hu.symm h.2⟩
  · exact ⟨fun h => ⟨h, Ne.symm hu⟩, And.left⟩

/-- What one operation does to a paused task. -/
theorem paused_iff_of_run (hi : i < k.taskCount)
    (hp : op = .pause i → (k.tcb (.tcb i)).state = .paused) (hr : op ≠ .resume i)
    (h : op.run k = some k') : (k'.tcb (.tcb i)).state = .paused ↔
      (k.tcb (.tcb i)).state = .paused ∧ ¬ op.Unpauses k i := by
  have hresched : ∀ {k₁ k₂ : Kernel}, Rescheduled k₁ k₂ →
      ((k₂.tcb (.tcb i)).state = .paused ↔ (k₁.tcb (.tcb i)).state = .paused) :=
    fun hrel => hrel.state_iff (by rintro (h | h) <;> cases h)
  have hcurrent : ∀ {t : TaskPtr}, k.currentTask = some t →
      (t ≠ .tcb i ↔ ¬ k.currentTask = some (.tcb i)) := by
    intro t ht
    rw [ht, Option.some.injEq]
  cases op with
  | tick n =>
    obtain ⟨k₁, htick, rfl⟩ := Kernel.schedTickN_only h
    rw [(SameTasks.triggerIfSwitch _).state, hresched Kernel.rescheduled_schedPickAndMark]
    rcases htick.cases (.tcb i) with ⟨hs, -⟩ | ⟨hb, -, -, hs, -⟩ | ⟨hb, -, hs, -⟩
    · simp [hs, Unpauses]
    · simp [hs, hb]
    · simp [hs, hb]
  | delay ms =>
    obtain ⟨t, ht, rfl⟩ := Option.map_eq_some_iff.1 h
    rw [Kernel.delaySection, hresched Kernel.rescheduled_schedCommitNext,
      paused_modifyTask (by simp), hcurrent ht, Unpauses]
  | yield =>
    cases h
    unfold Kernel.yieldSection
    cases ht : k.currentTask with
    | none => simp [Unpauses, ht]
    | some t =>
      dsimp only
      rw [hresched Kernel.rescheduled_schedCommitNext, Kernel.setState,
        paused_modifyTask (by simp), hcurrent ht, Unpauses]
  | block =>
    cases h
    rw [hresched Kernel.rescheduled_schedPickAndMark]
    simp [Unpauses]
  | blockLocked ms =>
    obtain ⟨t, ht, rfl⟩ := Option.map_eq_some_iff.1 h
    rw [Kernel.schedBlockLocked, (SameTasks.triggerPendsv _).state,
      hresched Kernel.rescheduled_schedPickAndMark, Kernel.markBlocked,
      paused_modifyTask (by simp), hcurrent ht, Unpauses]
  | wake t =>
    cases h
    rw [Kernel.wakeSection, hresched Kernel.rescheduled_schedPickAndMark,
      paused_modifyTask (by simp), Unpauses]
  | pause j =>
    cases h
    unfold Kernel.schedTaskPause
    split_ifs
    · simp [Unpauses]
    · rw [Kernel.setState, Kernel.modifyTask_tcb]
      split_ifs with hij
      · have hpaused := hp (by cases hij; rfl)
        simp [Unpauses, hpaused]
      · simp [Unpauses]
  | resume j =>
    cases h
    have hij : TaskPtr.tcb i ≠ .tcb j := fun he => hr (by cases he; rfl)
    unfold Kernel.schedTaskResume
    split_ifs
    · simp [Unpauses]
    · rw [Kernel.setState, Kernel.modifyTask_of_ne hij]
      simp [Unpauses]
    · simp [Unpauses]
  | create p =>
    cases h
    have hne : TaskPtr.tcb i ≠ .tcb k.taskCount := by
      intro he
      cases he
      exact lt_irrefl _ hi
    rw [k.tcb_createSection, if_neg hne]
    simp [Unpauses]
  | setPriority t p =>
    cases h
    have hstate : ((k.setPriority t p).tcb (.tcb i)).state = (k.tcb (.tcb i)).state := by
      rw [Kernel.setPriority, Kernel.modifyTask_tcb]
      split_ifs with ht
      · rw [ht]
      · rfl
    rw [hstate]
    simp [Unpauses]
  | pendSV =>
    cases h
    exact ⟨fun h => ⟨h, id⟩, And.left⟩

theorem unpauses_congr (h : k'.currentTask = k.currentTask) :
    op.Unpauses k' i ↔ op.Unpauses k i := by
  cases op <;> simp only [Unpauses, h]

end SchedOp

/-- A task stays paused if and only if no operation unpauses it. -/
theorem SchedPath.stays_paused_iff {k k' : Kernel} {ops : List SchedOp} {i : ℕ} (h : SchedPath k ops k')
    (hi : i < k.taskCount) (hops : ∀ op ∈ ops, op ≠ .pause i ∧ op ≠ .resume i ∧ op ≠ .pendSV) :
    (k'.tcb (.tcb i)).state = .paused ↔
      (k.tcb (.tcb i)).state = .paused ∧ ∀ op ∈ ops, ¬ op.Unpauses k i := by
  induction h with
  | done hs => simp [hs.state]
  | @op k k₂ k' op ops k₁ hs hrun hrest ih =>
    obtain ⟨hp, hr, hswitch⟩ := hops op List.mem_cons_self
    have hi₁ : i < k₁.taskCount := hs.taskCount ▸ hi
    have hcur₁ : k₁.currentTask = k.currentTask := hs.currentTask
    have hcur₂ : k₂.currentTask = k.currentTask :=
      (SchedOp.run_currentTask hrun hswitch).trans hcur₁
    have hone := SchedOp.paused_iff_of_run hi₁ (fun he => absurd he hp) hr hrun
    have hall : (∀ op ∈ ops, ¬ op.Unpauses k₂ i) ↔ ∀ op ∈ ops, ¬ op.Unpauses k i :=
      forall₂_congr fun op _ => not_congr (SchedOp.unpauses_congr hcur₂)
    rw [ih (hi₁.trans_le (SchedOp.taskCount_le_of_run hrun))
      fun op hop => hops op (List.mem_cons_of_mem _ hop), hone, hs.state,
      SchedOp.unpauses_congr hcur₁, hall, List.forall_mem_cons, and_assoc]

namespace Machine

variable {m m' : Machine} {a : Action} {o : List Obs} {i : ℕ}

/-- No operation of the action unpauses the task `i`, and no context switch to it is taken. -/
def KeepsPaused (m : Machine) (i : ℕ) (a : Action) : Prop :=
  (∀ op ∈ m.schedOps a, ¬ op.Unpauses m.kernel i) ∧
    (a = .pendSV → m.kernel.nextTask ≠ some (.tcb i))

instance (m : Machine) (i : ℕ) (a : Action) : Decidable (m.KeepsPaused i a) :=
  inferInstanceAs (Decidable (_ ∧ _))

/-- The action is not `sched_task_resume(i)`. -/
def NotResumed (m : Machine) (i : ℕ) (a : Action) : Prop := .resume i ∉ m.schedOps a

instance (m : Machine) (i : ℕ) (a : Action) : Decidable (m.NotResumed i a) :=
  inferInstanceAs (Decidable (_ ∉ _))

/-- A paused task stays paused, and is not installed, if and only if the step meets the
condition. -/
theorem paused_step (hi : i < m.kernel.taskCount)
    (hpaused : (m.kernel.tcb (.tcb i)).state = .paused) (hr : m.NotResumed i a)
    (hs : m.step a = some (m', o)) :
    ((m'.kernel.tcb (.tcb i)).state = .paused ∧
      (a = .pendSV → m'.kernel.currentTask ≠ some (.tcb i))) ↔ m.KeepsPaused i a := by
  have hpath := Machine.step_path hs
  have hseq := m.sequence_schedOps a
  refine and_congr ?_ (forall_congr' fun ha => ?_)
  · unfold NotResumed at hr
    generalize m.schedOps a = ops at hpath hseq hr
    cases hseq with
    | nil =>
      cases hpath with
      | done hsame => simp [hsame.state, hpaused]
    | single op =>
      cases hpath with
      | op k₁ hsame hrun hrest =>
        cases hrest with
        | done hsame' =>
          have hpaused₁ : (k₁.tcb (.tcb i)).state = .paused := (hsame.state _).trans hpaused
          have hone := SchedOp.paused_iff_of_run (hsame.taskCount ▸ hi) (fun _ => hpaused₁)
            (fun he => hr (he ▸ List.mem_cons_self)) hrun
          rw [hsame'.state, hone, and_iff_right hpaused₁,
            SchedOp.unpauses_congr hsame.currentTask, List.forall_mem_singleton]
    | commit ops op hop hlead =>
      rw [hpath.stays_paused_iff hi, and_iff_right hpaused]
      intro op' hop'
      rcases List.mem_append.1 hop' with hop' | hop'
      · have hlead' := hlead op' hop'
        refine ⟨?_, ?_, ?_⟩ <;> (rintro rfl; cases hlead')
      · rw [List.mem_singleton.1 hop']
        refine ⟨?_, ?_, ?_⟩ <;> (rintro rfl; cases hop)
  · subst ha
    obtain rfl := Machine.step_pendSV hs
    exact Iff.rfl

end Machine

/-- `sched_task_pause` pauses a task of the table. -/
theorem Machine.paused_of_pause {m m' : Machine} {a : Action} {o : List Obs} {i : ℕ}
    (hi : i < m.kernel.taskCount) (hpause : .pause i ∈ m.schedOps a)
    (hs : m.step a = some (m', o)) : (m'.kernel.tcb (.tcb i)).state = .paused := by
  have hpath := Machine.step_path hs
  have hseq := m.sequence_schedOps a
  generalize m.schedOps a = ops at hpath hseq hpause
  cases hseq with
  | nil => cases hpause
  | single op =>
    obtain rfl := List.mem_singleton.1 hpause
    cases hpath with
    | op k₁ hsame hrun hrest =>
      cases hrest with
      | done hsame' =>
        cases hrun
        rw [hsame'.state, Kernel.schedTaskPause, hsame.taskCount, if_neg (not_le.2 hi),
          Kernel.setState, Kernel.modifyTask_self]
  | commit ops op hop hlead =>
    rcases List.mem_append.1 hpause with hmem | hmem
    · cases hlead _ hmem
    · rw [← List.mem_singleton.1 hmem] at hop
      cases hop

/-! ### The statements of a tick -/

/-- The statement of `sched_tick_n` sets the state of the task `i`, to `TASK_READY` or
`TASK_RUNNING`. -/
def TickCtl.Unpauses (k : Kernel) (i : ℕ) : TickCtl → Prop
  | ready j => j = i
  | currentReady => k.currentTask = some (.tcb i)
  | nextReady | run => k.nextTask = some (.tcb i)
  | _ => False

instance (k : Kernel) (i : ℕ) : DecidablePred (TickCtl.Unpauses k i)
  | .ready j => inferInstanceAs (Decidable (j = i))
  | .currentReady => inferInstanceAs (Decidable (k.currentTask = some (.tcb i)))
  | .nextReady | .run => inferInstanceAs (Decidable (k.nextTask = some (.tcb i)))
  | .test _ | .compare _ | .zero _ | .headTest _ | .remove _ | .removeHead _ _ | .removeStart _ _
  | .removeTest _ _ | .removeNext _ _ | .removeLink _ _ | .clearHead _ | .mark _ | .subtract _
  | .currentTest | .nextTest | .select | .install _ | .runTest | .switchTest | .switch =>
    inferInstanceAs (Decidable False)

/-- A statement of a tick keeps a paused task paused if and only if it is no store to its state. -/
theorem paused_tickStep {k k' : Kernel} {n i : ℕ} {c : TickCtl} {c' : Option TickCtl}
    (hpaused : (k.tcb (.tcb i)).state = .paused) (h : tickStep k n c = some (k', c')) :
    (k'.tcb (.tcb i)).state = .paused ↔ ¬ c.Unpauses k i := by
  have hsame : (k.tcb (.tcb i)).state = .paused ↔ ¬ False := iff_of_true hpaused id
  -- the stores to other fields
  have hfield : ∀ (u : TaskPtr) {f : Task → Task}, (f (k.tcb u)).state = (k.tcb u).state →
      (((k.modifyTask u f).tcb (.tcb i)).state = .paused ↔ ¬ False) := by
    intro u f hf
    refine iff_of_true ?_ id
    rw [Kernel.modifyTask_tcb]
    split_ifs with hu
    · rw [hf, ← hu]
      exact hpaused
    · exact hpaused
  have hstore : ∀ (u : TaskPtr) (x : TaskState), x ≠ .paused →
      (((k.setState u x).tcb (.tcb i)).state = .paused ↔ u ≠ .tcb i) := by
    intro u x hx
    rw [Kernel.setState, SchedOp.paused_modifyTask hx, and_iff_right hpaused]
  cases c with
  | test j | compare j =>
    simp only [tickStep] at h
    split_ifs at h <;> cases h <;> exact hsame
  | headTest j | removeTest j cur =>
    simp only [tickStep] at h
    split at h
    · first
      | cases h
        exact hsame
      | split_ifs at h <;> cases h <;> exact hsame
    · cases h
      exact hsame
  | remove j =>
    simp only [tickStep] at h
    split at h
    · split_ifs at h <;> cases h <;> exact hsame
    · cases h
  | currentTest | nextTest =>
    simp only [tickStep] at h
    split at h
    · split_ifs at h <;> cases h <;> exact hsame
    · cases h
      exact hsame
  | currentReady | nextReady | run =>
    obtain ⟨t, ht, he⟩ := Option.map_eq_some_iff.1 h
    cases he
    rw [hstore t _ (by simp), TickCtl.Unpauses, ht, Option.some.injEq]
  | runTest =>
    obtain ⟨t, -, he⟩ := Option.map_eq_some_iff.1 h
    obtain ⟨rfl, -⟩ := Prod.mk.inj he
    exact hsame
  | switchTest =>
    obtain ⟨rfl, -⟩ := Prod.mk.inj (Option.some.inj h)
    exact hsame
  | removeStart | removeNext | select | switch | removeHead | install =>
    cases h
    exact hsame
  | zero | removeLink | clearHead | mark | subtract =>
    cases h
    exact hfield _ rfl
  | ready j =>
    cases h
    rw [hstore (.tcb j) .ready (by simp), TickCtl.Unpauses, ne_eq, TaskPtr.tcb.injEq]

namespace Split

variable {s s' : Split} {b : SplitAction} {o : List Obs} {i : ℕ}

/-- The program point of the `sched_tick_n` that goes on first. -/
def tickCtl (s : Split) : Option TickCtl := s.handler.or (s.idle.map Prod.snd)

/-- No operation and no statement of a tick unpauses the task `i`, and no context switch to it is
taken. -/
def KeepsPaused (s : Split) (i : ℕ) : SplitAction → Prop
  | .kernel a => s.machine.KeepsPaused i a
  | .statement => ∀ c ∈ s.tickCtl, ¬ c.Unpauses s.kernel i
  | .sysTick | .idleTick _ => True

instance (s : Split) (i : ℕ) : DecidablePred (s.KeepsPaused i)
  | .kernel a => inferInstanceAs (Decidable (s.machine.KeepsPaused i a))
  | .statement => inferInstanceAs (Decidable (∀ c ∈ s.tickCtl, ¬ c.Unpauses s.kernel i))
  | .sysTick | .idleTick _ => inferInstanceAs (Decidable True)

/-- The step is not `sched_task_resume(i)`. -/
def NotResumed (s : Split) (i : ℕ) : SplitAction → Prop
  | .kernel a => s.machine.NotResumed i a
  | .sysTick | .idleTick _ | .statement => True

instance (s : Split) (i : ℕ) : DecidablePred (s.NotResumed i)
  | .kernel a => inferInstanceAs (Decidable (s.machine.NotResumed i a))
  | .sysTick | .idleTick _ | .statement => inferInstanceAs (Decidable True)

/-- The task is paused, and the action is no context switch that has installed it. -/
def StaysPaused (s : Split) (i : ℕ) (b : SplitAction) : Prop :=
  (s.kernel.tcb (.tcb i)).state = .paused ∧
    (b = .kernel .pendSV → s.kernel.currentTask ≠ some (.tcb i))

theorem taskCount_le_step (hs : s.step b = some (s', o)) :
    s.kernel.taskCount ≤ s'.kernel.taskCount := by
  rcases step_cases hs with ⟨a, m', rfl, -, -, hm, rfl⟩ | ⟨rfl, -, -, rfl, -⟩ |
    ⟨n, rfl, -, -, -, rfl, -⟩ | ⟨c, k', c', rfl, -, -, htick, rfl, -⟩ |
    ⟨n, c, k', c', rfl, -, -, -, htick, rfl, -⟩
  · exact (Machine.step_path hm).taskCount_le
  · exact le_rfl
  · exact le_rfl
  · exact (TickStmt.of_tickStep htick).taskCount.ge
  · exact (TickStmt.of_tickStep htick).taskCount.ge

/-- A paused task stays paused, and is not installed, if and only if the step meets the
condition. -/
theorem staysPaused_iff (hi : i < s.kernel.taskCount)
    (hpaused : (s.kernel.tcb (.tcb i)).state = .paused) (hr : s.NotResumed i b)
    (hs : s.step b = some (s', o)) : s'.StaysPaused i b ↔ s.KeepsPaused i b := by
  rcases step_cases hs with ⟨a, m', rfl, -, -, hm, rfl⟩ | ⟨rfl, -, -, rfl, -⟩ |
    ⟨n, rfl, -, -, -, rfl, -⟩ | ⟨c, k', c', rfl, hc, -, htick, rfl, -⟩ |
    ⟨n, c, k', c', rfl, hh, hc, -, htick, rfl, -⟩
  · have hstep := Machine.paused_step hi hpaused hr hm
    simpa only [StaysPaused, KeepsPaused, SplitAction.kernel.injEq] using hstep
  · exact iff_of_true ⟨hpaused, nofun⟩ trivial
  · exact iff_of_true ⟨hpaused, nofun⟩ trivial
  · have hctl : s.tickCtl = some c := by rw [tickCtl, hc, Option.some_or]
    simp only [StaysPaused, KeepsPaused, hctl, Option.mem_some, forall_eq', reduceCtorEq,
      false_implies, and_true]
    exact paused_tickStep hpaused htick
  · have hctl : s.tickCtl = some c := by
      rw [tickCtl, hh, hc, Option.none_or, Option.map_some]
    simp only [StaysPaused, KeepsPaused, hctl, Option.mem_some, forall_eq', reduceCtorEq,
      false_implies, and_true]
    exact paused_tickStep hpaused htick

end Split

/-- A task that `sched_task_pause` has paused, at any time and also between the statements of a tick,
stays paused as long as no step resumes it and every step meets the condition, and no context switch
installs it; and a further step that does not resume it keeps this if and only if it meets the
condition. -/
theorem paused_iff {s₀ s₁ s : Split} {a₀ : Action} {o₀ out : List Obs} {i : ℕ}
    (hi : i < s₀.kernel.taskCount) (hpause : .pause i ∈ s₀.machine.schedOps a₀)
    (hs : s₀.step (.kernel a₀) = some (s₁, o₀))
    (h : Run.Reach Split.step (fun s b => s.NotResumed i b ∧ s.KeepsPaused i b) s₁ s out) :
    (s.kernel.tcb (.tcb i)).state = .paused ∧
      ∀ b s' o, s.NotResumed i b → s.step b = some (s', o) →
        (((s'.kernel.tcb (.tcb i)).state = .paused ∧
          (b = .kernel .pendSV → s'.kernel.currentTask ≠ some (.tcb i))) ↔ s.KeepsPaused i b) := by
  have hinv : i < s.kernel.taskCount ∧ (s.kernel.tcb (.tcb i)).state = .paused := by
    refine h.invariant (I := fun s => i < s.kernel.taskCount ∧
      (s.kernel.tcb (.tcb i)).state = .paused) ⟨hi.trans_le (Split.taskCount_le_step hs), ?_⟩ ?_
    · exact Machine.paused_of_pause hi hpause (Split.kernel_step hs).1
    · intro s s' b o hm hok hstep
      exact ⟨hm.1.trans_le (Split.taskCount_le_step hstep),
        ((Split.staysPaused_iff hm.1 hm.2 hok.1 hstep).2 hok.2).1⟩
  exact ⟨hinv.2, fun b s' o hr hs => Split.staysPaused_iff hinv.1 hinv.2 hr hs⟩

/-- Two tasks, of which the first waits for a semaphore; the second one is about to pause it. -/
def waitingTask : SplitScenario where
  config := { priorities := [0, 1], sem := fun _ => ⟨0, 1⟩ }
  actions := [.kernel (.call (.semTake 0)), .kernel .exec, .kernel .pendSV,
    .kernel (.call (.schedTaskPause 0))]
  possible := by decide +kernel

/-- A tick, after which the second task tries the semaphore. -/
def tickAfterPause : List SplitAction :=
  .sysTick :: List.replicate 11 .statement ++ [.kernel (.call (.semTrytake 1)), .kernel .exec]

/-- A tick and a call of the second task leave the first one paused. -/
theorem waitingTask_paused :
    ∃ s₁ s o o', waitingTask.final.step (.kernel .exec) = some (s₁, o) ∧
      Run.exec Split.step s₁ tickAfterPause = some (s, o') ∧ s.ticking = false ∧
      (s.kernel.tcb (.tcb 0)).state = .paused := by
  have hpause : .pause 0 ∈ waitingTask.final.machine.schedOps .exec := by decide +kernel
  have hrun : ((waitingTask.final.step (.kernel .exec)).bind fun r =>
      (Run.exec Split.step r.1 tickAfterPause).map fun r' =>
        (decide (Run.Permitted Split.step (fun s b => s.NotResumed 0 b ∧ s.KeepsPaused 0 b) r.1
          tickAfterPause), r'.1.ticking)) = some (true, false) := by
    decide +kernel
  obtain ⟨⟨s₁, o⟩, hs, hrun⟩ := Option.bind_eq_some_iff.1 hrun
  obtain ⟨⟨s, o'⟩, hexec, he⟩ := Option.map_eq_some_iff.1 hrun
  obtain ⟨hok, hticking⟩ := Prod.mk.inj he
  refine ⟨s₁, s, o, o', hs, hexec, hticking, ?_⟩
  exact (paused_iff (by decide +kernel) hpause hs (.of_exec .init (of_decide_eq_true hok) hexec)).1

/-- When the second task gives the semaphore instead, the first one is installed. -/
theorem give_unpauses :
    ∃ s₀ out₀ s₁ o s out, Run.Reach Split.step (fun _ _ => True)
        (Split.start waitingTask.config) s₀ out₀ ∧
      0 < s₀.kernel.taskCount ∧ .pause 0 ∈ s₀.machine.schedOps .exec ∧
      s₀.step (.kernel .exec) = some (s₁, o) ∧
      Run.Reach Split.step (fun s b => s.NotResumed 0 b) s₁ s out ∧
      (s.kernel.tcb (.tcb 0)).state = .running ∧ s.kernel.currentTask = some (.tcb 0) := by
  have hrun : ((waitingTask.final.step (.kernel .exec)).bind fun r =>
      (Run.exec Split.step r.1 [.kernel (.call (.semGive 0)), .kernel .exec, .kernel .pendSV]).map
        fun r' => (decide (Run.Permitted Split.step (fun s b => s.NotResumed 0 b) r.1
          [.kernel (.call (.semGive 0)), .kernel .exec, .kernel .pendSV]),
          (r'.1.kernel.tcb (.tcb 0)).state, r'.1.kernel.currentTask)) =
        some (true, .running, some (.tcb 0)) := by
    decide +kernel
  obtain ⟨⟨s₁, o⟩, hs, hrun⟩ := Option.bind_eq_some_iff.1 hrun
  obtain ⟨⟨s, o'⟩, hexec, he⟩ := Option.map_eq_some_iff.1 hrun
  simp only [Prod.mk.injEq] at he
  obtain ⟨hok, hstate, hcurrent⟩ := he
  exact ⟨waitingTask.final, _, s₁, o, s, o',
    waitingTask.reach (.of_forall _ fun _ _ _ => trivial), by decide +kernel, by decide +kernel, hs,
    .of_exec .init (of_decide_eq_true hok) hexec, hstate, hcurrent⟩

end TamgaOs
