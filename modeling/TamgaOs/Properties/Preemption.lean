import TamgaOs.Machine.Idle
import TamgaOs.Machine.Split

/-!
# Preemption

The task that runs next is runnable and no ready task is more urgent. Every operation that ends
with `sched_commit_next` establishes this. `sched_task_pause`, `sched_task_resume`,
`sched_task_create` and the restoration of a priority do not: each of them keeps it exactly when
the change it makes does not concern the choice.

## Main definitions

* `Kernel.NextUrgent`: the property. The idle task is passed over for a task whose priority is
  below its own.
* `SchedOp.KeepsUrgent`, `Machine.KeepsUrgent`: the change does not concern the choice.

## Main results

* `Kernel.nextUrgent_schedCommitNext`: the choice of `sched_commit_next`.
* `preemptive_iff`: along the runs with whole ticks whose steps keep the choice right it is right, and
  a step of such a run keeps it right if and only if it meets the condition.
* `resume_without_preemption`: `sched_task_resume` leaves a more urgent task waiting.
-/

namespace TamgaOs

namespace Kernel

variable {k k' : Kernel}

/-- The task that runs next is runnable and no ready task is more urgent. -/
def NextUrgent (k : Kernel) : Prop :=
  ∃ n, k.nextTask = some n ∧ (n = .idle ∨ InTable k n) ∧ (k.tcb n).state.Runnable ∧
    ∀ t, t = .idle ∨ InTable k t → (k.tcb t).state = .ready →
      (k.tcb n).priority ≤ (k.tcb t).priority ∨
        (t = .idle ∧ taskPriorityIdle < (k.tcb n).priority)

theorem NextUrgent.same (h : k.NextUrgent) (hs : SameTasks k k') : k'.NextUrgent := by
  have htable : ∀ t, InTable k' t ↔ InTable k t := fun t => by
    unfold InTable
    rw [hs.taskCount]
  obtain ⟨n, hn, hin, hrun, hall⟩ := h
  refine ⟨n, hs.nextTask.trans hn, hin.imp_right (htable n).2, by rwa [hs.state],
    fun t ht hready => ?_⟩
  rw [hs.state] at hready
  rw [hs.priority, hs.priority]
  exact hall t (ht.imp_right (htable t).1) hready

/-- The choice of `sched_commit_next`, when the idle task may run. -/
theorem nextUrgent_schedCommitNext
    (hidle : (k.schedCommitNext.tcb .idle).state.Runnable)
    (hprio : (k.schedCommitNext.tcb .idle).priority = taskPriorityIdle) :
    k.schedCommitNext.NextUrgent := by
  have hrel := rescheduled_schedCommitNext (k := k)
  have hfirst := rescheduled_releaseNext (k := k)
  have hpriority : ∀ t, (k.schedCommitNext.tcb t).priority = (k.releaseNext.tcb t).priority :=
    fun t => (hrel.priority t).trans (hfirst.priority t).symm
  -- a task that is ready after the choice was ready before it
  have hready : ∀ t, (k.schedCommitNext.tcb t).state = .ready →
      (k.releaseNext.tcb t).state = .ready := by
    intro t ht
    unfold schedCommitNext installNext at ht
    dsimp only at ht
    split_ifs at ht with hchosen
    · rw [setState, modifyTask_tcb] at ht
      split_ifs at ht
      exact ht
    · exact ht
  have hmin := fun i hi hi' => schedSelectNext_minimal (k := k.releaseNext) (i := i) hi hi'
  refine ⟨k.releaseNext.schedSelectNext, nextTask_installNext _, ?_, ?_, fun t ht htr => ?_⟩
  · rcases k.releaseNext.schedSelectNext_spec with he | ⟨i, hi, he, -⟩
    · exact Or.inl he
    · refine Or.inr ⟨i, ?_, he⟩
      rw [hrel.taskCount, ← hfirst.taskCount]
      exact hi
  · rcases k.releaseNext.schedSelectNext_spec with he | ⟨i, -, he, hs⟩
    · rw [he]
      exact hidle
    · rw [he]
      exact hrel.runnable _ ((hfirst.runnable_iff _).1 (Or.inl hs))
  · rcases ht with rfl | ⟨i, hi, rfl⟩
    · rw [hprio]
      exact (le_or_gt _ _).imp_right fun hlt => ⟨rfl, hlt⟩
    · rw [hrel.taskCount, ← hfirst.taskCount] at hi
      obtain ⟨hchosen, hother⟩ := hmin i hi (hready _ htr)
      left
      by_cases he : k.releaseNext.schedSelectNext = .idle
      · rw [he, hprio, hpriority]
        exact le_trans (by decide) (hchosen he)
      · rw [hpriority, hpriority]
        exact hother he

end Kernel

namespace SchedOp

variable {k k' : Kernel} {op : SchedOp}

/-- The operation leaves the choice of the next task right: the next task is not paused, a task
that becomes ready is not more urgent, and no changed priority upsets the order. -/
def KeepsUrgent (k : Kernel) : SchedOp → Prop
  | pause i => i < k.taskCount → k.nextTask ≠ some (.tcb i)
  | resume i => i < k.taskCount → (k.tcb (.tcb i)).state = .paused →
      ∀ n ∈ k.nextTask, (k.tcb n).priority ≤ (k.tcb (.tcb i)).priority
  | create p => ∀ n ∈ k.nextTask, (k.tcb n).priority ≤ p
  | setPriority t p => ∀ n ∈ k.nextTask, ∀ i < k.taskCount, (k.tcb (.tcb i)).state = .ready →
      (if n = t then p else (k.tcb n).priority) ≤
        if .tcb i = t then p else (k.tcb (.tcb i)).priority
  | tick _ | delay _ | yield | block | blockLocked _ | wake _ | pendSV => True

instance (k : Kernel) : DecidablePred (KeepsUrgent k)
  | pause _ => inferInstanceAs (Decidable (_ → _))
  | resume _ => inferInstanceAs (Decidable (_ → _ → _))
  | create p => inferInstanceAs (Decidable (∀ n ∈ k.nextTask, (k.tcb n).priority ≤ p))
  | setPriority t p => inferInstanceAs (Decidable (∀ n ∈ k.nextTask, ∀ i < k.taskCount,
      (k.tcb (.tcb i)).state = .ready → (if n = t then p else (k.tcb n).priority) ≤
        if .tcb i = t then p else (k.tcb (.tcb i)).priority))
  | tick _ | delay _ | yield | block | blockLocked _ | wake _ | pendSV =>
    inferInstanceAs (Decidable True)

theorem keepsUrgent_of_commits (hop : op.commits = true) : op.KeepsUrgent k := by
  cases op with
  | tick | delay | yield | block | blockLocked | wake => trivial
  | pause | resume | create | setPriority | pendSV => cases hop

theorem keepsUrgent_congr (hs : SameTasks k k') : op.KeepsUrgent k' ↔ op.KeepsUrgent k := by
  cases op <;>
    simp only [KeepsUrgent, hs.state, hs.priority, hs.taskCount, hs.nextTask]

/-- An operation without a choice of its own keeps the choice right if and only if it meets the
condition. -/
theorem nextUrgent_iff_of_run (hop : op.commits = false) (h : op.run k = some k')
    (hk : k.NextUrgent) (hidle : (k'.tcb .idle).priority = Kernel.taskPriorityIdle) :
    k'.NextUrgent ↔ op.KeepsUrgent k := by
  obtain ⟨n, hn, hin, hrun, hall⟩ := hk
  have hfall : (k'.tcb n).priority ≤ (k'.tcb .idle).priority ∨
      (TaskPtr.idle = .idle ∧ Kernel.taskPriorityIdle < (k'.tcb n).priority) := by
    rw [hidle]
    exact (le_or_gt _ _).imp_right fun hlt => ⟨rfl, hlt⟩
  cases op with
  | tick | delay | yield | block | blockLocked | wake => cases hop
  | pause i =>
    cases h
    unfold Kernel.schedTaskPause
    split_ifs with hi
    · exact ⟨fun _ hlt => absurd hlt (not_lt.2 hi), fun _ => ⟨n, hn, hin, hrun, hall⟩⟩
    · refine ⟨fun hk' _ hnext => ?_, fun hne => ?_⟩
      · obtain ⟨n', hn', -, hrun', -⟩ := hk'
        obtain rfl : TaskPtr.tcb i = n' := Option.some.inj (hnext.symm.trans hn')
        simp [Kernel.setState, TaskState.Runnable] at hrun'
      · have hni : n ≠ .tcb i := fun he => hne (not_le.1 hi) (he ▸ hn)
        refine ⟨n, hn, hin, ?_, fun t ht hready => ?_⟩
        · rw [Kernel.setState, Kernel.modifyTask_of_ne hni]
          exact hrun
        · have hti : t ≠ .tcb i := by
            rintro rfl
            simp [Kernel.setState] at hready
          rw [Kernel.setState, Kernel.modifyTask_of_ne hti] at hready ⊢
          rw [Kernel.modifyTask_of_ne hni]
          exact hall t ht hready
  | resume i =>
    cases h
    unfold Kernel.schedTaskResume
    split_ifs with hi hp
    · exact ⟨fun _ hlt => absurd hlt (not_lt.2 hi), fun _ => ⟨n, hn, hin, hrun, hall⟩⟩
    · have hni : n ≠ .tcb i := by
        rintro rfl
        rw [hp] at hrun
        rcases hrun with h | h <;> cases h
      refine ⟨fun hk' _ _ n' hn' => ?_, fun hle => ?_⟩
      · obtain rfl : n = n' := Option.some.inj (hn.symm.trans hn')
        obtain ⟨n', hn', -, -, hall'⟩ := hk'
        obtain rfl : n = n' := Option.some.inj (hn.symm.trans hn')
        have hi' := hall' (.tcb i) (Or.inr ⟨i, not_le.1 hi, rfl⟩) (by simp [Kernel.setState])
        rw [Kernel.setState, Kernel.modifyTask_of_ne hni, Kernel.modifyTask_self] at hi'
        exact hi'.resolve_right fun he => TaskPtr.noConfusion he.1
      · refine ⟨n, hn, hin, ?_, fun t ht hready => ?_⟩
        · rw [Kernel.setState, Kernel.modifyTask_of_ne hni]
          exact hrun
        · rw [Kernel.setState, Kernel.modifyTask_of_ne hni]
          by_cases hti : t = .tcb i
          · subst hti
            rw [Kernel.modifyTask_self]
            exact Or.inl (hle (not_le.1 hi) hp n hn)
          · rw [Kernel.setState, Kernel.modifyTask_of_ne hti] at hready
            rw [Kernel.modifyTask_of_ne hti]
            exact hall t ht hready
    · exact ⟨fun _ _ he => absurd he hp, fun _ => ⟨n, hn, hin, hrun, hall⟩⟩
  | create p =>
    cases h
    have hnew : n ≠ .tcb k.taskCount := by
      rintro rfl
      rcases hin with he | ⟨i, hi, he⟩
      · cases he
      · cases he
        exact lt_irrefl _ hi
    have hold : ∀ t, t ≠ .tcb k.taskCount → (k.createSection p).tcb t = k.tcb t :=
      fun t ht => (k.tcb_createSection p t).trans (if_neg ht)
    have hself : ((k.createSection p).tcb (.tcb k.taskCount)).state = .ready ∧
        ((k.createSection p).tcb (.tcb k.taskCount)).priority = p := by
      rw [k.tcb_createSection, if_pos rfl]
      exact ⟨rfl, rfl⟩
    refine ⟨fun hk' n' hn' => ?_, fun hle => ?_⟩
    · obtain rfl : n = n' := Option.some.inj (hn.symm.trans hn')
      obtain ⟨n', hn', -, -, hall'⟩ := hk'
      obtain rfl : n = n' := Option.some.inj (hn.symm.trans hn')
      have hi' := hall' _ (Or.inr ⟨k.taskCount, Nat.lt_succ_self _, rfl⟩) hself.1
      rw [hself.2, hold n hnew] at hi'
      exact hi'.resolve_right fun he => TaskPtr.noConfusion he.1
    · refine ⟨n, hn, hin.imp_right ?_, ?_, fun t ht hready => ?_⟩
      · rintro ⟨i, hi, he⟩
        exact ⟨i, Nat.lt_succ_of_lt hi, he⟩
      · rw [hold n hnew]
        exact hrun
      · by_cases htn : t = .tcb k.taskCount
        · subst htn
          rw [hself.2, hold n hnew]
          exact Or.inl (hle n hn)
        · rw [hold t htn] at hready ⊢
          rw [hold n hnew]
          refine hall t (ht.imp_right ?_) hready
          rintro ⟨i, hi, he⟩
          exact ⟨i, lt_of_le_of_ne (Nat.le_of_lt_succ hi) fun hii => htn (by rw [he, hii]), he⟩
  | setPriority t p =>
    cases h
    have hstate : ∀ u, ((k.setPriority t p).tcb u).state = (k.tcb u).state := fun u => by
      rw [Kernel.tcb_setPriority]
    have hprio : ∀ u, ((k.setPriority t p).tcb u).priority =
        if u = t then p else (k.tcb u).priority := fun u => by
      rw [Kernel.tcb_setPriority]
    refine ⟨fun hk' n' hn' i hi hready => ?_, fun hle => ?_⟩
    · obtain rfl : n = n' := Option.some.inj (hn.symm.trans hn')
      obtain ⟨n', hn', -, -, hall'⟩ := hk'
      obtain rfl : n = n' := Option.some.inj (hn.symm.trans hn')
      have hi' := hall' (.tcb i) (Or.inr ⟨i, hi, rfl⟩) ((hstate _).trans hready)
      rw [hprio, hprio] at hi'
      exact hi'.resolve_right fun he => TaskPtr.noConfusion he.1
    · refine ⟨n, hn, hin, (hstate n).symm ▸ hrun, fun u hu hready => ?_⟩
      rcases hu with rfl | ⟨i, hi, rfl⟩
      · exact hfall
      · rw [hstate] at hready
        rw [hprio, hprio]
        exact Or.inl (hle n hn i hi hready)
  | pendSV =>
    cases h
    exact ⟨fun _ => trivial, fun _ => ⟨n, hn, hin, hrun, hall⟩⟩

end SchedOp

/-- A sequence of operations keeps the choice right if and only if the last one meets the
condition. -/
theorem SchedPath.nextUrgent_iff {k k' : Kernel} {ops : List SchedOp} (h : SchedPath k ops k')
    (hseq : SchedOp.Sequence ops) (hcur : .yield ∈ ops → k.currentTask ≠ none)
    (hk : k.NextUrgent) (hidle : (k'.tcb .idle).state.Runnable)
    (hprio : (k'.tcb .idle).priority = Kernel.taskPriorityIdle) :
    k'.NextUrgent ↔ ∀ op ∈ ops.getLast?, op.KeepsUrgent k := by
  have hchosen : ∀ {k₁ : Kernel}, SameTasks k₁.schedCommitNext k' → k'.NextUrgent := by
    intro k₁ hsame
    refine (Kernel.nextUrgent_schedCommitNext ?_ ?_).same hsame
    · rwa [← hsame.state]
    · rwa [← hsame.priority]
  cases hseq with
  | nil =>
    cases h with
    | done hsame => exact ⟨fun _ => by simp, fun _ => hk.same hsame⟩
  | single op =>
    have hkeeps : (∀ op' ∈ [op].getLast?, op'.KeepsUrgent k) ↔ op.KeepsUrgent k := by simp
    rw [hkeeps]
    cases h with
    | op k₁ hsame hrun hrest =>
      cases hrest with
      | done hsame' =>
        cases hop : op.commits with
        | true =>
          have hyield : op = .yield → k₁.currentTask ≠ none := by
            rintro rfl
            rw [hsame.currentTask]
            exact hcur List.mem_cons_self
          obtain ⟨k₂, hk₂⟩ := SchedOp.commit_of_commits hop hyield hrun
          exact ⟨fun _ => SchedOp.keepsUrgent_of_commits hop, fun _ => hchosen (hk₂.trans hsame')⟩
        | false =>
          rw [hsame'.priority] at hprio
          rw [← SchedOp.keepsUrgent_congr hsame,
            ← SchedOp.nextUrgent_iff_of_run hop hrun (hk.same hsame) hprio]
          exact ⟨fun h => h.same hsame'.symm, fun h => h.same hsame'⟩
  | commit ops op hop hlead =>
    obtain ⟨k₁, k₂, hfirst, hrun, hsame⟩ := h.last
    have hyield : op = .yield → k₁.currentTask ≠ none := by
      rintro rfl
      rw [hfirst.currentTask fun op' hop' => ?_]
      · exact hcur (by simp)
      · rintro rfl
        cases hlead _ hop'
    obtain ⟨k₃, hk₃⟩ := SchedOp.commit_of_commits hop hyield hrun
    refine ⟨fun _ op' hop' => ?_, fun _ => hchosen (hk₃.trans hsame)⟩
    obtain rfl : op = op' := by simpa using hop'
    exact SchedOp.keepsUrgent_of_commits hop

namespace Machine

variable {m m' : Machine} {a : Action} {o : List Obs}

/-- The last operation of the step leaves the choice of the next task right. -/
def KeepsUrgent (m : Machine) (a : Action) : Prop :=
  ∀ op ∈ (m.schedOps a).getLast?, op.KeepsUrgent m.kernel

instance (m : Machine) (a : Action) : Decidable (m.KeepsUrgent a) :=
  inferInstanceAs (Decidable (∀ op ∈ (m.schedOps a).getLast?, op.KeepsUrgent m.kernel))

/-- A step keeps the choice right if and only if it meets the condition. -/
theorem nextUrgent_step (hm : m.IdleApart) (hk : m.kernel.NextUrgent)
    (hs : m.step a = some (m', o)) : m'.kernel.NextUrgent ↔ m.KeepsUrgent a := by
  have hm' := hm.step hs
  refine (Machine.step_path hs).nextUrgent_iff (m.sequence_schedOps a) (fun hmem => ?_) hk
    hm'.state hm'.priority
  cases a with
  | exec =>
    simp only [schedOps] at hmem
    split at hmem
    · rename_i t _ ht
      simp [ht]
    · cases hmem
  | tick | pendSV => simp [schedOps] at hmem
  | call | irq | clock => cases hmem

theorem nextUrgent_start (cfg : Config) : (start cfg).kernel.NextUrgent := by
  have hidle := idleApart_start cfg
  have hprio : ∀ t, ((start cfg).kernel.tcb t).priority = (cfg.created.tcb t).priority :=
    fun t => by
      change (cfg.created.schedStart.tcb t).priority = _
      rw [Kernel.tcb_schedStart]
  have hstate : ∀ t, ((start cfg).kernel.tcb t).state =
      if t = cfg.created.schedSelectNext then .running else (cfg.created.tcb t).state :=
    fun t => by
      change (cfg.created.schedStart.tcb t).state = _
      rw [Kernel.tcb_schedStart]
  refine ⟨cfg.created.schedSelectNext, rfl, ?_, ?_, fun t ht _ => ?_⟩
  · exact cfg.created.schedSelectNext_spec.imp_right fun ⟨i, hi, he, _⟩ => ⟨i, hi, he⟩
  · rw [hstate, if_pos rfl]
    exact Or.inr rfl
  · rcases ht with rfl | ⟨i, hi, rfl⟩
    · rw [hidle.priority]
      exact (le_or_gt _ _).imp_right fun hlt => ⟨rfl, hlt⟩
    · obtain ⟨hchosen, hother⟩ :=
        cfg.created.schedSelectNext_minimal hi (cfg.fresh_created.state (.tcb i))
      left
      by_cases he : cfg.created.schedSelectNext = .idle
      · rw [he, hidle.priority, hprio]
        exact le_trans (by decide) (hchosen he)
      · rw [hprio, hprio]
        exact hother he

end Machine

/-- Along the runs whose steps leave the choice of the next task right it is right. -/
theorem Machine.nextUrgent_of_reach {cfg : Config} {m : Machine} {out : List Obs}
    (h : Run.Reach Machine.step Machine.KeepsUrgent (Machine.start cfg) m out) :
    m.kernel.NextUrgent := by
  refine h.induct (I := fun m _ => m.kernel.NextUrgent) (Machine.nextUrgent_start cfg)
    fun m m' a out o hm hk hok hs => ?_
  exact (Machine.nextUrgent_step (Machine.idleApart_of_reach hm) hk hs).2 hok

/-- Along the runs in which nothing comes between the statements of a tick and the other steps leave
the choice of the next task right, the next task is runnable and no ready task is more urgent, the
ticks included; and a further step keeps this if and only if it leaves the choice right. -/
theorem preemptive_iff (cfg : Config) {s : Split} {out : List Obs}
    (h : Run.Reach Split.step (Split.Whole Machine.KeepsUrgent) (Split.start cfg) s out)
    (hs : s.ticking = false) :
    s.kernel.NextUrgent ∧ ∀ a s' o, s.step (.kernel a) = some (s', o) →
      (s'.kernel.NextUrgent ↔ s.machine.KeepsUrgent a) := by
  have hm := Split.reach_machine h hs
  refine ⟨Machine.nextUrgent_of_reach hm, fun a s' o hst => ?_⟩
  obtain ⟨hstep, -⟩ := Split.kernel_step hst
  exact Machine.nextUrgent_step (Machine.idleApart_of_reach hm) (Machine.nextUrgent_of_reach hm) hstep

/-- Two tasks with the priorities 1 and 0: the second one sleeps, and the first one pauses it. -/
def pausedUrgent : Scenario where
  config := { priorities := [1, 0] }
  actions := [.call (.schedDelayMs 5), .exec, .exec, .pendSV, .call (.schedTaskPause 1), .exec,
    .call (.schedTaskResume 1)]
  possible := by decide +kernel

/-- The first task resumes the second one, which is ready then, but does not run next. -/
theorem resume_without_preemption :
    ∃ s out, Run.Reach Split.step (Split.Whole fun _ _ => True) (Split.start pausedUrgent.config) s out ∧
      ¬ s.kernel.NextUrgent := by
  have hlast : ((pausedUrgent.final.step .exec).map fun r => (r.1.kernel.nextTask,
      r.1.kernel.taskCount, (r.1.kernel.tcb (.tcb 0)).priority, (r.1.kernel.tcb (.tcb 1)).priority,
      (r.1.kernel.tcb (.tcb 1)).state)) = some (some (.tcb 0), 2, 1, 0, .ready) := by
    decide +kernel
  obtain ⟨⟨m, o⟩, hs, he⟩ := Option.map_eq_some_iff.1 hlast
  simp only [Prod.mk.injEq] at he
  obtain ⟨hnext, hcount, hfirst, hsecond, hready⟩ := he
  have hreach : Run.Reach Machine.step (fun m a => True ∧ m.Timely a)
      (Machine.start pausedUrgent.config) pausedUrgent.final pausedUrgent.reports :=
    pausedUrgent.reach (by decide +kernel)
  obtain ⟨s, -, rfl, hsplit⟩ :=
    Split.exists_of_machine (hreach.step ⟨trivial, (show Machine.Timely _ .exec from trivial)⟩ hs)
  refine ⟨s, _, hsplit, ?_⟩
  rintro ⟨n, hn, -, -, hall⟩
  obtain rfl : TaskPtr.tcb 0 = n := Option.some.inj (hnext.symm.trans hn)
  have hle := hall (.tcb 1) (Or.inr ⟨1, hcount.symm ▸ Nat.one_lt_two, rfl⟩) hready
  rw [hfirst, hsecond] at hle
  simp at hle

/-- Up to there the choice has been right. -/
theorem pausedUrgent_preemptive : ∃ s out,
    Run.Reach Split.step (Split.Whole Machine.KeepsUrgent) (Split.start pausedUrgent.config) s out ∧
      s.machine = pausedUrgent.final ∧ s.kernel.NextUrgent ∧
      ∀ a s' o, s.step (.kernel a) = some (s', o) →
        (s'.kernel.NextUrgent ↔ s.machine.KeepsUrgent a) := by
  have hkeeps : Run.Reach Machine.step (fun m a => m.KeepsUrgent a ∧ m.Timely a)
      (Machine.start pausedUrgent.config) pausedUrgent.final pausedUrgent.reports :=
    pausedUrgent.reach (by decide +kernel)
  obtain ⟨s, hs, hm, hreach⟩ := Split.exists_of_machine hkeeps
  exact ⟨s, _, hreach, hm, preemptive_iff pausedUrgent.config hreach hs⟩

end TamgaOs
