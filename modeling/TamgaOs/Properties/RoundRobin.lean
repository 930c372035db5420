import TamgaOs.Properties.Selection

/-!
# Round robin

Every decision starts its search behind the task that runs. Between two decisions the other tasks may
change in any way: a task that stays ready, and than which no ready task is more urgent, gets its turn.

## Main definitions

* `Kernel.decide`: `sched_commit_next`, and the context switch.
* `Rotation`, `Kernel.rotate`: decisions, with changes of the tasks between them.
* `Kernel.Eligible`: the task is ready, and no ready task is more urgent.

## Main results

* `Kernel.Eligible.decide`: one decision.
* `roundRobin_starves_nobody`: all runs.
-/

namespace TamgaOs

/-- What happens to the scheduler. -/
inductive Rotation
  /-- The tasks change. -/
  | change (tcb : TaskPtr → Task)
  /-- `sched_commit_next`, and PendSV. -/
  | decide

namespace Kernel

variable (k : Kernel)

/-- A scheduling decision with its context switch. -/
def decide : Kernel := k.schedCommitNext.pendSV

/-- The kernel after a step, and the task that has been chosen. -/
def rotate (k : Kernel) : Rotation → Option (Kernel × List TaskPtr)
  | .change tcb => some ({ k with tcb := tcb }, [])
  | .decide => some (k.decide, [k.releaseNext.schedSelectNext])

/-- The task at the index `i` is ready when `sched_select_next` reads the table, and no ready task is
more urgent. -/
structure Eligible (i : ℕ) : Prop where
  lt : i < k.taskCount
  ready : k.releaseNext.Ready i
  priority : (k.tcb (.tcb i)).priority < 0xFF
  urgent : ∀ j < k.taskCount, k.releaseNext.Ready j →
    (k.tcb (.tcb i)).priority ≤ (k.tcb (.tcb j)).priority

/-- The task at the index `i` may be chosen in every decision. -/
def KeepsReady (i : ℕ) (k : Kernel) : Rotation → Prop
  | .change _ => True
  | .decide => k.Eligible i

variable {k} {i : ℕ}

theorem taskCount_decide (k : Kernel) : k.decide.taskCount = k.taskCount :=
  rescheduled_schedCommitNext.taskCount

theorem currentTask_decide (k : Kernel) :
    k.decide.currentTask = some k.releaseNext.schedSelectNext :=
  nextTask_installNext _

theorem turn_releaseNext (k : Kernel) (i : ℕ) : k.releaseNext.turn i = k.turn i := by
  have hrel := rescheduled_releaseNext (k := k)
  simp only [turn, currentIndex, hrel.currentTask, hrel.taskCount]

theorem turn_pos (h : 0 < k.taskCount) : 0 < k.turn i := by
  unfold turn
  split
  · exact Cyclic.steps_pos (currentIndex_lt h)
  · exact Nat.succ_pos i

theorem turn_le (h : i < k.taskCount) : k.turn i ≤ k.taskCount := by
  unfold turn
  split
  · exact Cyclic.steps_le h
  · exact h

/-- From a task whose turn comes earlier fewer steps are left. -/
theorem steps_lt_turn {j : ℕ} (hi : i < k.taskCount) (hj : j < k.taskCount)
    (hle : k.turn j ≤ k.turn i) (hne : j ≠ i) : Cyclic.steps k.taskCount j i < k.turn i := by
  have hstart := currentIndex_lt (k := k) (Nat.zero_lt_of_lt hi)
  unfold turn at hle ⊢
  split at hle
  · refine Cyclic.steps_lt hstart hi (hle.lt_of_ne fun he => hne ?_)
    rw [← Cyclic.add_steps_mod hstart hj, he, Cyclic.add_steps_mod hstart hi]
  · rw [Cyclic.steps, if_pos (by omega)]
    omega

/-- A decision chooses the task, or another one from which fewer steps lead to it. -/
theorem Eligible.decide (h : k.Eligible i) : ∃ j < k.taskCount,
    k.releaseNext.schedSelectNext = .tcb j ∧ (j = i ∨ k.decide.turn i < k.turn i) := by
  have hrel := rescheduled_releaseNext (k := k)
  have hcount := hrel.taskCount
  rcases k.releaseNext.schedSelectNext_cases with ⟨-, hnone⟩ | ⟨j, hj, hsel, hready, -, hmin⟩
  · have hle := hnone i (hcount ▸ h.lt) h.ready
    rw [hrel.priority] at hle
    exact absurd h.priority (not_lt.2 hle)
  · rw [hcount] at hj
    refine ⟨j, hj, hsel, ?_⟩
    by_cases hji : j = i
    · exact Or.inl hji
    · right
      have hturn : k.turn j ≤ k.turn i := by
        have hor := hmin i (hcount ▸ h.lt) h.ready
        rw [hrel.priority, hrel.priority, turn_releaseNext, turn_releaseNext] at hor
        exact (hor.resolve_left (not_lt.2 (h.urgent j hj hready))).2
      have hnow : k.decide.turn i = Cyclic.steps k.taskCount j i := by
        simp only [turn, currentIndex, currentTask_decide, hsel, taskCount_decide, if_pos hj]
      rw [hnow]
      exact steps_lt_turn h.lt hj hturn hji

/-- While the task has not been chosen, its turn has come nearer with every decision. -/
theorem turn_of_reach {k₀ : Kernel} {out : List TaskPtr} (hi : i < k₀.taskCount)
    (h : Run.Reach rotate (KeepsReady i) k₀ k out) : k.taskCount = k₀.taskCount ∧
      (.tcb i ∉ out → out.length + k.turn i ≤ k₀.taskCount) := by
  refine h.induct (I := fun k out => k.taskCount = k₀.taskCount ∧
    (.tcb i ∉ out → out.length + k.turn i ≤ k₀.taskCount)) ⟨rfl, fun _ => ?_⟩ ?_
  · rw [List.length_nil, Nat.zero_add]
    exact turn_le hi
  · rintro k k' a out o - ⟨hcount, hturn⟩ hok hst
    cases a with
    | change tcb =>
      cases hst
      rw [List.append_nil]
      exact ⟨hcount, hturn⟩
    | decide =>
      cases hst
      obtain ⟨j, -, hsel, hor⟩ := Eligible.decide hok
      refine ⟨(taskCount_decide k).trans hcount, fun hno => ?_⟩
      rw [List.mem_append, not_or] at hno
      have hji : j ≠ i := by
        rintro rfl
        exact hno.2 (by rw [hsel]; exact List.mem_singleton_self _)
      have hwas := hturn hno.1
      have hless := hor.resolve_left hji
      rw [List.length_append, List.length_singleton]
      omega

end Kernel

open Kernel in
/-- In every run in which the task at the index `i` stays ready, and no ready task is more urgent, it
is chosen within as many decisions as there are tasks. Each decision chooses a task of the table: the
task `i`, or one that is nearer to it than the one before. -/
theorem roundRobin_starves_nobody {k₀ k : Kernel} {i : ℕ} {out : List TaskPtr}
    (hi : i < k₀.taskCount) (h : Run.Reach rotate (KeepsReady i) k₀ k out) :
    (.tcb i ∉ out → out.length < k₀.taskCount) ∧
      (k.Eligible i → ∃ j < k.taskCount, k.decide.currentTask = some (.tcb j) ∧
        (j = i ∨ k.decide.turn i < k.turn i)) := by
  obtain ⟨hcount, hturn⟩ := turn_of_reach hi h
  refine ⟨fun hno => ?_, fun helig => ?_⟩
  · have hpos : 0 < k.turn i := turn_pos (Nat.zero_lt_of_lt (hcount ▸ hi))
    have hle := hturn hno
    omega
  · obtain ⟨j, hj, hsel, hor⟩ := helig.decide
    exact ⟨j, hj, by rw [currentTask_decide, hsel], hor⟩

/-- Two tasks of one priority while the idle task runs. -/
def bothReady : Kernel :=
  { ({ priorities := [1, 1] } : Config).created with
    currentTask := some .idle, nextTask := some .idle }

theorem bothReady_eligible : bothReady.Eligible 0 :=
  ⟨by decide, by decide, by decide, by decide⟩

/-- The search begins behind the index 0, which gets its turn in the second decision. -/
theorem bothReady_round : bothReady.rotate .decide = some (bothReady.decide, [.tcb 1]) ∧
    (TaskPtr.tcb 0 ∉ [TaskPtr.tcb 1] → [TaskPtr.tcb 1].length < 2) ∧
    (bothReady.decide.Eligible 0 → ∃ j < 2,
      bothReady.decide.decide.currentTask = some (.tcb j) ∧
        (j = 0 ∨ bothReady.decide.decide.turn 0 < bothReady.decide.turn 0)) := by
  have hok : Kernel.KeepsReady 0 bothReady .decide := bothReady_eligible
  have hrun : Run.Reach Kernel.rotate (Kernel.KeepsReady 0) bothReady bothReady.decide [.tcb 1] :=
    Run.Reach.init.step hok rfl
  exact ⟨rfl, roundRobin_starves_nobody (by decide) hrun⟩

end TamgaOs
