import TamgaOs.Library.Cyclic
import TamgaOs.Machine.Step

/-!
# The choice of the next task

`sched_select_next` looks for the smallest priority first, and then for the next task of this priority
in the table.

## Main definitions

* `Kernel.currentIndex`, `Kernel.turn`: the place of a task in the order of the choice.
* `Kernel.Picks`: a choice that follows the states, the priorities and the turns.

## Main results

* `Kernel.schedSelectNext_cases`: the choice, for all priorities.
* `schedSelectNext_picks`: the choice is right when the ready tasks are not all of priority 0xFF.
* `schedSelectNext_misses`: a ready task of priority 0xFF, and the order without a current task.
-/

namespace TamgaOs

namespace Kernel

variable (k : Kernel)

/-- The index of `g_current_task`; the idle task counts as the index 0. -/
def currentIndex : ℕ :=
  match k.currentTask with
  | some (.tcb i) => if i < k.taskCount then i else 0
  | _ => 0

/-- The place of the task at the index `i`: in the cyclic order behind `g_current_task`, or in the
order of the table when there is no current task. -/
def turn (i : ℕ) : ℕ :=
  match k.currentTask with
  | some _ => Cyclic.steps k.taskCount k.currentIndex i
  | none => i + 1

/-- The idle task is chosen when no task of the table is ready. Otherwise a ready task is chosen of
the smallest priority, and among these the one whose turn comes first. -/
structure Picks (turn : ℕ → ℕ) (t : TaskPtr) : Prop where
  idle : t = .idle ↔ ∀ i < k.taskCount, ¬k.Ready i
  task : ∀ i, t = .tcb i → i < k.taskCount ∧ k.Ready i ∧ ∀ j < k.taskCount, k.Ready j →
    (k.tcb (.tcb i)).priority < (k.tcb (.tcb j)).priority ∨
      (k.tcb (.tcb i)).priority = (k.tcb (.tcb j)).priority ∧ turn i ≤ turn j

variable {k} {i : ℕ}

theorem currentIndex_lt (h : 0 < k.taskCount) : k.currentIndex < k.taskCount := by
  unfold currentIndex
  split
  · split_ifs with hi
    · exact hi
    · exact h
  · exact h

theorem selectStart_eq (k : Kernel) : k.selectStart = k.currentIndex := by
  unfold selectStart currentIndex
  split
  · rename_i i hi
    split_ifs with hlt
    · have hfind : (List.range k.taskCount).find? (fun j => k.currentTask = some (.tcb j)) =
          some i := by
        rw [List.find?_range_eq_some]
        refine ⟨by simp [hi], List.mem_range.2 hlt, fun j hj => ?_⟩
        have hne : i ≠ j := hj.ne'
        simp [hi, hne]
      rw [hfind]
      rfl
    · have hfind : (List.range k.taskCount).find? (fun j => k.currentTask = some (.tcb j)) =
          none := by
        rw [List.find?_eq_none]
        intro j hj
        have hne : i ≠ j := fun he => hlt (he ▸ List.mem_range.1 hj)
        simp [hi, hne]
      rw [hfind]
      rfl
  · rename_i hno
    have hfind : (List.range k.taskCount).find? (fun j => k.currentTask = some (.tcb j)) =
        none := by
      rw [List.find?_eq_none]
      intro j _
      simpa using hno j
    rw [hfind]
    rfl

/-- The choice of `sched_select_next`. -/
theorem schedSelectNext_cases (k : Kernel) :
    (k.schedSelectNext = .idle ∧ ∀ j < k.taskCount, k.Ready j → 0xFF ≤ (k.tcb (.tcb j)).priority) ∨
    ∃ i < k.taskCount, k.schedSelectNext = .tcb i ∧ k.Ready i ∧
      (k.tcb (.tcb i)).priority < 0xFF ∧ ∀ j < k.taskCount, k.Ready j →
        (k.tcb (.tcb i)).priority < (k.tcb (.tcb j)).priority ∨
          (k.tcb (.tcb i)).priority = (k.tcb (.tcb j)).priority ∧ k.turn i ≤ k.turn j := by
  unfold schedSelectNext
  rcases k.foldl_selectBest k.taskCount with ⟨hr, hnone⟩ | ⟨i, hi, hr, hready, hlt, hmin, hfirst⟩
  · rw [hr]
    exact Or.inl ⟨if_neg fun h => h.1 rfl, hnone⟩
  · right
    rw [hr]
    dsimp only
    have hpos : 0 < k.taskCount := Nat.zero_lt_of_lt hi
    have hstart := currentIndex_lt hpos
    cases hcur : k.currentTask with
    | none =>
      rw [if_neg fun h => h.2 rfl]
      refine ⟨i, hi, rfl, hready, hlt, fun j hj hrj => ?_⟩
      rcases (hmin j hj hrj).lt_or_eq with hp | hp
      · exact Or.inl hp
      · refine Or.inr ⟨hp, ?_⟩
        simp only [turn, hcur]
        refine Nat.succ_le_succ (Nat.le_of_not_lt fun hji => ?_)
        exact absurd hp (hfirst j hji hrj).ne
    | some c =>
      rw [if_pos ⟨nofun, nofun⟩, selectStart_eq]
      have hturn : ∀ j, k.turn j = Cyclic.steps k.taskCount k.currentIndex j := fun j => by
        simp only [turn, hcur]
      -- a ready task of this priority is found after the steps that lead to it
      have hfound : ∀ j < k.taskCount, k.Ready j →
          (k.tcb (.tcb i)).priority = (k.tcb (.tcb j)).priority →
          (k.tcb (.tcb ((k.currentIndex + k.turn j) % k.taskCount))).state = .ready ∧
            (k.tcb (.tcb ((k.currentIndex + k.turn j) % k.taskCount))).priority =
              (k.tcb (.tcb i)).priority := by
        intro j hj hrj hp
        rw [hturn, Cyclic.add_steps_mod hstart hj]
        exact ⟨hrj, hp.symm⟩
      split
      · rename_i l hl
        obtain ⟨hp, hmem, hbefore⟩ := List.find?_range'_eq_some.1 hl
        simp only [decide_eq_true_eq] at hp
        obtain ⟨hone, hle⟩ := List.mem_range'_1.1 hmem
        have hl' : k.turn ((k.currentIndex + l) % k.taskCount) = l := by
          rw [hturn, Cyclic.steps_add_mod hstart hone (by omega)]
        refine ⟨_, Nat.mod_lt _ hpos, rfl, hp.1, hp.2.trans_lt hlt, fun j hj hrj => ?_⟩
        rw [hp.2, hl']
        rcases (hmin j hj hrj).lt_or_eq with hlt' | he
        · exact Or.inl hlt'
        · refine Or.inr ⟨he, Nat.le_of_not_lt fun hj' => ?_⟩
          have hsteps : 1 ≤ k.turn j := by
            rw [hturn]
            exact Cyclic.steps_pos hstart
          have hno := hbefore (k.turn j) hsteps hj'
          simp [hfound j hj hrj he] at hno
      · rename_i hl
        refine ⟨i, hi, rfl, hready, hlt, fun j hj hrj => ?_⟩
        rcases (hmin j hj hrj).lt_or_eq with hlt' | he
        · exact Or.inl hlt'
        · -- nothing has been found before the start comes again
          refine Or.inr ⟨he, ?_⟩
          have hlast : k.taskCount ≤ k.turn j := by
            refine Nat.le_of_not_lt fun hj' => ?_
            have hsteps : 1 ≤ k.turn j := by
              rw [hturn]
              exact Cyclic.steps_pos hstart
            have hno := List.find?_eq_none.1 hl (k.turn j)
              (List.mem_range'_1.2 ⟨hsteps, by omega⟩)
            simp [hfound j hj hrj he] at hno
          rw [hturn i]
          exact (Cyclic.steps_le hi).trans hlast

end Kernel

/-- When some task of the table is ready and not all ready tasks have the priority 0xFF, the choice
follows the priorities and the turns; otherwise the idle task is chosen. -/
theorem schedSelectNext_picks (k : Kernel) (h : (∃ i < k.taskCount, k.Ready i) →
    ∃ i < k.taskCount, k.Ready i ∧ (k.tcb (.tcb i)).priority < 0xFF) :
    k.Picks k.turn k.schedSelectNext := by
  rcases k.schedSelectNext_cases with ⟨hidle, hnone⟩ | ⟨i, hi, htask, hready, -, hmin⟩
  · refine ⟨iff_of_true hidle fun i hi hready => ?_, fun i he => ?_⟩
    · obtain ⟨j, hj, hrj, hp⟩ := h ⟨i, hi, hready⟩
      exact absurd hp (not_lt.2 (hnone j hj hrj))
    · rw [hidle] at he
      cases he
  · refine ⟨iff_of_false (by simp [htask]) fun hno => hno i hi hready, fun j he => ?_⟩
    obtain rfl : i = j := TaskPtr.tcb.inj (htask.symm.trans he)
    exact ⟨hi, hready, hmin⟩

/-- Three tasks, of which the second one is current and ready. -/
def threeReady : Kernel :=
  { ({ priorities := [2, 1, 1] } : Config).created with currentTask := some (.tcb 1) }

theorem threeReady_picks : threeReady.schedSelectNext = .tcb 2 ∧
    threeReady.Picks threeReady.turn threeReady.schedSelectNext :=
  ⟨by decide, schedSelectNext_picks threeReady fun _ => ⟨0, by decide, by decide, by decide⟩⟩

/-- Two tasks of one priority before the first choice. -/
def beforeStart : Kernel := ({ priorities := [1, 1] } : Config).created

/-- The idle task runs, and a task of priority 0xFF is ready. -/
def lowestReady : Kernel :=
  { ({ priorities := [0xFF] } : Config).created with currentTask := some .idle }

/-- Without a current task the order begins with the index 0, and not behind it. A ready task of
priority 0xFF is not chosen. -/
theorem schedSelectNext_misses :
    ¬beforeStart.Picks (Cyclic.steps beforeStart.taskCount beforeStart.currentIndex)
      beforeStart.schedSelectNext ∧
    ¬lowestReady.Picks (Cyclic.steps lowestReady.taskCount lowestReady.currentIndex)
      lowestReady.schedSelectNext := by
  constructor
  · intro h
    obtain ⟨-, -, hmin⟩ := h.task 0 (by decide)
    exact absurd (hmin 1 (by decide) (by decide)) (by decide)
  · intro h
    exact h.idle.1 (by decide) 0 (by decide) (by decide)

end TamgaOs
