import TamgaOs.Machine.Orderly
import TamgaOs.Machine.Split

/-!
# Wait lists stay well formed

All wait lists share the link field of the control block. They stay disjoint lists without cycles
as long as no task is made ready while it is linked; `sched_task_resume` does not look.

## Main definitions

* `Machine.WaitListsWellFormed`.

## Main results

* `waitLists_wellFormed`: every orderly run with whole ticks keeps the wait lists well formed.
* `resume_breaks_waitList`: resuming a taker that was paused while it waited makes its list a
  cycle.
-/

namespace TamgaOs

/-- Every wait list ends, no task is linked twice, and a linked task is suspended in the call that
has linked it: it is blocked or paused, and it is not the context that executes next. -/
def Machine.WaitListsWellFormed (m : Machine) : Prop :=
  ∃ L : WaitList → List TaskPtr,
    (∀ l, m.kernel.Waiters l (L l) ∧ (L l).Nodup) ∧
    (∀ l l' t, t ∈ L l → t ∈ L l' → l = l') ∧
    ∀ l t, t ∈ L l → (m.ctl (.thread t)).waitsOn = some l ∧
      ((m.kernel.tcb t).state = .blocked ∨ (m.kernel.tcb t).state = .paused) ∧
      m.active ≠ some (.thread t)

theorem Sound.wellFormed {m : Machine} {L : WaitList → List TaskPtr} (h : Sound m L) :
    m.WaitListsWellFormed := by
  refine ⟨L, fun l => ⟨h.coherent.waiters l, (h.coherent.waiters l).nodup⟩,
    fun l l' t ht ht' => h.coherent.eq_of_mem ht ht', fun l t ht => ?_⟩
  obtain ⟨hs, hw⟩ := h.coherent.linked l t ht
  refine ⟨hw, hs.state, fun hact => ?_⟩
  obtain ⟨-, hp, hcur⟩ := Machine.active_thread hact
  rw [hs.current hcur] at hp
  cases hp

/-- Along every orderly run the wait lists are well formed. -/
theorem Machine.waitListsWellFormed_of_reach {cfg : Config} {m : Machine} {out : List Obs}
    (h : Run.Reach Machine.step Machine.Orderly (Machine.start cfg) m out) :
    m.WaitListsWellFormed := by
  obtain ⟨L, hs⟩ := Machine.sound_of_reach (fun _ _ => id) h
  exact hs.wellFormed

/-- Along every orderly run in which nothing comes between the statements of a tick the wait lists are
well formed. -/
theorem waitLists_wellFormed (cfg : Config) {s : Split} {out : List Obs}
    (h : Run.Reach Split.step (Split.Whole Machine.Orderly) (Split.start cfg) s out)
    (hs : s.ticking = false) : s.machine.WaitListsWellFormed :=
  Machine.waitListsWellFormed_of_reach (Split.reach_machine h hs)

/-- Task 0 waits for a semaphore; task 1 pauses and resumes it; the tick schedules it, and it
links itself again. -/
def resumeLinked : Scenario where
  config := { priorities := [1, 2], sem := fun _ => ⟨0, 1⟩ }
  actions := [.call (.semTake 0), .exec, .pendSV, .call (.schedTaskPause 0), .exec,
    .call (.schedTaskResume 0), .exec, .clock 1, .tick 1, .pendSV, .exec, .exec]
  possible := by decide +kernel

/-- The taker is then its own successor. -/
theorem resume_breaks_waitList :
    ∃ s out, Run.Reach Split.step
      (Split.Whole fun _ a => a.Within fun c => c.family ≠ some .notify)
      (Split.start resumeLinked.config) s out ∧ ¬ s.machine.WaitListsWellFormed := by
  have hrun : Run.Reach Machine.step
      (fun m a => (a.Within fun c => c.family ≠ some .notify) ∧ m.Timely a)
      (Machine.start resumeLinked.config) resumeLinked.final resumeLinked.reports :=
    resumeLinked.reach (by decide +kernel)
  obtain ⟨s, -, hm, hreach⟩ := Split.exists_of_machine hrun
  refine ⟨s, _, hreach, ?_⟩
  rw [hm]
  rintro ⟨L, hw, -, -⟩
  have hhead : resumeLinked.final.kernel.head (.sem 0) = some (.tcb 0) := by decide +kernel
  have hnext : resumeLinked.final.kernel.waitNext (.tcb 0) = some (.tcb 0) := by decide +kernel
  have hchain := (hw (.sem 0)).1
  unfold Kernel.Waiters at hchain
  rw [hhead] at hchain
  exact hchain.next_ne_self hnext

/-- Three tasks wait in two lists, one of them with a timeout that expires. -/
def timeoutInList : Scenario where
  config := { priorities := [0, 1, 2], sem := fun _ => ⟨0, 1⟩ }
  actions := [.call (.semTake 0), .exec, .pendSV, .call (.semTake 0), .exec, .pendSV,
    .call (.eventWaitTimeout ⟨0, 1, .any, false⟩ 2), .exec, .exec, .pendSV, .clock 2, .tick 2]
  possible := by decide +kernel

theorem timeoutInList_wellFormed : timeoutInList.final.WaitListsWellFormed := by
  have hsteady : Run.Reach Machine.step (fun m a => a.Within Call.Steady ∧ m.Timely a)
      (Machine.start timeoutInList.config) timeoutInList.final timeoutInList.reports :=
    timeoutInList.reach (by decide +kernel)
  have horderly := Machine.orderly_of_steady (fun _ _ h => h.1) hsteady
  obtain ⟨s, hs, hm, hreach⟩ :=
    Split.exists_of_machine (horderly.mono fun _ _ _ _ h => ⟨h.2, h.1.2⟩)
  rw [← hm]
  exact waitLists_wellFormed timeoutInList.config hreach hs

end TamgaOs
