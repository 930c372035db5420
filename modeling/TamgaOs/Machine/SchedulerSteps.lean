import TamgaOs.Machine.Context

/-!
# The steps of the scheduler calls on coherent wait lists

None of these calls links or unlinks a task. `sched_task_resume` makes a paused task ready without
asking whether it is linked; the lists stay coherent when it is not.

## Main results

* `schedStep_spec`: the calls of `scheduler.c` leave the lists, the objects and the marks alone.
-/

namespace TamgaOs

variable {k k' : Kernel} {ctl : Ctx → Ctl} {W : Ctx → Option TaskPtr}
  {L : WaitList → List TaskPtr} {t : TaskPtr} {x : Ctx} {c c' : SchedCtl} {o : List Obs}

/-- The step is not a `sched_task_resume` of a paused task that is linked or still to be woken. -/
def ResumesFree (k : Kernel) (L : WaitList → List TaskPtr) (W : Ctx → Option TaskPtr)
    (c : SchedCtl) : Prop :=
  ∀ index, c = .resume index → index < k.taskCount → (k.tcb (.tcb index)).state = .paused →
    Free L W (.tcb index)

/-- A step of the executing task that leaves it outside every list; inside `sched_delay_ms` its
delay may run. -/
theorem Coherent.advanceThread (h : Coherent k ctl W L) (hx : Runs k (.thread t) t)
    (happ : ctl (.thread t) ≠ .app) {c : Ctl}
    (hd : 0 < (k.tcb t).delayTicks → c.delaying = true) :
    Coherent k (Function.update ctl (.thread t) c) W L := by
  obtain ⟨hfree, htab⟩ := h.free_of_runs hx happ
  refine h.setCtl (fun u hu => ?_) fun i hi => by cases hi
  cases hu
  exact ⟨hfree, htab, hd⟩

/-- A new task. -/
theorem Coherent.createSection (h : Coherent k ctl W L) (priority : ℕ) :
    Coherent (k.createSection priority) ctl W L := by
  have hnew : ¬ InTable k (.tcb k.taskCount) := by
    rintro ⟨i, hi, he⟩
    cases he
    exact lt_irrefl _ hi
  have happ : ctl (.thread (.tcb k.taskCount)) = .app := by
    by_contra hne
    exact hnew (h.table _ hne)
  have hfree : Free L W (.tcb k.taskCount) :=
    ⟨fun l hl => hnew (h.inTable_of_mem hl), fun x hx => hnew (h.inTable_of_waking hx)⟩
  set f : Task → Task := fun x =>
    { x with
      priority := priority, state := .ready, delayTicks := 0, waitListHead := none
      timedOut := false, notifyPending := false, notifyValue := 0 }
  have hmod := h.modifyFree hfree (f := f) fun hpos => absurd hpos (lt_irrefl 0)
  have hgrow : ∀ u, InTable k u → InTable (k.createSection priority) u := by
    rintro u ⟨i, hi, rfl⟩
    exact ⟨i, Nat.lt_succ_of_lt hi, rfl⟩
  have hsusp : ∀ u, Suspended (k.modifyTask (.tcb k.taskCount) f) u →
      Suspended (k.createSection priority) u := fun u hs => ⟨hs.state, hs.current, hs.next⟩
  exact ⟨hmod.waiters, fun l u hu => ⟨hsusp u (hmod.linked l u hu).1, (hmod.linked l u hu).2⟩,
    fun y u hu => ⟨hsusp u (hmod.waking y u hu).1, (hmod.waking y u hu).2⟩, hmod.unique,
    fun u hu => (hmod.delay u hu).imp_right fun hw => ⟨hw.timed, hw.head, hw.waits⟩,
    fun u hu => (h.current u hu).imp_right (hgrow u),
    fun u hu => (h.next u hu).imp_right (hgrow u), fun u hu => hgrow u (h.table u hu), h.isr⟩

/-- Stores that reach only the states, delays and links of tasks. -/
theorem Quiet.schedCommitNext (k : Kernel) {T : Set TaskPtr} : Quiet k k.schedCommitNext T :=
  Kernel.rescheduled_schedCommitNext.quiet.mono (Set.empty_subset T)

theorem Quiet.setState (k : Kernel) (t : TaskPtr) (s : TaskState) {T : Set TaskPtr} :
    Quiet k (k.setState t s) T :=
  .modifyTask t rfl fun _ => rfl

theorem Quiet.untouched_self {F : Family} (h : Quiet k k' ∅) : Untouched F x k k' L L :=
  h.untouched (by simp) fun _ _ => rfl

theorem Untouched.createSection (k : Kernel) (priority : ℕ) :
    Untouched .sched x k (k.createSection priority) L L := by
  refine ⟨fun _ => rfl, fun _ => rfl, fun _ => rfl, fun _ => ⟨rfl, rfl⟩,
    fun _ h => absurd rfl h, fun h => absurd rfl h, ?_, rfl, fun u hu _ => ?_, fun _ _ => rfl⟩
  · rintro u ⟨i, hi, rfl⟩
    exact ⟨i, Nat.lt_succ_of_lt hi, rfl⟩
  · obtain ⟨i, hi, rfl⟩ := hu
    have hne : TaskPtr.tcb i ≠ .tcb k.taskCount := fun he => hi.ne (TaskPtr.tcb.inj he)
    exact congrArg Task.timedOut (Function.update_of_ne hne _ _)

/-- The calls of `scheduler.c` other than `sched_task_create` leave the objects, the marks and the
priorities alone. -/
theorem schedStep_quiet (hs : schedStep k t c = some (k', c', o))
    (hc : ∀ priority, c ≠ .createSection priority) : Quiet k k' ∅ ∧ o = [] := by
  cases c with
  | delay ms =>
    simp only [schedStep] at hs
    split_ifs at hs
    · cases hs
      exact ⟨.refl k ∅, rfl⟩
    · cases hs
      exact ⟨(Quiet.modifyTask t rfl fun _ => rfl).trans (.schedCommitNext _), rfl⟩
  | delayWait | create isNull priority =>
    simp only [schedStep] at hs
    split_ifs at hs <;> cases hs <;> exact ⟨.refl k ∅, rfl⟩
  | yield =>
    cases hs
    unfold Kernel.yieldSection
    split
    · exact ⟨(Quiet.setState ..).trans (.schedCommitNext _), rfl⟩
    · exact ⟨.refl k ∅, rfl⟩
  | block =>
    cases hs
    exact ⟨Kernel.rescheduled_schedPickAndMark.quiet, rfl⟩
  | pause index =>
    cases hs
    unfold Kernel.schedTaskPause
    split_ifs
    · exact ⟨.refl k ∅, rfl⟩
    · exact ⟨.setState .., rfl⟩
  | resume index =>
    cases hs
    unfold Kernel.schedTaskResume
    split_ifs
    · exact ⟨.refl k ∅, rfl⟩
    · exact ⟨.setState .., rfl⟩
    · exact ⟨.refl k ∅, rfl⟩
  | delayTrigger | trigger =>
    cases hs
    exact ⟨.triggerPendsv k, rfl⟩
  | createReturn =>
    cases hs
    exact ⟨.refl k ∅, rfl⟩
  | createSection priority => exact absurd rfl (hc priority)
  | returned | created i => cases hs

/-- The calls of `scheduler.c` leave the lists, the objects and the marks alone. -/
theorem schedStep_spec (h : Coherent k ctl W L) (hx : Runs k x t) (hc : ctl x = .sched c)
    (hfree : ResumesFree k L W c) (hs : schedStep k t c = some (k', c', o)) :
    Coherent k' (Function.update ctl x (.sched c')) W L ∧ Untouched .sched x k k' L L ∧
      o = [] := by
  have happ : ctl x ≠ .app := by
    rw [hc]
    exact Ctl.noConfusion
  have hthread : (Ctl.sched c).isrSafe = false → x = .thread t := by
    rw [← hc]
    exact h.thread_of_not_isrSafe hx
  have hadv : ∀ c', (Ctl.sched c).delaying = false →
      ((Ctl.sched c).isrSafe = true → (Ctl.sched c').isrSafe = true) →
      Coherent k (Function.update ctl x (.sched c')) W L := fun c' hdel hsafe =>
    h.advance hx hc (by simp) hdel hsafe
  by_cases hnew : ∃ priority, c = .createSection priority
  · obtain ⟨priority, rfl⟩ := hnew
    cases hs
    exact ⟨(hadv _ rfl fun hf => by cases hf).createSection priority, .createSection k priority,
      rfl⟩
  obtain ⟨hquiet, rfl⟩ := schedStep_quiet hs fun priority he => hnew ⟨priority, he⟩
  refine ⟨?_, hquiet.untouched_self, rfl⟩
  cases c with
  | delay ms =>
    obtain rfl := hthread rfl
    simp only [schedStep] at hs
    split_ifs at hs
    · cases hs
      exact hadv _ rfl fun hf => by cases hf
    · cases hs
      have hf := (h.free_of_runs hx happ).1
      have hco := (h.advanceThread hx happ (c := .sched .delayTrigger) fun _ => rfl).modifyFree hf
        (f := fun x => { x with delayTicks := ms, state := .blocked }) fun _ => by
          rw [Function.update_self]
          rfl
      exact hco.schedCommitNext
  | delayTrigger =>
    obtain rfl := hthread rfl
    cases hs
    exact (h.advanceThread hx happ (c := .sched .delayWait) fun _ => rfl).triggerPendsv
  | delayWait =>
    obtain rfl := hthread rfl
    simp only [schedStep] at hs
    split_ifs at hs with hd
    · cases hs
      exact h.advanceThread hx happ fun _ => rfl
    · cases hs
      exact h.advanceThread hx happ fun hpos => absurd hpos hd
  | yield =>
    obtain rfl := hthread rfl
    cases hs
    have hf := (h.free_of_runs hx happ).1
    have hd := h.delay_eq_zero hf (by rw [hc]; rfl)
    rw [Kernel.yieldSection, hx.current]
    refine Coherent.schedCommitNext ?_
    refine (hadv .trigger rfl fun hf => by cases hf).modifyFree hf fun hpos => ?_
    exact absurd (hd ▸ hpos : 0 < 0) (lt_irrefl 0)
  | block =>
    cases hs
    exact (hadv _ rfl fun hf => by cases hf).schedPickAndMark
  | trigger =>
    cases hs
    exact (hadv _ rfl fun _ => rfl).triggerPendsv
  | pause index =>
    cases hs
    have hco := hadv .returned rfl fun _ => rfl
    unfold Kernel.schedTaskPause
    split_ifs
    · exact hco
    · exact hco.pause _
  | resume index =>
    cases hs
    have hco := hadv .returned rfl fun _ => rfl
    unfold Kernel.schedTaskResume
    split_ifs with hidx hp
    · exact hco
    · have hf := hfree index rfl (not_le.1 hidx) hp
      refine hco.modifyFree hf fun hpos => ?_
      rcases hco.delay_cases hpos with ⟨-, hdel⟩ | ⟨l, hl, -⟩ | ⟨y, hy⟩
      · exact hdel
      · exact absurd hl (hf.1 l)
      · exact absurd hy (hf.2 y)
    · exact hco
  | create isNull priority =>
    obtain rfl := hthread rfl
    simp only [schedStep] at hs
    split_ifs at hs <;> cases hs <;> exact hadv _ rfl fun hf => by cases hf
  | createSection priority => exact absurd ⟨priority, rfl⟩ hnew
  | createReturn =>
    cases hs
    exact hadv _ rfl fun hf => by cases hf
  | returned | created i => cases hs

end TamgaOs
