import TamgaOs.Machine.Apart
import TamgaOs.Machine.Split
import TamgaOs.Properties.Mailbox

/-!
# Waiting for a notification without a limit

`task_notify_wait` stores `TASK_NOTIFY_WAIT_FOREVER` into `delay_ticks` like every other timeout, and
`sched_tick_n` counts it down. Ticks of 2^32 - 1 ms together end the wait. `task_notify_give` wakes its
task outside of its critical section, so that the wake-up may also come after the notification has
been consumed, and then ends the next wait of the task.

## Main definitions

* `Machine.WaitsForever m t`: the task `t` is about to block.
* `Machine.Lasts m t s a`: the action neither expires the wait nor is such a late wake-up.
* `Machine.WakesNotified m t a`: the wake-up of a give whose value has not been consumed.

## Main results

* `waitForever_iff`: as long as the steps meet the condition, the call returns 1, and a further step
  meets the condition if and only if only a give makes the task ready.
* `waitForever_ends`, `waitForever_late`: the two ways in which a wait ends without a notification.
-/

namespace TamgaOs

/-- The milliseconds that the action passes to `sched_tick_n`. -/
def Action.ms : Action → ℕ
  | .tick n => n
  | _ => 0

namespace Machine

/-- The milliseconds passed to `sched_tick_n` so far. -/
def countMs (_ : Machine) (a : Action) (_ : List Obs) (s : ℕ) : ℕ := s + a.ms

variable (m : Machine) (t : TaskPtr)

/-- The task runs `task_notify_wait` with `TASK_NOTIFY_WAIT_FOREVER` and finds no notification. -/
def WaitsForever : Prop :=
  m.active = some (.thread t) ∧
    m.ctl (.thread t) = .notify (.wait taskNotifyWaitForever) ∧
    (m.kernel.tcb t).notifyPending = false

/-- The task is in `task_notify_wait`, after `sched_block_locked`. -/
def InWait : Prop := m.ctl (.thread t) = .notify .blocked

/-- The action neither pauses nor resumes the task. -/
def OnOthers (a : Action) : Prop :=
  ∀ i, t = .tcb i → .pause i ∉ m.schedOps a ∧ .resume i ∉ m.schedOps a

/-- The action is the wake-up of `task_notify_give` to the task, and its value is still there. -/
def WakesNotified (a : Action) : Prop :=
  a = .exec ∧ (∃ x, m.active = some x ∧ m.ctl x = .notify (.wake t)) ∧
    (m.kernel.tcb t).notifyPending = true

/-- While the task is blocked, the ticks do not use up its delay, and no `task_notify_give` wakes it
after its value has been consumed. `s` ms have passed before. -/
def Lasts (s : ℕ) (a : Action) : Prop :=
  (m.kernel.tcb t).state = .blocked → s + a.ms < taskNotifyWaitForever ∧
    (a = .exec → ∀ x ∈ m.active, m.ctl x = .notify (.wake t) →
      (m.kernel.tcb t).notifyPending = true)

instance (a : Action) : ∀ t, Decidable (m.OnOthers t a)
  | .idle => .isTrue nofun
  | .tcb i =>
    decidable_of_iff (.pause i ∉ m.schedOps a ∧ .resume i ∉ m.schedOps a)
      ⟨fun h _ hi => TaskPtr.tcb.inj hi ▸ h, fun h => h i rfl⟩

instance (a : Action) (s : ℕ) : Decidable (m.Lasts t s a) := inferInstanceAs (Decidable (_ → _))

instance : Decidable (m.InWait t) := inferInstanceAs (Decidable (_ = _))

instance : Decidable (m.WaitsForever t) := inferInstanceAs (Decidable (_ ∧ _))

end Machine

/-! ### A blocked task -/

section Blocked

variable {k k' : Kernel} {t : TaskPtr} {op : SchedOp}

/-- The operation does not touch the state of the task `t` while it is blocked. -/
structure SchedOp.Spares (k : Kernel) (t : TaskPtr) (op : SchedOp) : Prop where
  wake : op ≠ .wake t
  pause : ∀ i, t = .tcb i → op ≠ .pause i ∧ op ≠ .resume i
  tick : ∀ n, op ≠ .tick n
  current : op.onOther = true ∨ k.currentTask ≠ some t

theorem SchedOp.Spares.congr (h : op.Spares k t) (hcur : k'.currentTask = k.currentTask) :
    op.Spares k' t :=
  ⟨h.wake, h.pause, h.tick, hcur ▸ h.current⟩

/-- A blocked task stays blocked. -/
theorem SchedOp.Spares.blocked (h : op.Spares k t) (ht : InTable k t) (hrun : op.run k = some k')
    (hb : (k.tcb t).state = .blocked) : (k'.tcb t).state = .blocked := by
  have hresched : ∀ {k₁ k₂ : Kernel}, Rescheduled k₁ k₂ → (k₁.tcb t).state = .blocked →
      (k₂.tcb t).state = .blocked :=
    fun hrel => (hrel.state_iff (by rintro (h | h) <;> cases h)).2
  have hother : ∀ {u : TaskPtr} {f : Task → Task}, u ≠ t →
      ((k.modifyTask u f).tcb t).state = .blocked := by
    intro u f hu
    rwa [Kernel.modifyTask_of_ne (Ne.symm hu)]
  have hcurrent : op.onOther = false → ∀ {u : TaskPtr}, k.currentTask = some u → u ≠ t := by
    rintro hno u hu rfl
    rcases h.current with he | he
    · rw [hno] at he
      cases he
    · exact he hu
  cases op with
  | tick n => exact absurd rfl (h.tick n)
  | delay ms =>
    obtain ⟨u, hu, rfl⟩ := Option.map_eq_some_iff.1 hrun
    exact hresched Kernel.rescheduled_schedCommitNext (hother (hcurrent rfl hu))
  | yield =>
    cases hrun
    unfold Kernel.yieldSection
    split
    · rename_i u hu
      exact hresched Kernel.rescheduled_schedCommitNext (hother (hcurrent rfl hu))
    · exact hb
  | block =>
    cases hrun
    exact hresched Kernel.rescheduled_schedPickAndMark hb
  | blockLocked ms =>
    obtain ⟨u, hu, rfl⟩ := Option.map_eq_some_iff.1 hrun
    rw [Kernel.schedBlockLocked, (SameTasks.triggerPendsv _).state]
    exact hresched Kernel.rescheduled_schedPickAndMark (hother (hcurrent rfl hu))
  | wake u =>
    cases hrun
    exact hresched Kernel.rescheduled_schedPickAndMark (hother fun he => h.wake (he ▸ rfl))
  | pause i =>
    cases hrun
    unfold Kernel.schedTaskPause
    split_ifs
    · exact hb
    · exact hother fun he => (h.pause i he.symm).1 rfl
  | resume i =>
    cases hrun
    unfold Kernel.schedTaskResume
    split_ifs
    · exact hb
    · exact hother fun he => (h.pause i he.symm).2 rfl
    · exact hb
  | create p =>
    cases hrun
    obtain ⟨i, hi, rfl⟩ := ht
    rw [k.tcb_createSection, if_neg]
    · exact hb
    · rintro ⟨⟩
      exact lt_irrefl _ hi
  | setPriority u p =>
    cases hrun
    rw [k.tcb_setPriority]
    exact hb
  | pendSV =>
    cases hrun
    exact hb

/-- A decision does not choose a blocked task. -/
theorem SchedOp.nextTask_ne (ht : t ≠ .idle) (hrun : op.run k = some k')
    (hn : k.nextTask ≠ some t) (hb : (k'.tcb t).state = .blocked) : k'.nextTask ≠ some t := by
  rcases SchedOp.nextTask_of_run hrun with hnext | ⟨k₁, hs⟩
  · rwa [hnext]
  · intro he
    obtain ⟨n, hn, hor⟩ := k₁.schedCommitNext_next
    obtain rfl : n = t := Option.some.inj (hn.symm.trans (hs.nextTask ▸ he))
    obtain ⟨j, -, -, hrunnable⟩ := hor.resolve_left ht
    have hstill := Kernel.rescheduled_schedCommitNext.runnable n hrunnable
    rw [← hs.state, hb] at hstill
    rcases hstill with h | h <;> cases h

/-- Operations that leave a blocked task alone. -/
theorem SchedPath.stays_blocked {ops : List SchedOp} (h : SchedPath k ops k')
    (hops : ∀ op ∈ ops, op.Spares k t) (hswitch : ∀ op ∈ ops, op ≠ .pendSV) (ht : InTable k t)
    (hb : (k.tcb t).state = .blocked) (hn : k.nextTask ≠ some t) :
    (k'.tcb t).state = .blocked ∧ k'.nextTask ≠ some t := by
  have hinv : ((k'.tcb t).state = .blocked ∧ k'.nextTask ≠ some t) ∧
      k'.currentTask = k.currentTask ∧ InTable k' t := by
    refine h.invariant (I := fun k₁ => ((k₁.tcb t).state = .blocked ∧ k₁.nextTask ≠ some t) ∧
      k₁.currentTask = k.currentTask ∧ InTable k₁ t) ⟨⟨hb, hn⟩, rfl, ht⟩ ?_ ?_
    · rintro k₁ k₂ hs ⟨⟨hb₁, hn₁⟩, hcur₁, ht₁⟩
      rw [hs.state, hs.nextTask]
      exact ⟨⟨hb₁, hn₁⟩, hs.currentTask.trans hcur₁, ht₁.mono hs.taskCount.ge⟩
    · rintro op hop k₁ k₂ ⟨⟨hb₁, hn₁⟩, hcur₁, ht₁⟩ hrun
      have hb₂ := ((hops op hop).congr hcur₁).blocked ht₁ hrun hb₁
      exact ⟨⟨hb₂, SchedOp.nextTask_ne ht₁.ne_idle hrun hn₁ hb₂⟩,
        (SchedOp.run_currentTask hrun (hswitch op hop)).trans hcur₁,
        ht₁.mono (SchedOp.taskCount_le_of_run hrun)⟩
  exact hinv.1

end Blocked

namespace Machine

variable {m m' : Machine} {t : TaskPtr} {a : Action} {o : List Obs} {s : ℕ}

/-- The task is in its call: while it is blocked, what is left of its delay and what has passed are the
delay together, and it is neither running nor about to run; when it is no longer blocked, it has been
notified. -/
structure Awaits (m : Machine) (t : TaskPtr) (s : ℕ) : Prop where
  apart : m.IdleApart
  inTable : InTable m.kernel t
  unlinked : m.Apart t
  delay : (m.kernel.tcb t).state = .blocked →
    (m.kernel.tcb t).delayTicks + s = taskNotifyWaitForever ∧ 0 < (m.kernel.tcb t).delayTicks
  next : (m.kernel.tcb t).state = .blocked → m.kernel.nextTask ≠ some t
  switch : (m.kernel.tcb t).state = .blocked → m.kernel.currentTask = some t →
    m.kernel.pendsv = true
  notified : (m.kernel.tcb t).state ≠ .blocked → (m.kernel.tcb t).notifyPending = true

/-- A blocked task does not run. -/
theorem Awaits.not_active (h : m.Awaits t s) (hb : (m.kernel.tcb t).state = .blocked) :
    m.active ≠ some (.thread t) := by
  intro hact
  obtain ⟨-, hp, hcur⟩ := Machine.active_thread hact
  rw [h.switch hb hcur] at hp
  cases hp

/-- Whoever wakes the task gives it a notification. -/
theorem Awaits.wake (h : m.Awaits t s) (hw : .wake t ∈ m.schedOps a) :
    a = .exec ∧ ∃ x, m.active = some x ∧ m.ctl x = .notify (.wake t) := by
  cases a with
  | exec =>
    simp only [Machine.schedOps] at hw
    split at hw
    · rename_i x u hact hcur
      refine ⟨rfl, x, hact, ?_⟩
      rcases Ctl.wake_of_mem_schedOps hw with hin | hpop | hc
      · exact absurd hin h.unlinked.unreached
      · exact absurd hpop (h.unlinked.unpopped x)
      · exact hc
    · cases hw
  | tick | pendSV => cases List.mem_singleton.1 hw
  | call | irq | clock => cases hw

/-- A step that neither wakes the task nor is a tick. -/
theorem Awaits.stays_blocked (h : m.Awaits t s) (hb : (m.kernel.tcb t).state = .blocked)
    (hother : m.OnOthers t a) (hs : m.step a = some (m', o)) (htick : ∀ n, a ≠ .tick n)
    (hwake : .wake t ∉ m.schedOps a) :
    (m'.kernel.tcb t).state = .blocked ∧ m'.kernel.nextTask ≠ some t := by
  have hpath := Machine.step_path hs
  have hquiet : m.schedOps a = [] → (m'.kernel.tcb t).state = .blocked ∧
      m'.kernel.nextTask ≠ some t := by
    intro hnil
    rw [hnil] at hpath
    exact hpath.stays_blocked nofun nofun h.inTable hb (h.next hb)
  cases a with
  | call | irq | clock => exact hquiet rfl
  | tick n => exact absurd rfl (htick n)
  | pendSV =>
    obtain rfl := Machine.step_pendSV hs
    exact ⟨hb, h.next hb⟩
  | exec =>
    obtain ⟨x, u, k', c', -, hact, hu, hst, -⟩ :=
      ((Machine.step_cases hs).resolve_left (by simp)).resolve_right (by simp)
    have hops : m.schedOps .exec = (m.ctl x).schedOps m.kernel u := by
      simp only [Machine.schedOps, hact, hu]
    have happ : m.ctl x ≠ .app := by
      intro he
      rw [he] at hst
      cases hst
    refine hpath.stays_blocked (fun op hop => ⟨?_, fun i hi => ⟨?_, ?_⟩, ?_, ?_⟩) ?_ h.inTable hb
      (h.next hb)
    · rintro rfl
      exact hwake hop
    · rintro rfl
      exact (hother i hi).1 hop
    · rintro rfl
      exact (hother i hi).2 hop
    · exact (Ctl.owner_of_setPriority (hops ▸ hop)).1.2
    · rcases h.apart.active hact hu happ with ⟨rfl, -⟩ | ⟨hsafe, -⟩
      · refine Or.inr fun he => h.not_active hb ?_
        rw [hact, Option.some.inj (hu.symm.trans he)]
      · exact Or.inl (Ctl.schedOps_of_isrSafe hsafe (hops ▸ hop))
    · exact fun op hop => (Ctl.owner_of_setPriority (hops ▸ hop)).1.1

/-- A tick shortens the delay, or ends the wait. -/
theorem Awaits.tick (h : m.Awaits t s) (hb : (m.kernel.tcb t).state = .blocked) {n : ℕ}
    {k' : Kernel} (hk : m.kernel.schedTickN n = some k') :
    ((k'.tcb t).state = .blocked ↔ s + n < taskNotifyWaitForever) ∧
      ((k'.tcb t).state = .blocked → (k'.tcb t).delayTicks + (s + n) = taskNotifyWaitForever ∧
        0 < (k'.tcb t).delayTicks ∧ k'.nextTask ≠ some t) := by
  obtain ⟨hdelay, hpos⟩ := h.delay hb
  have hrun : (SchedOp.tick n).run m.kernel = some k' := hk
  have hnext : (k'.tcb t).state = .blocked → k'.nextTask ≠ some t :=
    SchedOp.nextTask_ne h.inTable.ne_idle hrun (h.next hb)
  obtain ⟨i, hi, rfl⟩ := h.inTable
  obtain ⟨hd, hstate⟩ := Kernel.delay_schedTickN hk i
  rw [if_pos hi] at hd hstate
  by_cases hle : (m.kernel.tcb (.tcb i)).delayTicks ≤ n
  · have hready : (m.kernel.ticked n (.tcb i)).1 = .ready := by
      simp only [Kernel.ticked, hb, hpos, and_self, if_true, if_pos hle]
    have hnot : (k'.tcb (.tcb i)).state ≠ .blocked := by
      rw [Ne, hstate, hready]
      decide
    exact ⟨iff_of_false hnot (by omega), fun hb' => absurd hb' hnot⟩
  · have hticked : m.kernel.ticked n (.tcb i) =
        (.blocked, (m.kernel.tcb (.tcb i)).delayTicks - n) := by
      simp only [Kernel.ticked, hb, hpos, and_self, if_true, if_neg hle]
    have hblocked := hstate.2 (by rw [hticked])
    rw [hticked] at hd
    refine ⟨iff_of_true hblocked (by omega), fun _ => ⟨?_, ?_, hnext hblocked⟩⟩
    · rw [hd]
      omega
    · rw [hd]
      omega

/-- The wake-up of a give to the task. -/
theorem woken_of_wake (hs : m.step .exec = some (m', o)) {x : Ctx} (hact : m.active = some x)
    (hc : m.ctl x = .notify (.wake t)) : (m'.kernel.tcb t).state ≠ .blocked := by
  obtain ⟨y, u, k', c', -, hact', hu, hst, rfl⟩ :=
    ((Machine.step_cases hs).resolve_left (by simp)).resolve_right (by simp)
  obtain rfl : y = x := Option.some.inj (hact'.symm.trans hact)
  rw [hc] at hst
  cases hst
  have hready : (((m.kernel.modifyTask t fun y =>
      { y with waitNext := none, delayTicks := 0, state := .ready }).tcb t).state).Runnable := by
    rw [Kernel.modifyTask_self]
    exact Or.inl rfl
  have hrunnable := Kernel.rescheduled_schedPickAndMark.runnable t hready
  intro hb
  rw [kernel_resume, Kernel.wakeSection] at hb
  rw [hb] at hrunnable
  rcases hrunnable with h | h <;> cases h

/-- A step takes the task out of its wait if and only if it ends the wait or wakes the task. -/
theorem Awaits.left_iff (h : m.Awaits t s) (hb : (m.kernel.tcb t).state = .blocked)
    (hother : m.OnOthers t a) (hs : m.step a = some (m', o)) :
    (m'.kernel.tcb t).state ≠ .blocked ↔ taskNotifyWaitForever ≤ s + a.ms ∨
      a = .exec ∧ ∃ x, m.active = some x ∧ m.ctl x = .notify (.wake t) := by
  obtain ⟨hdelay, hpos⟩ := h.delay hb
  by_cases htick : ∃ n, a = .tick n
  · obtain ⟨n, rfl⟩ := htick
    obtain ⟨k', hk, he⟩ := Option.map_eq_some_iff.1 hs
    cases he
    have hiff := (h.tick hb hk).1
    simp only [Action.ms, reduceCtorEq, false_and, or_false]
    rw [Ne, hiff, not_lt]
  · have hms : a.ms = 0 := by
      cases a <;> first | rfl | exact absurd ⟨_, rfl⟩ htick
    by_cases hwake : .wake t ∈ m.schedOps a
    · obtain ⟨rfl, x, hact, hc⟩ := h.wake hwake
      exact iff_of_true (woken_of_wake hs hact hc) (Or.inr ⟨rfl, x, hact, hc⟩)
    · have hstays := (h.stays_blocked hb hother hs (fun n he => htick ⟨n, he⟩) hwake).1
      refine iff_of_false (not_not.2 hstays) ?_
      rintro (hle | ⟨rfl, x, hact, hc⟩)
      · omega
      · exact woken_of_wake hs hact hc hstays

/-- The task leaves its wait by a give only, if and only if the step meets the condition. -/
theorem Awaits.gives_iff (h : m.Awaits t s) (hother : m.OnOthers t a)
    (hs : m.step a = some (m', o)) :
    ((m.kernel.tcb t).state = .blocked → (m'.kernel.tcb t).state ≠ .blocked → m.WakesNotified t a) ↔
      m.Lasts t s a := by
  constructor
  · intro hgives hb
    have hleft := h.left_iff hb hother hs
    refine ⟨?_, fun ha x hact hc => (hgives hb (hleft.2 (Or.inr ⟨ha, x, hact, hc⟩))).2.2⟩
    by_contra hle
    obtain ⟨rfl, -, -⟩ := hgives hb (hleft.2 (Or.inl (not_lt.1 hle)))
    obtain ⟨hdelay, hpos⟩ := h.delay hb
    simp only [Action.ms] at hle
    omega
  · intro hlasts hb hout
    obtain ⟨hlt, hpending⟩ := hlasts hb
    rcases (h.left_iff hb hother hs).1 hout with hle | ⟨ha, x, hact, hc⟩
    · exact absurd hlt (not_lt.2 hle)
    · exact ⟨ha, ⟨x, hact, hc⟩, hpending ha x hact hc⟩

/-- Only a context switch changes the current task. -/
theorem currentTask_of_step (hs : m.step a = some (m', o)) (ha : a ≠ .pendSV) :
    m'.kernel.currentTask = m.kernel.currentTask := by
  refine (Machine.step_path hs).currentTask fun op hop => ?_
  cases a with
  | exec =>
    simp only [Machine.schedOps] at hop
    split at hop
    · exact (Ctl.owner_of_setPriority hop).1.1
    · cases hop
  | tick n =>
    rw [List.mem_singleton.1 hop]
    rintro ⟨⟩
  | pendSV => exact absurd rfl ha
  | call | irq | clock => cases hop

/-- The others do not block the task. -/
theorem Awaits.blocked_before (h : m.Awaits t s) (hs : m.step a = some (m', o))
    (hself : a = .exec → m.active ≠ some (.thread t))
    (hb : (m'.kernel.tcb t).state = .blocked) : (m.kernel.tcb t).state = .blocked := by
  by_cases htick : ∃ n, a = .tick n
  · obtain ⟨n, rfl⟩ := htick
    obtain ⟨k', hk, he⟩ := Option.map_eq_some_iff.1 hs
    cases he
    obtain ⟨i, hi, rfl⟩ := h.inTable
    have hstate := (Kernel.delay_schedTickN hk i).2.1 hb
    rw [if_pos hi] at hstate
    by_contra hnot
    simp only [Kernel.ticked, hnot, false_and, if_false] at hstate
  · exact (Machine.blocked_of_step h.apart hs (fun n he => htick ⟨n, he⟩) hself hb).1

/-- The steps that the task does not execute itself. -/
theorem Awaits.step (h : m.Awaits t s) (hother : m.OnOthers t a) (hlasts : m.Lasts t s a)
    (hs : m.step a = some (m', o)) (hself : a = .exec → m.active ≠ some (.thread t)) :
    m'.Awaits t (s + a.ms) := by
  have hbefore := h.blocked_before hs hself
  -- what is to be shown while the task is still blocked
  have hblocked : (m'.kernel.tcb t).state = .blocked →
      (m'.kernel.tcb t).delayTicks + (s + a.ms) = taskNotifyWaitForever ∧
        0 < (m'.kernel.tcb t).delayTicks ∧ m'.kernel.nextTask ≠ some t := by
    intro hb
    by_cases htick : ∃ n, a = .tick n
    · obtain ⟨n, rfl⟩ := htick
      obtain ⟨k', hk, he⟩ := Option.map_eq_some_iff.1 hs
      cases he
      exact (h.tick (hbefore hb) hk).2 hb
    · have hms : a.ms = 0 := by
        cases a <;> first | rfl | exact absurd ⟨_, rfl⟩ htick
      have hwake : .wake t ∉ m.schedOps a := by
        intro hw
        obtain ⟨rfl, x, hact, hc⟩ := h.wake hw
        exact woken_of_wake hs hact hc hb
      rw [hms, Nat.add_zero,
        (Machine.blocked_of_step h.apart hs (fun n he => htick ⟨n, he⟩) hself hb).2]
      obtain ⟨hdelay, hpos⟩ := h.delay (hbefore hb)
      exact ⟨hdelay, hpos,
        (h.stays_blocked (hbefore hb) hother hs (fun n he => htick ⟨n, he⟩) hwake).2⟩
  have hpending : (m.kernel.tcb t).notifyPending = true → (m'.kernel.tcb t).notifyPending = true := by
    intro hp
    by_cases hswitch : a = .pendSV
    · subst hswitch
      obtain rfl := Machine.step_pendSV hs
      exact hp
    · exact (bypasses_of_step h.apart h.inTable hs hself hswitch).pending hp
  refine ⟨h.apart.step hs, h.inTable.mono (Machine.step_path hs).taskCount_le,
    h.unlinked.step h.apart h.inTable hs hself,
    fun hb => ⟨(hblocked hb).1, (hblocked hb).2.1⟩, fun hb => (hblocked hb).2.2,
    fun hb hcur => ?_, fun hleft => hpending ?_⟩
  · by_cases hswitch : a = .pendSV
    · subst hswitch
      have hnext := h.next (hbefore hb)
      obtain rfl := Machine.step_pendSV hs
      exact absurd hcur hnext
    · rw [currentTask_of_step hs hswitch] at hcur
      exact (bypasses_of_step h.apart h.inTable hs hself hswitch).pendsv (h.switch (hbefore hb) hcur)
  · by_cases hb : (m.kernel.tcb t).state = .blocked
    · obtain ⟨hlt, hpend⟩ := hlasts hb
      rcases (h.left_iff hb hother hs).1 hleft with hle | ⟨rfl, x, hact, hc⟩
      · exact absurd hlt (not_lt.2 hle)
      · exact hpend rfl x hact hc
    · exact h.notified hb

/-- The task blocks. -/
theorem awaits_of_block (hm : m.IdleApart) (ht : InTable m.kernel t) (hw : m.WaitsForever t)
    (hapart : m.Apart t) (hs : m.step .exec = some (m', o)) :
    m'.Awaits t 0 ∧ m'.InWait t := by
  obtain ⟨hact, hc, hpending⟩ := hw
  obtain ⟨-, -, hcur⟩ := Machine.active_thread hact
  have hpos : 0 < taskNotifyWaitForever := by decide
  have hstep : m.step .exec = some (m.resume (.thread t)
      (m.kernel.notifyBlockSection t taskNotifyWaitForever) (.notify .blocked), []) := by
    simp only [Machine.step, hact, hcur, hc, ctlStep, notifyStep, hpending, Bool.false_eq_true,
      if_false, if_neg hpos.ne', Option.map_some]
  obtain ⟨rfl, -⟩ := Prod.mk.inj (Option.some.inj (hstep.symm.trans hs))
  set k₁ := m.kernel.modifyTask t fun x =>
    { x with state := .blocked, delayTicks := taskNotifyWaitForever, waitListHead := none }
    with hk₁
  have hself : k₁.tcb t = { m.kernel.tcb t with
      state := .blocked, delayTicks := taskNotifyWaitForever, waitListHead := none } :=
    Kernel.modifyTask_self _
  have hsched := Kernel.rescheduled_schedPickAndMark (k := k₁)
  have hblocked : (k₁.schedPickAndMark.tcb t).state = .blocked := by
    rw [hsched.state_iff (by rintro (h | h) <;> cases h), hself]
  have hdelay : (k₁.schedPickAndMark.tcb t).delayTicks = taskNotifyWaitForever := by
    rw [hsched.delayTicks, hself]
  refine ⟨⟨hm.step hs, ht.mono (Machine.step_path hs).taskCount_le, ⟨?_, ?_⟩,
    fun _ => ⟨hdelay, hpos.trans_eq hdelay.symm⟩, fun _ he => ?_, fun _ _ => rfl,
    fun hleft => absurd hblocked hleft⟩, ?_⟩
  · have hlinks : k₁.Closed {u | m.kernel.Reached u} :=
      m.kernel.closed_reached.modifyTask t fun _ => Or.inl rfl
    have hclosed : k₁.schedPickAndMark.Closed {u | m.kernel.Reached u} :=
      hlinks.of_rescheduled hsched
    exact fun hin => hapart.unreached (hin.mem hclosed)
  · refine hapart.unpopped_update _ ?_
    rintro ⟨⟩
  · obtain ⟨n, hn, hor⟩ := k₁.schedPickAndMark_next
    obtain rfl : n = t := Option.some.inj (hn.symm.trans he)
    obtain ⟨i, -, -, hrunnable⟩ := hor.resolve_left ht.ne_idle
    rw [hself] at hrunnable
    rcases hrunnable with h | h <;> cases h
  · exact Function.update_self ..

/-- The task runs again: it has been notified, and its call returns 1. -/
theorem Awaits.returns (h : m.Awaits t s) (hin : m.InWait t) (hact : m.active = some (.thread t)) :
    ∃ value m' o, m.step .exec = some (m', o) ∧
      m'.ctl (.thread t) = .notify (.returned (some value)) := by
  obtain ⟨-, -, hcur⟩ := Machine.active_thread hact
  have hpending := h.notified fun hb => h.not_active hb hact
  refine ⟨(m.kernel.tcb t).notifyValue, m.resume (.thread t) (m.kernel.notifyTake t)
    (.notify (.returned (some (m.kernel.tcb t).notifyValue))),
    [.notifyTaken t (m.kernel.tcb t).notifyValue], ?_, Function.update_self ..⟩
  unfold InWait at hin
  simp only [Machine.step, hact, hcur, hin, ctlStep, notifyStep, hpending, if_true, Option.map_some]

end Machine

/-- The runs with whole ticks. -/
theorem Machine.waitForever_of_reach {cfg : Config} {m₀ m₁ m : Machine} {i s : ℕ}
    {o₁ out₀ out : List Obs}
    (h₀ : Run.Reach Machine.step (fun _ _ => True) (Machine.start cfg) m₀ out₀)
    (hwait : m₀.WaitsForever (.tcb i)) (hapart : m₀.Apart (.tcb i))
    (hs : m₀.step .exec = some (m₁, o₁))
    (h : Run.Reach (Run.annotate Machine.step Machine.countMs)
      (fun p a => p.1.InWait (.tcb i) ∧ p.1.OnOthers (.tcb i) a ∧ p.1.Lasts (.tcb i) p.2 a)
      (m₁, 0) (m, s) out)
    (hin : m.InWait (.tcb i)) :
    (m.active = some (.thread (.tcb i)) → ∃ value m' o, m.step .exec = some (m', o) ∧
      m'.ctl (.thread (.tcb i)) = .notify (.returned (some value))) ∧
    ∀ a m' o, m.OnOthers (.tcb i) a → m.step a = some (m', o) →
      (((m.kernel.tcb (.tcb i)).state = .blocked → (m'.kernel.tcb (.tcb i)).state ≠ .blocked →
        m.WakesNotified (.tcb i) a) ↔ m.Lasts (.tcb i) s a) := by
  have hm₀ : m₀.IdleApart ∧ m₀.Tabled :=
    h₀.invariant (I := fun m => m.IdleApart ∧ m.Tabled)
      ⟨Machine.idleApart_start cfg, Machine.tabled_start cfg⟩
      fun _ _ _ _ hI _ hst => ⟨hI.1.step hst, hI.2.step hst⟩
  have htable : InTable m₀.kernel (.tcb i) := hm₀.2.ctl _ (by rw [hwait.2.1]; simp)
  have hawaits : m.InWait (.tcb i) → m.Awaits (.tcb i) s := by
    have hinv : (m, s).1.InWait (.tcb i) → (m, s).1.Awaits (.tcb i) (m, s).2 := by
      refine h.invariant (I := fun p => p.1.InWait (.tcb i) → p.1.Awaits (.tcb i) p.2)
        (fun _ => (Machine.awaits_of_block hm₀.1 htable hwait hapart hs).1) ?_
      rintro ⟨m, s⟩ ⟨m', s'⟩ a o hI ⟨hin, hother, hlasts⟩ hst hin'
      obtain ⟨hstep, rfl⟩ := Run.annotate_eq_some.1 hst
      refine (hI hin).step hother hlasts hstep fun ha hact => ?_
      -- the task would have returned
      subst ha
      obtain ⟨value, m₂, o₂, hstep₂, hret⟩ := (hI hin).returns hin hact
      cases hstep.symm.trans hstep₂
      rw [Machine.InWait, hret] at hin'
      cases hin'
    exact hinv
  exact ⟨(hawaits hin).returns hin, fun a m' o hother hst => (hawaits hin).gives_iff hother hst⟩

/-- A task that blocks in `task_notify_wait` with `TASK_NOTIFY_WAIT_FOREVER`, while no wait list leads to
it and no context has popped it: as long as nothing comes between the statements of a tick, every step
meets the condition and none pauses or resumes the task, its call returns 1 when it runs again; and a
further step, or a whole tick, meets the condition if and only if it leaves the task blocked or is the
wake-up of a give to the task. -/
theorem waitForever_iff (cfg : Config) {s₀ s₁ s : Split} {i ms : ℕ} {o₁ out₀ out : List Obs}
    (h₀ : Run.Reach Split.step (Split.Whole fun _ _ => True) (Split.start cfg) s₀ out₀)
    (hs₀ : s₀.ticking = false) (hwait : s₀.machine.WaitsForever (.tcb i))
    (hapart : s₀.machine.Apart (.tcb i)) (hblock : s₀.step (.kernel .exec) = some (s₁, o₁))
    (h : Run.Reach (Split.noted Machine.countMs)
      (Split.WholeNoted Machine.countMs fun p a =>
        p.1.InWait (.tcb i) ∧ p.1.OnOthers (.tcb i) a ∧ p.1.Lasts (.tcb i) p.2 a)
      (s₁, 0) (s, ms) out)
    (hs : s.ticking = false) (hin : s.machine.InWait (.tcb i)) :
    (s.machine.active = some (.thread (.tcb i)) →
      ∃ value s' o, s.step (.kernel .exec) = some (s', o) ∧
        s'.machine.ctl (.thread (.tcb i)) = .notify (.returned (some value))) ∧
    ∀ a m' o, s.machine.OnOthers (.tcb i) a → s.machine.step a = some (m', o) →
      (((s.kernel.tcb (.tcb i)).state = .blocked → (m'.kernel.tcb (.tcb i)).state ≠ .blocked →
        s.machine.WakesNotified (.tcb i) a) ↔ s.machine.Lasts (.tcb i) ms a) := by
  have hm₀ := Split.reach_machine h₀ hs₀
  obtain ⟨hstep, hhandler, hidle⟩ := Split.kernel_step hblock
  have hs₁ : s₁.ticking = false := by
    rw [Split.ticking, hhandler, hidle]
    exact hs₀
  have hm := Split.continue_noted (hm₀.step trivial hstep) hs₁ h hs
  obtain ⟨hreturns, hgives⟩ := Machine.waitForever_of_reach hm₀ hwait hapart hstep hm hin
  refine ⟨fun hact => ?_, hgives⟩
  obtain ⟨value, m', o, hst, hret⟩ := hreturns hact
  exact ⟨value, _, o, Split.step_kernel hs (by simp) hst, hret⟩

/-- Two tasks, of which the first calls `task_notify_wait` with `TASK_NOTIFY_WAIT_FOREVER`. -/
def foreverCall : Scenario where
  config := { priorities := [0, 1] }
  actions := [.call (.taskNotifyWait taskNotifyWaitForever)]
  possible := by decide +kernel

/-- No list leads to the task. -/
theorem foreverCall_apart : foreverCall.final.Apart (.tcb 0) := by
  have hapart := Machine.apart_start foreverCall.config (.tcb 0)
  exact ⟨hapart.unreached, hapart.unpopped_update _ nofun⟩

/-- What the second task does. -/
def notifyFirst : List Action :=
  [.pendSV, .tick 1, .call (.taskNotifyGive (some (.tcb 0)) 7), .exec, .exec, .exec, .pendSV]

/-- The second task notifies the first one, whose call returns 1. -/
theorem waitForever_notified :
    ∃ (s₀ s₁ : Split) (o₁ : List Obs) (s : Split) (ms : ℕ) (out : List Obs) (value : ℕ) (s' : Split)
      (o : List Obs), s₀.machine = foreverCall.final ∧
      s₀.step (.kernel .exec) = some (s₁, o₁) ∧
      Run.Reach (Split.noted Machine.countMs) (fun _ _ => True) (s₁, 0) (s, ms) out ∧ ms = 1 ∧
      s.step (.kernel .exec) = some (s', o) ∧
      s'.machine.ctl (.thread (.tcb 0)) = .notify (.returned (some value)) := by
  have hrun : ((foreverCall.final.step .exec).bind fun r =>
      (Run.exec (Run.annotate Machine.step Machine.countMs) (r.1, 0) notifyFirst).map fun r' =>
        (decide (Run.Permitted (Run.annotate Machine.step Machine.countMs)
          (fun p a => (p.1.InWait (.tcb 0) ∧ p.1.OnOthers (.tcb 0) a ∧ p.1.Lasts (.tcb 0) p.2 a) ∧
            p.1.Timely a) (r.1, 0) notifyFirst),
          decide (r'.1.1.InWait (.tcb 0)), r'.1.1.active, r'.1.2)) =
      some (true, true, some (.thread (.tcb 0)), 1) := by
    decide +kernel
  obtain ⟨⟨m₁, o₁⟩, hblock, hrun⟩ := Option.bind_eq_some_iff.1 hrun
  obtain ⟨⟨⟨m, ms⟩, out⟩, hexec, he⟩ := Option.map_eq_some_iff.1 hrun
  simp only [Prod.mk.injEq] at he
  obtain ⟨hok, hin, hactive, rfl⟩ := he
  have hcall : Run.Reach Machine.step (fun m a => True ∧ m.Timely a)
      (Machine.start foreverCall.config) foreverCall.final foreverCall.reports :=
    foreverCall.reach (by decide +kernel)
  have hwait : foreverCall.final.WaitsForever (.tcb 0) := by decide +kernel
  have hapart := foreverCall_apart
  obtain ⟨s₀, hs₀, hm₀, hreach⟩ := Split.exists_of_machine hcall
  rw [← hm₀] at hblock hcall hwait hapart
  have hblock' := Split.step_kernel hs₀ (by simp) hblock
  set s₁ : Split := { s₀ with machine := m₁ }
  have hblocked : Run.Reach Machine.step (fun m a => True ∧ m.Timely a)
      (Machine.start foreverCall.config) s₁.machine (foreverCall.reports ++ o₁) :=
    hcall.step ⟨trivial, (show Machine.Timely _ .exec from trivial)⟩ hblock
  have hcont : Run.Reach (Run.annotate Machine.step Machine.countMs)
      (fun p a => (p.1.InWait (.tcb 0) ∧ p.1.OnOthers (.tcb 0) a ∧ p.1.Lasts (.tcb 0) p.2 a) ∧
        p.1.Timely a) (m₁, 0) (m, 1) ([] ++ out) := .of_exec .init (of_decide_eq_true hok) hexec
  obtain ⟨s, hs, rfl, hnoted⟩ := Split.exists_of_continued hblocked hs₀ hcont
  obtain ⟨value, s', o, hstep, hret⟩ := (waitForever_iff foreverCall.config hreach hs₀ hwait hapart
    hblock' hnoted hs (of_decide_eq_true hin)).1 hactive
  exact ⟨s₀, s₁, o₁, s, 1, _, value, s', o, hm₀, hblock', hnoted.mono fun _ _ _ _ _ => trivial, rfl,
    hstep, hret⟩

/-- What a run shows in which the first task blocks, the second one is installed, `a` ends the wait, and
the first task returns after `as`. -/
theorem Machine.ends_of_run {m₀ : Machine} (a : Action) (as : List Action)
    (hw : m₀.WaitsForever (.tcb 0))
    (hrun : ((m₀.step .exec).bind fun r₁ => (r₁.1.step .pendSV).bind fun r₂ =>
      (r₂.1.step a).bind fun r₃ => (Run.exec Machine.step r₃.1 as).map fun r =>
        ((r₂.1.kernel.tcb (.tcb 0)).state, (r₃.1.kernel.tcb (.tcb 0)).state,
          r.1.ctl (.thread (.tcb 0)))) = some (.blocked, .running, .notify (.returned none))) :
    ∃ m₁ o₁ m₂ o₂ m₃ o₃ m o, m₀.WaitsForever (.tcb 0) ∧ m₀.step .exec = some (m₁, o₁) ∧
      m₁.step .pendSV = some (m₂, o₂) ∧ (m₂.kernel.tcb (.tcb 0)).state = .blocked ∧
      m₂.step a = some (m₃, o₃) ∧ (m₃.kernel.tcb (.tcb 0)).state = .running ∧
      Run.exec Machine.step m₃ as = some (m, o) ∧
      m.ctl (.thread (.tcb 0)) = .notify (.returned none) := by
  obtain ⟨⟨m₁, o₁⟩, hs₁, hrun⟩ := Option.bind_eq_some_iff.1 hrun
  obtain ⟨⟨m₂, o₂⟩, hs₂, hrun⟩ := Option.bind_eq_some_iff.1 hrun
  obtain ⟨⟨m₃, o₃⟩, hs₃, hrun⟩ := Option.bind_eq_some_iff.1 hrun
  obtain ⟨⟨m, o⟩, hexec, he⟩ := Option.map_eq_some_iff.1 hrun
  simp only [Prod.mk.injEq] at he
  exact ⟨m₁, o₁, m₂, o₂, m₃, o₃, m, o, hw, hs₁, hs₂, he.1, hs₃, he.2.1, hexec, he.2.2⟩

/-- A single tick of 2^32 - 1 ms makes the first task run again, and its call returns 0. -/
theorem waitForever_ends :
    ∃ m₁ o₁ m₂ o₂ m₃ o₃ m o, foreverCall.final.WaitsForever (.tcb 0) ∧
      foreverCall.final.step .exec = some (m₁, o₁) ∧ m₁.step .pendSV = some (m₂, o₂) ∧
      (m₂.kernel.tcb (.tcb 0)).state = .blocked ∧
      m₂.step (.tick 0xFFFFFFFF) = some (m₃, o₃) ∧ (m₃.kernel.tcb (.tcb 0)).state = .running ∧
      Run.exec Machine.step m₃ [.pendSV, .exec] = some (m, o) ∧
      m.ctl (.thread (.tcb 0)) = .notify (.returned none) :=
  Machine.ends_of_run (.tick 0xFFFFFFFF) [.pendSV, .exec] (by decide +kernel) (by decide +kernel)

/-- Two tasks, of which the first waits for 10 ms. The second one gives it a notification and is
preempted before the wake-up; the first one consumes the notification and waits again. -/
def lateWake : Scenario where
  config := { priorities := [0, 1] }
  actions := [.call (.taskNotifyWait 10), .exec, .pendSV,
    .call (.taskNotifyGive (some (.tcb 0)) 7), .exec, .tick 10, .pendSV, .exec,
    .call (.taskNotifyWait taskNotifyWaitForever)]
  possible := by decide +kernel

/-- The wake-up of the give ends the second wait, which returns 0. -/
theorem waitForever_late :
    ∃ m₁ o₁ m₂ o₂ m₃ o₃ m o, lateWake.final.WaitsForever (.tcb 0) ∧
      lateWake.final.step .exec = some (m₁, o₁) ∧ m₁.step .pendSV = some (m₂, o₂) ∧
      (m₂.kernel.tcb (.tcb 0)).state = .blocked ∧ m₂.step .exec = some (m₃, o₃) ∧
      (m₃.kernel.tcb (.tcb 0)).state = .running ∧
      Run.exec Machine.step m₃ [.exec, .pendSV, .exec] = some (m, o) ∧
      m.ctl (.thread (.tcb 0)) = .notify (.returned none) :=
  Machine.ends_of_run .exec [.exec, .pendSV, .exec] (by decide +kernel) (by decide +kernel)

end TamgaOs
