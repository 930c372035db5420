import TamgaOs.Machine.Idle

/-!
# Running delays and timeout marks

A task is blocked by its own call only, and from then on its delay is shortened by the tick only;
whatever makes it ready again, the delay is over. A timeout mark is set by the tick that ends a
delay, and by nothing else. This holds whatever the wait lists look like.

## Main definitions

* `Machine.Tabled`: the tasks that run or are in a call are tasks of the table.
* `Machine.waits`: the delay with which the running task blocks in an action.

## Main results

* `Machine.Tabled.step`: this is an invariant.
* `Machine.blocked_of_step`: a task that is blocked after a step of another context was blocked with
  the same delay.
* `Kernel.delay_schedTickN`: what a tick does to a delay.
* `Machine.wait_of_step`: a task that becomes blocked has blocked itself with such a delay.
* `Kernel.timedOut_schedTickN`, `Machine.timedOut_of_step`: who sets a mark.
-/

namespace TamgaOs

variable {k k' : Kernel} {t : TaskPtr} {n : ℕ}

/-! ### The tasks that run -/

/-- The current and the next task are the idle task or tasks of the table. -/
structure Kernel.Chosen (k : Kernel) : Prop where
  current : ∀ t, k.currentTask = some t → t = .idle ∨ InTable k t
  next : ∀ t, k.nextTask = some t → t = .idle ∨ InTable k t

theorem InTable.mono (ht : InTable k t) (h : k.taskCount ≤ k'.taskCount) : InTable k' t := by
  obtain ⟨i, hi, rfl⟩ := ht
  exact ⟨i, hi.trans_le h, rfl⟩

theorem Kernel.Chosen.same (h : k.Chosen) (hs : SameTasks k k') : k'.Chosen :=
  ⟨fun t ht => (h.current t (hs.currentTask ▸ ht)).imp_right fun hin => hin.mono hs.taskCount.ge,
    fun t ht => (h.next t (hs.nextTask ▸ ht)).imp_right fun hin => hin.mono hs.taskCount.ge⟩

theorem Kernel.Chosen.run {op : SchedOp} (h : k.Chosen) (hrun : op.run k = some k') :
    k'.Chosen := by
  have hle := SchedOp.taskCount_le_of_run hrun
  refine ⟨fun t ht => ?_, fun t ht => ?_⟩
  · by_cases hswitch : op = .pendSV
    · subst hswitch
      cases hrun
      exact h.next t ht
    · rw [SchedOp.run_currentTask hrun hswitch] at ht
      exact (h.current t ht).imp_right fun hin => hin.mono hle
  · rcases SchedOp.nextTask_of_run hrun with hnext | ⟨k₁, hs⟩
    · exact (h.next t (hnext ▸ ht)).imp_right fun hin => hin.mono hle
    · obtain ⟨n, hn, hin⟩ := k₁.schedCommitNext_next
      obtain rfl : n = t := Option.some.inj (hn.symm.trans (hs.nextTask ▸ ht))
      refine hin.imp_right fun ⟨i, hi, hni, _⟩ => ⟨i, ?_, hni⟩
      rw [hs.taskCount, Kernel.rescheduled_schedCommitNext.taskCount]
      exact hi

/-- The current and the next task are the idle task or of the table, and so is every task in a
call. -/
structure Machine.Tabled (m : Machine) : Prop where
  chosen : m.kernel.Chosen
  ctl : ∀ t, m.ctl (.thread t) ≠ .app → InTable m.kernel t

theorem Machine.Tabled.step {m m' : Machine} {a : Action} {o : List Obs} (h : m.Tabled)
    (hs : m.step a = some (m', o)) : m'.Tabled := by
  have hpath := Machine.step_path hs
  have hle := hpath.taskCount_le
  refine ⟨hpath.invariant (I := Kernel.Chosen) h.chosen (fun _ _ hs hk => hk.same hs)
    fun _ _ _ _ hk hrun => hk.run hrun, fun t ht => ?_⟩
  by_cases hctl : m'.ctl (.thread t) = m.ctl (.thread t)
  · exact (h.ctl t (hctl ▸ ht)).mono hle
  · -- only the running task gets to another program point
    have hrun : m.active = some (.thread t) ∧ m.ctl (.thread t) ≠ .app ∨
        ∃ i, m.active = some (.thread (.tcb i)) ∧ t = .tcb i := by
      rcases Machine.step_cases hs with ⟨c, i, rfl, hact, -, rfl, -⟩ |
        ⟨x, u, k', c', rfl, hact, -, hst, rfl⟩ | ⟨c, rfl, -, rfl, -⟩ | ⟨rfl, -, -, rfl, -⟩ |
        ⟨n, rfl, rfl, -⟩ | ⟨n, k', rfl, -, rfl, -⟩
      · by_cases hti : t = .tcb i
        · exact Or.inr ⟨i, hact, hti⟩
        · exact (hctl (Function.update_of_ne (by simpa using hti) ..)).elim
      · by_cases htx : Ctx.thread t = x
        · subst htx
          refine Or.inl ⟨hact, fun he => ?_⟩
          rw [he] at hst
          cases hst
        · exact (hctl (Function.update_of_ne htx ..)).elim
      · exact (hctl (Machine.update_isr m.ctl m.depth c.entry t)).elim
      · exact absurd rfl hctl
      · exact absurd rfl hctl
      · exact absurd rfl hctl
    rcases hrun with ⟨-, happ⟩ | ⟨i, hact, rfl⟩
    · exact (h.ctl t happ).mono hle
    · obtain ⟨-, -, hcur⟩ := Machine.active_thread hact
      exact ((h.chosen.current _ hcur).resolve_left (by simp)).mono hle

theorem Machine.tabled_start (cfg : Config) : (Machine.start cfg).Tabled := by
  have hn : ∀ t, some cfg.created.schedSelectNext = some t →
      t = .idle ∨ InTable (Machine.start cfg).kernel t := by
    rintro t ht
    cases ht
    exact cfg.created.schedSelectNext_spec.imp_right fun ⟨i, hi, he, _⟩ => ⟨i, hi, he⟩
  exact ⟨⟨hn, hn⟩, fun t ht => absurd rfl ht⟩

/-! ### Delays -/

/-- A scheduling decision leaves the blocked tasks and all delays alone. -/
theorem Rescheduled.blocked (h : Rescheduled k k') (hb : (k'.tcb t).state = .blocked) :
    (k.tcb t).state = .blocked ∧ (k'.tcb t).delayTicks = (k.tcb t).delayTicks :=
  ⟨(h.state_iff (by rintro (h | h) <;> cases h)).1 hb, h.delayTicks t⟩

/-- An operation that is no tick, and by which the task does not block itself. -/
theorem SchedOp.blocked_of_run {op : SchedOp} (hop : ∀ n, op ≠ .tick n)
    (hcur : op.onOther = true ∨ k.currentTask ≠ some t) (h : op.run k = some k')
    (hb : (k'.tcb t).state = .blocked) :
    (k.tcb t).state = .blocked ∧ (k'.tcb t).delayTicks = (k.tcb t).delayTicks := by
  have hother : op.onOther = false → ∀ {u : TaskPtr}, k.currentTask = some u → t ≠ u := by
    rintro hno u hu rfl
    rcases hcur with he | hne
    · rw [hno] at he
      cases he
    · exact hne hu
  -- a store to the state and the delay of one task, and then a decision
  have hset : ∀ {u : TaskPtr} {f : Task → Task} {k₂ : Kernel},
      (t = u → (f (k.tcb u)).state ≠ .blocked) → Rescheduled (k.modifyTask u f) k₂ →
      (k₂.tcb t).state = .blocked →
      (k.tcb t).state = .blocked ∧ (k₂.tcb t).delayTicks = (k.tcb t).delayTicks := by
    intro u f k₂ hf hr hb
    obtain ⟨hs, hd⟩ := hr.blocked hb
    by_cases hu : t = u
    · subst hu
      rw [Kernel.modifyTask_self] at hs
      exact absurd hs (hf rfl)
    · rw [Kernel.modifyTask_of_ne hu] at hs hd
      exact ⟨hs, hd⟩
  cases op with
  | tick n => exact absurd rfl (hop n)
  | delay ms =>
    obtain ⟨u, hu, rfl⟩ := Option.map_eq_some_iff.1 h
    exact hset (fun he => absurd he (hother rfl hu)) Kernel.rescheduled_schedCommitNext hb
  | yield =>
    cases h
    unfold Kernel.yieldSection at hb ⊢
    split at hb
    · exact hset (fun _ => by simp) Kernel.rescheduled_schedCommitNext hb
    · exact ⟨hb, rfl⟩
  | block =>
    cases h
    exact Kernel.rescheduled_schedPickAndMark.blocked hb
  | blockLocked ms =>
    obtain ⟨u, hu, rfl⟩ := Option.map_eq_some_iff.1 h
    have hmark := hset (f := fun x => { x with
      state := .blocked, delayTicks := ms.getD x.delayTicks }) (fun he => absurd he (hother rfl hu))
      Kernel.rescheduled_schedPickAndMark
    exact hmark hb
  | wake u =>
    cases h
    exact hset (fun _ => by simp) Kernel.rescheduled_schedPickAndMark hb
  | pause i =>
    cases h
    unfold Kernel.schedTaskPause at hb ⊢
    split_ifs at hb ⊢
    · exact ⟨hb, rfl⟩
    · exact hset (fun _ => by simp) (.refl _) hb
  | resume i =>
    cases h
    unfold Kernel.schedTaskResume at hb ⊢
    split_ifs at hb ⊢
    · exact ⟨hb, rfl⟩
    · exact hset (fun _ => by simp) (.refl _) hb
    · exact ⟨hb, rfl⟩
  | create p =>
    cases h
    rw [k.tcb_createSection] at hb ⊢
    split_ifs at hb ⊢
    exact ⟨hb, rfl⟩
  | setPriority u p =>
    cases h
    rw [k.tcb_setPriority] at hb ⊢
    exact ⟨hb, rfl⟩
  | pendSV =>
    cases h
    exact ⟨hb, rfl⟩

/-- Operations that are no ticks, and by which the task does not block itself. -/
theorem SchedPath.blocked {ops : List SchedOp} (h : SchedPath k ops k')
    (hops : ∀ op ∈ ops, (op ≠ .pendSV ∧ ∀ n, op ≠ .tick n) ∧
      (op.onOther = true ∨ k.currentTask ≠ some t))
    (hb : (k'.tcb t).state = .blocked) :
    (k.tcb t).state = .blocked ∧ (k'.tcb t).delayTicks = (k.tcb t).delayTicks := by
  have hinv : ((k'.tcb t).state = .blocked → (k.tcb t).state = .blocked ∧
      (k'.tcb t).delayTicks = (k.tcb t).delayTicks) ∧ k'.currentTask = k.currentTask := by
    refine h.invariant (I := fun k₁ => ((k₁.tcb t).state = .blocked → (k.tcb t).state = .blocked ∧
      (k₁.tcb t).delayTicks = (k.tcb t).delayTicks) ∧ k₁.currentTask = k.currentTask)
      ⟨fun hb => ⟨hb, rfl⟩, rfl⟩ ?_ ?_
    · rintro k₁ k₂ hs ⟨hk, hcur⟩
      rw [hs.state, hs.delayTicks]
      exact ⟨hk, hs.currentTask.trans hcur⟩
    · rintro op hop k₁ k₂ ⟨hk, hcur⟩ hrun
      obtain ⟨⟨hpend, htick⟩, hwho⟩ := hops op hop
      rw [← hcur] at hwho
      refine ⟨fun hb => ?_, (SchedOp.run_currentTask hrun hpend).trans hcur⟩
      obtain ⟨hs, hd⟩ := SchedOp.blocked_of_run htick hwho hrun hb
      rw [hd]
      exact hk hs
  exact hinv.1 hb

namespace Machine

variable {m m' : Machine} {a : Action} {o : List Obs}

/-- A task that is blocked after a step that is no tick, and that it has not executed itself, was
blocked with the same delay. -/
theorem blocked_of_step (hm : m.IdleApart) (hs : m.step a = some (m', o)) (ha : ∀ n, a ≠ .tick n)
    (hself : a = .exec → m.active ≠ some (.thread t))
    (hb : (m'.kernel.tcb t).state = .blocked) : (m.kernel.tcb t).state = .blocked ∧
      (m'.kernel.tcb t).delayTicks = (m.kernel.tcb t).delayTicks := by
  rcases Machine.step_cases hs with ⟨c, i, rfl, -, -, rfl, -⟩ |
    ⟨x, u, k', c', rfl, hact, hu, hst, rfl⟩ | ⟨c, rfl, -, rfl, -⟩ | ⟨rfl, -, -, rfl, -⟩ |
    ⟨n, rfl, rfl, -⟩ | ⟨n, k', rfl, -, rfl, -⟩
  · exact ⟨hb, rfl⟩
  · have happ : m.ctl x ≠ .app := by
      intro he
      rw [he] at hst
      cases hst
    refine (ctlStep_path hu hst).blocked (fun op hop => ⟨(Ctl.owner_of_setPriority hop).1, ?_⟩) hb
    rcases hm.active hact hu happ with ⟨rfl, -⟩ | ⟨hsafe, -⟩
    · refine Or.inr fun he => hself rfl ?_
      obtain rfl : u = t := Option.some.inj (hu.symm.trans he)
      exact hact
    · exact Or.inl (Ctl.schedOps_of_isrSafe hsafe hop)
  · exact ⟨hb, rfl⟩
  · exact ⟨hb, rfl⟩
  · exact ⟨hb, rfl⟩
  · exact absurd rfl (ha n)

end Machine

/-- The delay of a task after a tick, and whether it is blocked. -/
theorem Kernel.delay_schedTickN (h : k.schedTickN n = some k') (i : ℕ) :
    (k'.tcb (.tcb i)).delayTicks =
      (if i < k.taskCount then (k.ticked n (.tcb i)).2 else (k.tcb (.tcb i)).delayTicks) ∧
    ((k'.tcb (.tcb i)).state = .blocked ↔
      (if i < k.taskCount then (k.ticked n (.tcb i)).1 else (k.tcb (.tcb i)).state) = .blocked) := by
  obtain ⟨k₁, honly, rfl⟩ := Kernel.schedTickN_only h
  have hcommit := Kernel.rescheduled_schedPickAndMark (k := k₁)
  have htcb : (k₁.schedPickAndMark.triggerIfSwitch).tcb = k₁.schedPickAndMark.tcb := by
    unfold Kernel.triggerIfSwitch
    split_ifs <;> rfl
  have hmem : (∃ j ∈ List.range k.taskCount, TaskPtr.tcb i = .tcb j) ↔ i < k.taskCount := by
    simp
  have htask := honly.task (.tcb i)
  simp only [hmem] at htask
  rw [htcb, hcommit.delayTicks, hcommit.state_iff (by rintro (h | h) <;> cases h)]
  split_ifs at htask ⊢
  · rw [← htask]
    exact ⟨rfl, Iff.rfl⟩
  · exact ⟨(Prod.mk.inj htask).2, by rw [(Prod.mk.inj htask).1]⟩

/-! ### The begin of a delay -/

/-- The delay with which an operation blocks the current task, when `x` is what its control block
holds. -/
def SchedOp.wait (x : ℕ) : SchedOp → Option ℕ
  | delay ms => some ms
  | blockLocked ms => some (ms.getD x)
  | _ => none

/-- The delay with which the running task blocks in an action. -/
def Machine.waits (m : Machine) (a : Action) : List ℕ :=
  match m.kernel.currentTask with
  | some t => (m.schedOps a).filterMap (SchedOp.wait (m.kernel.tcb t).delayTicks)
  | none => []

/-- An operation by which the current task may block itself. -/
theorem SchedOp.wait_of_run {op : SchedOp} (hop : op ≠ .pendSV ∧ ∀ n, op ≠ .tick n)
    (hcur : k.currentTask = some t) (h : op.run k = some k')
    (hb : (k'.tcb t).state = .blocked) :
    ((k.tcb t).state = .blocked ∧ (k'.tcb t).delayTicks = (k.tcb t).delayTicks) ∨
      op.wait (k.tcb t).delayTicks = some (k'.tcb t).delayTicks := by
  cases op with
  | delay ms =>
    obtain ⟨u, hu, rfl⟩ := Option.map_eq_some_iff.1 h
    obtain rfl : t = u := Option.some.inj (hcur.symm.trans hu)
    refine Or.inr ?_
    have hd := (Kernel.rescheduled_schedCommitNext (k := k.modifyTask t fun x =>
      { x with delayTicks := ms, state := .blocked })).delayTicks t
    rw [Kernel.modifyTask_self] at hd
    exact (congrArg some hd).symm
  | blockLocked ms =>
    obtain ⟨u, hu, rfl⟩ := Option.map_eq_some_iff.1 h
    obtain rfl : t = u := Option.some.inj (hcur.symm.trans hu)
    refine Or.inr ?_
    have hd := (Kernel.rescheduled_schedPickAndMark (k := k.markBlocked t ms)).delayTicks t
    rw [Kernel.markBlocked, Kernel.modifyTask_self] at hd
    exact (congrArg some hd).symm
  | tick n => exact absurd rfl (hop.2 n)
  | pendSV => exact absurd rfl hop.1
  | yield =>
    -- `g_current_task->state = TASK_READY` comes first
    cases h
    simp only [Kernel.yieldSection, hcur] at hb
    obtain ⟨hs, -⟩ := Kernel.rescheduled_schedCommitNext.blocked hb
    rw [Kernel.setState, Kernel.modifyTask_self] at hs
    cases hs
  | block =>
    cases h
    exact Or.inl (Kernel.rescheduled_schedPickAndMark.blocked hb)
  | wake | pause | resume => exact Or.inl (SchedOp.blocked_of_run (by simp) (Or.inl rfl) h hb)
  | create p =>
    cases h
    rw [k.tcb_createSection] at hb ⊢
    split_ifs at hb ⊢
    exact Or.inl ⟨hb, rfl⟩
  | setPriority u p =>
    cases h
    rw [k.tcb_setPriority] at hb ⊢
    exact Or.inl ⟨hb, rfl⟩

/-- In a step that blocks the current task the operations before are restorations and elevations of
a priority. -/
theorem Ctl.wait_schedOps {k : Kernel} {t : TaskPtr} (c : Ctl) (x : ℕ) :
    (∀ op ∈ c.schedOps k t, op.wait x = none) ∨ ∃ ops op, c.schedOps k t = ops ++ [op] ∧
      ∀ op' ∈ ops, ∃ u p, op' = .setPriority u p := by
  have hsingle : ∀ op : SchedOp, ∃ ops op', [op] = ops ++ [op'] ∧
      ∀ op' ∈ ops, ∃ u p, op' = SchedOp.setPriority u p := fun op => ⟨[], op, rfl, by simp⟩
  have hhead : ∀ l, ∀ op ∈ k.wakeHead l, op.wait x = none := by
    intro l op hop
    obtain ⟨w, -, rfl⟩ := List.mem_map.1 hop
    rfl
  cases c with
  | app => exact Or.inl (by simp [schedOps])
  | sem c =>
    cases c with
    | give s => exact Or.inl (hhead _)
    | take s retry =>
      simp only [schedOps, semOps]
      split_ifs
      · exact Or.inl (by simp)
      · exact Or.inr (hsingle _)
    | blocked | trytake | taken | given | trytaken => exact Or.inl (by simp [schedOps, semOps])
  | mutex c =>
    cases c with
    | block m timeout =>
      simp only [schedOps, mutexOps]
      split
      · exact Or.inl (by simp)
      · refine Or.inr ⟨_, _, rfl, fun op hop => ?_⟩
        split_ifs at hop
        · exact ⟨_, _, List.mem_singleton.1 hop⟩
        · cases hop
    | release m =>
      refine Or.inl fun op hop => ?_
      rcases List.mem_append.1 hop with hop | hop
      · split at hop
        · rw [List.mem_singleton.1 hop]
          rfl
        · cases hop
      · exact hhead _ op hop
    | enter | attempt | clock | blocked | acquired | trylock | unlock | locked
    | lockTimeoutReturned | trylocked | unlocked => exact Or.inl (by simp [schedOps, mutexOps])
  | queue c =>
    cases c with
    | loop q op deadline retry =>
      simp only [schedOps, queueOps]
      split_ifs
      · exact Or.inl (by simp)
      · split
        · exact Or.inr (hsingle _)
        · split_ifs
          · exact Or.inl (by simp)
          · exact Or.inr (hsingle _)
    | wake w timed r =>
      cases w with
      | none => exact Or.inl (by simp [schedOps, queueOps])
      | some w => exact Or.inr (hsingle _)
    | enter | blocked | attempt | trigger | finish | returned =>
      exact Or.inl (by simp [schedOps, queueOps])
  | event c =>
    cases c with
    | set e bits =>
      refine Or.inl fun op hop => ?_
      simp only [schedOps, eventOps] at hop
      split at hop
      · obtain ⟨g, -, rfl⟩ := List.mem_map.1 hop
        rfl
      · cases hop
    | loop w deadline =>
      simp only [schedOps, eventOps]
      split_ifs
      · exact Or.inl (by simp)
      · exact Or.inl (by simp)
      · exact Or.inl (by simp)
      · exact Or.inr (hsingle _)
    | clear | get | enter | blocked | done | got | returned =>
      exact Or.inl (by simp [schedOps, eventOps])
  | notify c =>
    cases c with
    | wait timeoutMs =>
      simp only [schedOps, notifyOps]
      split_ifs
      · exact Or.inl (by simp)
      · exact Or.inl (by simp)
      · exact Or.inr (hsingle _)
    | wake u => exact Or.inr (hsingle _)
    | give | trigger | blocked | given | returned => exact Or.inl (by simp [schedOps, notifyOps])
  | sched c =>
    cases c with
    | delay ms =>
      simp only [schedOps, schedCtlOps]
      split_ifs
      · exact Or.inl (by simp)
      · exact Or.inr (hsingle _)
    | yield | block | pause | resume | createSection => exact Or.inr (hsingle _)
    | delayTrigger | delayWait | trigger | create | createReturn | returned | created =>
      exact Or.inl (by simp [schedOps, schedCtlOps])

theorem SchedOp.wait_eq_none {op : SchedOp} {x : ℕ} (h : op.wait x = none) (y : ℕ) :
    op.wait y = none := by
  cases op with
  | delay | blockLocked => cases h
  | tick | yield | block | wake | pause | resume | create | setPriority | pendSV => rfl

/-- The operations of a step of a call in which the current task is blocked. -/
theorem SchedPath.wait {c : Ctl} (h : SchedPath k (c.schedOps k t) k')
    (hcur : k.currentTask = some t) (hb : (k'.tcb t).state = .blocked) :
    ((k.tcb t).state = .blocked ∧ (k'.tcb t).delayTicks = (k.tcb t).delayTicks) ∨
      ∃ op ∈ c.schedOps k t, op.wait (k.tcb t).delayTicks = some (k'.tcb t).delayTicks := by
  have hno : ∀ op ∈ c.schedOps k t, op ≠ .pendSV ∧ ∀ n, op ≠ .tick n := fun op hop =>
    (Ctl.owner_of_setPriority hop).1
  rcases c.wait_schedOps (k := k) (t := t) (k.tcb t).delayTicks with hnone | ⟨ops, op, hops, hpre⟩
  · refine Or.inl ((h.invariant (I := fun k₁ => k₁.currentTask = some t ∧
      ((k₁.tcb t).state = .blocked → (k.tcb t).state = .blocked ∧
        (k₁.tcb t).delayTicks = (k.tcb t).delayTicks)) ⟨hcur, fun hb => ⟨hb, rfl⟩⟩ ?_ ?_).2 hb)
    · rintro k₁ k₂ hs ⟨hcur, hk⟩
      rw [hs.state, hs.delayTicks]
      exact ⟨hs.currentTask.trans hcur, hk⟩
    · rintro op hop k₁ k₂ ⟨hcur, hk⟩ hrun
      refine ⟨(SchedOp.run_currentTask hrun (hno op hop).1).trans hcur, fun hb => ?_⟩
      rcases SchedOp.wait_of_run (hno op hop) hcur hrun hb with ⟨hs, hd⟩ | hw
      · rw [hd]
        exact hk hs
      · rw [SchedOp.wait_eq_none (hnone op hop)] at hw
        cases hw
  · rw [hops] at h
    obtain ⟨k₁, k₂, hpath, hrun, hs⟩ := h.last
    -- the operations before leave the task as it is
    obtain ⟨hcur₁, hs₁, hd₁⟩ := hpath.invariant (I := fun k₁ => k₁.currentTask = some t ∧
      (k₁.tcb t).state = (k.tcb t).state ∧ (k₁.tcb t).delayTicks = (k.tcb t).delayTicks)
      ⟨hcur, rfl, rfl⟩ (fun k₁ k₂ hs hk => ⟨hs.currentTask.trans hk.1, (hs.state t).trans hk.2.1,
        (hs.delayTicks t).trans hk.2.2⟩) fun op' hop' k₁ k₂ hk hrun' => by
        obtain ⟨u, p, rfl⟩ := hpre op' hop'
        cases hrun'
        rw [k₁.tcb_setPriority]
        exact hk
    have hop : op ∈ c.schedOps k t := by
      rw [hops]
      exact List.mem_append_right _ (List.mem_singleton_self op)
    rw [hs.state] at hb
    rw [hs.delayTicks, ← hs₁, ← hd₁]
    exact (SchedOp.wait_of_run (hno op hop) hcur₁ hrun hb).imp_right fun hw => ⟨op, hop, hw⟩

namespace Machine

variable {m m' : Machine} {a : Action} {o : List Obs}

/-- A task that is blocked after a step that is no tick was blocked with the same delay, or has
blocked itself. -/
theorem wait_of_step (hm : m.IdleApart) (hs : m.step a = some (m', o)) (ha : ∀ n, a ≠ .tick n)
    (hb : (m'.kernel.tcb t).state = .blocked) :
    ((m.kernel.tcb t).state = .blocked ∧
      (m'.kernel.tcb t).delayTicks = (m.kernel.tcb t).delayTicks) ∨
    (a = .exec ∧ m.active = some (.thread t) ∧ m.ctl (.thread t) ≠ .app ∧
      (m'.kernel.tcb t).delayTicks ∈ m.waits a) := by
  by_cases hself : a = .exec ∧ m.active = some (.thread t)
  · obtain ⟨rfl, hact⟩ := hself
    obtain ⟨-, -, hcur⟩ := active_thread hact
    rcases Machine.step_cases hs with ⟨_, _, he, -⟩ | ⟨x, u, k', c', -, hx, hu, hst, rfl⟩ |
      ⟨_, he, -⟩ | ⟨he, -⟩ | ⟨_, he, -⟩ | ⟨_, _, he, -⟩
    · cases he
    · obtain rfl : .thread t = x := Option.some.inj (hact.symm.trans hx)
      obtain rfl : t = u := Option.some.inj (hcur.symm.trans hu)
      have hops : m.schedOps .exec = (m.ctl (.thread t)).schedOps m.kernel t := by
        simp only [Machine.schedOps, hact, hcur]
      refine ((ctlStep_path hcur hst).wait hcur hb).imp_right ?_
      rintro ⟨op, hop, hw⟩
      refine ⟨rfl, hact, fun happ => ?_, ?_⟩
      · rw [happ] at hst
        cases hst
      · simp only [waits, hcur]
        exact List.mem_filterMap.2 ⟨op, hops ▸ hop, hw⟩
    · cases he
    · cases he
    · cases he
    · cases he
  · exact Or.inl (blocked_of_step hm hs ha (fun he hact => hself ⟨he, hact⟩) hb)

end Machine

/-! ### Marks -/

/-- The body of the loop marks the task whose delay it ends, and no other one. -/
theorem Kernel.timedOut_tickTask {i : ℕ} (hi : i < k.taskCount) (h : tickTask n k i = some k')
    (ht : (k'.tcb t).timedOut = true) :
    (k.tcb t).timedOut = true ∨ t = .tcb i ∧ k.expires n t = true := by
  unfold tickTask at h
  dsimp only at h
  split_ifs at h with hb hd
  · by_cases hti : t = .tcb i
    · exact Or.inr ⟨hti, by rw [hti]; exact expires_tcb.2 ⟨hi, hb.1, hb.2, hd⟩⟩
    · refine Or.inl ?_
      unfold expire at h
      split at h
      · obtain ⟨k₁, hrem, rfl⟩ := Option.map_eq_some_iff.1 h
        obtain ⟨S, hrel⟩ := schedWaitListRemove_relinked hrem
        rw [modifyTask_of_ne hti, hrel.tcb t] at ht
        exact ht
      · cases h
        rwa [modifyTask_of_ne hti] at ht
  · cases h
    rw [modifyTask_tcb] at ht
    split_ifs at ht with hti
    · rw [hti]
      exact Or.inl ht
    · exact Or.inl ht
  · cases h
    exact Or.inl ht

/-- A tick of `n` marks tasks whose delay it ends, and no others. -/
theorem Kernel.timedOut_schedTickN (h : k.schedTickN n = some k')
    (ht : (k'.tcb t).timedOut = true) : (k.tcb t).timedOut = true ∨ k.expires n t = true := by
  have hloop : ∀ (is : List ℕ) (k k' : Kernel), is.Nodup → (∀ i ∈ is, i < k.taskCount) →
      is.foldlM (tickTask n) k = some k' → (k'.tcb t).timedOut = true →
      (k.tcb t).timedOut = true ∨ (∃ i ∈ is, t = .tcb i) ∧ k.expires n t = true := by
    intro is
    induction is with
    | nil =>
      intro k k' _ _ h ht
      cases h
      exact Or.inl ht
    | cons i is ih =>
      intro k k' hnodup hlt h ht
      obtain ⟨hi, hnodup⟩ := List.nodup_cons.1 hnodup
      rw [List.foldlM_cons] at h
      obtain ⟨k₁, hfirst, hrest⟩ := Option.bind_eq_some_iff.1 h
      have honly := tickTask_only hfirst
      have hcount : ∀ j ∈ is, j < k₁.taskCount := fun j hj => by
        rw [honly.taskCount]
        exact hlt j (List.mem_cons_of_mem i hj)
      rcases ih k₁ k' hnodup hcount hrest ht with hmark | ⟨⟨j, hj, rfl⟩, he⟩
      · rcases timedOut_tickTask (hlt i List.mem_cons_self) hfirst hmark with hold | ⟨hti, he⟩
        · exact Or.inl hold
        · exact Or.inr ⟨⟨i, List.mem_cons_self, hti⟩, he⟩
      · -- the first pass has left the task alone
        have hne : ¬ ∃ i' ∈ [i], TaskPtr.tcb j = .tcb i' := by
          rintro ⟨i', hi', he'⟩
          cases he'
          exact hi (List.mem_singleton.1 hi' ▸ hj)
        have htask := honly.task (.tcb j)
        rw [if_neg hne] at htask
        obtain ⟨hstate, hdelay⟩ := Prod.mk.inj htask
        rw [expires_congr honly.taskCount hstate hdelay] at he
        exact Or.inr ⟨⟨j, List.mem_cons_of_mem i hj, rfl⟩, he⟩
  obtain ⟨k₁, hfold, rfl⟩ := Option.map_eq_some_iff.1 h
  have hk₁ : (k₁.tcb t).timedOut = true := by
    rw [← rescheduled_schedPickAndMark.timedOut t]
    exact (Stores.triggerIfSwitch (F := .sched) (T := ∅) _).timedOut t ht
  exact (hloop _ _ _ List.nodup_range (fun i => List.mem_range.1) hfold hk₁).imp_right And.right

/-- Only a tick marks tasks, and it marks those whose delay it ends. -/
theorem Machine.timedOut_of_step {m m' : Machine} {a : Action} {o : List Obs}
    (hs : m.step a = some (m', o)) (ht : (m'.kernel.tcb t).timedOut = true) :
    (m.kernel.tcb t).timedOut = true ∨ ∃ n, a = .tick n ∧ m.kernel.expires n t = true := by
  rcases Machine.step_cases hs with ⟨c, i, rfl, -, -, rfl, -⟩ |
    ⟨x, u, k', c', rfl, -, -, hst, rfl⟩ | ⟨c, rfl, -, rfl, -⟩ | ⟨rfl, -, -, rfl, -⟩ |
    ⟨n, rfl, rfl, -⟩ | ⟨n, k', rfl, htick, rfl, -⟩
  · exact Or.inl ht
  · obtain ⟨F, -, hstores⟩ := ctlStep_family_stores hst
    exact Or.inl (hstores.timedOut t ht)
  · exact Or.inl ht
  · exact Or.inl ht
  · exact Or.inl ht
  · exact (Kernel.timedOut_schedTickN htick ht).imp_right fun he => ⟨n, rfl, he⟩

/-! ### The counter -/

/-- The counter is a 32-bit number. -/
theorem Machine.ticks_lt_of_step {m m' : Machine} {a : Action} {o : List Obs}
    (hs : m.step a = some (m', o)) (h : m.kernel.ticks < 2 ^ 32) : m'.kernel.ticks < 2 ^ 32 := by
  rcases Machine.step_cases hs with ⟨c, i, rfl, -, -, rfl, -⟩ |
    ⟨x, u, k', c', rfl, -, -, hst, rfl⟩ | ⟨c, rfl, -, rfl, -⟩ | ⟨rfl, -, -, rfl, -⟩ |
    ⟨n, rfl, rfl, -⟩ | ⟨n, k', rfl, htick, rfl, -⟩
  · exact h
  · obtain ⟨F, -, hstores⟩ := ctlStep_family_stores hst
    exact hstores.objects.ticks.trans_lt h
  · exact h
  · exact h
  · exact Nat.mod_lt _ (by decide)
  · exact (SameObjects.schedTickN htick).ticks.trans_lt h

end TamgaOs
