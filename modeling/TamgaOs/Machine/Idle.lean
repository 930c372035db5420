import TamgaOs.Machine.Objects
import TamgaOs.Machine.Orderly

/-!
# The idle task and the handlers

The idle task makes no call, and the handlers make only calls that never block. So the idle task
never owns a mutex and never leaves the states in which it may run.

## Main definitions

* `Machine.IdleApart`: the invariant.

## Main results

* `Ctl.isrSafe_ctlStep`: the program points of a handler.
* `Ctl.schedOps_of_isrSafe`: a handler only wakes, pauses and resumes tasks.
* `Machine.idleApart_of_reach`: the invariant holds along every run.
-/

namespace TamgaOs

variable {k k' : Kernel} {t : TaskPtr} {c c' : Ctl} {o : List Obs}

/-- The calls of a handler stay at program points of a handler. -/
theorem Ctl.isrSafe_ctlStep (hc : c.isrSafe = true) (h : ctlStep k t c = some (k', c', o)) :
    c'.isrSafe = true := by
  cases ctlStep_cases h with
  | @sem c c₁ hs =>
    cases c <;> cases hc <;> simp only [semStep] at hs <;> (try split at hs) <;> cases hs <;> rfl
  | mutex c => cases hc
  | @queue c c₁ hs =>
    cases c with
    | enter | loop | blocked => cases hc
    | attempt q op =>
      simp only [queueStep] at hs
      split_ifs at hs <;> cases hs <;> rfl
    | wake w timed r =>
      cases timed with
      | true => cases hc
      | false => cases w <;> cases hs <;> rfl
    | trigger timed r =>
      cases timed with
      | true => cases hc
      | false =>
        cases hs
        rfl
    | finish timed r =>
      cases timed with
      | true => cases hc
      | false =>
        cases hs
        rfl
    | returned r => cases hs
  | @event c c₁ hs =>
    cases c with
    | set e bits =>
      obtain ⟨⟨k₂, gs⟩, -, he⟩ := Option.map_eq_some_iff.1 hs
      cases he
      rfl
    | clear | get =>
      cases hs
      rfl
    | enter | loop | blocked => cases hc
    | done | got | returned => cases hs
  | @notify c c₁ hs =>
    cases c with
    | give u value =>
      cases u with
      | none =>
        cases hs
        rfl
      | some u =>
        simp only [notifyStep] at hs
        split at hs <;> cases hs <;> rfl
    | wake | trigger =>
      cases hs
      rfl
    | wait | blocked => cases hc
    | given | returned => cases hs
  | @sched c c₁ hs =>
    cases c <;> cases hc <;> cases hs <;> rfl

/-- The operations that act on another task than the current one. -/
def SchedOp.onOther : SchedOp → Bool
  | .wake _ | .pause _ | .resume _ => true
  | _ => false

/-- The calls of a handler only wake, pause and resume tasks. -/
theorem Ctl.schedOps_of_isrSafe (hc : c.isrSafe = true) {op : SchedOp}
    (hop : op ∈ c.schedOps k t) : op.onOther = true := by
  have hhead : ∀ {l : WaitList}, op ∈ k.wakeHead l → op.onOther = true := by
    intro l hmem
    obtain ⟨w, -, rfl⟩ := List.mem_map.1 hmem
    rfl
  cases c with
  | app => cases hop
  | mutex c => cases hc
  | sem c =>
    cases c with
    | give s => exact hhead hop
    | trytake | given | trytaken => cases hop
    | take | blocked | taken => cases hc
  | queue c =>
    cases c with
    | wake w timed r =>
      cases w with
      | none => cases hop
      | some w =>
        rw [List.mem_singleton.1 hop]
        rfl
    | attempt | trigger | finish | returned => cases hop
    | enter | loop | blocked => cases hc
  | event c =>
    cases c with
    | set e bits =>
      simp only [schedOps, eventOps] at hop
      split at hop
      · obtain ⟨g, -, rfl⟩ := List.mem_map.1 hop
        rfl
      · cases hop
    | clear | get | done | got => cases hop
    | enter | loop | blocked | returned => cases hc
  | notify c =>
    cases c with
    | wake u =>
      rw [List.mem_singleton.1 hop]
      rfl
    | give | trigger | given => cases hop
    | wait | blocked | returned => cases hc
  | sched c =>
    cases c with
    | pause index | resume index =>
      rw [List.mem_singleton.1 hop]
      rfl
    | returned => cases hop
    | delay | delayTrigger | delayWait | yield | block | trigger | create | createSection
    | createReturn | created => cases hc

/-- The idle task is in no call, owns no mutex, has its own priority and may run, and the handlers
are at program points of handlers. -/
structure Machine.IdleApart (m : Machine) : Prop where
  ctl : m.ctl (.thread .idle) = .app
  isr : ∀ i, (m.ctl (.isr i)).isrSafe = true
  owner : ∀ x, (m.kernel.mutex x).task ≠ some .idle
  priority : (m.kernel.tcb .idle).priority = Kernel.taskPriorityIdle
  state : (m.kernel.tcb .idle).state.Runnable

/-- A step of a mutex call by `t` makes `t` the owner of a mutex, makes one free, or leaves the owner
as it is. -/
theorem mutexStep_owner {c c' : MutexCtl} (h : mutexStep k t c = some (k', c', o)) (x : ℕ) :
    (k'.mutex x).task = (k.mutex x).task ∨ (k'.mutex x).task = some t ∨
      (k'.mutex x).task = none := by
  have htry : ∀ {m : ℕ} {k₁ : Kernel} {b : Bool}, k.mutexTryAcquire m t = (k₁, b) →
      (k₁.mutex x).task = (k.mutex x).task ∨ (k₁.mutex x).task = some t := by
    intro m k₁ b htry
    unfold Kernel.mutexTryAcquire at htry
    split_ifs at htry <;> cases htry
    · rw [Kernel.mutex_modifyMutex]
      split_ifs
      · exact Or.inr rfl
      · exact Or.inl rfl
    · exact Or.inl rfl
  cases c with
  | enter m timeoutMs =>
    cases h
    exact Or.inl rfl
  | attempt m deadline retry =>
    simp only [mutexStep] at h
    cases hb : k.mutexTryAcquire m t with
    | mk k₁ b =>
      rw [hb] at h
      cases b <;> cases deadline <;> cases h <;> exact (htry hb).imp_right Or.inl
  | clock m d =>
    simp only [mutexStep] at h
    split_ifs at h <;> cases h <;> exact Or.inl rfl
  | block m timeout =>
    rcases mutexStep_block h with ⟨-, rfl, -, -⟩ | ⟨owner, -, hb, -, -⟩
    · exact Or.inl rfl
    · rw [(SameObjects.blockOn hb).mutex]
      exact Or.inl (k.mutex_mutexElevate m x owner t).1
  | blocked m deadline =>
    simp only [mutexStep] at h
    split_ifs at h <;> cases h <;> exact Or.inl rfl
  | acquired m =>
    cases h
    exact Or.inl rfl
  | trylock m =>
    simp only [mutexStep] at h
    cases hb : k.mutexTryAcquire m t with
    | mk k₁ b =>
      rw [hb] at h
      cases b <;> cases h <;> exact (htry hb).imp_right Or.inl
  | unlock m =>
    simp only [mutexStep] at h
    split_ifs at h <;> cases h <;> exact Or.inl rfl
  | release m =>
    cases h
    have hfreed : (((k.wqPop (.mutex m)).1.mutexFreed m).mutex x).task = (k.mutex x).task ∨
        (((k.wqPop (.mutex m)).1.mutexFreed m).mutex x).task = none := by
      rw [Kernel.mutex_mutexFreed, (SameObjects.wqPop k _).mutex]
      split_ifs
      · exact Or.inr rfl
      · exact Or.inl rfl
    unfold Kernel.mutexReleaseSection
    dsimp only
    split
    · rw [(SameObjects.schedWakeTask _ _).mutex]
      exact hfreed.imp_right Or.inr
    · exact hfreed.imp_right Or.inr
  | locked | lockTimeoutReturned | trylocked | unlocked => cases h

/-- An operation leaves the priority of the idle task alone, unless the task owns a mutex, and the
task may still run, unless it is the one that is marked blocked. -/
theorem SchedOp.idle_run {op : SchedOp} (h : op.run k = some k')
    (hprio : ∀ p, op ≠ .setPriority .idle p)
    (hself : k.currentTask = some .idle → ∀ ms ms', op ≠ .delay ms ∧ op ≠ .blockLocked ms')
    (hrun : (k.tcb .idle).state.Runnable) :
    (k'.tcb .idle).priority = (k.tcb .idle).priority ∧ (k'.tcb .idle).state.Runnable := by
  have hresched : ∀ {k₁ k₂ : Kernel}, Rescheduled k₁ k₂ → k₁.tcb .idle = k.tcb .idle →
      (k₂.tcb .idle).priority = (k.tcb .idle).priority ∧ (k₂.tcb .idle).state.Runnable := by
    intro k₁ k₂ hr he
    exact ⟨(hr.priority .idle).trans (by rw [he]), hr.runnable .idle (by rwa [he])⟩
  have hother : ∀ {t : TaskPtr} {f : Task → Task}, t ≠ .idle →
      (k.modifyTask t f).tcb .idle = k.tcb .idle :=
    fun ht => Kernel.modifyTask_of_ne (Ne.symm ht) ..
  cases op with
  | tick n =>
    obtain ⟨k₁, htick, rfl⟩ := Kernel.schedTickN_only h
    have hsame : ((k₁.tcb .idle).state, (k₁.tcb .idle).delayTicks) =
        ((k.tcb .idle).state, (k.tcb .idle).delayTicks) := by
      rw [htick.task .idle, if_neg (by simp)]
    have hsched := Kernel.rescheduled_schedPickAndMark (k := k₁)
    rw [(SameTasks.triggerIfSwitch _).priority, (SameTasks.triggerIfSwitch _).state]
    refine ⟨(hsched.priority .idle).trans (htick.priority .idle), hsched.runnable .idle ?_⟩
    rwa [(Prod.mk.inj hsame).1]
  | delay ms =>
    obtain ⟨t, hc, rfl⟩ := Option.map_eq_some_iff.1 h
    have ht : t ≠ .idle := by
      rintro rfl
      exact (hself hc ms none).1 rfl
    exact hresched Kernel.rescheduled_schedCommitNext (hother ht)
  | yield =>
    cases h
    unfold Kernel.yieldSection
    split
    · rename_i c _
      by_cases hc : c = .idle
      · subst hc
        have hsched := Kernel.rescheduled_schedCommitNext (k := k.setState .idle .ready)
        exact ⟨(hsched.priority .idle).trans (by simp [Kernel.setState]),
          hsched.runnable .idle (by simp [Kernel.setState, TaskState.Runnable])⟩
      · exact hresched Kernel.rescheduled_schedCommitNext (hother hc)
    · exact ⟨rfl, hrun⟩
  | block =>
    cases h
    exact hresched Kernel.rescheduled_schedPickAndMark rfl
  | blockLocked ms =>
    obtain ⟨t, hc, rfl⟩ := Option.map_eq_some_iff.1 h
    have ht : t ≠ .idle := by
      rintro rfl
      exact (hself hc 0 ms).2 rfl
    -- writing `PENDSVSET` does not touch the control blocks
    change ((k.markBlocked t ms).schedPickAndMark.tcb .idle).priority = _ ∧
      ((k.markBlocked t ms).schedPickAndMark.tcb .idle).state.Runnable
    exact hresched Kernel.rescheduled_schedPickAndMark (hother ht)
  | wake t =>
    cases h
    by_cases ht : t = .idle
    · subst ht
      have hsched := Kernel.rescheduled_schedPickAndMark (k := k.modifyTask .idle fun x =>
        { x with waitNext := none, delayTicks := 0, state := .ready })
      exact ⟨(hsched.priority .idle).trans (by simp),
        hsched.runnable .idle (by simp [TaskState.Runnable])⟩
    · exact hresched Kernel.rescheduled_schedPickAndMark (hother ht)
  | pause index =>
    cases h
    unfold Kernel.schedTaskPause
    split_ifs
    · exact ⟨rfl, hrun⟩
    · exact hresched (.refl _) (hother (by simp))
  | resume index =>
    cases h
    unfold Kernel.schedTaskResume
    split_ifs
    · exact ⟨rfl, hrun⟩
    · exact hresched (.refl _) (hother (by simp))
    · exact ⟨rfl, hrun⟩
  | create priority =>
    cases h
    have hsame : (k.createSection priority).tcb .idle = k.tcb .idle := by
      rw [k.tcb_createSection, if_neg (by simp)]
    exact hresched (.refl _) hsame
  | setPriority t priority =>
    cases h
    have ht : t ≠ .idle := by
      rintro rfl
      exact hprio priority rfl
    exact hresched (.refl _) (hother ht)
  | pendSV =>
    cases h
    exact ⟨rfl, hrun⟩

/-- The operations of a call are no ticks and no context switches, and they change the priority of
the owner of a mutex only. -/
theorem Ctl.owner_of_setPriority {op : SchedOp} (hop : op ∈ c.schedOps k t) :
    (op ≠ .pendSV ∧ ∀ n, op ≠ .tick n) ∧
      ∀ u p, op = .setPriority u p → ∃ m, (k.mutex m).task = some u := by
  have hhead : ∀ {l : WaitList}, op ∈ k.wakeHead l → (op ≠ .pendSV ∧ ∀ n, op ≠ .tick n) ∧
      ∀ u p, op = .setPriority u p → ∃ m, (k.mutex m).task = some u := by
    intro l hmem
    obtain ⟨w, -, rfl⟩ := List.mem_map.1 hmem
    exact ⟨by simp, by simp⟩
  cases c with
  | app => cases hop
  | sem c =>
    cases c with
    | give s => exact hhead hop
    | take s retry =>
      simp only [schedOps, semOps] at hop
      split_ifs at hop
      · cases hop
      · rw [List.mem_singleton.1 hop]
        simp
    | blocked | trytake | taken | given | trytaken => cases hop
  | mutex c =>
    cases c with
    | block m timeout =>
      simp only [schedOps, mutexOps] at hop
      split at hop
      · cases hop
      · rename_i owner howner
        rcases List.mem_append.1 hop with hop | hop
        · split_ifs at hop
          · rw [List.mem_singleton.1 hop]
            refine ⟨by simp, fun u p he => ⟨m, ?_⟩⟩
            cases he
            exact howner
          · cases hop
        · rw [List.mem_singleton.1 hop]
          simp
    | release m =>
      simp only [schedOps, mutexOps] at hop
      rcases List.mem_append.1 hop with hop | hop
      · split at hop
        · rename_i owner _ howner
          rw [List.mem_singleton.1 hop]
          refine ⟨by simp, fun u p he => ⟨m, ?_⟩⟩
          cases he
          exact howner
        · cases hop
      · exact hhead hop
    | enter | attempt | clock | blocked | acquired | trylock | unlock | locked
    | lockTimeoutReturned | trylocked | unlocked => cases hop
  | queue c =>
    cases c with
    | loop q op' deadline retry =>
      simp only [schedOps, queueOps] at hop
      split_ifs at hop
      · cases hop
      · split at hop
        · rw [List.mem_singleton.1 hop]
          simp
        · split_ifs at hop
          · cases hop
          · rw [List.mem_singleton.1 hop]
            simp
    | wake w timed r =>
      cases w with
      | none => cases hop
      | some w =>
        rw [List.mem_singleton.1 hop]
        simp
    | enter | blocked | attempt | trigger | finish | returned => cases hop
  | event c =>
    cases c with
    | set e bits =>
      simp only [schedOps, eventOps] at hop
      split at hop
      · obtain ⟨g, -, rfl⟩ := List.mem_map.1 hop
        simp
      · cases hop
    | loop w deadline =>
      simp only [schedOps, eventOps] at hop
      split_ifs at hop
      all_goals first | (rw [List.mem_singleton.1 hop]; simp) | cases hop
    | clear | get | enter | blocked | done | got | returned => cases hop
  | notify c =>
    cases c with
    | wake u =>
      rw [List.mem_singleton.1 hop]
      simp
    | wait timeoutMs =>
      simp only [schedOps, notifyOps] at hop
      split_ifs at hop
      all_goals first | (rw [List.mem_singleton.1 hop]; simp) | cases hop
    | give | trigger | blocked | given | returned => cases hop
  | sched c =>
    cases c with
    | delay ms =>
      simp only [schedOps, schedCtlOps] at hop
      split_ifs at hop
      · cases hop
      · rw [List.mem_singleton.1 hop]
        simp
    | yield | block | pause | resume | createSection =>
      rw [List.mem_singleton.1 hop]
      simp
    | delayTrigger | delayWait | trigger | create | createReturn | returned | created => cases hop

namespace Machine

variable {m m' : Machine} {a : Action}

/-- The context that executes a step of a call is a task of the table, or a handler. -/
theorem IdleApart.active (h : m.IdleApart) {x : Ctx} (hact : m.active = some x)
    (ht : m.kernel.currentTask = some t) (happ : m.ctl x ≠ .app) :
    (x = .thread t ∧ t ≠ .idle) ∨ ((m.ctl x).isrSafe = true ∧ ∃ i, x = .isr i) := by
  cases x with
  | thread u =>
    obtain ⟨-, -, hcur⟩ := Machine.active_thread hact
    obtain rfl : t = u := Option.some.inj (ht.symm.trans hcur)
    refine Or.inl ⟨rfl, ?_⟩
    rintro rfl
    exact happ h.ctl
  | isr i => exact Or.inr ⟨h.isr i, i, rfl⟩

theorem IdleApart.step (h : m.IdleApart) (hs : m.step a = some (m', o)) : m'.IdleApart := by
  have hpath := Machine.step_path hs
  -- what the operations do to the task itself
  have htask : (m'.kernel.tcb .idle).priority = Kernel.taskPriorityIdle ∧
      (m'.kernel.tcb .idle).state.Runnable := by
    have hsingle : ∀ (op : SchedOp) {k' : Kernel}, op.run m.kernel = some k' →
        (op = .pendSV ∨ ∃ n, op = .tick n) → (k'.tcb .idle).priority = Kernel.taskPriorityIdle ∧
          (k'.tcb .idle).state.Runnable := by
      intro op k' hrun hop
      have hidle := SchedOp.idle_run hrun (by rintro p rfl; simp at hop)
        (fun _ ms ms' => by constructor <;> rintro rfl <;> simp at hop) h.state
      exact ⟨hidle.1.trans h.priority, hidle.2⟩
    rcases Machine.step_cases hs with ⟨c, i, rfl, -, -, rfl, -⟩ |
      ⟨x, t, k', c', rfl, hact, ht, hstep, rfl⟩ | ⟨c, rfl, -, rfl, -⟩ | ⟨rfl, -, -, rfl, -⟩ |
      ⟨n, rfl, rfl, -⟩ | ⟨n, k', rfl, htick, rfl, -⟩
    · exact ⟨h.priority, h.state⟩
    · have happ : m.ctl x ≠ .app := by
        intro happ
        rw [happ] at hstep
        cases hstep
      have hinv := (ctlStep_path ht hstep).invariant
        (I := fun k => k.currentTask = some t ∧ (k.tcb .idle).priority = Kernel.taskPriorityIdle ∧
          (k.tcb .idle).state.Runnable) ⟨ht, h.priority, h.state⟩
        (fun k k' hsame hI => ⟨hsame.currentTask.trans hI.1, (hsame.priority _).trans hI.2.1,
          by rw [hsame.state]; exact hI.2.2⟩)
        (fun op hop k k' hI hrun => by
          obtain ⟨⟨hpend, -⟩, howner⟩ := Ctl.owner_of_setPriority hop
          have hidle := SchedOp.idle_run hrun (fun p he => ?_) (fun hcur ms ms' => ?_) hI.2.2
          · exact ⟨(SchedOp.run_currentTask hrun hpend).trans hI.1, hidle.1.trans hI.2.1, hidle.2⟩
          · obtain ⟨y, hy⟩ := howner _ _ he
            exact h.owner y hy
          · rcases h.active hact ht happ with ⟨-, hne⟩ | ⟨hsafe, -⟩
            · exact absurd (Option.some.inj (hI.1.symm.trans hcur)) hne
            · have hother := Ctl.schedOps_of_isrSafe hsafe hop
              constructor <;> rintro rfl <;> cases hother)
      exact hinv.2
    · exact ⟨h.priority, h.state⟩
    · exact hsingle .pendSV rfl (Or.inl rfl)
    · exact ⟨h.priority, h.state⟩
    · exact hsingle (.tick n) htick (Or.inr ⟨n, rfl⟩)
  rcases Machine.step_cases hs with ⟨c, i, rfl, hact, -, rfl, -⟩ |
    ⟨x, t, k', c', rfl, hact, ht, hstep, rfl⟩ | ⟨c, rfl, hsafe, rfl, -⟩ | ⟨rfl, -, -, rfl, -⟩ |
    ⟨n, rfl, rfl, -⟩ | ⟨n, k', rfl, htick, rfl, -⟩
  · have hother : ∀ y, y ≠ .thread (.tcb i) →
        Function.update m.ctl (.thread (.tcb i)) c.entry y = m.ctl y :=
      fun y hy => Function.update_of_ne hy ..
    refine ⟨(hother _ (by simp)).trans h.ctl, fun j => ?_, h.owner, htask.1, htask.2⟩
    exact (congrArg Ctl.isrSafe (hother _ (by simp))).trans (h.isr j)
  · have happ : m.ctl x ≠ .app := by
      intro happ
      rw [happ] at hstep
      cases hstep
    have howner : ∀ y, (k'.mutex y).task ≠ some .idle := by
      intro y hy
      cases hF : (m.ctl x).family with
      | none => exact happ (by cases hc : m.ctl x <;> rw [hc] at hF <;> first | rfl | cases hF)
      | some F =>
        by_cases hmutex : F = .mutex
        · cases hc : m.ctl x with
          | mutex c =>
            rw [hc] at hstep
            obtain ⟨⟨k₁, c₁, o₁⟩, hst, he⟩ := Option.map_eq_some_iff.1 hstep
            cases he
            rcases mutexStep_owner hst y with he | he | he
            · exact h.owner y (he ▸ hy)
            · rcases h.active hact ht happ with ⟨-, hne⟩ | ⟨hsafe, -⟩
              · exact hne (Option.some.inj (he.symm.trans hy))
              · rw [hc] at hsafe
                cases hsafe
            · rw [he] at hy
              cases hy
          | app | sem | queue | event | notify | sched =>
            rw [hc, hmutex] at hF
            cases hF
        · rw [(ctlStep_objects hF hstep).mutex hmutex] at hy
          exact h.owner y hy
    refine ⟨?_, fun j => ?_, howner, htask.1, htask.2⟩
    · rw [Machine.ctl_resume, Function.update_of_ne, h.ctl]
      rintro rfl
      exact happ h.ctl
    · rw [Machine.ctl_resume, Function.update_apply]
      split_ifs with hj
      · exact Ctl.isrSafe_ctlStep (hj ▸ h.isr j) hstep
      · exact h.isr j
  · have hidle : Function.update m.ctl (.isr m.depth) c.entry (.thread .idle) =
        m.ctl (.thread .idle) := Function.update_of_ne (by simp) ..
    refine ⟨hidle.trans h.ctl, fun j => ?_, h.owner, htask.1, htask.2⟩
    change (Function.update m.ctl (.isr m.depth) c.entry (.isr j)).isrSafe = true
    rw [Function.update_apply]
    split_ifs
    · exact Call.isrSafe_entry hsafe
    · exact h.isr j
  · exact ⟨h.ctl, h.isr, h.owner, htask.1, htask.2⟩
  · exact ⟨h.ctl, h.isr, h.owner, htask.1, htask.2⟩
  · refine ⟨h.ctl, h.isr, fun y => ?_, htask.1, htask.2⟩
    change (k'.mutex y).task ≠ _
    rw [(SameObjects.schedTickN htick).mutex]
    exact h.owner y

theorem idleApart_start (cfg : Config) : (Machine.start cfg).IdleApart := by
  have hprio : (cfg.created.tcb .idle).priority = Kernel.taskPriorityIdle := by
    refine cfg.created_induct (I := fun k => (k.tcb .idle).priority = Kernel.taskPriorityIdle) rfl
      fun k p hk => ?_
    rw [k.tcb_createSection, if_neg (by simp)]
    exact hk
  have hmutex : ∀ x, (Machine.start cfg).kernel.mutex x = {} := cfg.fresh_created.mutex
  refine ⟨rfl, fun _ => rfl, fun x hx => ?_, ?_, ?_⟩
  · rw [hmutex] at hx
    cases hx
  · change (cfg.created.schedStart.tcb .idle).priority = _
    rw [Kernel.tcb_schedStart]
    exact hprio
  · change (cfg.created.schedStart.tcb .idle).state.Runnable
    rw [Kernel.tcb_schedStart]
    dsimp only
    split_ifs
    · exact Or.inr rfl
    · exact Or.inl (cfg.fresh_created.state .idle)

theorem idleApart_of_reach {cfg : Config} {ok : Machine → Action → Prop} {out : List Obs}
    (h : Run.Reach Machine.step ok (Machine.start cfg) m out) : m.IdleApart :=
  h.invariant (I := IdleApart) (idleApart_start cfg) fun _ _ _ _ hI _ hs => hI.step hs

end Machine

end TamgaOs
