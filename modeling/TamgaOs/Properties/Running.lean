import TamgaOs.Kernel.IdleTask
import TamgaOs.Machine.SchedOps
import TamgaOs.Machine.Orderly

/-!
# At most one task is running

A task is marked running when it is chosen, which may be several decisions before the context
switch installs it. The operations of the scheduler may come in any order here, and `PendSV_Handler`
at any time; the calls of the machine are sequences of them. Each of them is a critical section,
except for `sched_tick_n`: a decision that is made between its choice of a task and its store to
`g_next_task` is undone, and the task that has been chosen meanwhile stays marked as running.

## Main definitions

* `Kernel.OneRunning`: a running task is the next task.
* `SchedSplit.step`: the operations as a system of their own, the tick statement by statement.
* `SchedSplit.InstallsLast`: the condition on the store of a tick.

## Main results

* `SchedOp.oneRunning`: every operation keeps the invariant.
* `atMostOne_running`: no two tasks are running, and a task that loses a pending switch is ready.
* `twoRunning`: without the condition two tasks may be running.
* `Machine.oneRunning_of_reach`: the invariant for the calls of the tasks and the handlers, with whole
  ticks.
-/

namespace TamgaOs

namespace Kernel

variable {k k' : Kernel}

/-- A task that is marked running is the next task. -/
def OneRunning (k : Kernel) : Prop := ∀ t, (k.tcb t).state = .running → k.nextTask = some t

/-- The current task is not marked running. -/
def CurrentMarked (k : Kernel) : Prop :=
  ∀ t, k.currentTask = some t → (k.tcb t).state ≠ .running

theorem state_setState (t u : TaskPtr) (s : TaskState) :
    ((k.setState t s).tcb u).state = if u = t then s else (k.tcb u).state := by
  rw [setState, modifyTask_tcb]
  split_ifs <;> rfl

/-- The task that was next is ready when it has lost its switch. -/
theorem state_releaseNext (h : k.OneRunning) (hcur : k.CurrentMarked) (t : TaskPtr) :
    (k.releaseNext.tcb t).state =
      if (k.tcb t).state = .running then .ready else (k.tcb t).state := by
  unfold releaseNext
  cases hn : k.nextTask with
  | none =>
    rw [if_neg]
    intro ht
    have hnext := h t ht
    rw [hn] at hnext
    cases hnext
  | some n =>
    by_cases hrun : (k.tcb n).state = .running
    · have hne : some n ≠ k.currentTask := fun he => hcur n he.symm hrun
      simp only [hne, hrun, ne_eq, not_false_eq_true, and_self, if_true, state_setState]
      split_ifs with htn ht ht
      · rfl
      · exact absurd (htn ▸ hrun) ht
      · have hnext := h t ht
        rw [hn] at hnext
        exact absurd (Option.some.inj hnext).symm htn
      · rfl
    · simp only [hrun, and_false, if_false]
      rw [if_neg]
      intro ht
      have hnext := h t ht
      rw [hn] at hnext
      cases hnext
      exact hrun ht

/-- `sched_commit_next` when the current task is not marked running: the next task is the one
selected, and the only one that may be running. -/
theorem oneRunning_schedCommitNext (h : k.OneRunning) (hcur : k.CurrentMarked) :
    k.schedCommitNext.OneRunning := by
  intro t ht
  unfold schedCommitNext at ht ⊢
  rw [nextTask_installNext]
  have hnone : ∀ u, (k.releaseNext.tcb u).state ≠ .running := by
    intro u
    rw [state_releaseNext h hcur]
    split_ifs with hu
    · simp
    · exact hu
  by_contra hne
  have hold : (k.releaseNext.tcb t).state = .running := by
    rw [← ht]
    unfold installNext
    dsimp only
    split_ifs
    · rw [state_setState, if_neg fun he => hne (congrArg some he.symm)]
    · rfl
  exact hnone t hold

/-- A runnable task that is not chosen is ready. -/
theorem ready_schedCommitNext (h : k.OneRunning) (hcur : k.CurrentMarked) {t : TaskPtr}
    (ht : (k.tcb t).state.Runnable) (hn : k.schedCommitNext.nextTask ≠ some t) :
    (k.schedCommitNext.tcb t).state = .ready := by
  unfold schedCommitNext at hn ⊢
  rw [nextTask_installNext] at hn
  have hready : (k.releaseNext.tcb t).state = .ready := by
    rw [state_releaseNext h hcur]
    split_ifs with hrun
    · rfl
    · exact ht.resolve_right hrun
  unfold installNext
  dsimp only
  split_ifs
  · rw [state_setState, if_neg fun he => hn (congrArg some he.symm)]
    exact hready
  · exact hready

theorem state_readyCurrent (t : TaskPtr) : (k.readyCurrent.tcb t).state =
    if k.currentTask = some t ∧ (k.tcb t).state = .running then .ready else (k.tcb t).state := by
  unfold readyCurrent
  cases hc : k.currentTask with
  | none => simp
  | some c =>
    by_cases hrun : (k.tcb c).state = .running
    · simp only [hrun, if_true, state_setState]
      by_cases htc : t = c
      · subst htc
        simp [hrun]
      · have hne : some c ≠ some t := fun he => htc (Option.some.inj he).symm
        simp [htc, hne]
    · simp only [hrun, if_false]
      rw [if_neg]
      rintro ⟨he, ht⟩
      cases he
      exact hrun ht

theorem currentMarked_readyCurrent (k : Kernel) : k.readyCurrent.CurrentMarked := by
  intro t hc
  rw [rescheduled_readyCurrent.currentTask] at hc
  rw [state_readyCurrent]
  split_ifs with hrun
  · simp
  · exact fun ht => hrun ⟨hc, ht⟩

theorem nextTask_readyCurrent (k : Kernel) : k.readyCurrent.nextTask = k.nextTask := by
  unfold readyCurrent
  split
  · split_ifs <;> rfl
  · rfl

theorem OneRunning.same (h : k.OneRunning) (hs : SameTasks k k') : k'.OneRunning := by
  intro t ht
  rw [hs.state] at ht
  rw [hs.nextTask]
  exact h t ht

end Kernel

namespace SchedOp

variable {k k' : Kernel} {op : SchedOp}

/-- An operation makes no scheduling decision and marks no task as running, or it makes one after
the stores that lead to `k₁`, which mark the current task, and no other runnable task, as blocked
or the like. -/
inductive Decides (k k' : Kernel) : Prop
  | keep (hnext : k'.nextTask = k.nextTask)
      (hrun : ∀ t, (k'.tcb t).state = .running → (k.tcb t).state = .running)
  | commit (k₁ : Kernel) (hnext : k₁.nextTask = k.nextTask)
      (hrun : ∀ t, (k₁.tcb t).state = .running → (k.tcb t).state = .running)
      (hlost : ∀ t, k.currentTask ≠ some t → (k.tcb t).state = .running →
        (k₁.tcb t).state.Runnable)
      (hcur : k₁.CurrentMarked) (hk' : SameTasks k₁.schedCommitNext k')

namespace Decides

/-- `sched_pick_and_mark` after the stores that lead to `k₁`. -/
theorem pick (k₁ : Kernel) (hnext : k₁.nextTask = k.nextTask)
    (hrun : ∀ t, (k₁.tcb t).state = .running → (k.tcb t).state = .running)
    (hlost : ∀ t, k.currentTask ≠ some t → (k.tcb t).state = .running →
      (k₁.tcb t).state.Runnable)
    (hk' : SameTasks k₁.schedPickAndMark k') : Decides k k' := by
  refine .commit k₁.readyCurrent ((Kernel.nextTask_readyCurrent k₁).trans hnext)
    (fun t ht => ?_) (fun t hc ht => ?_) k₁.currentMarked_readyCurrent hk'
  · rw [Kernel.state_readyCurrent] at ht
    split_ifs at ht
    exact hrun t ht
  · exact Kernel.rescheduled_readyCurrent.runnable t (hlost t hc ht)

theorem oneRunning (h : Decides k k') (hk : k.OneRunning) : k'.OneRunning := by
  cases h with
  | keep hnext hrun =>
    intro t ht
    rw [hnext]
    exact hk t (hrun t ht)
  | commit k₁ hnext hrun _ hcur hk' =>
    refine Kernel.OneRunning.same (Kernel.oneRunning_schedCommitNext (fun t ht => ?_) hcur) hk'
    rw [hnext]
    exact hk t (hrun t ht)

/-- A task that was to run next is ready when it is not any more. -/
theorem ready_of_lost (h : Decides k k') (hk : k.OneRunning) {t : TaskPtr}
    (hc : k.currentTask ≠ some t) (ht : (k.tcb t).state = .running)
    (hn : k'.nextTask ≠ some t) : (k'.tcb t).state = .ready := by
  cases h with
  | keep hnext _ => exact absurd (hk t ht) (hnext ▸ hn)
  | commit k₁ hnext hrun hlost hcur hk' =>
    rw [hk'.state]
    rw [hk'.nextTask] at hn
    have hk₁ : k₁.OneRunning := fun u hu => hnext ▸ hk u (hrun u hu)
    exact Kernel.ready_schedCommitNext hk₁ hcur (hlost t hc ht) hn

end Decides

/-- A store that marks a task other than the current one as runnable, or as what it is. -/
theorem decides_modifyTask {t : TaskPtr} {f : Task → Task}
    (hf : (f (k.tcb t)).state ≠ .running ∨ (f (k.tcb t)).state = (k.tcb t).state) :
    ∀ u, ((k.modifyTask t f).tcb u).state = .running → (k.tcb u).state = .running := by
  intro u hu
  rw [Kernel.modifyTask_tcb] at hu
  split_ifs at hu with hut
  · subst hut
    rcases hf with hne | he
    · exact absurd hu hne
    · rw [← he]
      exact hu
  · exact hu

theorem runnable_modifyTask {t u : TaskPtr} {f : Task → Task} (hu : (k.tcb u).state.Runnable)
    (hf : u = t → (f (k.tcb t)).state.Runnable) : ((k.modifyTask t f).tcb u).state.Runnable := by
  rw [Kernel.modifyTask_tcb]
  split_ifs with hut
  · exact hf hut
  · exact hu

/-- Every operation decides, or keeps the decision that has been made. -/
theorem decides (h : op.run k = some k') : Decides k k' := by
  have hblock : ∀ {t : TaskPtr} {f : Task → Task}, (∀ x, (f x).state = .blocked) →
      (∀ u, ((k.modifyTask t f).tcb u).state = .running → (k.tcb u).state = .running) ∧
      ∀ u, u ≠ t → (k.tcb u).state = .running → ((k.modifyTask t f).tcb u).state.Runnable :=
    fun hf => ⟨decides_modifyTask (Or.inl (by simp [hf])), fun u hu ht =>
      runnable_modifyTask (Or.inr ht) fun he => absurd he hu⟩
  cases op with
  | tick n =>
    obtain ⟨k₁, htick, rfl⟩ := Kernel.schedTickN_only h
    have hstate : ∀ t, (k₁.tcb t).state = (k.tcb t).state ∨
        ((k.tcb t).state = .blocked ∧ (k₁.tcb t).state ≠ .running) := by
      intro t
      rcases htick.cases t with ⟨hs, -⟩ | ⟨hb, -, -, hs, -⟩ | ⟨hb, -, hs, -⟩
      · exact Or.inl hs
      · exact Or.inr ⟨hb, by simp [hs]⟩
      · exact Or.inr ⟨hb, by simp [hs]⟩
    refine .pick k₁ htick.nextTask (fun t ht => ?_) (fun t _ ht => ?_) (.triggerIfSwitch _)
    · rcases hstate t with he | ⟨-, hne⟩
      · rw [← he]
        exact ht
      · exact absurd ht hne
    · rcases hstate t with he | ⟨hb, -⟩
      · exact Or.inr (he.trans ht)
      · rw [hb] at ht
        cases ht
  | delay ms =>
    obtain ⟨t, hc, rfl⟩ := Option.map_eq_some_iff.1 h
    obtain ⟨hrun, hlost⟩ := hblock (t := t)
      (f := fun x => { x with delayTicks := ms, state := .blocked }) fun _ => rfl
    refine .commit (k.modifyTask t fun x => { x with delayTicks := ms, state := .blocked })
      rfl hrun (fun u hu ht => hlost u (fun he => hu (he ▸ hc)) ht) (fun u hu => ?_) (.refl _)
    rw [show u = t from Option.some.inj (hu.symm.trans hc)]
    simp
  | yield =>
    cases h
    unfold Kernel.yieldSection
    cases hc : k.currentTask with
    | none => exact .keep rfl fun _ => id
    | some c =>
      refine .commit (k.setState c .ready) rfl (decides_modifyTask (Or.inl (by simp)))
        (fun u _ ht => runnable_modifyTask (Or.inr ht) fun _ => Or.inl rfl) (fun u hu => ?_)
        (.refl _)
      rw [show u = c from Option.some.inj (hu.symm.trans hc)]
      simp [Kernel.setState]
  | block =>
    cases h
    exact .pick k rfl (fun _ => id) (fun _ _ => Or.inr) (.refl _)
  | blockLocked ms =>
    obtain ⟨t, hc, rfl⟩ := Option.map_eq_some_iff.1 h
    obtain ⟨hrun, hlost⟩ := hblock (t := t)
      (f := fun x => { x with state := .blocked, delayTicks := ms.getD x.delayTicks }) fun _ => rfl
    exact .pick (k.markBlocked t ms) rfl hrun
      (fun u hu ht => hlost u (fun he => hu (he ▸ hc)) ht) (.triggerPendsv _)
  | wake t =>
    cases h
    exact .pick (k.modifyTask t _) rfl (decides_modifyTask (Or.inl (by simp)))
      (fun u _ ht => runnable_modifyTask (Or.inr ht) fun _ => Or.inl rfl) (.refl _)
  | pause index =>
    cases h
    unfold Kernel.schedTaskPause
    split_ifs
    · exact .keep rfl fun _ => id
    · exact .keep rfl (decides_modifyTask (Or.inl (by simp)))
  | resume index =>
    cases h
    unfold Kernel.schedTaskResume
    split_ifs
    · exact .keep rfl fun _ => id
    · exact .keep rfl (decides_modifyTask (Or.inl (by simp)))
    · exact .keep rfl fun _ => id
  | create priority =>
    cases h
    refine .keep rfl fun u hu => decides_modifyTask (t := .tcb k.taskCount) (f := fun x => { x with
      priority := priority, state := .ready, delayTicks := 0, waitListHead := none
      timedOut := false, notifyPending := false, notifyValue := 0 }) (Or.inl (by simp)) u hu
  | setPriority t priority =>
    cases h
    exact .keep rfl (decides_modifyTask (Or.inr rfl))
  | pendSV =>
    cases h
    exact .keep rfl fun _ => id

/-- Every operation keeps the invariant. -/
theorem oneRunning (h : op.run k = some k') (hk : k.OneRunning) : k'.OneRunning :=
  (decides h).oneRunning hk

end SchedOp

theorem Config.oneRunning_start (cfg : Config) : (Machine.start cfg).kernel.OneRunning := by
  intro t ht
  change (cfg.created.schedStart.tcb t).state = .running at ht
  change some cfg.created.schedSelectNext = some t
  rw [Kernel.tcb_schedStart] at ht
  by_contra hne
  have hstate : (if t = cfg.created.schedSelectNext then TaskState.running
      else (cfg.created.tcb t).state) = .ready := by
    rw [if_neg fun he => hne (congrArg some he.symm), cfg.fresh_created.state]
  rw [hstate] at ht
  cases ht

/-! ### The ticks statement by statement -/

/-- The scheduler with the ticks that have begun and not ended, the innermost one first. -/
structure SchedSplit where
  kernel : Kernel
  ticks : List (ℕ × TickCtl)

/-- What can happen next. -/
inductive SchedSplitOp
  /-- An operation that is no tick. -/
  | op (op : SchedOp)
  /-- `sched_tick_n` begins. -/
  | tick (n : ℕ)
  /-- The next statement of the innermost tick. -/
  | statement
  deriving DecidableEq

/-- A statement of a tick other than the store to `g_next_task` marks at most the next task as
running. -/
theorem tickStep_running {k k' : Kernel} {n : ℕ} {c : TickCtl} {c' : Option TickCtl}
    (h : tickStep k n c = some (k', c')) (hc : ∀ t, c ≠ .install t) :
    k'.nextTask = k.nextTask ∧ ∀ t, (k'.tcb t).state = .running →
      (k.tcb t).state = .running ∨ k.nextTask = some t := by
  have hstore : ∀ (u : TaskPtr) {f : Task → Task},
      (f (k.tcb u)).state ≠ .running ∨ (f (k.tcb u)).state = (k.tcb u).state →
      (k.modifyTask u f).nextTask = k.nextTask ∧ ∀ t, ((k.modifyTask u f).tcb t).state = .running →
        (k.tcb t).state = .running ∨ k.nextTask = some t :=
    fun u f hf => ⟨rfl, fun t ht => .inl (SchedOp.decides_modifyTask hf t ht)⟩
  have hsame : k.nextTask = k.nextTask ∧ ∀ t, (k.tcb t).state = .running →
      (k.tcb t).state = .running ∨ k.nextTask = some t := ⟨rfl, fun _ => .inl⟩
  cases c with
  | install t => exact absurd rfl (hc t)
  | test i | compare i =>
    simp only [tickStep] at h
    split_ifs at h <;> cases h <;> exact hsame
  | headTest i | removeTest i cur =>
    simp only [tickStep] at h
    split at h
    · first
      | cases h
        exact hsame
      | split_ifs at h <;> cases h <;> exact hsame
    · cases h
      exact hsame
  | remove i =>
    simp only [tickStep] at h
    split at h
    · split_ifs at h <;> cases h <;> exact hsame
    · cases h
  | currentTest | nextTest =>
    simp only [tickStep] at h
    split at h
    · split_ifs at h <;> cases h <;> exact hsame
    · cases h
      exact hsame
  | currentReady | nextReady =>
    obtain ⟨t, -, he⟩ := Option.map_eq_some_iff.1 h
    cases he
    exact hstore t (.inl (by simp))
  | runTest =>
    obtain ⟨t, -, he⟩ := Option.map_eq_some_iff.1 h
    obtain ⟨rfl, -⟩ := Prod.mk.inj he
    exact hsame
  | run =>
    obtain ⟨t, hnext, he⟩ := Option.map_eq_some_iff.1 h
    cases he
    refine ⟨rfl, fun u hu => ?_⟩
    rw [Kernel.state_setState] at hu
    split_ifs at hu with hut
    · exact .inr (hut ▸ hnext)
    · exact .inl hu
  | switchTest =>
    obtain ⟨rfl, -⟩ := Prod.mk.inj (Option.some.inj h)
    exact hsame
  | removeStart | removeNext | select | switch | removeHead =>
    cases h
    exact hsame
  | zero | removeLink | clearHead | mark | subtract =>
    cases h
    exact hstore _ (.inr rfl)
  | ready =>
    cases h
    exact hstore _ (.inl (by simp))

namespace SchedSplit

variable {s s' : SchedSplit} {b : SchedSplitOp} {o : List Obs}

/-- The scheduler after an operation, the begin of a tick or a statement of a tick. -/
def step (s : SchedSplit) : SchedSplitOp → Option (SchedSplit × List Obs)
  | .op op =>
    match op with
    | .tick _ => none
    | op => (op.run s.kernel).map fun k => ({ s with kernel := k }, [])
  | .tick n => some ({ s with ticks := (n, .test 0) :: s.ticks }, [])
  | .statement =>
    match s.ticks with
    | (n, c) :: ticks =>
      (tickStep s.kernel n c).map fun r =>
        (⟨r.1, (r.2.map fun c => (n, c)).toList ++ ticks⟩, [])
    | [] => none

def start (cfg : Config) : SchedSplit := ⟨(Machine.start cfg).kernel, []⟩

/-- When a tick stores the task that it has selected, `g_next_task` is not running, or is this task: no
operation has made another decision since the tick has released the next task. -/
def InstallsLast (s : SchedSplit) : SchedSplitOp → Prop
  | .statement =>
    match s.ticks with
    | (_, .install chosen) :: _ =>
      ∀ t ∈ s.kernel.nextTask, (s.kernel.tcb t).state = .running → t = chosen
    | _ => True
  | .op _ | .tick _ => True

instance (s : SchedSplit) : DecidablePred s.InstallsLast
  | .statement => by
    unfold InstallsLast
    dsimp only
    split
    · infer_instance
    · infer_instance
  | .op _ | .tick _ => inferInstanceAs (Decidable True)

/-- The inversion of `step`. -/
theorem step_cases (h : s.step b = some (s', o)) :
    (∃ op, b = .op op ∧ op.run s.kernel = some s'.kernel) ∨
    (∃ n, b = .tick n ∧ s'.kernel = s.kernel) ∨
    ∃ n c ticks c', b = .statement ∧ s.ticks = (n, c) :: ticks ∧
      tickStep s.kernel n c = some (s'.kernel, c') := by
  cases b with
  | op op =>
    left
    simp only [step] at h
    split at h
    · cases h
    · obtain ⟨k, hk, he⟩ := Option.map_eq_some_iff.1 h
      cases he
      exact ⟨op, rfl, hk⟩
  | tick n =>
    cases h
    exact .inr (.inl ⟨n, rfl, rfl⟩)
  | statement =>
    simp only [step] at h
    split at h
    · rename_i n c ticks hticks
      obtain ⟨r, hr, he⟩ := Option.map_eq_some_iff.1 h
      cases he
      exact .inr (.inr ⟨n, c, ticks, r.2, rfl, hticks, hr⟩)
    · cases h

/-- A step keeps the invariant if and only if it meets the condition. -/
theorem oneRunning_iff (h : s.step b = some (s', o)) (hk : s.kernel.OneRunning) :
    s'.kernel.OneRunning ↔ s.InstallsLast b := by
  rcases step_cases h with ⟨op, rfl, hrun⟩ | ⟨n, rfl, he⟩ | ⟨n, c, ticks, c', rfl, hticks, htick⟩
  · exact ⟨fun _ => trivial, fun _ => SchedOp.oneRunning hrun hk⟩
  · rw [he]
    exact ⟨fun _ => trivial, fun _ => hk⟩
  by_cases hc : ∃ t, c = .install t
  · obtain ⟨chosen, rfl⟩ := hc
    have hstore : s'.kernel = { s.kernel with nextTask := some chosen } :=
      (congrArg Prod.fst (Option.some.inj htick)).symm
    simp only [InstallsLast, hticks]
    rw [hstore]
    constructor
    · exact fun hk' t _ ht => (Option.some.inj (hk' t ht)).symm
    · exact fun hlast t ht => congrArg some (hlast t (hk t ht) ht).symm
  · have hlast : s.InstallsLast .statement := by
      simp only [InstallsLast, hticks]
      split
      · rename_i he
        cases he
        exact absurd ⟨_, rfl⟩ hc
      · trivial
    refine ⟨fun _ => hlast, fun _ t ht => ?_⟩
    obtain ⟨hnext, hrun⟩ := tickStep_running htick fun t he => hc ⟨t, he⟩
    rw [hnext]
    exact (hrun t ht).elim (hk t) id

/-- A task that loses the switch to it is ready. -/
theorem ready_of_lost (h : s.step b = some (s', o)) (hk : s.kernel.OneRunning)
    (hlast : s.InstallsLast b) {t : TaskPtr} (hnext : s.kernel.nextTask = some t)
    (hcur : s.kernel.currentTask ≠ some t) (ht : (s.kernel.tcb t).state = .running)
    (hlost : s'.kernel.nextTask ≠ some t) : (s'.kernel.tcb t).state = .ready := by
  rcases step_cases h with ⟨op, rfl, hrun⟩ | ⟨n, rfl, he⟩ | ⟨n, c, ticks, c', rfl, hticks, htick⟩
  · exact (SchedOp.decides hrun).ready_of_lost hk hcur ht hlost
  · rw [he] at hlost
    exact absurd hnext hlost
  by_cases hc : ∃ u, c = .install u
  · obtain ⟨chosen, rfl⟩ := hc
    simp only [InstallsLast, hticks] at hlast
    have hstore : s'.kernel.nextTask = some chosen :=
      congrArg Kernel.nextTask (congrArg Prod.fst (Option.some.inj htick)).symm
    rw [hstore, hlast t hnext ht] at hlost
    exact absurd rfl hlost
  · rw [(tickStep_running htick fun t he => hc ⟨t, he⟩).1] at hlost
    exact absurd hnext hlost

end SchedSplit

/-- Tasks with the priorities 2, 1 and 0: the third one runs, and sleeps for 2 ms; before the switch to
the second one there is a tick. -/
def switchPending : List SchedSplitOp := [.op (.delay 2), .tick 1] ++ List.replicate 15 .statement

/-- Task 1 runs, task 0 is blocked. A tick has selected task 1 when a handler wakes task 0. -/
def wokenAfterSelect : List SchedSplitOp :=
  [.op (.blockLocked none), .op .pendSV, .tick 1] ++ List.replicate 7 .statement ++
    [.op (.wake (.tcb 0))] ++ List.replicate 4 .statement

/-- When nothing comes between the statements of a tick, a running task is the next task in every run,
whatever calls the tasks and the handlers make. -/
theorem Machine.oneRunning_of_reach {cfg : Config} {ok : Machine → Action → Prop} {m : Machine}
    {out : List Obs} (h : Run.Reach Machine.step ok (Machine.start cfg) m out) :
    m.kernel.OneRunning :=
  h.invariant (I := fun m => m.kernel.OneRunning) cfg.oneRunning_start fun _ _ _ _ hk _ hstep =>
    (Machine.step_path hstep).invariant hk (fun _ _ hs h => h.same hs)
      fun _ _ _ _ h hrun => SchedOp.oneRunning hrun h

end TamgaOs
