import TamgaOs.Properties.Mutex
import TamgaOs.Library.Restore

/-!
# Priority inheritance

Every mutex records the priority that its owner has when the owner is first elevated through it,
and the unlock writes this record back. A task that holds several mutexes has several records; its
own priority is the largest of them, and it is lost when the mutex that has it is unlocked first.

## Main definitions

* `PriorityMove m L a m' L'`: how one step changes the priorities and the records.
* `Machine.UnlocksInOrder`: no unlock drops the only record of the owner's own priority.
* `Inherited base k`: the invariant.

## Main results

* `StepEffect.priorityMove`: every orderly step changes the priorities in one of these ways.
* `priorityInheritance_undone`: along runs that unlock in order, a task without mutexes has its own
  priority.
* `priorityInheritance_kept_by_unlock_order`: in the other order it keeps another one.
-/

namespace TamgaOs

/-- Two states with the same priorities. -/
def SamePriorities (k k' : Kernel) : Prop := ∀ t, (k'.tcb t).priority = (k.tcb t).priority

/-- How one step changes the priorities, the records of the mutexes and their wait lists: not at
all, apart from waiters that leave; or the executing task acquires a free mutex, blocks on one, or
releases one. -/
inductive PriorityMove (m : Machine) (L : WaitList → List TaskPtr) (a : Action) (m' : Machine)
    (L' : WaitList → List TaskPtr) : Prop
  | keep (hm : m'.kernel.mutex = m.kernel.mutex) (hp : SamePriorities m.kernel m'.kernel)
      (hL : ∀ x w, w ∈ L' (.mutex x) → w ∈ L (.mutex x))
  | acquire {t : TaskPtr} {x : ℕ} (ha : a = .exec) (hact : m.active = some (.thread t))
      (hc : (∃ d retry, m.ctl (.thread t) = .mutex (.attempt x d retry)) ∨
        m.ctl (.thread t) = .mutex (.trylock x))
      (hfree : (m.kernel.mutex x).task = none)
      (hm : m'.kernel.mutex =
        (m.kernel.modifyMutex x fun y => { y with task := some t }).mutex)
      (hp : SamePriorities m.kernel m'.kernel) (hL : L' = L)
  | block {t owner : TaskPtr} {x : ℕ} (ha : a = .exec) (hact : m.active = some (.thread t))
      (hc : ∃ timeout, m.ctl (.thread t) = .mutex (.block x timeout))
      (howner : (m.kernel.mutex x).task = some owner)
      (hm : m'.kernel.mutex = (m.kernel.mutexElevate x owner t).mutex)
      (hp : SamePriorities (m.kernel.mutexElevate x owner t) m'.kernel)
      (hL : ∀ y w, w ∈ L' (.mutex y) → w ∈ L (.mutex y) ∨ (y = x ∧ w = t))
  | release {t : TaskPtr} {x : ℕ} (ha : a = .exec) (hact : m.active = some (.thread t))
      (hc : m.ctl (.thread t) = .mutex (.release x))
      (hm : m'.kernel.mutex = (m.kernel.mutexFreed x).mutex)
      (hp : SamePriorities (m.kernel.mutexFreed x) m'.kernel)
      (hL : ∀ y w, w ∈ L' (.mutex y) → w ∈ L (.mutex y))

section Steps

variable {m m' : Machine} {L L' : WaitList → List TaskPtr} {a : Action} {o : List Obs}

/-- How one step changes the priorities. -/
theorem StepEffect.priorityMove (he : StepEffect m L a m' L' o)
    (hno : ∀ x priority, m.ctl x ≠ .sched (.createSection priority)) :
    PriorityMove m L a m' L' := by
  have hother : ∀ {F : Family} {x : Ctx} {k' : Kernel}, Untouched F x m.kernel k' L L' →
      F ≠ .mutex → ∀ y w, w ∈ L' (.mutex y) → w ∈ L (.mutex y) := by
    intro F x k' hu hF y w hw
    rwa [hu.lists (.mutex y) (Ne.symm hF)] at hw
  cases he with
  | call _ _ | irq _ | pendSV | clock => exact .keep rfl (fun _ => rfl) fun _ _ => id
  | tick he =>
    refine .keep he.quiet.mutex he.quiet.priority fun x w hw => ?_
    rw [he.lists, List.mem_filter] at hw
    exact hw.1
  | sem _ _ _ hu _ | queue _ _ _ hu | event _ _ _ hu =>
    exact .keep (hu.mutex (by simp)) (hu.priority (by simp) (by simp)) (hother hu (by simp))
  | sched hx hc hu hst =>
    obtain ⟨hq, -⟩ := schedStep_quiet hst fun priority he => hno _ priority (by rw [hc, he])
    exact .keep hq.mutex hq.priority fun _ _ => id
  | mutex hx hc he hu hact =>
    cases he with
    | enter | expired | read | reconsider | resume | tryfail | unlock _ | refuse _ | retreat _ =>
      exact .keep rfl (fun _ => rfl) fun _ _ => id
    | timeout _ | acquired =>
      refine .keep rfl (fun u => ?_) fun _ _ => id
      rw [Machine.kernel_resume, Kernel.modifyTask_tcb]
      split_ifs with hu
      · rw [hu]
      · rfl
    | acquire hfree => exact .acquire rfl hact (Or.inl ⟨_, _, hc⟩) hfree rfl (fun _ => rfl) rfl
    | trylock hfree => exact .acquire rfl hact (Or.inr hc) hfree rfl (fun _ => rfl) rfl
    | block howner hq hmark =>
      refine .block rfl hact ⟨_, hc⟩ howner hq.mutex hq.priority fun y w hw => ?_
      rcases mem_of_mem_update hw with hin | ⟨he, hin⟩
      · exact Or.inl hin
      · cases he
        exact (Kernel.mem_enqueued.1 hin).symm.imp_right fun hwt => ⟨rfl, hwt⟩
    | release hl => exact .release rfl hact hc rfl (fun _ => rfl) fun _ _ => id
    | handOver hl hq =>
      refine .release rfl hact hc hq.mutex hq.priority fun y w hw => ?_
      rcases mem_of_mem_update hw with hin | ⟨he, hin⟩
      · exact hin
      · rw [he, hl]
        exact List.mem_cons_of_mem _ hin

/-! ### The records of a task -/

/-- The unlock of the mutex `x` leaves its owner a record that is not below the one of `x`, if it
leaves any. -/
def Kernel.LeavesRecord (k : Kernel) (x : ℕ) : Prop :=
  ∀ t v, k.savedPriority t x = some v → ∀ y u, y ≠ x → k.savedPriority t y = some u →
    ∃ z u', z ≠ x ∧ k.savedPriority t z = some u' ∧ v ≤ u'

/-- The mutex that the executing context is about to release. -/
def Machine.releasing (m : Machine) : Option ℕ :=
  match m.active with
  | some x => (m.ctl x).releases
  | none => none

/-- The step unlocks no elevated mutex while its owner has been elevated through others too, all of
which have recorded more urgent priorities. -/
def Machine.UnlocksInOrder (m : Machine) : Action → Prop
  | .exec => ∀ x, m.releasing = some x → m.kernel.LeavesRecord x
  | _ => True

/-- The records of every task are such that its own priority `base` can be restored, and a free
mutex has none. -/
structure Inherited (base : TaskPtr → ℕ) (k : Kernel) : Prop where
  restorable : ∀ t, Restorable (base t) (k.tcb t).priority (k.savedPriority t)
  free : ∀ x, (k.mutex x).task = none → (k.mutex x).isElevated = false

theorem Kernel.savedPriority_congr {k k' : Kernel} (h : k'.mutex = k.mutex) (t : TaskPtr) :
    k'.savedPriority t = k.savedPriority t := by
  funext x
  simp only [Kernel.savedPriority, h]

namespace Inherited

variable {base : TaskPtr → ℕ} {k k' : Kernel}

theorem congr (h : Inherited base k) (hm : k'.mutex = k.mutex) (hp : SamePriorities k k') :
    Inherited base k' := by
  refine ⟨fun t => ?_, fun x => ?_⟩
  · rw [hp t, Kernel.savedPriority_congr hm]
    exact h.restorable t
  · rw [hm]
    exact h.free x

/-- A free mutex is acquired: it has no record. -/
theorem acquire (h : Inherited base k) {t : TaskPtr} {x : ℕ} (hfree : (k.mutex x).task = none) :
    Inherited base (k.modifyMutex x fun y => { y with task := some t }) := by
  have helev := h.free x hfree
  refine ⟨fun u => ?_, fun y hy => ?_⟩
  · have hsaved : (k.modifyMutex x fun y => { y with task := some t }).savedPriority u =
        k.savedPriority u := by
      funext y
      unfold Kernel.savedPriority
      rw [Kernel.mutex_modifyMutex]
      by_cases hyx : y = x
      · subst hyx
        simp [helev]
      · rw [if_neg hyx]
    rw [hsaved]
    exact h.restorable u
  · rw [Kernel.mutex_modifyMutex] at hy ⊢
    split_ifs with hyx
    · exact helev
    · rw [if_neg hyx] at hy
      exact h.free y hy

/-- The owner of a mutex is elevated. -/
theorem elevate (h : Inherited base k) {t owner : TaskPtr} {x : ℕ}
    (howner : (k.mutex x).task = some owner) : Inherited base (k.mutexElevate x owner t) := by
  have hrecord := k.mutex_mutexElevate_record x owner t
  have hprio := k.priority_mutexElevate x owner t
  by_cases hnew : (k.tcb t).priority < (k.tcb owner).priority ∧ (k.mutex x).isElevated = false
  · -- the first elevation through this mutex
    rw [if_pos hnew] at hrecord
    have hget : ∀ u y, (k.mutexElevate x owner t).savedPriority u y =
        if y = x then (if u = owner then some (k.tcb owner).priority else none)
        else k.savedPriority u y := by
      intro u y
      unfold Kernel.savedPriority
      rw [hrecord, Function.update_apply]
      by_cases hyx : y = x
      · simp only [hyx, if_true, howner, and_true, Option.some.injEq, eq_comm]
      · simp only [hyx, if_false]
    have hnone : ∀ u, k.savedPriority u x = none := by
      intro u
      simp [Kernel.savedPriority, hnew.2]
    refine ⟨fun u => ?_, fun y hy => ?_⟩
    · rw [hprio]
      by_cases hu : u = owner
      · subst hu
        have hsaved : (k.mutexElevate x u t).savedPriority u =
            Function.update (k.savedPriority u) x (some (k.tcb u).priority) := by
          funext y
          rw [hget, Function.update_apply, if_pos rfl]
        rw [if_pos rfl, hsaved]
        exact (h.restorable u).push (hnone u) (min_le_left _ _)
      · have hsaved : (k.mutexElevate x owner t).savedPriority u = k.savedPriority u := by
          funext y
          rw [hget, if_neg hu]
          split_ifs with hyx
          · rw [hyx, hnone]
          · rfl
        rw [if_neg hu, hsaved]
        exact h.restorable u
    · rw [hrecord, Function.update_apply] at hy ⊢
      split_ifs with hyx
      · rw [if_pos hyx, howner] at hy
        cases hy
      · rw [if_neg hyx] at hy
        exact h.free y hy
  · rw [if_neg hnew] at hrecord
    refine ⟨fun u => ?_, fun y hy => ?_⟩
    · rw [hprio, Kernel.savedPriority_congr hrecord]
      by_cases hu : u = owner
      · subst hu
        rw [if_pos rfl]
        by_cases hlt : (k.tcb t).priority < (k.tcb u).priority
        · have helev : (k.mutex x).isElevated = true := by
            rw [← Bool.not_eq_false]
            exact fun he => hnew ⟨hlt, he⟩
          exact (h.restorable u).lower (Kernel.savedPriority_eq_some.2 ⟨howner, helev, rfl⟩)
            (min_le_left _ _)
        · rw [min_eq_left (not_lt.1 hlt)]
          exact h.restorable u
      · rw [if_neg hu]
        exact h.restorable u
    · rw [hrecord] at hy ⊢
      exact h.free y hy

/-- A mutex is unlocked in order. -/
theorem freed (h : Inherited base k) {x : ℕ} (hleaves : k.LeavesRecord x) :
    Inherited base (k.mutexFreed x) := by
  refine ⟨fun u => ?_, fun y hy => ?_⟩
  · have hsaved : (k.mutexFreed x).savedPriority u =
        Function.update (k.savedPriority u) x none := by
      funext y
      rw [Function.update_apply]
      unfold Kernel.savedPriority
      rw [Kernel.mutex_mutexFreed]
      by_cases hyx : y = x
      · simp [hyx]
      · simp only [hyx, if_false]
    rw [hsaved, Kernel.priority_mutexFreed]
    cases hv : k.savedPriority u x with
    | none =>
      have hsame : Function.update (k.savedPriority u) x none = k.savedPriority u := by
        rw [← hv, Function.update_eq_self]
      rw [hsame]
      exact h.restorable u
    | some v => exact (h.restorable u).pop hv (hleaves u v hv)
  · rw [Kernel.mutex_mutexFreed] at hy ⊢
    split_ifs with hyx
    · rfl
    · rw [if_neg hyx] at hy
      exact h.free y hy

theorem step (h : Inherited base m.kernel) (hs : PriorityMove m L a m' L')
    (hok : m.UnlocksInOrder a) : Inherited base m'.kernel := by
  cases hs with
  | keep hm hp _ => exact h.congr hm hp
  | acquire _ _ _ hfree hm hp _ => exact (h.acquire hfree).congr hm hp
  | block _ _ _ howner hm hp _ => exact (h.elevate howner).congr hm hp
  | @release t x ha hact hc hm hp _ =>
    subst ha
    have hrel : m.releasing = some x := by
      rw [Machine.releasing, hact]
      simp only [hc]
      rfl
    exact (h.freed (hok _ hrel)).congr hm hp

end Inherited

end Steps

/-! ### What holds on every run -/

/-- The calls that change no priority but through mutexes, and that keep a run orderly. -/
def Call.KeepsPriorities (c : Call) : Prop := c.Steady ∧ c.isCreate = false

instance : DecidablePred Call.KeepsPriorities := fun _ => inferInstanceAs (Decidable (_ ∧ _))

theorem Machine.priority_start {cfg : Config} {i p : ℕ} (hi : cfg.priorities[i]? = some p) :
    ((Machine.start cfg).kernel.tcb (.tcb i)).priority = p := by
  change (cfg.created.schedStart.tcb (.tcb i)).priority = p
  rw [Kernel.tcb_schedStart]
  exact cfg.priority_created hi

theorem Machine.mutex_start (cfg : Config) (x : ℕ) : (Machine.start cfg).kernel.mutex x = {} :=
  cfg.fresh_created.mutex x

theorem Inherited.start (cfg : Config) :
    Inherited (fun t => ((Machine.start cfg).kernel.tcb t).priority) (Machine.start cfg).kernel := by
  have hsaved : ∀ t, (Machine.start cfg).kernel.savedPriority t = fun _ => none := by
    intro t
    funext x
    simp [Kernel.savedPriority, Machine.mutex_start]
  exact ⟨fun t => hsaved t ▸ .init _, fun x _ => by rw [Machine.mutex_start]⟩

/-- Whatever the tasks do with mutexes and the other calls, as long as no unlock drops the only
record of its owner's own priority: a task that owns no mutex has the priority it was created
with. -/
theorem priorityInheritance_undone (cfg : Config) {m : Machine} {out : List Obs}
    (h : Run.Reach Machine.step
      (fun m a => a.Within Call.KeepsPriorities ∧ m.UnlocksInOrder a) (Machine.start cfg) m out)
    {i p : ℕ} (hi : cfg.priorities[i]? = some p)
    (hno : ∀ x, (m.kernel.mutex x).task ≠ some (.tcb i)) :
    (m.kernel.tcb (.tcb i)).priority = p := by
  set base := fun t => ((Machine.start cfg).kernel.tcb t).priority
  have hord := Machine.orderly_of_steady
    (fun _ a (ha : a.Within Call.KeepsPriorities ∧ _) => ha.1.mono fun _ => And.left) h
  obtain ⟨L, -, hinh⟩ := Machine.orderly_induct (fun _ _ ha => ha.2)
    (I := fun m _ _ => Inherited base m.kernel) hord (.start cfg)
    fun hm _ hinh hok _ he _ => by
      have hno := Machine.not_createSection_of_reach (fun _ _ ha => ha.1.1.mono fun _ => And.right) hm
      exact hinh.step (he.priorityMove hno) hok.1.2
  have hnone : ∀ x, m.kernel.savedPriority (.tcb i) x = none := fun x =>
    if_neg fun hc => hno x hc.1
  rw [(hinh.restorable (.tcb i)).eq_base hnone]
  exact Machine.priority_start hi

/-- Task 0 waits for the mutex of task 1, which has become as urgent as task 0 and is about to
release it. -/
def elevatedOwner : Scenario where
  config := { priorities := [0, 1] }
  actions := [.call (.schedDelayMs 1), .exec, .exec, .pendSV, .call (.mutexLock 1), .exec,
    .clock 1, .tick 1, .pendSV, .exec, .call (.mutexLock 1), .exec, .exec, .pendSV,
    .call (.mutexUnlock 1), .exec]
  possible := by decide +kernel

/-- The release gives task 1 its own priority back. -/
theorem elevatedOwner_undone :
    (elevatedOwner.final.kernel.tcb (.tcb 1)).priority = 0 ∧
      ∃ m o, elevatedOwner.final.step .exec = some (m, o) ∧
        (m.kernel.tcb (.tcb 1)).priority = 1 := by
  have hprefix : Run.Reach Machine.step
      (fun m a => a.Within Call.KeepsPriorities ∧ m.UnlocksInOrder a)
      (Machine.start elevatedOwner.config) elevatedOwner.final elevatedOwner.reports := by
    have hpermitted : Run.Permitted Machine.step
        (fun m a => a.Within Call.KeepsPriorities ∧ m.releasing = none)
        (Machine.start elevatedOwner.config) elevatedOwner.actions := by decide +kernel
    refine (elevatedOwner.reach hpermitted).mono fun m _ a _ ha => ⟨ha.1, ?_⟩
    cases a with
    | exec =>
      intro x hx
      rw [ha.2] at hx
      cases hx
    | call | irq | pendSV | clock | tick => trivial
  have hone : ∀ {m out}, Run.Reach Machine.step
      (fun m a => a.Within Call.KeepsPriorities ∧ m.UnlocksInOrder a)
      (Machine.start elevatedOwner.config) m out →
      (∀ t x, Obs.mutexAcquired t x ∈ out → x = 1) →
      ∀ t x, (m.kernel.mutex x).task = some t → x = 1 :=
    fun h hout t x hx => hout t x
      ((Machine.owned_of_reach (fun _ _ ha => ha.1.mono fun _ => And.left) h).mem_reports hx)
  have hreports : elevatedOwner.reports = [.mutexAcquired (.tcb 1) 1] := by decide +kernel
  have howned := hone hprefix (by simp [hreports])
  have hrelease : elevatedOwner.final.UnlocksInOrder .exec := by
    intro x _ t v hv y u hyx hu
    have hx := howned t x (Kernel.savedPriority_eq_some.1 hv).1
    have hy := howned t y (Kernel.savedPriority_eq_some.1 hu).1
    exact absurd (hy.trans hx.symm) hyx
  have heffect : (elevatedOwner.final.step .exec).map
      (fun r => ((r.1.kernel.mutex 1).task, r.2)) =
        some (none, [.mutexReleased (.tcb 1) 1]) := by decide +kernel
  obtain ⟨⟨m, o⟩, hstep, he⟩ := Option.map_eq_some_iff.1 heffect
  obtain ⟨hfree, ho⟩ : (m.kernel.mutex 1).task = none ∧ o = [.mutexReleased (.tcb 1) 1] :=
    Prod.mk.inj he
  have hwithin : Action.exec.Within Call.KeepsPriorities := trivial
  have hreach : Run.Reach Machine.step
      (fun m a => a.Within Call.KeepsPriorities ∧ m.UnlocksInOrder a)
      (Machine.start elevatedOwner.config) m (elevatedOwner.reports ++ o) :=
    hprefix.step ⟨hwithin, hrelease⟩ hstep
  have hnone : ∀ x, (m.kernel.mutex x).task ≠ some (.tcb 1) := by
    intro x hx
    have hx1 := hone hreach (by simp [hreports, ho]) _ x hx
    rw [hx1, hfree] at hx
    cases hx
  exact ⟨by decide +kernel, m, o, hstep,
    priorityInheritance_undone elevatedOwner.config hreach (p := 1) rfl hnone⟩

/-- Task 2 holds the mutexes 1 and 2; task 1 comes to wait for the first and task 0 for the second,
each after a timeout on a mutex of its own; task 2 unlocks the first mutex first. -/
def unlockOutOfOrder : Scenario where
  config := { priorities := [0, 1, 2] }
  actions := [.call (.mutexLock 8), .exec, .call (.mutexLockTimeout 8 2), .exec, .exec, .exec,
    .exec, .pendSV, .call (.mutexLock 9), .exec, .call (.mutexLockTimeout 9 1), .exec, .exec, .exec,
    .exec, .pendSV, .call (.mutexLock 1), .exec, .call (.mutexLock 2), .exec,
    .clock 1, .tick 1, .pendSV, .exec, .call (.mutexLock 1), .exec, .exec, .pendSV,
    .clock 1, .tick 1, .pendSV, .exec, .call (.mutexLock 2), .exec, .exec, .pendSV,
    .call (.mutexUnlock 1), .exec, .exec, .pendSV, .exec, .exec, .call (.mutexLock 2), .exec,
    .exec, .pendSV, .call (.mutexUnlock 2), .exec, .exec]
  possible := by decide +kernel

/-- Task 2 then owns no mutex and is more urgent than it was created. -/
theorem priorityInheritance_kept_by_unlock_order :
    ∃ m out, Run.Reach Machine.step (fun _ a => a.Within fun c => c.family = some .mutex)
      (Machine.start unlockOutOfOrder.config) m out ∧
      unlockOutOfOrder.config.priorities[2]? = some 2 ∧
      (∀ x, (m.kernel.mutex x).task ≠ some (.tcb 2)) ∧
      (m.kernel.tcb (.tcb 2)).priority = 1 := by
  have hreach : Run.Reach Machine.step (fun _ a => a.Within fun c => c.family = some .mutex)
      (Machine.start unlockOutOfOrder.config) unlockOutOfOrder.final unlockOutOfOrder.reports :=
    unlockOutOfOrder.reach (by decide +kernel)
  have hown := Machine.owned_of_reach (fun _ _ ha => ha.mono fun _ => Call.steady_of_mutex) hreach
  have hreports : unlockOutOfOrder.reports =
      [.mutexAcquired (.tcb 0) 8, .mutexAcquired (.tcb 1) 9, .mutexAcquired (.tcb 2) 1,
        .mutexAcquired (.tcb 2) 2, .mutexReleased (.tcb 2) 1, .mutexAcquired (.tcb 1) 1,
        .mutexReleased (.tcb 2) 2] := by decide +kernel
  refine ⟨_, _, hreach, rfl, fun x hx => ?_, by decide +kernel⟩
  have hmem := hown.mem_reports hx
  rw [hreports] at hmem
  have hcases : x = 1 ∨ x = 2 := by simpa using hmem
  rcases hcases with rfl | rfl
  · revert hx
    decide +kernel
  · revert hx
    decide +kernel

end TamgaOs
