import TamgaOs.Properties.PriorityInheritance
import TamgaOs.Machine.Split
import TamgaOs.Library.Inversion

/-!
# Priority inversion behind a mutex

A task that blocks on a mutex raises its owner, and nobody else: neither the owner that the raised
owner waits for, nor a task that acquires the mutex while more urgent tasks are still linked; and
the unlock of one mutex writes back a priority that does not know the waiters of the others. There
is no inversion along the runs with whole ticks in which none of this matters.

## Main definitions

* `Kernel.WaitsFor w x`: the task `w` is in the wait list of the mutex `x`.
* `Kernel.AcquiresAhead`, `Kernel.RaisesAlone`, `Kernel.RestoresAhead`: the conditions on the three
  steps that change the owners or the priorities.
* `Machine.KeepsUrgency`: no step breaks its condition.

## Main results

* `PriorityMove.noInversion`: one step that meets its condition.
* `noPriorityInversion`: the owners are at least as urgent as the tasks that wait for them.
* `priorityInversion_along_chain`: a chain of two mutexes breaks this.
-/

namespace TamgaOs

namespace Kernel

variable (k : Kernel)

/-- The task `w` is linked in the wait list of the mutex `x`. -/
def WaitsFor (w : TaskPtr) (x : ℕ) : Prop := ∃ ws, k.Waiters (.mutex x) ws ∧ w ∈ ws

/-- The task `t` that acquires the mutex `x` is at least as urgent as the tasks that wait for it. -/
def AcquiresAhead (t : TaskPtr) (x : ℕ) : Prop :=
  (k.mutex x).task = none → ∀ w, k.WaitsFor w x → (k.tcb t).priority ≤ (k.tcb w).priority

/-- When the task `t` that blocks on the mutex `x` raises its owner, the owner does not wait for
another task that is less urgent than `t`. -/
def RaisesAlone (t : TaskPtr) (x : ℕ) : Prop :=
  ∀ owner, (k.mutex x).task = some owner → (k.tcb t).priority < (k.tcb owner).priority →
    ∀ y o, k.WaitsFor owner y → (k.mutex y).task = some o → o ≠ owner →
      (k.tcb o).priority ≤ (k.tcb t).priority

/-- The priority that the unlock of the mutex `x` writes back is at least as urgent as the tasks
that wait for another mutex of its owner. -/
def RestoresAhead (x : ℕ) : Prop :=
  ∀ t v, k.savedPriority t x = some v → ∀ y w, y ≠ x → (k.mutex y).task = some t →
    k.WaitsFor w y → v ≤ (k.tcb w).priority

end Kernel

/-- The mutex that a context is about to try. -/
def Ctl.tries : Ctl → Option ℕ
  | .mutex (.attempt x _ _) | .mutex (.trylock x) => some x
  | _ => none

/-- The mutex that a context is about to block on. -/
def Ctl.blocksOn : Ctl → Option ℕ
  | .mutex (.block x _) => some x
  | _ => none

/-- The step changes no owner and no priority in a way that lets a task wait for a less urgent
one. -/
def Machine.KeepsUrgency (m : Machine) : Action → Prop
  | .exec => ∀ t, m.active = some (.thread t) →
      (∀ x, (m.ctl (.thread t)).tries = some x → m.kernel.AcquiresAhead t x) ∧
      (∀ x, (m.ctl (.thread t)).blocksOn = some x → m.kernel.RaisesAlone t x) ∧
      ∀ x, (m.ctl (.thread t)).releases = some x → m.kernel.RestoresAhead x
  | _ => True

/-! ### Owners and priorities as functions -/

namespace Kernel

theorem owner_acquired (k : Kernel) (x : ℕ) (t : TaskPtr) :
    (fun y => ((k.modifyMutex x fun y => { y with task := some t }).mutex y).task) =
      Function.update (fun y => (k.mutex y).task) x (some t) := by
  funext y
  rw [mutex_modifyMutex, Function.update_apply]
  split_ifs <;> rfl

theorem owner_mutexElevate (k : Kernel) (x : ℕ) (owner t : TaskPtr) :
    (fun y => ((k.mutexElevate x owner t).mutex y).task) = fun y => (k.mutex y).task :=
  funext fun y => (k.mutex_mutexElevate x y owner t).1

theorem owner_mutexFreed (k : Kernel) (x : ℕ) :
    (fun y => ((k.mutexFreed x).mutex y).task) = Function.update (fun y => (k.mutex y).task) x none := by
  funext y
  rw [k.mutex_mutexFreed, Function.update_apply]
  split_ifs <;> rfl

/-- The unlock changes the priority of the owner only. -/
theorem priority_mutexFreed_owner {k : Kernel} {x : ℕ} {t : TaskPtr} (howner : (k.mutex x).task = some t) :
    (fun u => ((k.mutexFreed x).tcb u).priority) =
      Function.update (fun u => (k.tcb u).priority) t
        ((k.savedPriority t x).getD (k.tcb t).priority) := by
  funext u
  rw [k.priority_mutexFreed, Function.update_apply]
  split_ifs with hu
  · rw [hu]
  · have hnone : k.savedPriority u x = none :=
      if_neg fun hc => hu (Option.some.inj (hc.1.symm.trans howner))
    rw [hnone, Option.getD_none]

end Kernel

section Steps

variable {m m' : Machine} {L L' : WaitList → List TaskPtr} {a : Action}

theorem Sound.waitsFor_iff (hs : Sound m L) {w : TaskPtr} {x : ℕ} :
    m.kernel.WaitsFor w x ↔ w ∈ L (.mutex x) := by
  have hL := hs.coherent.waiters (.mutex x)
  refine ⟨?_, fun hw => ⟨_, hL, hw⟩⟩
  rintro ⟨ws, hws, hw⟩
  rwa [hws.unique hL] at hw

/-- The owners of the mutexes are at least as urgent as the tasks in the lists `L`. -/
def Kernel.MutexesInOrder (k : Kernel) (L : WaitList → List TaskPtr) : Prop :=
  NoInversion (fun x => (k.mutex x).task) (fun w x => w ∈ L (.mutex x))
    fun t => (k.tcb t).priority

theorem Kernel.MutexesInOrder.congr {k k' : Kernel} (h : k.MutexesInOrder L)
    (hm : k'.mutex = k.mutex) (hp : SamePriorities k k') : k'.MutexesInOrder L := by
  have hprio : (fun t => (k'.tcb t).priority) = fun t => (k.tcb t).priority := funext hp
  unfold MutexesInOrder
  rw [hm, hprio]
  exact h

/-- The owner of a mutex is raised, and then the task that has raised it is linked. -/
theorem Kernel.MutexesInOrder.block {k : Kernel} (h : k.MutexesInOrder L) {t owner : TaskPtr}
    {x : ℕ} (howner : (k.mutex x).task = some owner)
    (halone : (k.tcb t).priority < (k.tcb owner).priority → ∀ y o, owner ∈ L (.mutex y) →
      (k.mutex y).task = some o → o ≠ owner → (k.tcb o).priority ≤ (k.tcb t).priority)
    (hL : ∀ y w, w ∈ L' (.mutex y) → w ∈ L (.mutex y) ∨ (y = x ∧ w = t)) :
    (k.mutexElevate x owner t).MutexesInOrder L' := by
  have hprio : (fun u => ((k.mutexElevate x owner t).tcb u).priority) =
      Function.update (fun u => (k.tcb u).priority) owner
        (min (k.tcb owner).priority (k.tcb t).priority) := by
    funext u
    rw [k.priority_mutexElevate, Function.update_apply]
  unfold MutexesInOrder
  rw [k.owner_mutexElevate, hprio]
  refine (h.raise (min_le_left _ _) fun y o hwait ho hne => ?_).wait (x := x) (t := t)
    (fun o ho => ?_) fun w y hw => hL y w hw
  · have hold := h y o owner ho hwait
    rcases lt_or_ge (k.tcb t).priority (k.tcb owner).priority with hlt | hle
    · exact le_min hold (halone hlt y o hwait ho hne)
    · rwa [min_eq_left hle]
  · obtain rfl : owner = o := Option.some.inj (howner.symm.trans ho)
    rw [Function.update_self, Function.update_apply]
    split_ifs with hto
    · exact le_rfl
    · exact min_le_right _ _

/-- A mutex becomes free, and its owner gets the priority back that the mutex has recorded. -/
theorem Kernel.MutexesInOrder.freed {k : Kernel} (h : k.MutexesInOrder L) {t : TaskPtr} {x : ℕ}
    (howner : (k.mutex x).task = some t) (hidle : ∀ y, t ∉ L (.mutex y))
    (hahead : ∀ v, k.savedPriority t x = some v → ∀ y w, y ≠ x → (k.mutex y).task = some t →
      w ∈ L (.mutex y) → v ≤ (k.tcb w).priority) :
    (k.mutexFreed x).MutexesInOrder L := by
  unfold MutexesInOrder
  rw [k.owner_mutexFreed, priority_mutexFreed_owner howner]
  refine (h.release (x := x)).restore hidle fun y w hy hw => ?_
  rw [Function.update_apply] at hy
  split_ifs at hy with hyx
  cases hv : k.savedPriority t x with
  | none => exact h y t w hy hw
  | some v => exact hahead v hv y w hyx hy hw

/-- One step that meets its condition. -/
theorem PriorityMove.noInversion {out : List Obs} (hs : PriorityMove m L a m' L') (hsound : Sound m L)
    (hown : Owned m out) (hok : m.KeepsUrgency a) (h : m.kernel.MutexesInOrder L) :
    m'.kernel.MutexesInOrder L' := by
  cases hs with
  | keep hm hp hL => exact (h.congr hm hp).mono fun w y hw => hL y w hw
  | @acquire t x ha hact hc hfree hm hp hL =>
    subst ha hL
    have htries : (m.ctl (.thread t)).tries = some x := by
      rcases hc with ⟨d, retry, he⟩ | he <;> rw [he] <;> rfl
    have hahead := (hok t hact).1 x htries hfree
    refine Kernel.MutexesInOrder.congr (k := m.kernel.modifyMutex x fun y =>
      { y with task := some t }) ?_ hm hp
    unfold Kernel.MutexesInOrder
    rw [Kernel.owner_acquired]
    exact NoInversion.acquire h fun w hw => hahead w (hsound.waitsFor_iff.2 hw)
  | @block t owner x ha hact hc howner hm hp hL =>
    subst ha
    obtain ⟨timeout, hc⟩ := hc
    have halone := (hok t hact).2.1 x (by rw [hc]; rfl) owner howner
    exact (h.block howner (fun hlt y o hw => halone hlt y o (hsound.waitsFor_iff.2 hw)) hL).congr
      hm hp
  | @release t x ha hact hc hm hp hL =>
    subst ha
    have hahead := (hok t hact).2.2 x (by rw [hc]; rfl) t
    have hidle : ∀ y, t ∉ L (.mutex y) := by
      intro y ht
      have hw := (hsound.coherent.linked _ t ht).2
      rw [hc] at hw
      cases hw
    refine ((h.freed (hown.releasing t x (by rw [hc]; rfl)) hidle ?_).congr hm hp).mono
      fun w y hw => hL y w hw
    exact fun v hv y w hyx hy hw => hahead v hv y w hyx hy (hsound.waitsFor_iff.2 hw)

end Steps

/-! ### What holds on every run -/

/-- The runs with whole ticks in which no task acquires a mutex ahead of more urgent waiters, raises
an owner that waits for a less urgent one, or restores a priority that is less urgent than a waiter of
another of its mutexes. -/
theorem Machine.noInversion_of_reach {cfg : Config} {m : Machine} {out : List Obs}
    (h : Run.Reach Machine.step
      (fun m a => a.Within Call.KeepsPriorities ∧ m.KeepsUrgency a) (Machine.start cfg) m out)
    {x : ℕ} {owner w : TaskPtr} {ws : List TaskPtr} (howner : (m.kernel.mutex x).task = some owner)
    (hws : m.kernel.Waiters (.mutex x) ws) (hw : w ∈ ws) :
    (m.kernel.tcb owner).priority ≤ (m.kernel.tcb w).priority := by
  have hord := Machine.orderly_of_steady
    (fun _ a (ha : a.Within Call.KeepsPriorities ∧ _) => ha.1.mono fun _ => And.left) h
  have hinit : (Machine.start cfg).kernel.MutexesInOrder fun _ => [] :=
    fun _ _ _ _ hw => absurd hw List.not_mem_nil
  obtain ⟨L, hs, hinv⟩ := Machine.orderly_induct (fun _ _ ha => ha.2)
    (I := fun m L _ => m.kernel.MutexesInOrder L) hord hinit
    fun hm hs hinv hok _ he _ => by
      have hno := Machine.not_createSection_of_reach (fun _ _ ha => ha.1.1.mono fun _ => And.right) hm
      have hown := Machine.owned_of_reach (fun _ _ ha => ha.1.1.mono fun _ => And.left) hm
      exact (he.priorityMove hno).noInversion hs hown hok.1.2 hinv
  exact hinv x owner w howner (hs.waitsFor_iff.1 ⟨ws, hws, hw⟩)

/-- Whatever the tasks do with mutexes and the other calls, as long as nothing comes between the
statements of a tick and no task acquires a mutex ahead of more urgent waiters, raises an owner that
waits for a less urgent one, or restores a priority that is less urgent than a waiter of another of
its mutexes: the owner of every mutex is at least as urgent as every task that waits for it. -/
theorem noPriorityInversion (cfg : Config) {s : Split} {out : List Obs}
    (h : Run.Reach Split.step
      (Split.Whole fun m a => a.Within Call.KeepsPriorities ∧ m.KeepsUrgency a)
      (Split.start cfg) s out) (hs : s.ticking = false)
    {x : ℕ} {owner w : TaskPtr} {ws : List TaskPtr} (howner : (s.kernel.mutex x).task = some owner)
    (hws : s.kernel.Waiters (.mutex x) ws) (hw : w ∈ ws) :
    (s.kernel.tcb owner).priority ≤ (s.kernel.tcb w).priority :=
  Machine.noInversion_of_reach (Split.reach_machine h hs) howner hws hw

/-- The step tries no mutex that has waiters while it is free, blocks on none whose owner waits
itself, and unlocks none that is elevated. -/
def Machine.Unnested (m : Machine) : Action → Bool
  | .exec =>
    match m.active with
    | some (.thread t) =>
      match m.ctl (.thread t) with
      | .mutex (.attempt x _ _) | .mutex (.trylock x) =>
        (m.kernel.mutex x).task ≠ none ∨ m.kernel.head (.mutex x) = none
      | .mutex (.block x _) =>
        (m.kernel.mutex x).task.all fun owner => (m.ctl (.thread owner)).waitsOn = none
      | .mutex (.release x) => (m.kernel.mutex x).isElevated = false
      | _ => true
    | _ => true
  | _ => true

theorem Sound.keepsUrgency {m : Machine} {L : WaitList → List TaskPtr} {a : Action}
    (hs : Sound m L) (h : m.Unnested a = true) : m.KeepsUrgency a := by
  cases a with
  | exec =>
    intro t hact
    simp only [Machine.Unnested, hact] at h
    refine ⟨fun x hx hfree w hw => ?_, fun x hx owner howner _ y o hw _ _ => ?_,
      fun x hx u v hv => ?_⟩
    · have hhead : m.kernel.head (.mutex x) = none := by
        unfold Ctl.tries at hx
        split at hx <;> cases hx <;> simpa [*] using h
      obtain ⟨ws, hws, hmem⟩ := hw
      rw [(IntrusiveList.IsChain.head_eq_none_iff hws).1 hhead] at hmem
      cases hmem
    · unfold Ctl.blocksOn at hx
      split at hx
      · cases hx
        rename_i hc
        have hnone : (m.ctl (.thread owner)).waitsOn = none := by
          simpa [hc, howner] using h
        have hw' := (hs.coherent.linked _ owner (hs.waitsFor_iff.1 hw)).2
        rw [hnone] at hw'
        cases hw'
      · cases hx
    · unfold Ctl.releases at hx
      split at hx
      · cases hx
        rename_i hc
        have helev : (m.kernel.mutex x).isElevated = false := by simpa [hc] using h
        have hsaved := (Kernel.savedPriority_eq_some.1 hv).2.1
        rw [helev] at hsaved
        cases hsaved
      · cases hx
  | call | irq | pendSV | clock | tick => trivial

/-- In the run of `elevatedOwner` the owner is as urgent as the task that waits for it. -/
theorem elevatedOwner_noInversion :
    (elevatedOwner.final.kernel.mutex 1).task = some (.tcb 1) ∧
      elevatedOwner.final.kernel.Waiters (.mutex 1) [.tcb 0] ∧
      (elevatedOwner.final.kernel.tcb (.tcb 1)).priority ≤
        (elevatedOwner.final.kernel.tcb (.tcb 0)).priority := by
  have hunnested : Run.Reach Machine.step
      (fun m a => (a.Within Call.KeepsPriorities ∧ m.Unnested a = true) ∧ m.Timely a)
      (Machine.start elevatedOwner.config) elevatedOwner.final elevatedOwner.reports :=
    elevatedOwner.reach (by decide +kernel)
  have howner : (elevatedOwner.final.kernel.mutex 1).task = some (.tcb 1) := by decide +kernel
  have hwaiters : elevatedOwner.final.kernel.Waiters (.mutex 1) [.tcb 0] := by decide +kernel
  have hkeeps : Run.Reach Machine.step
      (fun m a => (a.Within Call.KeepsPriorities ∧ m.KeepsUrgency a) ∧ m.Timely a)
      (Machine.start elevatedOwner.config) elevatedOwner.final elevatedOwner.reports := by
    refine hunnested.mono fun m out a hm ha => ⟨⟨ha.1.1, ?_⟩, ha.2⟩
    have hord := Machine.orderly_of_steady
      (fun _ a (ha : (a.Within Call.KeepsPriorities ∧ _) ∧ _) => ha.1.1.mono fun _ => And.left) hm
    obtain ⟨L, hs⟩ := Machine.sound_of_reach (fun _ _ => And.right) hord
    exact hs.keepsUrgency ha.1.2
  obtain ⟨s, hs, hm, hreach⟩ := Split.exists_of_machine hkeeps
  rw [← hm] at howner hwaiters ⊢
  exact ⟨howner, hwaiters,
    noPriorityInversion elevatedOwner.config hreach hs howner hwaiters List.mem_cons_self⟩

/-- Task 1 owns the mutex 2 and waits for the mutex 1 of task 2, which has the same priority now;
task 0 comes to wait for the mutex 2. -/
def chainOfTwo : Scenario where
  config := { priorities := [0, 1, 2] }
  actions := [.call (.mutexLock 8), .exec, .call (.mutexLockTimeout 8 2), .exec, .exec, .exec,
    .exec, .pendSV, .call (.mutexLock 9), .exec, .call (.mutexLockTimeout 9 1), .exec, .exec, .exec,
    .exec, .pendSV, .call (.mutexLock 1), .exec, .clock 1, .tick 1, .pendSV, .exec,
    .call (.mutexLock 2), .exec, .call (.mutexLock 1), .exec, .exec, .pendSV,
    .clock 1, .tick 1, .pendSV, .exec, .call (.mutexLock 2), .exec, .exec]
  possible := by decide +kernel

/-- Task 1 is raised and task 2 is not. -/
theorem priorityInversion_along_chain :
    ∃ s out, Run.Reach Split.step (Split.Whole fun _ a => a.Within fun c => c.family = some .mutex)
      (Split.start chainOfTwo.config) s out ∧
      (s.kernel.mutex 1).task = some (.tcb 2) ∧ s.kernel.Waiters (.mutex 1) [.tcb 1] ∧
      (s.kernel.tcb (.tcb 1)).priority < (s.kernel.tcb (.tcb 2)).priority := by
  have hreach : Run.Reach Machine.step
      (fun m a => (a.Within fun c => c.family = some .mutex) ∧ m.Timely a)
      (Machine.start chainOfTwo.config) chainOfTwo.final chainOfTwo.reports :=
    chainOfTwo.reach (by decide +kernel)
  have howner : (chainOfTwo.final.kernel.mutex 1).task = some (.tcb 2) := by decide +kernel
  have hwaiters : chainOfTwo.final.kernel.Waiters (.mutex 1) [.tcb 1] := by decide +kernel
  have hlt : (chainOfTwo.final.kernel.tcb (.tcb 1)).priority <
      (chainOfTwo.final.kernel.tcb (.tcb 2)).priority := by decide +kernel
  obtain ⟨s, -, hm, hreach⟩ := Split.exists_of_machine hreach
  rw [← hm] at howner hwaiters hlt
  exact ⟨s, _, hreach, howner, hwaiters, hlt⟩

end TamgaOs
