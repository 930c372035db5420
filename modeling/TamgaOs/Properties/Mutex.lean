import TamgaOs.Machine.Orderly
import TamgaOs.Machine.Split

/-!
# Mutexes exclude, and a free mutex strands no waiter

Who holds a mutex is read off the reports of a run: a task holds it from a successful attempt to
the critical section of its unlock. The field `task` of the mutex agrees with this history, and
the tasks that are on their way through a lock call never own the mutex they ask for. An unlock that
comes between the statements of a tick which the idle task executes finds a waiter whose removal from the
list has begun, and breaks this.

## Main definitions

* `mutexHolders x out`: the tasks that hold the mutex `x` after the reports `out`.
* `Ctl.seeks`, `Ctl.releases`: the mutex that a context is about to acquire or to release.
* `OwnerMove m a m' o`: how one step changes the owners.
* `Owned m out`, `Machine.SeeksOthers`: the invariants.

## Main results

* `StepEffect.ownerMove`: every orderly step changes the owners in one of these ways.
* `mutex_excludes_and_covered`: with whole ticks, exclusion and no lost wake-up.
* `mutex_givenUp_linked`: an unlock within a tick breaks it.
-/

namespace TamgaOs

/-- The tasks that have acquired the mutex `x` and not released it since. -/
def mutexHolders (x : ℕ) (out : List Obs) : List TaskPtr :=
  out.foldl (fun ts b =>
    match b with
    | .mutexAcquired t m => if m = x then t :: ts else ts
    | .mutexReleased t m => if m = x then ts.erase t else ts
    | _ => ts) []

/-- The mutex that a context asks for, or that `mutex_lock_timeout` has just failed to get. -/
def Ctl.seeks : Ctl → Option ℕ
  | .mutex (.enter m _) | .mutex (.attempt m _ _) | .mutex (.clock m _) | .mutex (.block m _)
  | .mutex (.blocked m _) => some m
  | .mutex (.lockTimeoutReturned m v) => if v = -1 then some m else none
  | _ => none

/-- The mutex whose owner a context has found to be itself in `mutex_unlock`. -/
def Ctl.releases : Ctl → Option ℕ
  | .mutex (.release m) => some m
  | _ => none

/-- The mutex that a call locks, unless it is only tried. -/
def Call.locks : Call → Option ℕ
  | .mutexLock m | .mutexLockTimeout m _ => some m
  | _ => none

/-- The task that makes a call does not own the mutex that the call locks. -/
def Machine.LocksOthers (m : Machine) : Action → Prop
  | .call c =>
    match m.active, c.locks with
    | some (.thread t), some x => (m.kernel.mutex x).task ≠ some t
    | _, _ => True
  | _ => True

instance (m : Machine) : DecidablePred m.LocksOthers
  | .call c => by
    unfold Machine.LocksOthers
    dsimp only
    split
    · infer_instance
    · infer_instance
  | .exec | .irq _ | .pendSV | .clock _ | .tick _ => inferInstanceAs (Decidable True)

/-- The owner of every mutex is the one task that holds it according to the reports, and a task
that is about to release a mutex owns it. -/
structure Owned (m : Machine) (out : List Obs) : Prop where
  holders : ∀ x, mutexHolders x out = (m.kernel.mutex x).task.toList
  releasing : ∀ t x, (m.ctl (.thread t)).releases = some x → (m.kernel.mutex x).task = some t

/-- No task owns a mutex that it asks for. -/
def Machine.SeeksOthers (m : Machine) : Prop :=
  ∀ t x, (m.ctl (.thread t)).seeks = some x → (m.kernel.mutex x).task ≠ some t

section History

variable {x : ℕ} {out o : List Obs} {t : TaskPtr} {m : ℕ}

theorem mutexHolders_append_other (ho : ∀ b ∈ o, b.family ≠ .mutex) :
    mutexHolders x (out ++ o) = mutexHolders x out := by
  unfold mutexHolders
  rw [List.foldl_append]
  generalize out.foldl _ [] = ts
  induction o generalizing ts with
  | nil => rfl
  | cons b o ih =>
    have hb := ho b List.mem_cons_self
    have hid := ih fun b' hb' => ho b' (List.mem_cons_of_mem b hb')
    rw [List.foldl_cons]
    cases b <;> first | exact hid ts | exact absurd rfl hb

theorem mutexHolders_acquired :
    mutexHolders x (out ++ [.mutexAcquired t m]) =
      if m = x then t :: mutexHolders x out else mutexHolders x out := by
  simp [mutexHolders, List.foldl_append]

theorem mutexHolders_released :
    mutexHolders x (out ++ [.mutexReleased t m]) =
      if m = x then (mutexHolders x out).erase t else mutexHolders x out := by
  simp [mutexHolders, List.foldl_append]

theorem mem_of_mem_mutexHolders (h : t ∈ mutexHolders x out) : Obs.mutexAcquired t x ∈ out := by
  induction out using List.reverseRecOn with
  | nil => cases h
  | append_singleton out b ih =>
    by_cases hb : b.family = .mutex
    · cases b <;> cases hb
      · rename_i u m
        rw [mutexHolders_acquired] at h
        split_ifs at h with hm
        · rcases List.mem_cons.1 h with rfl | hmem
          · simp [hm]
          · exact List.mem_append_left _ (ih hmem)
        · exact List.mem_append_left _ (ih h)
      · rename_i u m
        rw [mutexHolders_released] at h
        split_ifs at h
        · exact List.mem_append_left _ (ih (List.mem_of_mem_erase h))
        · exact List.mem_append_left _ (ih h)
    · rw [mutexHolders_append_other (by simpa using hb)] at h
      exact List.mem_append_left _ (ih h)

end History

/-- How one step of a mutex call by the task `t` changes the owners: not at all, or by acquiring a
free mutex, or by releasing one. -/
theorem MutexEffect.owner_cases {k k' : Kernel} {L L' : WaitList → List TaskPtr} {t : TaskPtr}
    {c c' : MutexCtl} {o : List Obs} (he : MutexEffect k L t c k' c' L' o) :
    (o = [] ∧ (∀ u, (k'.mutex u).task = (k.mutex u).task) ∧
      ((Ctl.mutex c').seeks = (Ctl.mutex c).seeks ∨ (Ctl.mutex c').seeks = none) ∧
      ∀ x, (Ctl.mutex c').releases = some x → (k.mutex x).task = some t) ∨
    (∃ m, o = [.mutexAcquired t m] ∧ (k.mutex m).task = none ∧
      (∀ u, (k'.mutex u).task = if u = m then some t else (k.mutex u).task) ∧
      (Ctl.mutex c').seeks = none ∧ (Ctl.mutex c').releases = none) ∨
    ∃ m, (Ctl.mutex c).releases = some m ∧ o = [.mutexReleased t m] ∧
      (∀ u, (k'.mutex u).task = if u = m then none else (k.mutex u).task) ∧
      (Ctl.mutex c').seeks = none ∧ (Ctl.mutex c').releases = none := by
  have hacq : ∀ m u, ((k.modifyMutex m fun x => { x with task := some t }).mutex u).task =
      if u = m then some t else (k.mutex u).task := by
    intro m u
    rw [Kernel.mutex_modifyMutex]
    split_ifs <;> rfl
  have hrel : ∀ m u, ((k.mutexFreed m).mutex u).task =
      if u = m then none else (k.mutex u).task := by
    intro m u
    rw [Kernel.mutex_mutexFreed]
    split_ifs <;> rfl
  cases he with
  | enter | expired | read | reconsider | resume | timeout _ =>
    exact Or.inl ⟨rfl, fun _ => rfl, Or.inl rfl, fun x hx => by cases hx⟩
  | tryfail | acquired | refuse _ =>
    exact Or.inl ⟨rfl, fun _ => rfl, Or.inr rfl, fun x hx => by cases hx⟩
  | @retreat m d retry _ =>
    refine Or.inl ⟨rfl, fun _ => rfl, ?_, fun x hx => ?_⟩
    · cases d <;> exact Or.inl rfl
    · cases d <;> cases hx
  | block howner hq hmark =>
    refine Or.inl ⟨rfl, fun u => ?_, Or.inl rfl, fun x hx => by cases hx⟩
    rw [hq.mutex]
    exact (k.mutex_mutexElevate _ u _ t).1
  | unlock howner =>
    refine Or.inl ⟨rfl, fun _ => rfl, Or.inr rfl, fun x hx => ?_⟩
    cases hx
    exact howner
  | @acquire m d retry hfree =>
    refine Or.inr (Or.inl ⟨m, rfl, hfree, hacq m, ?_, ?_⟩) <;> cases d <;> rfl
  | trylock hfree => exact Or.inr (Or.inl ⟨_, rfl, hfree, hacq _, rfl, rfl⟩)
  | release hl => exact Or.inr (Or.inr ⟨_, rfl, rfl, hrel _, rfl, rfl⟩)
  | handOver hl hq =>
    refine Or.inr (Or.inr ⟨_, rfl, rfl, fun u => ?_, rfl, rfl⟩)
    rw [hq.mutex]
    exact hrel _ u

/-- How a step goes on in the mutex calls of the task `t`: it asks for what it asked for or for
nothing, or it starts a call; and it is about to release a mutex only if it owns it. -/
structure CtlMove (m : Machine) (a : Action) (t : TaskPtr) (c' : Ctl) : Prop where
  seeks : c'.seeks = (m.ctl (.thread t)).seeks ∨ c'.seeks = none ∨
    ∃ c, a = .call c ∧ m.active = some (.thread t) ∧ c'.seeks = c.locks
  releases : ∀ x, c'.releases = some x → (m.kernel.mutex x).task = some t

section Steps

variable {m m' : Machine} {out o : List Obs} {L L' : WaitList → List TaskPtr} {a : Action}

/-- How one step changes the owners: not at all, or the executing task acquires a free mutex, or it
releases one. -/
inductive OwnerMove (m : Machine) (a : Action) (m' : Machine) (o : List Obs) : Prop
  | keep (ho : ∀ b ∈ o, b.family ≠ .mutex)
      (hm : ∀ u, (m'.kernel.mutex u).task = (m.kernel.mutex u).task)
      (hctl : ∀ t, m'.ctl (.thread t) = m.ctl (.thread t) ∨ CtlMove m a t (m'.ctl (.thread t)))
  | acquire {t : TaskPtr} {x : ℕ} (ho : o = [.mutexAcquired t x])
      (hfree : (m.kernel.mutex x).task = none)
      (hm : ∀ u, (m'.kernel.mutex u).task = if u = x then some t else (m.kernel.mutex u).task)
      (hself : (m'.ctl (.thread t)).seeks = none ∧ (m'.ctl (.thread t)).releases = none)
      (hother : ∀ u, u ≠ t → m'.ctl (.thread u) = m.ctl (.thread u))
  | release {t : TaskPtr} {x : ℕ} (ho : o = [.mutexReleased t x])
      (hrel : (m.ctl (.thread t)).releases = some x)
      (hm : ∀ u, (m'.kernel.mutex u).task = if u = x then none else (m.kernel.mutex u).task)
      (hself : (m'.ctl (.thread t)).seeks = none ∧ (m'.ctl (.thread t)).releases = none)
      (hother : ∀ u, u ≠ t → m'.ctl (.thread u) = m.ctl (.thread u))

/-- A context outside the mutex calls goes on. -/
theorem OwnerMove.resume {x : Ctx} {k' : Kernel} {c' : Ctl} (hm : k'.mutex = m.kernel.mutex)
    (ho : ∀ b ∈ o, b.family ≠ .mutex) (hc' : c'.family ≠ some .mutex) :
    OwnerMove m a (m.resume x k' c') o := by
  refine .keep ho (fun u => by rw [Machine.kernel_resume, hm]) fun t => ?_
  by_cases ht : Ctx.thread t = x
  · subst ht
    rw [Machine.ctl_resume, Function.update_self]
    refine Or.inr ⟨Or.inr (Or.inl ?_), fun y hy => ?_⟩
    · cases c' <;> first | rfl | exact absurd rfl hc'
    · cases c' <;> first | cases hy | exact absurd rfl hc'
  · exact Or.inl (by rw [Machine.ctl_resume, Function.update_of_ne ht])

/-- How one step changes the owners. -/
theorem StepEffect.ownerMove (he : StepEffect m L a m' L' o) : OwnerMove m a m' o := by
  cases he with
  | @call c i hact hrest =>
    refine .keep (by simp) (fun _ => rfl) fun t => ?_
    by_cases ht : t = .tcb i
    · subst ht
      have hself : Function.update m.ctl (.thread (.tcb i)) c.entry (.thread (.tcb i)) = c.entry :=
        Function.update_self ..
      refine Or.inr ⟨Or.inr (Or.inr ⟨c, rfl, hact, ?_⟩), fun x hx => ?_⟩
      · dsimp only
        rw [hself]
        cases c <;> rfl
      · dsimp only at hx
        rw [hself] at hx
        cases c <;> cases hx
    · exact Or.inl (Function.update_of_ne (by simpa using ht) ..)
  | @irq c hsafe =>
    exact .keep (by simp) (fun _ => rfl) fun t => Or.inl (Machine.update_isr m.ctl m.depth c.entry t)
  | pendSV | clock => exact .keep (by simp) (fun _ => rfl) fun t => Or.inl rfl
  | tick he => exact .keep (by simp) (fun u => by rw [he.quiet.mutex]) fun t => Or.inl rfl
  | sem _ _ _ hu ho =>
    exact .resume (hu.mutex (by simp)) (fun b hb => by simp [ho b hb]) (by simp [Ctl.family])
  | queue _ _ he hu | event _ _ he hu =>
    exact .resume (hu.mutex (by simp)) (fun b hb => by simp [he.family b hb]) (by simp [Ctl.family])
  | sched _ _ hu _ => exact .resume (hu.mutex (by simp)) (by simp) (by simp [Ctl.family])
  | @mutex t c c' k' _ _ hx hc he hu _ =>
    have hself : (m.resume (.thread t) k' (.mutex c')).ctl (.thread t) = .mutex c' :=
      Function.update_self ..
    have hother : ∀ u, u ≠ t →
        (m.resume (.thread t) k' (.mutex c')).ctl (.thread u) = m.ctl (.thread u) := fun u hu =>
      Function.update_of_ne (by simpa using hu) ..
    rcases he.owner_cases with ⟨rfl, hm, hseek, hrel⟩ | ⟨x, rfl, hfree, hm, hseek⟩ |
      ⟨x, hc', rfl, hm, hseek⟩
    · refine .keep (by simp) hm fun u => ?_
      by_cases hu : u = t
      · subst hu
        rw [hself]
        refine Or.inr ⟨?_, hrel⟩
        rw [hc]
        exact hseek.imp_right Or.inl
      · exact Or.inl (hother u hu)
    · exact .acquire rfl hfree hm (by rw [hself]; exact hseek) hother
    · exact .release rfl (by rw [hc]; exact hc') hm (by rw [hself]; exact hseek) hother

theorem Owned.step (h : Owned m out) (hs : OwnerMove m a m' o) : Owned m' (out ++ o) := by
  cases hs with
  | keep ho hm hctl =>
    refine ⟨fun x => ?_, fun t x hx => ?_⟩
    · rw [mutexHolders_append_other ho, hm]
      exact h.holders x
    · rw [hm]
      rcases hctl t with he | hmove
      · exact h.releasing t x (he ▸ hx)
      · exact hmove.releases x hx
  | @acquire t x ho hfree hm hself hother =>
    subst ho
    refine ⟨fun y => ?_, fun u y hy => ?_⟩
    · rw [mutexHolders_acquired, h.holders, hm]
      by_cases hxy : y = x
      · subst hxy
        simp [hfree]
      · rw [if_neg (Ne.symm hxy), if_neg hxy]
    · have hut : u ≠ t := by
        rintro rfl
        rw [hself.2] at hy
        cases hy
      rw [hother u hut] at hy
      have hold := h.releasing u y hy
      rwa [hm, if_neg]
      rintro rfl
      rw [hfree] at hold
      cases hold
  | @release t x ho hrel hm hself hother =>
    subst ho
    have howner := h.releasing t x hrel
    refine ⟨fun y => ?_, fun u y hy => ?_⟩
    · rw [mutexHolders_released, h.holders, hm]
      by_cases hxy : y = x
      · subst hxy
        simp [howner]
      · rw [if_neg (Ne.symm hxy), if_neg hxy]
    · have hut : u ≠ t := by
        rintro rfl
        rw [hself.2] at hy
        cases hy
      rw [hother u hut] at hy
      have hold := h.releasing u y hy
      rwa [hm, if_neg]
      rintro rfl
      rw [howner] at hold
      exact hut (Option.some.inj hold).symm

theorem Machine.SeeksOthers.step (h : m.SeeksOthers) (hs : OwnerMove m a m' o)
    (hok : m.LocksOthers a) : m'.SeeksOthers := by
  intro u y hy
  cases hs with
  | keep ho hm hctl =>
    rw [hm]
    rcases hctl u with he | hmove
    · exact h u y (he ▸ hy)
    · rcases hmove.seeks with he | he | ⟨c, rfl, hact, he⟩
      · exact h u y (he ▸ hy)
      · rw [he] at hy
        cases hy
      · rw [he] at hy
        simpa only [Machine.LocksOthers, hact, hy] using hok
  | @acquire t x ho hfree hm hself hother =>
    have hut : u ≠ t := by
      rintro rfl
      rw [hself.1] at hy
      cases hy
    rw [hother u hut] at hy
    rw [hm]
    split_ifs
    · simpa using Ne.symm hut
    · exact h u y hy
  | @release t x ho hrel hm hself hother =>
    have hut : u ≠ t := by
      rintro rfl
      rw [hself.1] at hy
      cases hy
    rw [hother u hut] at hy
    rw [hm]
    split_ifs
    · simp
    · exact h u y hy

end Steps

/-- The owner of a mutex has reported that it acquired it. -/
theorem Owned.mem_reports {m : Machine} {out : List Obs} (h : Owned m out) {t : TaskPtr} {x : ℕ}
    (hx : (m.kernel.mutex x).task = some t) : Obs.mutexAcquired t x ∈ out := by
  refine mem_of_mem_mutexHolders ?_
  rw [h.holders, hx]
  exact List.mem_cons_self

theorem Owned.init (cfg : Config) : Owned (Machine.start cfg) [] := by
  refine ⟨fun x => ?_, fun t x hx => (Option.some_ne_none x hx.symm).elim⟩
  change _ = (cfg.created.mutex x).task.toList
  rw [cfg.fresh_created.mutex]
  rfl

/-- Along a run of steady calls the reports say who owns a mutex. -/
theorem Machine.owned_of_reach {cfg : Config} {ok : Machine → Action → Prop}
    (hok : ∀ m a, ok m a → a.Within Call.Steady) {m : Machine} {out : List Obs}
    (h : Run.Reach Machine.step ok (Machine.start cfg) m out) : Owned m out := by
  obtain ⟨L, -, hown⟩ := Machine.orderly_induct (fun _ _ ha => ha.2) (I := fun m _ out => Owned m out)
    (Machine.orderly_of_steady hok h) (Owned.init cfg)
    fun _ _ hown _ _ he _ => hown.step he.ownerMove
  exact hown

theorem Machine.seeksOthers_start (cfg : Config) : (Machine.start cfg).SeeksOthers :=
  fun _ x hx => (Option.some_ne_none x hx.symm).elim

/-- `mutex_unlock` by a task that does not own the mutex changes nothing. -/
theorem Machine.unlock_of_not_owner {m m' : Machine} {t : TaskPtr} {x : ℕ} {o : List Obs}
    (hact : m.active = some (.thread t)) (hc : m.ctl (.thread t) = .mutex (.unlock x))
    (hne : (m.kernel.mutex x).task ≠ some t) (hs : m.step .exec = some (m', o)) :
    m' = { m with ctl := Function.update m.ctl (.thread t) (.mutex (.unlocked x)) } ∧ o = [] := by
  obtain ⟨-, -, hcur⟩ := Machine.active_thread hact
  have hstep : mutexStep m.kernel t (.unlock x) = some (m.kernel, .unlocked x, []) := by
    simp only [mutexStep, if_neg hne]
  simp only [Machine.step, hact, hcur, hc, ctlStep, hstep, Option.map_some, Option.some.injEq,
    Prod.mk.injEq] at hs
  obtain ⟨rfl, rfl⟩ := hs
  exact ⟨rfl, rfl⟩

/-- The runs with whole ticks in which no task locks a mutex that it owns. -/
theorem Machine.excludes_of_reach {cfg : Config} {m : Machine} {out : List Obs}
    (h : Run.Reach Machine.step (fun m a => a.Within Call.Steady ∧ m.LocksOthers a)
      (Machine.start cfg) m out) (x : ℕ) :
    mutexHolders x out = (m.kernel.mutex x).task.toList ∧
    (∀ t m' o, m.active = some (.thread t) → m.ctl (.thread t) = .mutex (.unlock x) →
      (m.kernel.mutex x).task ≠ some t → m.step .exec = some (m', o) →
      m' = { m with ctl := Function.update m.ctl (.thread t) (.mutex (.unlocked x)) } ∧ o = []) ∧
    (∀ t, m.ctl (.thread t) = .mutex (.release x) → (m.kernel.mutex x).task = some t) ∧
    ((m.kernel.mutex x).task = none → m.NoLostWakeup (.mutex x) 1) ∧
    ∀ t, m.ctl (.thread t) = .mutex (.lockTimeoutReturned x (-1)) →
      (∀ xs, m.kernel.Waiters (.mutex x) xs → t ∉ xs) ∧ (m.kernel.mutex x).task ≠ some t := by
  have hord := Machine.orderly_of_steady (fun _ _ => And.left) h
  obtain ⟨L, hs, hown, hseek⟩ := Machine.orderly_induct (fun _ _ ha => ha.2)
    (I := fun m _ out => Owned m out ∧ m.SeeksOthers) hord
    ⟨Owned.init cfg, Machine.seeksOthers_start cfg⟩
    fun _ _ ⟨hown, hseek⟩ hok _ he _ =>
      ⟨hown.step he.ownerMove, hseek.step he.ownerMove hok.1.2⟩
  refine ⟨hown.holders x, fun t m' o => Machine.unlock_of_not_owner, fun t ht => ?_,
    fun hfree => ?_, fun t ht => ⟨fun xs hxs hmem => ?_, ?_⟩⟩
  · exact hown.releasing t x (by rw [ht]; rfl)
  · have hcov := hs.noLostWakeup (.mutex x)
    simpa only [avail, if_pos hfree] using hcov
  · rw [hxs.unique (hs.coherent.waiters (.mutex x))] at hmem
    have hw := (hs.coherent.linked _ t hmem).2
    rw [ht] at hw
    cases hw
  · exact hseek t x (by rw [ht]; rfl)

/-- Whatever the tasks do with mutexes and the other steady calls, as long as nothing comes between the
statements of a tick and no task locks a mutex that it owns: at most one task holds a mutex, and it is
the owner that the mutex names; an unlock by any other task changes nothing; while a free mutex has a
waiter, a task that has been popped will try again; and a task that gives up is neither linked nor the
owner. -/
theorem mutex_excludes_and_covered (cfg : Config) {s : Split} {out : List Obs}
    (h : Run.Reach Split.step (Split.Whole fun m a => a.Within Call.Steady ∧ m.LocksOthers a)
      (Split.start cfg) s out) (hs : s.ticking = false) (x : ℕ) :
    mutexHolders x out = (s.kernel.mutex x).task.toList ∧
    (∀ t s' o, s.machine.active = some (.thread t) →
      s.machine.ctl (.thread t) = .mutex (.unlock x) → (s.kernel.mutex x).task ≠ some t →
      s.step (.kernel .exec) = some (s', o) →
      s'.machine = { s.machine with
        ctl := Function.update s.machine.ctl (.thread t) (.mutex (.unlocked x)) } ∧ o = []) ∧
    (∀ t, s.machine.ctl (.thread t) = .mutex (.release x) → (s.kernel.mutex x).task = some t) ∧
    ((s.kernel.mutex x).task = none → s.machine.NoLostWakeup (.mutex x) 1) ∧
    ∀ t, s.machine.ctl (.thread t) = .mutex (.lockTimeoutReturned x (-1)) →
      (∀ xs, s.kernel.Waiters (.mutex x) xs → t ∉ xs) ∧ (s.kernel.mutex x).task ≠ some t := by
  obtain ⟨hholders, hunlock, hrest⟩ := Machine.excludes_of_reach (Split.reach_machine h hs) x
  exact ⟨hholders, fun t s' o hact hc hne hst => hunlock t s'.machine o hact hc hne
    (Split.kernel_step hst).1, hrest⟩

/-- Tasks 0 and 1 wait for the mutex of task 2, which unlocks it: task 0 has been popped and has not
run yet, and task 1 is still linked. -/
def freeWithWaiter : Scenario where
  config := { priorities := [0, 1, 2] }
  actions := [.call (.schedDelayMs 1), .exec, .exec, .pendSV, .call (.schedDelayMs 1), .exec,
    .exec, .pendSV, .call (.mutexLock 0), .exec, .clock 1, .tick 1, .pendSV, .exec,
    .call (.mutexLock 0), .exec, .exec, .pendSV, .call (.schedDelayMs 1), .exec, .exec, .pendSV,
    .exec, .call (.mutexLockTimeout 0 5), .exec, .exec, .exec, .exec, .pendSV, .clock 1, .tick 1,
    .pendSV, .exec, .call (.mutexUnlock 0), .exec, .exec]
  possible := by decide +kernel

theorem freeWithWaiter_excludes_and_covered :
    freeWithWaiter.final.kernel.head (.mutex 0) = some (.tcb 1) ∧
      mutexHolders 0 freeWithWaiter.reports = [] ∧
      freeWithWaiter.final.NoLostWakeup (.mutex 0) 1 := by
  have hfree : (freeWithWaiter.final.kernel.mutex 0).task = none := by decide +kernel
  have hhead : freeWithWaiter.final.kernel.head (.mutex 0) = some (.tcb 1) := by decide +kernel
  have hrun : Run.Reach Machine.step
      (fun m a => (a.Within Call.Steady ∧ m.LocksOthers a) ∧ m.Timely a)
      (Machine.start freeWithWaiter.config) freeWithWaiter.final freeWithWaiter.reports :=
    freeWithWaiter.reach (by decide +kernel)
  obtain ⟨s, hs, hm, hreach⟩ := Split.exists_of_machine hrun
  rw [← hm] at hfree hhead ⊢
  have h := mutex_excludes_and_covered freeWithWaiter.config hreach hs 0
  refine ⟨hhead, ?_, h.2.2.2.1 hfree⟩
  rw [h.1, hfree]
  rfl

/-- Task 0 locks the mutex and sleeps; task 1 waits for it, and task 2 behind task 1, with a timeout.
The idle task has slept for 1 ms; its tick expires task 2, has found task 1 in front of it, and is about
to store the link of task 1. `SysTick_Handler` wakes task 0, which unlocks the mutex and sleeps again;
task 1 locks it and sleeps. The idle task goes on, and task 2 returns. -/
def unlockWithinTick : SplitScenario where
  config := { priorities := [0, 1, 2] }
  actions :=
    [.kernel (.call (.mutexLock 0)), .kernel .exec, .kernel (.call (.schedDelayMs 2)), .kernel .exec,
      .kernel .exec, .kernel .pendSV, .kernel (.call (.mutexLock 0)), .kernel .exec, .kernel .exec,
      .kernel .pendSV, .kernel (.call (.mutexLockTimeout 0 1)), .kernel .exec, .kernel .exec,
      .kernel .exec, .kernel .exec, .kernel .pendSV, .kernel (.clock 1), .idleTick 1] ++
    List.replicate 11 .statement ++ [.kernel (.clock 1), .sysTick] ++ List.replicate 17 .statement ++
    [.kernel .pendSV, .kernel .exec, .kernel (.call (.mutexUnlock 0)), .kernel .exec, .kernel .exec,
      .kernel (.call (.schedDelayMs 5)), .kernel .exec, .kernel .exec, .kernel .pendSV, .kernel .exec,
      .kernel .exec, .kernel (.call (.schedDelayMs 5)), .kernel .exec, .kernel .exec, .kernel .pendSV] ++
    List.replicate 14 .statement ++ [.kernel .pendSV, .kernel .exec]
  possible := by decide +kernel

/-- Task 2 has given up and is still linked. -/
theorem mutex_givenUp_linked :
    ∃ s out, Run.Reach Split.step
      (fun s a => ∀ a' ∈ a.op, (a'.Within fun c => c.family = some .mutex ∨ c.family = some .sched) ∧
        s.machine.LocksOthers a')
      (Split.start unlockWithinTick.config) s out ∧ s.ticking = false ∧
      s.machine.ctl (.thread (.tcb 2)) = .mutex (.lockTimeoutReturned 0 (-1)) ∧
      s.kernel.Waiters (.mutex 0) [.tcb 2] := by
  have hret : unlockWithinTick.final.machine.ctl (.thread (.tcb 2)) =
      .mutex (.lockTimeoutReturned 0 (-1)) := by decide +kernel
  have hlist : unlockWithinTick.final.kernel.Waiters (.mutex 0) [.tcb 2] := by decide +kernel
  have hidle : unlockWithinTick.final.ticking = false := by decide +kernel
  have hreach : Run.Reach Split.step
      (fun s a => ∀ a' ∈ a.op, (a'.Within fun c => c.family = some .mutex ∨ c.family = some .sched) ∧
        s.machine.LocksOthers a')
      (Split.start unlockWithinTick.config) unlockWithinTick.final unlockWithinTick.reports :=
    unlockWithinTick.reach (by decide +kernel)
  generalize unlockWithinTick.final = s at hret hlist hidle hreach
  exact ⟨s, _, hreach, hidle, hret, hlist⟩

end TamgaOs
