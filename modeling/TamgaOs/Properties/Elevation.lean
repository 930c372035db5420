import TamgaOs.Properties.PriorityInversion

/-!
# Elevations and their causes

A task that blocks on a mutex raises the owner to its own priority, and `mutex_unlock` undoes this. A
waiter whose timeout expires leaves the wait list too, but `sched_tick_n` knows nothing of the
elevation: the owner stays as urgent as a task that has given up.

## Main definitions

* `Machine.SingleMutex`: every task owns at most one mutex, and none while it waits for another.
* `Machine.KeepsCause`: the condition on the ticks.
* `Kernel.RaisedByWaiters`: the invariant.

## Main results

* `StepEffect.raisedByWaiters`: one step that meets its condition.
* `elevation_hasCause`: an owner that is more urgent than it was created is as urgent as a waiter.
* `elevation_outlives_timeout`: a timeout breaks this.
-/

namespace TamgaOs

/-- Every task owns at most one mutex, and none while it is linked in the wait list of another. -/
def Machine.SingleMutex (m : Machine) : Prop :=
  ∀ t x, (m.kernel.mutex x).task = some t →
    ∀ y, (m.kernel.mutex y).task = some t ∨ m.kernel.WaitsFor t y → y = x

/-- The action leads to such a state again. -/
def Machine.StaysSingle (m : Machine) (a : Action) : Prop :=
  ∀ m' o, m.step a = some (m', o) → m'.SingleMutex

/-- A tick leaves, for every mutex that has elevated its owner, a waiter of the priority of the
owner. -/
def Machine.KeepsCause (m : Machine) : Action → Prop
  | .tick n => ∀ x owner, (m.kernel.mutex x).task = some owner → (m.kernel.mutex x).isElevated = true →
      ∃ w, m.kernel.WaitsFor w x ∧ (m.kernel.tcb w).priority = (m.kernel.tcb owner).priority ∧
        m.kernel.expires n w = false
  | _ => True

/-- An owner that is more urgent than its own priority `base` is as urgent as some task in the list of
its mutex. -/
def Kernel.RaisedByWaiters (base : TaskPtr → ℕ) (k : Kernel) (L : WaitList → List TaskPtr) : Prop :=
  RaisedByWaiter (fun x => (k.mutex x).task) (fun w x => w ∈ L (.mutex x)) base
    fun t => (k.tcb t).priority

section Steps

variable {m m' : Machine} {L L' : WaitList → List TaskPtr} {a : Action} {o : List Obs}
  {base : TaskPtr → ℕ} {k k' : Kernel}

/-- In such a state every unlock is in order. -/
theorem Machine.SingleMutex.unlocksInOrder (h : m.SingleMutex) (a : Action) : m.UnlocksInOrder a := by
  cases a with
  | exec =>
    intro x _ t v hv y u hyx hu
    have hx := (Kernel.savedPriority_eq_some.1 hv).1
    have hy := (Kernel.savedPriority_eq_some.1 hu).1
    exact absurd (h t x hx y (.inl hy)) hyx
  | call | irq | pendSV | clock | tick => trivial

/-- A task that owns no mutex has its own priority. -/
theorem Inherited.eq_base (h : Inherited base k) {t : TaskPtr} (hno : ∀ x, (k.mutex x).task ≠ some t) :
    (k.tcb t).priority = base t :=
  (h.restorable t).eq_base fun x => if_neg fun hc => hno x hc.1

/-- A mutex has elevated an owner that is more urgent than its own priority. -/
theorem Inherited.isElevated (h : Inherited base k) {t : TaskPtr} {x : ℕ}
    (hsingle : ∀ y, (k.mutex y).task = some t → y = x) (hlt : (k.tcb t).priority < base t) :
    (k.mutex x).isElevated = true := by
  by_contra helev
  refine hlt.ne ((h.restorable t).eq_base fun y => if_neg fun hc => helev ?_)
  rw [← hsingle y hc.1]
  exact hc.2

namespace Kernel.RaisedByWaiters

theorem congr (h : k.RaisedByWaiters base L) (hm : k'.mutex = k.mutex) (hp : SamePriorities k k') :
    k'.RaisedByWaiters base L := by
  have hprio : (fun t => (k'.tcb t).priority) = fun t => (k.tcb t).priority := funext hp
  unfold Kernel.RaisedByWaiters
  rw [hm, hprio]
  exact h

/-- No task leaves the list of a mutex that is owned. -/
theorem mono (h : k.RaisedByWaiters base L)
    (hL : ∀ w y, (k.mutex y).task ≠ none → w ∈ L (.mutex y) → w ∈ L' (.mutex y)) :
    k.RaisedByWaiters base L' :=
  RaisedByWaiter.mono h hL

/-- A free mutex is acquired by a task that owns no other. -/
theorem acquire (h : k.RaisedByWaiters base L) {t : TaskPtr} {x : ℕ} (ht : (k.tcb t).priority = base t) :
    (k.modifyMutex x fun y => { y with task := some t }).RaisedByWaiters base L := by
  unfold Kernel.RaisedByWaiters
  rw [k.owner_acquired]
  exact RaisedByWaiter.acquire h ht

/-- The owner of a mutex is raised, and the task that has raised it is linked. -/
theorem block (h : k.RaisedByWaiters base L) {t owner : TaskPtr} {x : ℕ}
    (howner : (k.mutex x).task = some owner) (howns : ∀ y, (k.mutex y).task = some owner → y = x)
    (hwaits : ∀ y, owner ∈ L' (.mutex y) → y = x) (hL : ∀ y w, w ∈ L (.mutex y) → w ∈ L' (.mutex y))
    (ht : t ∈ L' (.mutex x)) :
    (k.mutexElevate x owner t).RaisedByWaiters base L' := by
  have hgrown := h.mono fun w y _ hw => hL y w hw
  unfold Kernel.RaisedByWaiters
  rw [k.owner_mutexElevate]
  by_cases hlt : (k.tcb t).priority < (k.tcb owner).priority
  · have hprio : (fun u => ((k.mutexElevate x owner t).tcb u).priority) =
        Function.update (fun u => (k.tcb u).priority) owner (k.tcb t).priority := by
      funext u
      rw [k.priority_mutexElevate, Function.update_apply, min_eq_right hlt.le]
    have hto : t ≠ owner := by
      rintro rfl
      exact hlt.ne rfl
    rw [hprio]
    exact RaisedByWaiter.raise hgrown howns hwaits howner hto ht
  · have hprio : (fun u => ((k.mutexElevate x owner t).tcb u).priority) =
        fun u => (k.tcb u).priority := by
      funext u
      rw [k.priority_mutexElevate]
      split_ifs with hu
      · rw [hu, min_eq_left (not_lt.1 hlt)]
      · rfl
    rw [hprio]
    exact hgrown

/-- A mutex becomes free. -/
theorem freed (h : k.RaisedByWaiters base L) {t : TaskPtr} {x : ℕ} (howner : (k.mutex x).task = some t)
    (howns : ∀ y, (k.mutex y).task = some t → y = x) (hwaits : ∀ y, t ∈ L (.mutex y) → y = x)
    (hL : ∀ y w, y ≠ x → w ∈ L (.mutex y) → w ∈ L' (.mutex y)) :
    (k.mutexFreed x).RaisedByWaiters base L' := by
  unfold Kernel.RaisedByWaiters
  rw [k.owner_mutexFreed, priority_mutexFreed_owner howner]
  refine (RaisedByWaiter.release h howns hwaits _).mono fun w y hy hw => hL y w ?_ hw
  rintro rfl
  exact hy (Function.update_self ..)

end Kernel.RaisedByWaiters

/-- One step that meets its condition. -/
theorem StepEffect.raisedByWaiters {out : List Obs} (he : StepEffect m L a m' L' o) (hs : Sound m L)
    (hs' : Sound m' L') (hno : ∀ x priority, m.ctl x ≠ .sched (.createSection priority))
    (hinh : Inherited base m.kernel) (hown : Owned m out) (hsingle : m.SingleMutex)
    (hsingle' : m'.SingleMutex) (hok : m.KeepsCause a) (h : m.kernel.RaisedByWaiters base L) :
    m'.kernel.RaisedByWaiters base L' := by
  have hwaits : ∀ {t x y}, (m.kernel.mutex x).task = some t → t ∈ L (.mutex y) → y = x :=
    fun ht hmem => hsingle _ _ ht _ (.inr (hs.waitsFor_iff.2 hmem))
  have hother : ∀ {F : Family} {x : Ctx} {k' : Kernel}, Untouched F x m.kernel k' L L' →
      F ≠ .mutex → ∀ w y, (m.kernel.mutex y).task ≠ none → w ∈ L (.mutex y) → w ∈ L' (.mutex y) := by
    intro F x k' hu hF w y _ hw
    rwa [hu.lists (.mutex y) (Ne.symm hF)]
  have hfree : ∀ {t x}, (m.kernel.mutex x).task = none →
      m'.kernel = m.kernel.modifyMutex x (fun y => { y with task := some t }) →
      (m.kernel.tcb t).priority = base t := by
    intro t x hx hk
    refine hinh.eq_base fun y hy => ?_
    -- the task would own two mutexes
    have hyx : y ≠ x := by
      rintro rfl
      rw [hx] at hy
      cases hy
    have hx' : (m'.kernel.mutex x).task = some t := by
      rw [hk, Kernel.mutex_modifyMutex, if_pos rfl]
    have hy' : (m'.kernel.mutex y).task = some t := by
      rw [hk, Kernel.mutex_modifyMutex, if_neg hyx]
      exact hy
    exact hyx (hsingle' t x hx' y (.inl hy'))
  cases he with
  | call _ _ | irq _ | pendSV | clock => exact h
  | tick he =>
    intro x owner howner hlt
    dsimp only at howner hlt
    rw [he.quiet.mutex] at howner
    rw [he.quiet.priority] at hlt
    have hsame : ∀ y, (m.kernel.mutex y).task = some owner → y = x := fun y hy =>
      hsingle owner x howner y (.inl hy)
    obtain ⟨w, hw, hprio, hstays⟩ := hok x owner howner (hinh.isElevated hsame hlt)
    refine ⟨w, ?_, ?_⟩
    · dsimp only
      rw [he.lists, List.mem_filter]
      exact ⟨hs.waitsFor_iff.1 hw, by rw [hstays]; rfl⟩
    · dsimp only
      rw [he.quiet.priority, he.quiet.priority]
      exact hprio
  | sem _ _ _ hu _ | queue _ _ _ hu | event _ _ _ hu =>
    exact (h.mono (hother hu (by simp))).congr (hu.mutex (by simp))
      (hu.priority (by simp) (by simp))
  | sched hx hc hu hst =>
    obtain ⟨hq, -⟩ := schedStep_quiet hst fun priority he => hno _ priority (by rw [hc, he])
    exact h.congr hq.mutex hq.priority
  | @mutex t c c' k' _ _ hx hc he hu hact =>
    cases he with
    | enter | expired | read | reconsider | resume | tryfail | unlock _ | refuse _ | retreat _ => exact h
    | timeout _ | acquired =>
      refine h.congr rfl fun u => ?_
      rw [Machine.kernel_resume, Kernel.modifyTask_tcb]
      split_ifs with hu
      · rw [hu]
      · rfl
    | acquire hx | trylock hx => exact h.acquire (hfree hx rfl)
    | @block x timeout owner _ howner hq hmark =>
      have howner' : (k'.mutex x).task = some owner := by
        rw [hq.mutex, (m.kernel.mutex_mutexElevate x x owner _).1]
        exact howner
      refine (h.block howner (fun y hy => hsingle owner x howner y (.inl hy)) (fun y hy => ?_)
        (fun y w hw => ?_) ?_).congr hq.mutex hq.priority
      · exact hsingle' owner x howner' y (.inr (hs'.waitsFor_iff.2 hy))
      · rw [Function.update_apply]
        split_ifs with hyx
        · cases hyx
          exact Kernel.mem_enqueued.2 (.inr hw)
        · exact hw
      · rw [Function.update_self]
        exact Kernel.mem_enqueued.2 (.inl rfl)
    | @release x hl =>
      have howner := hown.releasing _ x (by rw [hc]; rfl)
      exact h.freed howner (fun y hy => hsingle _ x howner y (.inl hy)) (fun y => hwaits howner)
        fun _ _ _ => id
    | @handOver x w xs _ hl hq =>
      have howner := hown.releasing _ x (by rw [hc]; rfl)
      refine (h.freed howner (fun y hy => hsingle _ x howner y (.inl hy)) (fun y => hwaits howner)
        fun y w hyx hw => ?_).congr hq.mutex hq.priority
      rwa [Function.update_of_ne (by simpa using hyx)]

end Steps

/-! ### What holds on every run -/

/-- The runs with whole ticks in which every task owns at most one mutex, and none while it waits for
another, and no tick expires the last waiter that an elevated owner has its priority from. -/
theorem Machine.hasCause_of_reach {cfg : Config} {m : Machine} {out : List Obs}
    (h : Run.Reach Machine.step
      (fun m a => a.Within Call.KeepsPriorities ∧ m.StaysSingle a ∧ m.KeepsCause a)
      (Machine.start cfg) m out) {i p x : ℕ} (hi : cfg.priorities[i]? = some p)
    (howner : (m.kernel.mutex x).task = some (.tcb i)) (hlt : (m.kernel.tcb (.tcb i)).priority < p) :
    ∃ ws w, m.kernel.Waiters (.mutex x) ws ∧ w ∈ ws ∧
      (m.kernel.tcb w).priority = (m.kernel.tcb (.tcb i)).priority := by
  set base := fun t => ((Machine.start cfg).kernel.tcb t).priority
  have hraised : (Machine.start cfg).kernel.RaisedByWaiters base fun _ => [] := by
    intro x o ho
    dsimp only at ho
    rw [Machine.mutex_start] at ho
    cases ho
  have hsingle : (Machine.start cfg).SingleMutex := by
    intro t x ht
    rw [Machine.mutex_start] at ht
    cases ht
  have hord := Machine.orderly_of_steady
    (fun _ a (ha : a.Within Call.KeepsPriorities ∧ _) => ha.1.mono fun _ => And.left) h
  obtain ⟨L, hs, hraised, -, -⟩ := Machine.orderly_induct (fun _ _ ha => ha.2)
    (I := fun m L _ => m.kernel.RaisedByWaiters base L ∧ Inherited base m.kernel ∧ m.SingleMutex) hord
    ⟨hraised, .start cfg, hsingle⟩
    fun {m} _ {a m'} _ _ {o} hm hs ⟨hraised, hinh, hsingle⟩ hok hstep he hs' => by
      have hown := Machine.owned_of_reach (fun _ _ ha => ha.1.1.mono fun _ => And.left) hm
      have hno := Machine.not_createSection_of_reach (fun _ _ ha => ha.1.1.mono fun _ => And.right) hm
      have hsingle' := hok.1.2.1 m' o hstep
      exact ⟨he.raisedByWaiters hs hs' hno hinh hown hsingle hsingle' hok.1.2.2 hraised,
        hinh.step (he.priorityMove hno) (hsingle.unlocksInOrder a), hsingle'⟩
  obtain ⟨w, hw, hprio⟩ := hraised x (.tcb i) howner (hlt.trans_eq (Machine.priority_start hi).symm)
  exact ⟨_, w, hs.coherent.waiters (.mutex x), hw, hprio⟩

/-- Whatever the tasks do with mutexes and the other calls, as long as nothing comes between the
statements of a tick, every task owns at most one mutex, and none while it waits for another, and no
tick expires the last waiter that an elevated owner has its priority from: an owner that is more urgent
than it was created is exactly as urgent as some task that is linked in the wait list of its mutex. -/
theorem elevation_hasCause (cfg : Config) {s : Split} {out : List Obs}
    (h : Run.Reach Split.step
      (Split.Whole fun m a => a.Within Call.KeepsPriorities ∧ m.StaysSingle a ∧ m.KeepsCause a)
      (Split.start cfg) s out) (hs : s.ticking = false) {i p x : ℕ} (hi : cfg.priorities[i]? = some p)
    (howner : (s.kernel.mutex x).task = some (.tcb i)) (hlt : (s.kernel.tcb (.tcb i)).priority < p) :
    ∃ ws w, s.kernel.Waiters (.mutex x) ws ∧ w ∈ ws ∧
      (s.kernel.tcb w).priority = (s.kernel.tcb (.tcb i)).priority :=
  Machine.hasCause_of_reach (Split.reach_machine h hs) hi howner hlt

/-! ### Runs on one mutex -/

/-- The call is about no other mutex than `x`. -/
def Call.OnMutex (x : ℕ) (c : Call) : Prop :=
  match c.entry with
  | .mutex c => c.index = x
  | _ => True

instance (x : ℕ) : DecidablePred (Call.OnMutex x) := fun c => by
  unfold Call.OnMutex
  split <;> infer_instance

theorem MutexCtl.index_mutexStep {k k' : Kernel} {t : TaskPtr} {c c' : MutexCtl} {o : List Obs}
    (h : mutexStep k t c = some (k', c', o)) : c'.index = c.index := by
  cases c with
  | attempt x d retry =>
    simp only [mutexStep] at h
    split at h <;> cases h <;> rfl
  | block x timeout =>
    simp only [mutexStep] at h
    split at h <;> cases h <;> rfl
  | trylock x =>
    simp only [mutexStep] at h
    split at h <;> cases h <;> rfl
  | clock x d | blocked x d | unlock x =>
    simp only [mutexStep] at h
    split_ifs at h <;> cases h <;> rfl
  | enter | acquired | release | locked | lockTimeoutReturned | trylocked | unlocked => cases h <;> rfl

/-- A mutex that no context is in a call of stays as it is. -/
theorem StepEffect.mutex_frame {m m' : Machine} {L L' : WaitList → List TaskPtr} {a : Action} {o : List Obs}
    {y : ℕ} (he : StepEffect m L a m' L' o)
    (hno : ∀ x priority, m.ctl x ≠ .sched (.createSection priority))
    (hy : ∀ t c, m.ctl (.thread t) = .mutex c → y ≠ c.index) : m'.kernel.mutex y = m.kernel.mutex y := by
  cases he with
  | call _ _ | irq _ | pendSV | clock => rfl
  | tick he => exact congrFun he.quiet.mutex y
  | sem _ _ _ hu _ | queue _ _ _ hu | event _ _ _ hu => exact congrFun (hu.mutex (by simp)) y
  | sched _ hc _ hst =>
    obtain ⟨hq, -⟩ := schedStep_quiet hst fun priority he => hno _ priority (by rw [hc, he])
    exact congrFun hq.mutex y
  | mutex _ hc he _ _ => exact (he.frame (hy _ _ hc)).1

/-- In a run whose mutex calls are all about `x` no other mutex is ever owned or waited for. -/
theorem Machine.oneMutex_of_reach {cfg : Config} {ok : Machine → Action → Prop} {x : ℕ}
    (hok : ∀ m a, ok m a → a.Within Call.KeepsPriorities ∧ a.Within (Call.OnMutex x)) {m : Machine}
    {out : List Obs} (h : Run.Reach Machine.step ok (Machine.start cfg) m out) :
    (∀ y t, (m.kernel.mutex y).task = some t → y = x) ∧ ∀ y t, m.kernel.WaitsFor t y → y = x := by
  have hctl : ∀ {m out}, Run.Reach Machine.step ok (Machine.start cfg) m out →
      ∀ y c, m.ctl y = .mutex c → c.index = x := by
    intro m out h y
    refine Machine.ctl_of_reach (P := Call.OnMutex x) (S := fun c => ∀ u, c = .mutex u → u.index = x)
      (fun m a ha => (hok m a ha).2) (by simp) (fun c hc u hu => ?_) (fun k t c k' c' o hc hs u hu => ?_) h y
    · simpa only [Call.OnMutex, hu] using hc
    · subst hu
      cases c with
      | app => cases hs
      | mutex c =>
        obtain ⟨⟨k₁, c₁, o₁⟩, hs, he⟩ := Option.map_eq_some_iff.1 hs
        cases he
        rw [MutexCtl.index_mutexStep hs]
        exact hc c rfl
      | sem c | queue c | event c | notify c | sched c =>
        obtain ⟨_, -, he⟩ := Option.map_eq_some_iff.1 hs
        cases he
  have hord := Machine.orderly_of_steady (fun m a ha => (hok m a ha).1.mono fun _ => And.left) h
  obtain ⟨L, hs, hothers⟩ := Machine.orderly_induct (fun _ _ ha => ha.2)
    (I := fun m _ _ => ∀ y t, (m.kernel.mutex y).task = some t → y = x) hord
    (fun y t ht => by rw [Machine.mutex_start] at ht; cases ht)
    fun {m} _ _ _ _ {out} _ hm _ hothers _ _ he _ y t ht => by
      have hno := Machine.not_createSection_of_reach
        (fun m a ha => (hok m a ha.1).1.mono fun _ => And.right) hm
      by_contra hne
      have hback : Run.Reach Machine.step ok (Machine.start cfg) m out := hm.mono fun _ _ _ _ ha => ha.1
      rw [he.mutex_frame hno fun u c hc => (hctl hback _ c hc).symm ▸ hne] at ht
      exact hne (hothers y t ht)
  refine ⟨hothers, fun y t hy => ?_⟩
  have hw := (hs.coherent.linked _ t (hs.waitsFor_iff.1 hy)).2
  have hF := Ctl.family_of_waitsOn hw
  cases hc : m.ctl (.thread t) with
  | mutex c =>
    rw [hc] at hw
    rw [MutexCtl.eq_index_of_waitsOn hw, hctl h _ c hc]
  | app | sem c | queue c | event c | notify c | sched c =>
    rw [hc] at hF
    cases hF

theorem Machine.singleMutex_of_oneMutex {cfg : Config} {ok : Machine → Action → Prop} {x : ℕ}
    (hok : ∀ m a, ok m a → a.Within Call.KeepsPriorities ∧ a.Within (Call.OnMutex x)) {m : Machine}
    {out : List Obs} (h : Run.Reach Machine.step ok (Machine.start cfg) m out) : m.SingleMutex := by
  obtain ⟨howns, hwaits⟩ := Machine.oneMutex_of_reach hok h
  rintro t y ht z (hz | hz)
  · rw [howns z t hz, howns y t ht]
  · rw [hwaits z t hz, howns y t ht]

/-- At a tick the mutex `x` is not elevated. -/
def Machine.Unelevated (x : ℕ) (m : Machine) : Action → Prop
  | .tick _ => (m.kernel.mutex x).isElevated = false
  | _ => True

instance (x : ℕ) (m : Machine) : DecidablePred (m.Unelevated x)
  | .tick _ => inferInstanceAs (Decidable (_ = _))
  | .call _ | .exec | .irq _ | .pendSV | .clock _ => inferInstanceAs (Decidable True)

/-- In the run of `elevatedOwner` the owner is as urgent as the task that waits for it. -/
theorem elevatedOwner_hasCause :
    (elevatedOwner.final.kernel.tcb (.tcb 1)).priority < 1 ∧
      ∃ ws w, elevatedOwner.final.kernel.Waiters (.mutex 1) ws ∧ w ∈ ws ∧
        (elevatedOwner.final.kernel.tcb w).priority =
          (elevatedOwner.final.kernel.tcb (.tcb 1)).priority := by
  have hrun : Run.Reach Machine.step
      (fun m a => (a.Within Call.KeepsPriorities ∧ a.Within (Call.OnMutex 1)) ∧ m.Unelevated 1 a ∧
        m.Timely a)
      (Machine.start elevatedOwner.config) elevatedOwner.final elevatedOwner.reports :=
    elevatedOwner.reach (by decide +kernel)
  have hlt : (elevatedOwner.final.kernel.tcb (.tcb 1)).priority < 1 := by decide +kernel
  have howner : (elevatedOwner.final.kernel.mutex 1).task = some (.tcb 1) := by decide +kernel
  have hkeeps : Run.Reach Machine.step
      (fun m a => (a.Within Call.KeepsPriorities ∧ m.StaysSingle a ∧ m.KeepsCause a) ∧ m.Timely a)
      (Machine.start elevatedOwner.config) elevatedOwner.final elevatedOwner.reports := by
    refine hrun.mono fun m out a hm ha => ⟨⟨ha.1.1, fun m' o hstep => ?_, ?_⟩, ha.2.2⟩
    · exact Machine.singleMutex_of_oneMutex (fun _ _ => And.left) (hm.step ha hstep)
    · cases a with
      | tick n =>
        intro y owner howner helev
        rw [(Machine.oneMutex_of_reach (fun _ _ => And.left) hm).1 y owner howner] at helev
        rw [show (m.kernel.mutex 1).isElevated = false from ha.2.1] at helev
        cases helev
      | call | exec | irq | pendSV | clock => trivial
  obtain ⟨s, hs, hm, hreach⟩ := Split.exists_of_machine hkeeps
  rw [← hm] at howner hlt ⊢
  exact ⟨hlt, elevation_hasCause elevatedOwner.config hreach hs (i := 1) rfl howner hlt⟩

/-- Task 1 owns the mutex and is elevated by task 0, whose timeout then expires. -/
def timeoutAfterElevation : Scenario where
  config := { priorities := [0, 1] }
  actions := [.call (.schedDelayMs 1), .exec, .exec, .pendSV, .call (.mutexLock 1), .exec,
    .clock 1, .tick 1, .pendSV, .exec, .call (.mutexLockTimeout 1 3), .exec, .exec, .exec, .exec,
    .pendSV, .clock 1, .tick 1, .clock 1, .tick 1, .clock 1, .tick 1]
  possible := by decide +kernel

/-- Task 1 stays as urgent as task 0, and no task waits for the mutex. -/
theorem elevation_outlives_timeout :
    ∃ s out, Run.Reach Split.step
      (Split.Whole fun m a =>
        (a.Within fun c => c.family = some .mutex ∨ c = .schedDelayMs 1) ∧ m.StaysSingle a)
      (Split.start timeoutAfterElevation.config) s out ∧
      timeoutAfterElevation.config.priorities[1]? = some 1 ∧
      (s.kernel.mutex 1).task = some (.tcb 1) ∧ (s.kernel.tcb (.tcb 1)).priority = 0 ∧
      s.kernel.Waiters (.mutex 1) [] := by
  have hrun : Run.Reach Machine.step
      (fun m a => (a.Within Call.KeepsPriorities ∧ a.Within (Call.OnMutex 1)) ∧
        (a.Within fun c => c.family = some .mutex ∨ c = .schedDelayMs 1) ∧ m.Timely a)
      (Machine.start timeoutAfterElevation.config) timeoutAfterElevation.final
      timeoutAfterElevation.reports := timeoutAfterElevation.reach (by decide +kernel)
  have howner : (timeoutAfterElevation.final.kernel.mutex 1).task = some (.tcb 1) := by
    decide +kernel
  have hprio : (timeoutAfterElevation.final.kernel.tcb (.tcb 1)).priority = 0 := by decide +kernel
  have hnone : timeoutAfterElevation.final.kernel.Waiters (.mutex 1) [] := by decide +kernel
  have hstays : Run.Reach Machine.step
      (fun m a => ((a.Within fun c => c.family = some .mutex ∨ c = .schedDelayMs 1) ∧
        m.StaysSingle a) ∧ m.Timely a)
      (Machine.start timeoutAfterElevation.config) timeoutAfterElevation.final
      timeoutAfterElevation.reports := by
    refine hrun.mono fun m out a hm ha => ⟨⟨ha.2.1, fun m' o hstep => ?_⟩, ha.2.2⟩
    exact Machine.singleMutex_of_oneMutex (fun _ _ => And.left) (hm.step ha hstep)
  obtain ⟨s, -, hm, hreach⟩ := Split.exists_of_machine hstays
  rw [← hm] at howner hprio hnone
  exact ⟨s, _, hreach, rfl, howner, hprio, hnone⟩

end TamgaOs
