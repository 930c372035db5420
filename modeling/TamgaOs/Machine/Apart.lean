import TamgaOs.Machine.Delays

/-!
# Tasks outside the wait lists

A task that no wait list leads to, and that no context has popped, is woken by a notification only:
what the other tasks and the handlers do to the lists keeps it out of them. This holds whatever else
the lists look like, and whether or not they end.

## Main definitions

* `Kernel.Reached k t`: following the links from the head of some wait list leads to `t`.
* `Bypasses t k k'`: the stores from `k` to `k'` lead no list to `t`, leave a pending notification of
  `t` pending and a pended context switch pended.
* `Machine.Apart m t`: no list leads to `t`, and no context has popped it.

## Main results

* `ctlStep_bypasses`, `Machine.bypasses_of_step`: the steps of the others.
* `Ctl.reached_of_wakes`, `Ctl.wake_of_mem_schedOps`: whom a step pops and wakes.
* `Machine.Apart.step`: the steps of the others keep a task apart.
-/

namespace TamgaOs

open IntrusiveList

namespace Kernel

/-- Some wait list leads to the task. -/
def Reached (k : Kernel) (t : TaskPtr) : Prop := IntrusiveList.Reached k.waitNext k.head t

/-- No wait list leads out of `P`. -/
def Closed (k : Kernel) (P : Set TaskPtr) : Prop := IntrusiveList.Closed k.waitNext k.head P

variable {k k' : Kernel} {t u : TaskPtr} {l : WaitList} {P : Set TaskPtr}

theorem closed_reached (k : Kernel) : k.Closed {t | k.Reached t} :=
  IntrusiveList.closed_reached k.waitNext k.head

theorem Closed.congr (h : k.Closed P) (hnext : k'.waitNext = k.waitNext) (hhead : k'.head = k.head) :
    k'.Closed P := by
  unfold Closed at h ⊢
  rwa [hnext, hhead]

theorem Closed.setWaitNext (h : k.Closed P) {n : Option TaskPtr}
    (hn : u ∈ P → ∀ v, n = some v → v ∈ P) : (k.setWaitNext u n).Closed P := by
  unfold Closed
  rw [waitNext_setWaitNext]
  exact h.setNext hn

theorem Closed.setHead (h : k.Closed P) {n : Option TaskPtr} (hn : ∀ v, n = some v → v ∈ P) :
    (k.setHead l n).Closed P :=
  h.setRoot hn

/-- Stores to a control block. The link is left alone or cleared. -/
theorem Closed.modifyTask (h : k.Closed P) (u : TaskPtr) {f : Task → Task}
    (hf : ∀ x, (f x).waitNext = x.waitNext ∨ (f x).waitNext = none) :
    (k.modifyTask u f).Closed P := by
  refine ⟨h.root, fun v hv w hw => ?_⟩
  unfold waitNext at hw
  rw [modifyTask_tcb] at hw
  split_ifs at hw with hvu
  · subst hvu
    rcases hf (k.tcb v) with he | he
    · rw [he] at hw
      exact h.next v hv w hw
    · rw [he] at hw
      cases hw
  · exact h.next v hv w hw

theorem Closed.of_rescheduled (h : k.Closed P) (hk : Rescheduled k k') : k'.Closed P :=
  h.congr hk.waitNext hk.head

theorem Closed.schedWakeTask (h : k.Closed P) (u : TaskPtr) : (k.schedWakeTask u).Closed P := by
  have hwake : (k.wakeSection u).Closed P :=
    (h.modifyTask u (f := fun x => { x with waitNext := none, delayTicks := 0, state := .ready })
      fun _ => Or.inr rfl).of_rescheduled rescheduled_schedPickAndMark
  unfold Kernel.schedWakeTask triggerIfSwitch
  split_ifs
  · exact hwake
  · exact hwake

/-- `wq_insert` adds its task at most to what the lists lead to. -/
theorem Closed.wqInsert (h : k.Closed P) (hk : k.wqInsert l u = some k') :
    k'.Closed (insert u P) := by
  have hself : u ∈ insert u P := Set.mem_insert u P
  have hself' : ∀ v, some u = some v → v ∈ insert u P := by
    rintro v ⟨⟩
    exact hself
  have hclear : (k.setWaitNext u none).Closed (insert u P) := by
    refine IntrusiveList.Closed.insert (h.setWaitNext fun _ => nofun) fun v hv => ?_
    rw [waitNext_setWaitNext, Function.update_self] at hv
    cases hv
  unfold Kernel.wqInsert Kernel.wqInsertWithin at hk
  dsimp only at hk
  split at hk
  · cases hk
    exact hclear.setHead hself'
  · rename_i hd hhead
    split_ifs at hk
    · cases hk
      refine (hclear.setWaitNext fun _ v hv => ?_).setHead hself'
      cases hv
      exact hclear.root l _ hhead
    · split at hk
      · rename_i cur hstop
        cases hk
        have hcur := hclear.advance_mem (hclear.root l _ hhead) hstop
        exact (hclear.setWaitNext fun _ => hclear.next cur hcur).setWaitNext fun _ => hself'
      · cases hk

theorem Closed.wqPop (h : k.Closed P) (l : WaitList) : (k.wqPop l).1.Closed P := by
  unfold Kernel.wqPop
  split
  · rename_i u hhead
    exact h.setHead (h.next u (h.root l u hhead))
  · exact h

/-- `sched_wait_list_remove`. -/
theorem Closed.schedWaitListRemove (h : k.Closed P) (hk : k.schedWaitListRemove l u = some k') :
    k'.Closed P := by
  unfold Kernel.schedWaitListRemove Kernel.schedWaitListRemoveWithin at hk
  split_ifs at hk with hhead
  · cases hk
    exact h.setHead (h.next u (h.root l u hhead))
  · split at hk
    · rename_i cur hseek
      cases hk
      exact h.setWaitNext fun hcur => h.next u (h.next cur hcur u (next_of_seek hseek))
    · cases hk
      exact h
    · cases hk

/-- The task that `wq_pop` returns is in a list. -/
theorem reached_wqPop (h : (k.wqPop l).2 = some u) : k.Reached u := by
  unfold wqPop at h
  split at h
  · rename_i v hhead
    cases h
    exact .root hhead
  · cases h

end Kernel

/-- The stores from `k` to `k'` lead no list to `t`, leave its notification pending, and leave a
context switch pended. -/
structure Bypasses (t : TaskPtr) (k k' : Kernel) : Prop where
  reached : k'.Reached t → k.Reached t
  pending : (k.tcb t).notifyPending = true → (k'.tcb t).notifyPending = true
  pendsv : k.pendsv = true → k'.pendsv = true

namespace Bypasses

variable {k k' k'' : Kernel} {t u : TaskPtr} {l : WaitList} {n : ℕ}

theorem refl (k : Kernel) : Bypasses t k k := ⟨id, id, id⟩

theorem trans (h : Bypasses t k k') (h' : Bypasses t k' k'') : Bypasses t k k'' :=
  ⟨fun ht => h.reached (h'.reached ht), fun ht => h'.pending (h.pending ht),
    fun hp => h'.pendsv (h.pendsv hp)⟩

/-- Stores after which the lists lead to the same tasks at most. -/
theorem of_closed (h : ∀ P, k.Closed P → k'.Closed P)
    (hpending : (k'.tcb t).notifyPending = (k.tcb t).notifyPending)
    (hpendsv : k'.pendsv = k.pendsv) : Bypasses t k k' :=
  ⟨fun ht => ht.mem (h _ k.closed_reached), fun ht => hpending ▸ ht, fun hp => hpendsv ▸ hp⟩

/-- Stores to other variables. -/
theorem of_eq (htcb : k'.tcb = k.tcb) (hhead : k'.head = k.head) (hpendsv : k'.pendsv = k.pendsv) :
    Bypasses t k k' := by
  have hnext : k'.waitNext = k.waitNext := by
    funext u
    unfold Kernel.waitNext
    rw [htcb]
  exact .of_closed (fun _ h => h.congr hnext hhead) (by rw [htcb]) hpendsv

/-- Stores to a control block. The link is left alone or cleared. -/
theorem modifyTask (u : TaskPtr) {f : Task → Task}
    (hnext : ∀ x, (f x).waitNext = x.waitNext ∨ (f x).waitNext = none)
    (hpending : t = u → (f (k.tcb u)).notifyPending = (k.tcb u).notifyPending) :
    Bypasses t k (k.modifyTask u f) := by
  refine .of_closed (fun _ h => h.modifyTask u hnext) ?_ rfl
  rw [Kernel.modifyTask_tcb]
  split_ifs with htu
  · rw [hpending htu, htu]
  · rfl

/-- Stores to fields that are neither the link nor the notification. -/
theorem fields (u : TaskPtr) {f : Task → Task} (hnext : ∀ x, (f x).waitNext = x.waitNext)
    (hpending : ∀ x, (f x).notifyPending = x.notifyPending) : Bypasses t k (k.modifyTask u f) :=
  modifyTask u (fun x => Or.inl (hnext x)) fun _ => hpending _

theorem of_rescheduled (h : Rescheduled k k') : Bypasses t k k' :=
  .of_closed (fun _ hP => hP.of_rescheduled h) (by rw [h.tcb t]) h.pendsv

theorem triggerPendsv (k : Kernel) : Bypasses t k k.triggerPendsv := ⟨id, id, fun _ => rfl⟩

theorem triggerIfSwitch (k : Kernel) : Bypasses t k k.triggerIfSwitch := by
  unfold Kernel.triggerIfSwitch
  split_ifs
  · exact .triggerPendsv k
  · exact .refl k

theorem schedPickAndMark (k : Kernel) : Bypasses t k k.schedPickAndMark :=
  .of_rescheduled Kernel.rescheduled_schedPickAndMark

theorem schedCommitNext (k : Kernel) : Bypasses t k k.schedCommitNext :=
  .of_rescheduled Kernel.rescheduled_schedCommitNext

theorem wakeSection (k : Kernel) (u : TaskPtr) : Bypasses t k (k.wakeSection u) :=
  (modifyTask u (f := fun x => { x with waitNext := none, delayTicks := 0, state := .ready })
    (fun _ => Or.inr rfl) fun _ => rfl).trans (schedPickAndMark _)

theorem schedWakeTask (k : Kernel) (u : TaskPtr) : Bypasses t k (k.schedWakeTask u) :=
  (wakeSection k u).trans (triggerIfSwitch _)

theorem wqPop (k : Kernel) (l : WaitList) : Bypasses t k (k.wqPop l).1 := by
  have hrel := k.wqPop_relinked l
  exact .of_closed (fun _ h => h.wqPop l) (by rw [hrel.tcb t]) hrel.pendsv

/-- Another task blocks in a list. -/
theorem blockOn {ms : Option ℕ} (hu : u ≠ t) (h : k.blockOn l u ms = some k') :
    Bypasses t k k' := by
  rw [Kernel.blockOn_eq] at h
  obtain ⟨k₁, hins, rfl⟩ := Option.map_eq_some_iff.1 h
  obtain ⟨S, hrel⟩ := Kernel.wqInsert_relinked hins
  have hmark : Bypasses t k (k.modifyTask u (Kernel.blockedTask l ms)) := by
    cases ms <;> exact .fields u (fun _ => rfl) fun _ => rfl
  have hlink : Bypasses t (k.modifyTask u (Kernel.blockedTask l ms)) k₁ := by
    refine ⟨fun ht => ?_, fun hp => ?_, fun hp => hrel.pendsv ▸ hp⟩
    · exact (ht.mem ((Kernel.closed_reached _).wqInsert hins)).resolve_left (Ne.symm hu)
    · rw [hrel.tcb t]
      exact hp
  exact (hmark.trans hlink).trans ((schedPickAndMark _).trans (.triggerPendsv _))

/-! ### The tick -/

theorem expire (h : k.expire u = some k') : Bypasses t k k' := by
  unfold Kernel.expire at h
  split at h
  · obtain ⟨k₁, hrem, rfl⟩ := Option.map_eq_some_iff.1 h
    obtain ⟨S, hrel⟩ := Kernel.schedWaitListRemove_relinked hrem
    have hunlink : Bypasses t k k₁ :=
      .of_closed (fun _ hP => hP.schedWaitListRemove hrem) (by rw [hrel.tcb t]) hrel.pendsv
    exact hunlink.trans (.fields u (fun _ => rfl) fun _ => rfl)
  · cases h
    exact .fields u (fun _ => rfl) fun _ => rfl

theorem tickTask {i : ℕ} (h : Kernel.tickTask n k i = some k') : Bypasses t k k' := by
  unfold Kernel.tickTask at h
  dsimp only at h
  split_ifs at h
  · exact .expire h
  · cases h
    exact .fields _ (fun _ => rfl) fun _ => rfl
  · cases h
    exact .refl k

theorem schedTickN (h : k.schedTickN n = some k') : Bypasses t k k' := by
  obtain ⟨k₁, hloop, rfl⟩ := Kernel.schedTickN_rel (R := Bypasses t) .refl .trans tickTask h
  exact hloop.trans ((schedPickAndMark _).trans (.triggerIfSwitch _))

end Bypasses

/-! ### The calls -/

section Calls

variable {k k' : Kernel} {t u : TaskPtr} {o : List Obs}

/-- `*link = v->wait_next` for the task `v` that the link holds. -/
theorem Kernel.Closed.store {P : Set TaskPtr} {cur : Link} {v : TaskPtr} (h : k.Closed P)
    (hv : k.load cur = some v) : (k.store cur (k.waitNext v)).Closed P := by
  cases cur with
  | head l => exact h.setHead (h.next v (h.root l v hv))
  | next w => exact h.setWaitNext fun hw => h.next v (h.next w hw v hv)

theorem Bypasses.store {cur : Link} {v : TaskPtr} (hv : k.load cur = some v) :
    Bypasses t k (k.store cur (k.waitNext v)) := by
  refine .of_closed (fun _ h => h.store hv) ?_ ?_
  · cases cur with
    | head l => rfl
    | next w =>
      unfold Kernel.store Kernel.setWaitNext
      rw [Kernel.modifyTask_tcb]
      split_ifs with ht
      · rw [ht]
      · rfl
  · cases cur <;> rfl

/-- The stores of a grant: to the slot and the bits, to the links, and those of the wake-up. -/
theorem Kernel.eventGrant_eq {e i : ℕ} {cur : Link} {v : TaskPtr} (hv : k.load cur = some v) :
    ∃ k₁ : Kernel, k₁.tcb = k.tcb ∧ k₁.head = k.head ∧ k₁.pendsv = k.pendsv ∧
      k₁.load cur = some v ∧ k.eventGrant e cur v i = ((k₁.store cur (k₁.waitNext v)).modifyTask v fun x =>
        { x with waitNext := none, waitListHead := none }).schedWakeTask v := by
  have hclear : ∀ (k : Kernel) (w : EventWait), (k.eventAutoClear w).tcb = k.tcb ∧
      (k.eventAutoClear w).head = k.head ∧ (k.eventAutoClear w).pendsv = k.pendsv := by
    intro k w
    unfold Kernel.eventAutoClear
    split_ifs
    · exact ⟨rfl, rfl, rfl⟩
    · exact ⟨rfl, rfl, rfl⟩
  obtain ⟨htcb, hhead, hpendsv⟩ := hclear (k.modifyPending i fun p =>
    { p with observedBits := (k.group e).bits }) _
  refine ⟨_, htcb, hhead, hpendsv, ?_, rfl⟩
  rw [← hv]
  cases cur with
  | head l => exact congrFun hhead l
  | next w => exact congrArg (fun f => (f w).waitNext) htcb

theorem Kernel.Closed.eventGrant {P : Set TaskPtr} {e i : ℕ} {cur : Link} {v : TaskPtr}
    (h : k.Closed P) (hv : k.load cur = some v) : (k.eventGrant e cur v i).Closed P := by
  obtain ⟨k₁, htcb, hhead, -, hv₁, he⟩ := k.eventGrant_eq hv
  have hnext : k₁.waitNext = k.waitNext := congrArg (fun f w => (f w).waitNext) htcb
  rw [he]
  exact (((h.congr hnext hhead).store hv₁).modifyTask v fun _ => Or.inr rfl).schedWakeTask v

theorem Bypasses.eventGrant {e i : ℕ} {cur : Link} {v : TaskPtr} (hv : k.load cur = some v) :
    Bypasses t k (k.eventGrant e cur v i) := by
  obtain ⟨k₁, htcb, hhead, hpendsv, hv₁, he⟩ := k.eventGrant_eq hv
  rw [he]
  have hunlink : Bypasses t k (k₁.store cur (k₁.waitNext v)) :=
    (Bypasses.of_eq htcb hhead hpendsv).trans (.store hv₁)
  exact (hunlink.trans (.modifyTask v (fun _ => Or.inr rfl) fun _ => rfl)).trans
    (.schedWakeTask _ v)

/-- `event_wake_satisfied` grants waits of tasks in the lists. -/
theorem Kernel.Closed.eventWakeLoop {P : Set TaskPtr} (e : ℕ) : ∀ (fuel : ℕ) (cur : Link)
    {k k' : Kernel} {gs : List EventGrant}, k.Closed P → (∀ v, cur = .next v → v ∈ P) →
    eventWakeLoop e fuel cur k = some (k', gs) → ∀ g ∈ gs, g.task ∈ P
  | 0, _, _, _, _, _, _, h => by cases h
  | fuel + 1, cur, k, k', gs, hP, hcur, h => by
    unfold Kernel.eventWakeLoop at h
    split at h
    · cases h
      exact nofun
    · rename_i v hv
      have hvP : v ∈ P := by
        cases cur with
        | head l => exact hP.root l v hv
        | next w => exact hP.next w (hcur w rfl) v hv
      split at h
      · obtain ⟨⟨k₁, gs₁⟩, hrest, he⟩ := Option.map_eq_some_iff.1 h
        cases he
        have hgs := eventWakeLoop e fuel cur (hP.eventGrant hv) hcur hrest
        exact List.forall_mem_cons.2 ⟨hvP, hgs⟩
      · refine eventWakeLoop e fuel (.next v) hP (fun w hw => ?_) h
        cases hw
        exact hvP

/-- `event_wake_satisfied`. -/
theorem Bypasses.eventWakeLoop (e : ℕ) : ∀ (fuel : ℕ) (cur : Link) {k k' : Kernel}
    {gs : List EventGrant}, k.eventWakeLoop e fuel cur = some (k', gs) → Bypasses t k k'
  | 0, _, _, _, _, h => by cases h
  | fuel + 1, cur, k, k', gs, h => by
    unfold Kernel.eventWakeLoop at h
    split at h
    · cases h
      exact .refl k
    · rename_i v hv
      split at h
      · obtain ⟨⟨k₁, gs₁⟩, hrest, he⟩ := Option.map_eq_some_iff.1 h
        cases he
        exact (eventGrant hv).trans (eventWakeLoop e fuel cur hrest)
      · exact eventWakeLoop e fuel _ h

/-- A semaphore call of another task, or of a handler. -/
theorem semStep_bypasses {c c' : SemCtl} (hu : u = t → (Ctl.sem c).isrSafe = true)
    (h : semStep k u c = some (k', c', o)) : Bypasses t k k' := by
  cases c with
  | take s retry =>
    rcases semStep_take h with ⟨-, rfl, -, -⟩ | ⟨-, hb, -, -⟩
    · exact .of_eq rfl rfl rfl
    · exact .blockOn (fun he => by cases hu he) hb
  | blocked s =>
    cases h
    exact .refl k
  | give s =>
    cases h
    have hincr : ∀ k : Kernel, Bypasses t k (k.semIncr s) := by
      intro k
      unfold Kernel.semIncr
      split_ifs
      · exact .of_eq rfl rfl rfl
      · exact .refl k
    have hpop : Bypasses t k (k.wqPop (.sem s)).1 := .wqPop k (.sem s)
    unfold Kernel.semGive
    split
    · rename_i k₁ w he
      rw [he] at hpop
      exact (hpop.trans (hincr k₁)).trans (.schedWakeTask _ w)
    · rename_i k₁ he
      rw [he] at hpop
      exact hpop.trans (hincr k₁)
  | trytake s =>
    simp only [semStep, Kernel.semTrytake] at h
    split_ifs at h
    · cases h
      exact .of_eq rfl rfl rfl
    · cases h
      exact .refl k
  | taken | given | trytaken => cases h

/-- A mutex call of another task. -/
theorem mutexStep_bypasses {c c' : MutexCtl} (hu : u ≠ t)
    (h : mutexStep k u c = some (k', c', o)) : Bypasses t k k' := by
  have hmutex : ∀ (k : Kernel) (m : ℕ) (f : Mutex → Mutex), Bypasses t k (k.modifyMutex m f) :=
    fun k m f => .of_eq rfl rfl rfl
  have hprio : ∀ (k : Kernel) (v : TaskPtr) (p : ℕ), Bypasses t k (k.setPriority v p) :=
    fun k v p => .fields v (fun _ => rfl) fun _ => rfl
  have htry : ∀ {m : ℕ} {k₁ : Kernel} {b : Bool}, k.mutexTryAcquire m u = (k₁, b) →
      Bypasses t k k₁ := by
    intro m k₁ b htry
    unfold Kernel.mutexTryAcquire at htry
    split_ifs at htry <;> cases htry
    · exact hmutex ..
    · exact .refl k
  cases c with
  | enter m timeoutMs =>
    cases h
    exact .refl k
  | attempt m deadline retry =>
    simp only [mutexStep] at h
    cases hb : k.mutexTryAcquire m u with
    | mk k₁ b =>
      rw [hb] at h
      cases b <;> cases deadline <;> cases h <;> exact htry hb
  | clock m d =>
    simp only [mutexStep] at h
    split_ifs at h <;> cases h <;> exact .refl k
  | block m timeout =>
    rcases mutexStep_block h with ⟨-, rfl, -, -⟩ | ⟨owner, -, hb, -, -⟩
    · exact .refl _
    · have helev : Bypasses t k (k.mutexElevate m owner u) := by
        unfold Kernel.mutexElevate
        dsimp only
        split_ifs
        · exact hprio ..
        · exact (hmutex ..).trans (hprio ..)
        · exact .refl k
      exact helev.trans (.blockOn hu hb)
  | blocked m deadline =>
    simp only [mutexStep] at h
    split_ifs at h <;> cases h
    · exact .fields u (fun _ => rfl) fun _ => rfl
    · exact .refl k
  | acquired m =>
    cases h
    exact .fields u (fun _ => rfl) fun _ => rfl
  | trylock m =>
    simp only [mutexStep] at h
    cases hb : k.mutexTryAcquire m u with
    | mk k₁ b =>
      rw [hb] at h
      cases b <;> cases h <;> exact htry hb
  | unlock m =>
    simp only [mutexStep] at h
    split_ifs at h <;> cases h <;> exact .refl k
  | release m =>
    cases h
    have hrestore : ∀ k : Kernel, Bypasses t k (k.mutexRestore m) := by
      intro k
      unfold Kernel.mutexRestore
      dsimp only
      split_ifs
      · split
        · exact (hprio ..).trans (hmutex ..)
        · exact hmutex ..
      · exact .refl k
    have hfreed := ((Bypasses.wqPop k (.mutex m)).trans (hrestore _)).trans
      (hmutex _ m fun x => { x with task := none })
    unfold Kernel.mutexReleaseSection
    dsimp only
    split
    · exact hfreed.trans (.schedWakeTask ..)
    · exact hfreed
  | locked | lockTimeoutReturned | trylocked | unlocked => cases h

/-- A queue call of another task, or of a handler. -/
theorem queueStep_bypasses {c c' : QueueCtl} (hu : u = t → (Ctl.queue c).isrSafe = true)
    (h : queueStep k u c = some (k', c', o)) : Bypasses t k k' := by
  have htransfer : ∀ q op, Bypasses t k (k.queueTransfer q op).1 := by
    intro q op
    cases op with
    | send item =>
      have hcopy : Bypasses t k (k.queueCopyIn q item) := .of_eq rfl rfl rfl
      exact hcopy.trans (.wqPop ..)
    | receive =>
      have hcopy : Bypasses t k (k.queueCopyOut q).1 := .of_eq rfl rfl rfl
      exact hcopy.trans (.wqPop ..)
  cases c with
  | enter q op timeoutMs =>
    cases h
    exact .refl k
  | loop q op deadline retry =>
    rcases queueStep_loop h with ⟨-, rfl, -, -⟩ | ⟨d, -, -, -, rfl, -, -⟩ | ⟨-, -, hb, -, -⟩
    · exact htransfer q op
    · exact .refl _
    · exact .blockOn (fun he => by cases hu he) hb
  | blocked q op deadline =>
    simp only [queueStep] at h
    split_ifs at h <;> cases h
    · exact .fields u (fun _ => rfl) fun _ => rfl
    · exact .refl k
  | attempt q op =>
    simp only [queueStep] at h
    split_ifs at h <;> cases h
    · exact htransfer q op
    · exact .refl k
  | wake w timed r =>
    cases w with
    | none =>
      cases h
      exact .refl k
    | some w =>
      cases h
      exact .wakeSection k w
  | trigger timed r =>
    cases h
    exact .triggerIfSwitch k
  | finish timed r =>
    simp only [queueStep] at h
    split_ifs at h <;> cases h
    · exact .fields u (fun _ => rfl) fun _ => rfl
    · exact .refl k
  | returned r => cases h

/-- An event call of another task, or of a handler. -/
theorem eventStep_bypasses {c c' : EventCtl} (hu : u = t → (Ctl.event c).isrSafe = true)
    (h : eventStep k u c = some (k', c', o)) : Bypasses t k k' := by
  cases c with
  | set e bits =>
    obtain ⟨⟨k₁, gs⟩, hset, he⟩ := Option.map_eq_some_iff.1 h
    cases he
    have hbits : Bypasses t k (k.setEventBits e ((k.group e).bits ||| bits)) := .of_eq rfl rfl rfl
    exact hbits.trans (.eventWakeLoop e _ _ hset)
  | clear e bits =>
    cases h
    exact .of_eq rfl rfl rfl
  | get | enter =>
    cases h
    exact .refl k
  | loop w deadline =>
    rcases eventStep_loop h with ⟨-, rfl, -, -⟩ | ⟨-, ⟨d, -, -, rfl, -, -⟩ | ⟨-, hblock⟩⟩
    · unfold Kernel.eventAutoClear
      split_ifs
      · exact .of_eq rfl rfl rfl
      · exact .refl k
    · exact .refl _
    · rcases hblock with ⟨-, rfl, -, -⟩ | ⟨i, -, hb, -, -⟩
      · exact .refl _
      · have hfill : Bypasses t k (k.eventPendingFill i u w) := .of_eq rfl rfl rfl
        refine Bypasses.trans ?_ (.blockOn (fun he => by cases hu he) hb)
        cases deadline with
        | none =>
          rw [Kernel.eventPrepared_none]
          exact hfill.trans (.fields u (fun _ => rfl) fun _ => rfl)
        | some d => exact hfill
  | blocked w deadline i =>
    have hfree : ∀ k : Kernel, Bypasses t k (k.eventPendingFree i) := fun k => .of_eq rfl rfl rfl
    simp only [eventStep] at h
    split_ifs at h <;> cases h
    · have hclear : Bypasses t k (k.modifyTask u fun x =>
          { x with timedOut := false, waitListHead := none }) :=
        .fields u (fun _ => rfl) fun _ => rfl
      exact hclear.trans (hfree _)
    · exact hfree k
  | done | got | returned => cases h

/-- A notification call of another task, or of a handler. -/
theorem notifyStep_bypasses {c c' : NotifyCtl} (hu : u = t → (Ctl.notify c).isrSafe = true)
    (h : notifyStep k u c = some (k', c', o)) : Bypasses t k k' := by
  have htake : (Ctl.notify c).isrSafe = false → Bypasses t k (k.notifyTake u) := by
    intro hc
    refine .modifyTask u (fun _ => Or.inl rfl) fun ht => ?_
    rw [hu ht.symm] at hc
    cases hc
  cases c with
  | give v value =>
    cases v with
    | none =>
      cases h
      exact .refl k
    | some v =>
      have hgive : Bypasses t k (k.notifyGiveSection v value).1 := by
        have hlinks := k.closed_reached.modifyTask v (f := fun x =>
          { x with notifyValue := value, notifyPending := true }) fun _ => Or.inl rfl
        refine ⟨fun ht => ht.mem hlinks, fun hp => ?_, id⟩
        unfold Kernel.notifyGiveSection
        rw [Kernel.modifyTask_tcb]
        split_ifs
        · rfl
        · exact hp
      simp only [notifyStep] at h
      split at h <;> cases h <;> rename_i he <;> rw [he] at hgive <;> exact hgive
  | wake v =>
    cases h
    exact .wakeSection k v
  | trigger =>
    cases h
    exact .triggerIfSwitch k
  | wait timeoutMs =>
    simp only [notifyStep] at h
    split_ifs at h <;> cases h
    · exact htake rfl
    · exact .refl k
    · have hmark : Bypasses t k (k.modifyTask u fun x =>
          { x with state := .blocked, delayTicks := timeoutMs, waitListHead := none }) :=
        .fields u (fun _ => rfl) fun _ => rfl
      exact hmark.trans ((Bypasses.schedPickAndMark _).trans (.triggerPendsv _))
  | blocked =>
    simp only [notifyStep] at h
    split_ifs at h <;> cases h
    · exact htake rfl
    · exact .refl k
  | given | returned => cases h

/-- A call of the scheduler. A new task is not in the table yet. -/
theorem schedStep_bypasses {c c' : SchedCtl} (ht : ∀ p, c = .createSection p → InTable k t)
    (h : schedStep k u c = some (k', c', o)) : Bypasses t k k' := by
  cases c with
  | delay ms =>
    simp only [schedStep] at h
    split_ifs at h <;> cases h
    · exact .refl k
    · have hmark : Bypasses t k (k.modifyTask u fun x =>
          { x with delayTicks := ms, state := .blocked }) := .fields u (fun _ => rfl) fun _ => rfl
      exact hmark.trans (.schedCommitNext _)
  | delayTrigger | trigger =>
    cases h
    exact .triggerPendsv k
  | delayWait | create =>
    simp only [schedStep] at h
    split_ifs at h <;> cases h <;> exact .refl k
  | yield =>
    cases h
    unfold Kernel.yieldSection
    split
    · rename_i v _
      have hready : Bypasses t k (k.setState v .ready) := .fields v (fun _ => rfl) fun _ => rfl
      exact hready.trans (.schedCommitNext _)
    · exact .refl k
  | block =>
    cases h
    exact .schedPickAndMark k
  | pause index =>
    cases h
    unfold Kernel.schedTaskPause
    split_ifs
    · exact .refl k
    · exact .fields _ (fun _ => rfl) fun _ => rfl
  | resume index =>
    cases h
    unfold Kernel.schedTaskResume
    split_ifs
    · exact .refl k
    · exact .fields _ (fun _ => rfl) fun _ => rfl
    · exact .refl k
  | createSection priority =>
    cases h
    obtain ⟨i, hi, rfl⟩ := ht priority rfl
    refine .of_closed (fun P hP => ?_) ?_ rfl
    · exact hP.modifyTask (.tcb k.taskCount) (f := fun x => { x with
        priority := priority, state := .ready, delayTicks := 0, waitListHead := none
        timedOut := false, notifyPending := false, notifyValue := 0 }) fun _ => Or.inl rfl
    rw [k.tcb_createSection, if_neg]
    rintro ⟨⟩
    exact lt_irrefl _ hi
  | createReturn =>
    cases h
    exact .refl k
  | returned | created => cases h

/-- A step of another task, or of a handler. -/
theorem ctlStep_bypasses {c c' : Ctl} (ht : ∀ p, c = .sched (.createSection p) → InTable k t)
    (hu : u = t → c.isrSafe = true) (h : ctlStep k u c = some (k', c', o)) : Bypasses t k k' := by
  cases ctlStep_cases h with
  | sem hs => exact semStep_bypasses hu hs
  | mutex hs => exact mutexStep_bypasses (fun he => by cases hu he) hs
  | queue hs => exact queueStep_bypasses hu hs
  | event hs => exact eventStep_bypasses hu hs
  | notify hs => exact notifyStep_bypasses hu hs
  | sched hs => exact schedStep_bypasses (fun p he => ht p (congrArg _ he)) hs

/-! ### Who is popped and woken -/

/-- The task that a call has popped and is about to wake was in a list. -/
theorem Ctl.reached_of_wakes {c c' : Ctl} (h : ctlStep k u c = some (k', c', o))
    (hw : c'.wakes = some t) : k.Reached t := by
  have htransfer : ∀ q op, (k.queueTransfer q op).2.2 = some t → k.Reached t := by
    intro q op hpop
    cases op with
    | send item =>
      have hin : (k.queueCopyIn q item).Reached t := Kernel.reached_wqPop hpop
      exact hin
    | receive =>
      have hin : (k.queueCopyOut q).1.Reached t := Kernel.reached_wqPop hpop
      exact hin
  cases c with
  | app => cases h
  | queue c =>
    obtain ⟨⟨k₁, c₁, o₁⟩, hs, he⟩ := Option.map_eq_some_iff.1 h
    cases he
    cases c with
    | loop q op deadline retry =>
      rcases queueStep_loop hs with ⟨-, -, rfl, -⟩ | ⟨d, -, -, -, -, rfl, -⟩ | ⟨-, -, -, rfl, -⟩
      · exact htransfer q op hw
      · cases hw
      · cases hw
    | attempt q op =>
      simp only [queueStep] at hs
      split_ifs at hs <;> cases hs
      · exact htransfer q op hw
      · cases hw
    | blocked | finish =>
      simp only [queueStep] at hs
      split_ifs at hs <;> cases hs <;> cases hw
    | wake w timed r => cases w <;> cases hs <;> cases hw
    | enter | trigger =>
      cases hs
      cases hw
    | returned => cases hs
  | sem c | mutex c | event c | notify c | sched c =>
    obtain ⟨⟨k₁, c₁, o₁⟩, -, he⟩ := Option.map_eq_some_iff.1 h
    cases he
    cases hw

/-- The task that a step wakes is in a list, has been popped by the call, or is notified. -/
theorem Ctl.wake_of_mem_schedOps {c : Ctl} (hop : .wake t ∈ c.schedOps k u) :
    k.Reached t ∨ c.wakes = some t ∨ c = .notify (.wake t) := by
  have hhead : ∀ {l : WaitList}, .wake t ∈ k.wakeHead l → k.Reached t := by
    intro l hmem
    obtain ⟨w, hw, he⟩ := List.mem_map.1 hmem
    cases he
    exact .root (Option.mem_toList.1 hw)
  cases c with
  | app => cases hop
  | sem c =>
    cases c with
    | give s => exact Or.inl (hhead hop)
    | take s retry =>
      simp only [schedOps, semOps] at hop
      split_ifs at hop
      · cases hop
      · cases List.mem_singleton.1 hop
    | blocked | trytake | taken | given | trytaken => cases hop
  | mutex c =>
    cases c with
    | block m timeout =>
      simp only [schedOps, mutexOps] at hop
      split at hop
      · cases hop
      · rcases List.mem_append.1 hop with hop | hop
        · split_ifs at hop
          · cases List.mem_singleton.1 hop
          · cases hop
        · cases List.mem_singleton.1 hop
    | release m =>
      simp only [schedOps, mutexOps] at hop
      rcases List.mem_append.1 hop with hop | hop
      · split at hop
        · cases List.mem_singleton.1 hop
        · cases hop
      · exact Or.inl (hhead hop)
    | enter | attempt | clock | blocked | acquired | trylock | unlock | locked
    | lockTimeoutReturned | trylocked | unlocked => cases hop
  | queue c =>
    cases c with
    | loop q op deadline retry =>
      simp only [schedOps, queueOps] at hop
      split_ifs at hop
      · cases hop
      · split at hop
        · cases List.mem_singleton.1 hop
        · split_ifs at hop
          · cases hop
          · cases List.mem_singleton.1 hop
    | wake w timed r =>
      cases w with
      | none => cases hop
      | some w =>
        cases List.mem_singleton.1 hop
        exact Or.inr (Or.inl rfl)
    | enter | blocked | attempt | trigger | finish | returned => cases hop
  | event c =>
    cases c with
    | set e bits =>
      simp only [schedOps, eventOps] at hop
      split at hop
      · rename_i gs hset
        obtain ⟨g, hg, he⟩ := List.mem_map.1 hop
        cases he
        have hP : (k.setEventBits e ((k.group e).bits ||| bits)).Closed {t | k.Reached t} :=
          k.closed_reached
        exact Or.inl (hP.eventWakeLoop e _ _ (fun _ hv => by cases hv) hset g hg)
      · cases hop
    | loop w deadline =>
      simp only [schedOps, eventOps] at hop
      split_ifs at hop
      · cases hop
      · cases hop
      · cases hop
      · cases List.mem_singleton.1 hop
    | clear | get | enter | blocked | done | got | returned => cases hop
  | notify c =>
    cases c with
    | wait timeoutMs =>
      simp only [schedOps, notifyOps] at hop
      split_ifs at hop
      · cases hop
      · cases hop
      · cases List.mem_singleton.1 hop
    | wake v =>
      cases List.mem_singleton.1 hop
      exact Or.inr (Or.inr rfl)
    | give | trigger | blocked | given | returned => cases hop
  | sched c =>
    cases c with
    | delay ms =>
      simp only [schedOps, schedCtlOps] at hop
      split_ifs at hop
      · cases hop
      · cases List.mem_singleton.1 hop
    | yield | block | pause | resume | createSection => cases List.mem_singleton.1 hop
    | delayTrigger | delayWait | trigger | create | createReturn | returned | created => cases hop

end Calls

namespace Machine

variable {m m' : Machine} {a : Action} {t : TaskPtr} {o : List Obs}

/-- No wait list leads to the task, and no context has popped it and still has to wake it. -/
structure Apart (m : Machine) (t : TaskPtr) : Prop where
  unreached : ¬ m.kernel.Reached t
  unpopped : ∀ x, (m.ctl x).wakes ≠ some t

/-- Every task is apart when the scheduler starts. -/
theorem apart_start (cfg : Config) (t : TaskPtr) : (start cfg).Apart t := by
  have hhead : ∀ l, cfg.created.head l = none :=
    cfg.created_induct (I := fun k => ∀ l, k.head l = none) (fun _ => rfl) fun _ _ hk => hk
  exact ⟨not_reached_of_root_eq_none hhead, fun x => nofun⟩

/-- A step that the task does not execute itself. -/
theorem bypasses_of_step (hm : m.IdleApart) (ht : InTable m.kernel t)
    (hs : m.step a = some (m', o)) (hself : a = .exec → m.active ≠ some (.thread t))
    (ha : a ≠ .pendSV) : Bypasses t m.kernel m'.kernel := by
  rcases Machine.step_cases hs with ⟨c, i, rfl, -, -, rfl, -⟩ |
    ⟨x, u, k', c', rfl, hact, hu, hst, rfl⟩ | ⟨c, rfl, -, rfl, -⟩ | ⟨rfl, -, -, rfl, -⟩ |
    ⟨n, rfl, rfl, -⟩ | ⟨n, k', rfl, htick, rfl, -⟩
  · exact .refl _
  · have happ : m.ctl x ≠ .app := by
      intro he
      rw [he] at hst
      cases hst
    refine ctlStep_bypasses (fun _ _ => ht) (fun hut => ?_) hst
    rcases hm.active hact hu happ with ⟨rfl, -⟩ | ⟨hsafe, -⟩
    · exact absurd (hut ▸ hact) (hself rfl)
    · exact hsafe
  · exact .refl _
  · exact absurd rfl ha
  · exact .of_eq rfl rfl rfl
  · exact .schedTickN htick

theorem Apart.unpopped_update (h : m.Apart t) (x : Ctx) {c : Ctl} (hc : c.wakes ≠ some t) (y : Ctx) :
    (Function.update m.ctl x c y).wakes ≠ some t := by
  rw [Function.update_apply]
  split_ifs
  · exact hc
  · exact h.unpopped y

/-- A step that the task does not execute itself leaves it apart. -/
theorem Apart.step (h : m.Apart t) (hm : m.IdleApart) (ht : InTable m.kernel t)
    (hs : m.step a = some (m', o)) (hself : a = .exec → m.active ≠ some (.thread t)) :
    m'.Apart t := by
  have hentry : ∀ c : Call, c.entry.wakes ≠ some t := fun c => by simp [c.wakes_entry]
  refine ⟨?_, ?_⟩
  · by_cases ha : a = .pendSV
    · subst ha
      obtain rfl := Machine.step_pendSV hs
      exact h.unreached
    · exact fun hin => h.unreached ((bypasses_of_step hm ht hs hself ha).reached hin)
  · rcases Machine.step_cases hs with ⟨c, i, rfl, -, -, rfl, -⟩ |
      ⟨x, u, k', c', rfl, -, -, hst, rfl⟩ | ⟨c, rfl, -, rfl, -⟩ | ⟨rfl, -, -, rfl, -⟩ |
      ⟨n, rfl, rfl, -⟩ | ⟨n, k', rfl, -, rfl, -⟩
    · exact h.unpopped_update _ (hentry c)
    · exact h.unpopped_update x fun hw => h.unreached (Ctl.reached_of_wakes hst hw)
    · exact h.unpopped_update _ (hentry c)
    · exact h.unpopped
    · exact h.unpopped
    · exact h.unpopped

end Machine

end TamgaOs
