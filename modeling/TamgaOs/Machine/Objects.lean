import TamgaOs.Machine.Context
import TamgaOs.Machine.SchedOps
import Mathlib.Logic.Relation

/-!
# The objects that a step touches

A call of one module changes the objects of this module only, and the clock changes on its own;
this holds whatever the wait lists look like.

## Main definitions

* `SameObjects k k'`: no object and not the clock has changed.
* `ObjectsOf F k k'`: only the objects of the module `F` may have changed.
* `Stores F T k k'`: the stores of a step of a call of the module `F`, in which only tasks of `T`
  come to remember a wait list.

## Main results

* `ctlStep_stores`: a step of a call consists of such stores.
* `ctlStep_objects`: a step of a call changes the objects of its module only.
* `ctlStep_family`: it reports about this module only.
-/

namespace TamgaOs

/-- No object and not the clock has changed. -/
structure SameObjects (k k' : Kernel) : Prop where
  sem : k'.sem = k.sem
  queue : k'.queue = k.queue
  mutex : k'.mutex = k.mutex
  group : k'.group = k.group
  pending : k'.pending = k.pending
  ticks : k'.ticks = k.ticks

/-- Only the objects of the module `F` may have changed. -/
structure ObjectsOf (F : Family) (k k' : Kernel) : Prop where
  sem : F ≠ .sem → k'.sem = k.sem
  queue : F ≠ .queue → k'.queue = k.queue
  mutex : F ≠ .mutex → k'.mutex = k.mutex
  group : F ≠ .event → k'.group = k.group
  pending : F ≠ .event → k'.pending = k.pending
  ticks : k'.ticks = k.ticks

variable {F : Family} {T : Set TaskPtr} {k k' k'' : Kernel} {t : TaskPtr} {l : WaitList} {o : List Obs}

namespace SameObjects

theorem refl (k : Kernel) : SameObjects k k := ⟨rfl, rfl, rfl, rfl, rfl, rfl⟩

theorem trans (h : SameObjects k k') (h' : SameObjects k' k'') : SameObjects k k'' :=
  ⟨h'.sem.trans h.sem, h'.queue.trans h.queue, h'.mutex.trans h.mutex, h'.group.trans h.group,
    h'.pending.trans h.pending, h'.ticks.trans h.ticks⟩

theorem modifyTask (k : Kernel) (t : TaskPtr) (f : Task → Task) :
    SameObjects k (k.modifyTask t f) := ⟨rfl, rfl, rfl, rfl, rfl, rfl⟩

theorem of_relinked {S : List TaskPtr} (h : Relinked k k' l S) : SameObjects k k' :=
  ⟨h.sem, h.queue, h.mutex, h.group, h.pending, h.ticks⟩

theorem of_rescheduled (h : Rescheduled k k') : SameObjects k k' :=
  ⟨h.sem, h.queue, h.mutex, h.group, h.pending, h.ticks⟩

theorem triggerPendsv (k : Kernel) : SameObjects k k.triggerPendsv := ⟨rfl, rfl, rfl, rfl, rfl, rfl⟩

theorem triggerIfSwitch (k : Kernel) : SameObjects k k.triggerIfSwitch := by
  unfold Kernel.triggerIfSwitch
  split_ifs
  · exact .triggerPendsv k
  · exact .refl k

theorem schedPickAndMark (k : Kernel) : SameObjects k k.schedPickAndMark :=
  .of_rescheduled Kernel.rescheduled_schedPickAndMark

theorem schedCommitNext (k : Kernel) : SameObjects k k.schedCommitNext :=
  .of_rescheduled Kernel.rescheduled_schedCommitNext

theorem wakeSection (k : Kernel) (t : TaskPtr) : SameObjects k (k.wakeSection t) :=
  (modifyTask k t _).trans (.schedPickAndMark _)

theorem schedWakeTask (k : Kernel) (t : TaskPtr) : SameObjects k (k.schedWakeTask t) :=
  (wakeSection k t).trans (.triggerIfSwitch _)

theorem blockOn {ms : Option ℕ} (h : k.blockOn l t ms = some k') : SameObjects k k' := by
  rw [Kernel.blockOn_eq] at h
  obtain ⟨k₁, hins, rfl⟩ := Option.map_eq_some_iff.1 h
  obtain ⟨S, hrel⟩ := Kernel.wqInsert_relinked hins
  exact (((modifyTask k t _).trans (.of_relinked hrel)).trans (.schedPickAndMark _)).trans
    (.triggerPendsv _)

theorem wqPop (k : Kernel) (l : WaitList) : SameObjects k (k.wqPop l).1 :=
  .of_relinked (k.wqPop_relinked l)

theorem expire (h : k.expire t = some k') : SameObjects k k' := by
  unfold Kernel.expire at h
  split at h
  · obtain ⟨k₁, hrem, rfl⟩ := Option.map_eq_some_iff.1 h
    obtain ⟨S, hrel⟩ := Kernel.schedWaitListRemove_relinked hrem
    exact (of_relinked hrel).trans (.modifyTask ..)
  · cases h
    exact .modifyTask ..

theorem tickTask {n i : ℕ} (h : Kernel.tickTask n k i = some k') : SameObjects k k' := by
  unfold Kernel.tickTask at h
  dsimp only at h
  split_ifs at h
  · exact .expire h
  · cases h
    exact .modifyTask ..
  · cases h
    exact .refl k

theorem schedTickN {n : ℕ} (h : k.schedTickN n = some k') : SameObjects k k' := by
  obtain ⟨k₁, hloop, rfl⟩ := Kernel.schedTickN_rel SameObjects.refl SameObjects.trans tickTask h
  exact (hloop.trans (.schedPickAndMark _)).trans (.triggerIfSwitch _)

end SameObjects

namespace ObjectsOf

theorem of_same (h : SameObjects k k') : ObjectsOf F k k' :=
  ⟨fun _ => h.sem, fun _ => h.queue, fun _ => h.mutex, fun _ => h.group, fun _ => h.pending,
    h.ticks⟩

theorem refl (k : Kernel) : ObjectsOf F k k := .of_same (.refl k)

theorem trans (h : ObjectsOf F k k') (h' : ObjectsOf F k' k'') : ObjectsOf F k k'' :=
  ⟨fun hF => (h'.sem hF).trans (h.sem hF), fun hF => (h'.queue hF).trans (h.queue hF),
    fun hF => (h'.mutex hF).trans (h.mutex hF), fun hF => (h'.group hF).trans (h.group hF),
    fun hF => (h'.pending hF).trans (h.pending hF), h'.ticks.trans h.ticks⟩

end ObjectsOf

/-! ### The stores of a step -/

/-- A store to a control block that does not set the timeout mark, and lets the task remember a wait
list only if it may. -/
structure PlainStore (may : Prop) (f : Task → Task) : Prop where
  mark : ∀ x, (f x).timedOut = true → x.timedOut = true
  head : ¬may → ∀ x, (f x).waitListHead = none ∨ (f x).waitListHead = x.waitListHead

/-- A store of a call of the module `F`: to a control block, to the links, to the choice of the next
task, or to an object of the module. Only tasks of `T` come to remember a wait list. -/
inductive Store (F : Family) (T : Set TaskPtr) : Kernel → Kernel → Prop
  | task {k : Kernel} (t : TaskPtr) {f : Task → Task} (hf : PlainStore (t ∈ T) f) :
      Store F T k (k.modifyTask t f)
  | relinked {k k' : Kernel} {l : WaitList} {S : List TaskPtr} (h : Relinked k k' l S) :
      Store F T k k'
  | rescheduled {k k' : Kernel} (h : Rescheduled k k') : Store F T k k'
  | pendsv (k : Kernel) : Store F T k k.triggerPendsv
  | create (k : Kernel) (priority : ℕ) : Store F T k (k.createSection priority)
  | object {k k' : Kernel} (h : ObjectsOf F k k') (htcb : k'.tcb = k.tcb) : Store F T k k'

/-- Any number of stores. -/
def Stores (F : Family) (T : Set TaskPtr) : Kernel → Kernel → Prop := Relation.ReflTransGen (Store F T)

/-- The task `t`, if it waits with a timeout at the program point `c`. -/
def Ctl.remembers (c : Ctl) (t : TaskPtr) : Set TaskPtr := {u | u = t ∧ c.timed = true}

namespace Stores

theorem refl (k : Kernel) : Stores F T k k := Relation.ReflTransGen.refl

theorem mono {T' : Set TaskPtr} (h : Stores F T k k') (hT : T ⊆ T') : Stores F T' k k' := by
  refine Relation.ReflTransGen.mono (fun k k' hs => ?_) _ _ h
  cases hs with
  | task t hf => exact .task t ⟨hf.mark, fun hno => hf.head fun ht => hno (hT ht)⟩
  | relinked h => exact .relinked h
  | rescheduled h => exact .rescheduled h
  | pendsv => exact .pendsv _
  | create => exact .create _ _
  | object h htcb => exact .object h htcb

theorem single (h : Store F T k k') : Stores F T k k' := Relation.ReflTransGen.single h

theorem trans (h : Stores F T k k') (h' : Stores F T k' k'') : Stores F T k k'' :=
  Relation.ReflTransGen.trans h h'

theorem tail (h : Stores F T k k') (h' : Store F T k' k'') : Stores F T k k'' :=
  Relation.ReflTransGen.tail h h'

theorem task (t : TaskPtr) {f : Task → Task} (hf : ∀ x, (f x).timedOut = true → x.timedOut = true)
    (hw : ∀ x, (f x).waitListHead = none ∨ (f x).waitListHead = x.waitListHead) :
    Stores F T k (k.modifyTask t f) :=
  .single (.task t ⟨hf, fun _ => hw⟩)

/-- Stores to other fields of a control block. -/
theorem fields (t : TaskPtr) {f : Task → Task} (hf : ∀ x, (f x).timedOut = x.timedOut)
    (hw : ∀ x, (f x).waitListHead = x.waitListHead) : Stores F T k (k.modifyTask t f) :=
  task t (fun x h => hf x ▸ h) fun x => .inr (hw x)

/-- The stores with which a call leaves a wait that has timed out. -/
theorem clear (k : Kernel) (t : TaskPtr) :
    Stores F T k (k.modifyTask t fun x => { x with timedOut := false, waitListHead := none }) :=
  task t (fun _ h => absurd h Bool.false_ne_true) fun _ => .inl rfl

theorem triggerIfSwitch (k : Kernel) : Stores F T k k.triggerIfSwitch := by
  unfold Kernel.triggerIfSwitch
  split_ifs
  · exact .single (.pendsv k)
  · exact .refl k

theorem schedPickAndMark (k : Kernel) : Stores F T k k.schedPickAndMark :=
  .single (.rescheduled Kernel.rescheduled_schedPickAndMark)

theorem schedCommitNext (k : Kernel) : Stores F T k k.schedCommitNext :=
  .single (.rescheduled Kernel.rescheduled_schedCommitNext)

theorem wakeSection (k : Kernel) (t : TaskPtr) : Stores F T k (k.wakeSection t) :=
  (fields t (f := fun x => { x with waitNext := none, delayTicks := 0, state := .ready })
    (fun _ => rfl) fun _ => rfl).trans (schedPickAndMark _)

theorem schedWakeTask (k : Kernel) (t : TaskPtr) : Stores F T k (k.schedWakeTask t) :=
  (wakeSection k t).trans (triggerIfSwitch _)

theorem blockOn {ms : Option ℕ} (h : k.blockOn l t ms = some k') (hT : ms.isSome → t ∈ T) :
    Stores F T k k' := by
  rw [Kernel.blockOn_eq] at h
  obtain ⟨k₁, hins, rfl⟩ := Option.map_eq_some_iff.1 h
  obtain ⟨S, hrel⟩ := Kernel.wqInsert_relinked hins
  have hplain : PlainStore (t ∈ T) (Kernel.blockedTask l ms) := by
    cases ms with
    | none => exact ⟨fun _ => id, fun _ _ => .inr rfl⟩
    | some ms => exact ⟨fun _ h => absurd h Bool.false_ne_true, fun hno => absurd (hT rfl) hno⟩
  exact (((single (.task t hplain)).tail (.relinked hrel)).trans (schedPickAndMark _)).tail (.pendsv _)

theorem wqPop (k : Kernel) (l : WaitList) : Stores F T k (k.wqPop l).1 :=
  .single (.relinked (k.wqPop_relinked l))

theorem semCount (k : Kernel) (s : ℕ) (c : ℤ) : Stores .sem T k (k.setSemCount s c) :=
  .single (.object ⟨fun h => absurd rfl h, fun _ => rfl, fun _ => rfl, fun _ => rfl, fun _ => rfl,
    rfl⟩ rfl)

theorem modifyMutex (k : Kernel) (m : ℕ) (f : Mutex → Mutex) :
    Stores .mutex T k (k.modifyMutex m f) :=
  .single (.object ⟨fun _ => rfl, fun _ => rfl, fun h => absurd rfl h, fun _ => rfl, fun _ => rfl,
    rfl⟩ rfl)

theorem modifyQueue (k : Kernel) (q : ℕ) (f : Queue → Queue) :
    Stores .queue T k (k.modifyQueue q f) :=
  .single (.object ⟨fun _ => rfl, fun h => absurd rfl h, fun _ => rfl, fun _ => rfl, fun _ => rfl,
    rfl⟩ rfl)

theorem setEventBits (k : Kernel) (e : ℕ) (b : BitVec 32) :
    Stores .event T k (k.setEventBits e b) :=
  .single (.object ⟨fun _ => rfl, fun _ => rfl, fun _ => rfl, fun h => absurd rfl h, fun _ => rfl,
    rfl⟩ rfl)

theorem modifyPending (k : Kernel) (i : ℕ) (f : EventPending → EventPending) :
    Stores .event T k (k.modifyPending i f) :=
  .single (.object ⟨fun _ => rfl, fun _ => rfl, fun _ => rfl, fun _ => rfl, fun h => absurd rfl h,
    rfl⟩ rfl)

end Stores

/-! ### The calls -/

theorem semStep_stores {c c' : SemCtl} (h : semStep k t c = some (k', c', o)) :
    Stores .sem T k k' := by
  cases c with
  | take s retry =>
    rcases semStep_take h with ⟨-, rfl, -, -⟩ | ⟨-, hb, -, -⟩
    · exact .semCount ..
    · exact .blockOn hb fun hsome => by cases hsome
  | blocked s =>
    cases h
    exact .refl k
  | give s =>
    cases h
    have hincr : ∀ k : Kernel, Stores .sem T k (k.semIncr s) := by
      intro k
      unfold Kernel.semIncr
      split_ifs
      · exact .semCount ..
      · exact .refl k
    have hpop : Stores .sem T k (k.wqPop (.sem s)).1 := .wqPop k (.sem s)
    unfold Kernel.semGive
    split
    · rename_i k₁ w he
      rw [he] at hpop
      exact (hpop.trans (hincr k₁)).trans (.schedWakeTask _ w)
    · rename_i k₁ he
      rw [he] at hpop
      exact hpop.trans (hincr k₁)
  | trytake s =>
    simp only [semStep, Kernel.semTrytake] at h
    split_ifs at h
    · cases h
      exact .semCount ..
    · cases h
      exact .refl k
  | taken | given | trytaken => cases h

theorem mutexStep_stores {c c' : MutexCtl} (h : mutexStep k t c = some (k', c', o)) :
    Stores .mutex ((Ctl.mutex c').remembers t) k k' := by
  have htry : ∀ {m : ℕ} {k₁ : Kernel} {b : Bool} {T : Set TaskPtr},
      k.mutexTryAcquire m t = (k₁, b) → Stores .mutex T k k₁ := by
    intro m k₁ b T htry
    unfold Kernel.mutexTryAcquire at htry
    split_ifs at htry <;> cases htry
    · exact .modifyMutex ..
    · exact .refl k
  have hprio : ∀ (k : Kernel) (u : TaskPtr) (p : ℕ) {T : Set TaskPtr},
      Stores .mutex T k (k.setPriority u p) := fun k u p => .fields u (fun _ => rfl) fun _ => rfl
  cases c with
  | enter m timeoutMs =>
    cases h
    exact .refl k
  | attempt m deadline retry =>
    simp only [mutexStep] at h
    cases hb : k.mutexTryAcquire m t with
    | mk k₁ b =>
      rw [hb] at h
      cases b <;> cases deadline <;> cases h <;> exact htry hb
  | clock m d =>
    simp only [mutexStep] at h
    split_ifs at h <;> cases h <;> exact .refl k
  | block m timeout =>
    rcases mutexStep_block h with ⟨-, rfl, -, -⟩ | ⟨owner, -, hb, rfl, -⟩
    · exact .refl _
    · have helev : ∀ {T : Set TaskPtr}, Stores .mutex T k (k.mutexElevate m owner t) := by
        intro T
        unfold Kernel.mutexElevate
        dsimp only
        split_ifs
        · exact hprio ..
        · exact (Stores.modifyMutex k m _).trans (hprio ..)
        · exact .refl k
      exact helev.trans (.blockOn hb fun hsome => ⟨rfl, by simpa [Ctl.timed] using hsome⟩)
  | blocked m deadline =>
    simp only [mutexStep] at h
    split_ifs at h <;> cases h
    · exact .clear k t
    · exact .refl k
  | acquired m =>
    cases h
    exact .task t (fun _ => id) fun _ => .inl rfl
  | trylock m =>
    simp only [mutexStep] at h
    cases hb : k.mutexTryAcquire m t with
    | mk k₁ b =>
      rw [hb] at h
      cases b <;> cases h <;> exact htry hb
  | unlock m =>
    simp only [mutexStep] at h
    split_ifs at h <;> cases h <;> exact .refl k
  | release m =>
    cases h
    have hrestore : ∀ (k : Kernel) {T : Set TaskPtr}, Stores .mutex T k (k.mutexRestore m) := by
      intro k T
      unfold Kernel.mutexRestore
      dsimp only
      split_ifs
      · split
        · exact (hprio ..).trans (.modifyMutex ..)
        · exact .modifyMutex ..
      · exact .refl k
    have hpop : ∀ {T : Set TaskPtr}, Stores .mutex T k (k.wqPop (.mutex m)).1 := .wqPop k (.mutex m)
    have hfreed := fun {T : Set TaskPtr} =>
      ((hpop (T := T)).trans (hrestore _)).trans (.modifyMutex _ m fun x => { x with task := none })
    unfold Kernel.mutexReleaseSection
    dsimp only
    split
    · exact hfreed.trans (.schedWakeTask ..)
    · exact hfreed
  | locked | lockTimeoutReturned | trylocked | unlocked => cases h

theorem queueStep_stores {c c' : QueueCtl} (h : queueStep k t c = some (k', c', o)) :
    Stores .queue ((Ctl.queue c').remembers t) k k' := by
  have htransfer : ∀ q op {T : Set TaskPtr}, Stores .queue T k (k.queueTransfer q op).1 := by
    intro q op T
    cases op with
    | send item => exact (Stores.modifyQueue k q _).trans (.wqPop ..)
    | receive => exact (Stores.modifyQueue k q _).trans (.wqPop ..)
  cases c with
  | enter q op timeoutMs =>
    cases h
    exact .refl k
  | loop q op deadline retry =>
    rcases queueStep_loop h with ⟨-, rfl, -, -⟩ | ⟨d, -, -, -, rfl, -, -⟩ | ⟨-, -, hb, rfl, -⟩
    · exact htransfer q op
    · exact .refl _
    · exact .blockOn hb fun hsome => ⟨rfl, (by simpa using hsome : deadline.isSome = true)⟩
  | blocked q op deadline =>
    simp only [queueStep] at h
    split_ifs at h <;> cases h
    · exact .clear k t
    · exact .refl k
  | attempt q op =>
    simp only [queueStep] at h
    split_ifs at h <;> cases h
    · exact htransfer q op
    · exact .refl k
  | wake w timed r =>
    cases w with
    | none =>
      cases h
      exact .refl k
    | some w =>
      cases h
      exact .wakeSection k w
  | trigger timed r =>
    cases h
    exact .triggerIfSwitch k
  | finish timed r =>
    simp only [queueStep] at h
    split_ifs at h <;> cases h
    · exact .task t (fun _ => id) fun _ => .inl rfl
    · exact .refl k
  | returned r => cases h

theorem Stores.eventWakeLoop (e : ℕ) : ∀ (fuel : ℕ) (cur : Link) (k : Kernel) {k' : Kernel}
    {gs : List EventGrant}, k.eventWakeLoop e fuel cur = some (k', gs) → Stores .event T k k'
  | 0, _, _, _, _, h => by cases h
  | fuel + 1, cur, k, k', gs, h => by
    unfold Kernel.eventWakeLoop at h
    split at h
    · cases h
      exact .refl k
    · rename_i t _
      split at h
      · rename_i i _
        obtain ⟨⟨k₁, gs₁⟩, hrest, he⟩ := Option.map_eq_some_iff.1 h
        cases he
        refine Stores.trans ?_ (eventWakeLoop e fuel cur _ hrest)
        refine Stores.trans ?_ (.schedWakeTask _ t)
        refine Stores.trans ?_ (.task t (fun _ => id) fun _ => .inl rfl)
        have hclear : ∀ (k : Kernel) (w : EventWait), Stores .event T k (k.eventAutoClear w) := by
          intro k w
          unfold Kernel.eventAutoClear
          split_ifs
          · exact .setEventBits ..
          · exact .refl k
        have hstore : ∀ (k : Kernel) (p : Option TaskPtr), Stores .event T k (k.store cur p) := by
          intro k p
          cases cur with
          | head l => exact .single (.relinked (.setHead (S := []) p l))
          | next u => exact .fields u (f := fun x => { x with waitNext := p }) (fun _ => rfl) fun _ => rfl
        exact ((Stores.modifyPending k i _).trans (hclear _ _)).trans (hstore _ _)
      · exact eventWakeLoop e fuel _ k h

theorem eventStep_stores {c c' : EventCtl} (h : eventStep k t c = some (k', c', o)) :
    Stores .event ((Ctl.event c').remembers t) k k' := by
  cases c with
  | set e bits =>
    obtain ⟨⟨k₁, gs⟩, hset, he⟩ := Option.map_eq_some_iff.1 h
    cases he
    exact (Stores.setEventBits k e _).trans (.eventWakeLoop e _ _ _ hset)
  | clear e bits =>
    cases h
    exact .setEventBits ..
  | get | enter =>
    cases h
    exact .refl k
  | loop w deadline =>
    rcases eventStep_loop h with ⟨-, rfl, -, -⟩ | ⟨-, ⟨d, -, -, rfl, -, -⟩ | ⟨-, hblock⟩⟩
    · unfold Kernel.eventAutoClear
      split_ifs
      · exact .setEventBits ..
      · exact .refl k
    · exact .refl _
    · rcases hblock with ⟨-, rfl, -, -⟩ | ⟨i, -, hb, rfl, -⟩
      · exact .refl _
      · have hfill : ∀ {T : Set TaskPtr}, Stores .event T k (k.eventPendingFill i t w) :=
          .modifyPending ..
        refine Stores.trans ?_ (.blockOn hb fun hsome => ⟨rfl, (by simpa using hsome : deadline.isSome = true)⟩)
        cases deadline with
        | none =>
          rw [Kernel.eventPrepared_none]
          exact hfill.trans (.task t (fun _ => id) fun _ => .inl rfl)
        | some d => exact hfill
  | blocked w deadline i =>
    simp only [eventStep] at h
    split_ifs at h <;> cases h
    · exact (Stores.clear k t).trans (.modifyPending ..)
    · exact .modifyPending ..
  | done | got | returned => cases h

theorem notifyStep_stores {c c' : NotifyCtl} (h : notifyStep k t c = some (k', c', o)) :
    Stores F T k k' := by
  cases c with
  | give u value =>
    cases u with
    | none =>
      cases h
      exact .refl k
    | some u =>
      simp only [notifyStep, Kernel.notifyGiveSection] at h
      split at h <;> cases h <;> rename_i he <;> rw [← (Prod.mk.inj he).1] <;>
        exact .fields _ (fun _ => rfl) fun _ => rfl
  | wake u =>
    cases h
    exact .wakeSection k u
  | trigger =>
    cases h
    exact .triggerIfSwitch k
  | wait timeoutMs =>
    simp only [notifyStep] at h
    split_ifs at h <;> cases h
    · exact .fields _ (fun _ => rfl) fun _ => rfl
    · exact .refl k
    · have hmark : Stores F T k (k.modifyTask t fun x =>
          { x with state := .blocked, delayTicks := timeoutMs, waitListHead := none }) :=
        .task t (fun _ => id) fun _ => .inl rfl
      exact (hmark.trans (.schedPickAndMark _)).tail (.pendsv _)
  | blocked =>
    simp only [notifyStep] at h
    split_ifs at h <;> cases h
    · exact .fields _ (fun _ => rfl) fun _ => rfl
    · exact .refl k
  | given | returned => cases h

theorem schedStep_stores {c c' : SchedCtl} (h : schedStep k t c = some (k', c', o)) :
    Stores F T k k' := by
  cases c with
  | delay ms =>
    simp only [schedStep] at h
    split_ifs at h <;> cases h
    · exact .refl k
    · have hmark : Stores F T k (k.modifyTask t fun x =>
          { x with delayTicks := ms, state := .blocked }) := .fields t (fun _ => rfl) fun _ => rfl
      exact hmark.trans (.schedCommitNext _)
  | delayTrigger | trigger =>
    cases h
    exact .single (.pendsv k)
  | delayWait | create =>
    simp only [schedStep] at h
    split_ifs at h <;> cases h <;> exact .refl k
  | yield =>
    cases h
    unfold Kernel.yieldSection
    split
    · rename_i u _
      have hready : Stores F T k (k.setState u .ready) := .fields u (fun _ => rfl) fun _ => rfl
      exact hready.trans (.schedCommitNext _)
    · exact .refl k
  | block =>
    cases h
    exact .schedPickAndMark k
  | pause index =>
    cases h
    unfold Kernel.schedTaskPause
    split_ifs
    · exact .refl k
    · exact .fields _ (fun _ => rfl) fun _ => rfl
  | resume index =>
    cases h
    unfold Kernel.schedTaskResume
    split_ifs
    · exact .refl k
    · exact .fields _ (fun _ => rfl) fun _ => rfl
    · exact .refl k
  | createSection priority =>
    cases h
    exact .single (.create k priority)
  | createReturn =>
    cases h
    exact .refl k
  | returned | created => cases h

/-- A step of a call consists of stores of its module. -/
theorem ctlStep_stores {c c' : Ctl} (hF : c.family = some F)
    (h : ctlStep k t c = some (k', c', o)) : Stores F (c'.remembers t) k k' := by
  cases ctlStep_cases h with
  | sem hs =>
    cases hF
    exact semStep_stores hs
  | mutex hs =>
    cases hF
    exact mutexStep_stores hs
  | queue hs =>
    cases hF
    exact queueStep_stores hs
  | event hs =>
    cases hF
    exact eventStep_stores hs
  | notify hs => exact notifyStep_stores hs
  | sched hs => exact schedStep_stores hs

namespace Stores

theorem objects (h : Stores F T k k') : ObjectsOf F k k' := by
  induction h with
  | refl => exact .refl k
  | tail _ hs ih =>
    refine ih.trans ?_
    cases hs with
    | task t hf => exact .of_same (.modifyTask ..)
    | relinked h => exact .of_same (.of_relinked h)
    | rescheduled h => exact .of_same (.of_rescheduled h)
    | pendsv => exact .of_same (.triggerPendsv _)
    | create => exact .of_same ⟨rfl, rfl, rfl, rfl, rfl, rfl⟩
    | object h _ => exact h

/-- Only the tick sets timeout marks. -/
theorem timedOut (h : Stores F T k k') (t : TaskPtr) (ht : (k'.tcb t).timedOut = true) :
    (k.tcb t).timedOut = true := by
  induction h with
  | refl => exact ht
  | tail _ hs ih =>
    refine ih ?_
    cases hs with
    | @task u f hf =>
      rw [Kernel.modifyTask_tcb] at ht
      split_ifs at ht with hu
      · rw [hu]
        exact hf.mark _ ht
      · exact ht
    | relinked h =>
      rw [h.tcb t] at ht
      exact ht
    | rescheduled h =>
      rw [h.timedOut t] at ht
      exact ht
    | pendsv => exact ht
    | create p =>
      rw [Kernel.tcb_createSection] at ht
      split_ifs at ht with hu
      exact ht
    | object _ htcb =>
      rw [htcb] at ht
      exact ht

/-- The other tasks do not come to remember a list. -/
theorem waitListHead (h : Stores F T k k') (ht : t ∉ T) :
    (k'.tcb t).waitListHead = none ∨ (k'.tcb t).waitListHead = (k.tcb t).waitListHead := by
  induction h with
  | refl => exact .inr rfl
  | @tail k₁ k₂ _ hs ih =>
    have hstep : (k₂.tcb t).waitListHead = none ∨
        (k₂.tcb t).waitListHead = (k₁.tcb t).waitListHead := by
      cases hs with
      | @task u f hf =>
        rw [Kernel.modifyTask_tcb]
        split_ifs with hu
        · rw [hu]
          exact hf.head (hu ▸ ht) _
        · exact .inr rfl
      | relinked h => exact .inr (h.waitListHead t)
      | rescheduled h => exact .inr (h.waitListHead t)
      | pendsv => exact .inr rfl
      | create p =>
        rw [Kernel.tcb_createSection]
        split_ifs
        · exact .inl rfl
        · exact .inr rfl
      | object _ htcb => exact .inr (by rw [htcb])
    rcases hstep with hnone | hsame
    · exact .inl hnone
    · rwa [hsame]

end Stores

/-- A step of a call changes the objects of its module only. -/
theorem ctlStep_objects {c c' : Ctl} (hF : c.family = some F)
    (h : ctlStep k t c = some (k', c', o)) : ObjectsOf F k k' :=
  (ctlStep_stores hF h).objects

/-- A context that executes a step is in a call of some module. -/
theorem ctlStep_family_stores {c c' : Ctl} (h : ctlStep k t c = some (k', c', o)) :
    ∃ F, c.family = some F ∧ Stores F (c'.remembers t) k k' := by
  cases hF : c.family with
  | none =>
    cases c with
    | app => cases h
    | sem c | mutex c | queue c | event c | notify c | sched c => cases hF
  | some F => exact ⟨F, rfl, ctlStep_stores hF h⟩

/-! ### Whom a step reports about -/

theorem semStep_family {c c' : SemCtl} (hs : semStep k t c = some (k', c', o)) :
    ∀ b ∈ o, b.family = .sem := by
  cases c with
  | take s retry =>
    simp only [semStep] at hs
    split at hs <;> cases hs <;> simp [Obs.family]
  | trytake s =>
    simp only [semStep] at hs
    split at hs <;> cases hs <;> simp [Obs.family]
  | blocked s | give s =>
    cases hs
    simp [Obs.family]
  | taken s | given s | trytaken s r => cases hs

theorem mutexStep_family {c c' : MutexCtl} (hs : mutexStep k t c = some (k', c', o)) :
    ∀ b ∈ o, b.family = .mutex := by
  cases c with
  | attempt m deadline retry | trylock m =>
    simp only [mutexStep] at hs
    split at hs <;> cases hs <;> simp [Obs.family]
  | clock m d | unlock m | blocked m deadline =>
    simp only [mutexStep] at hs
    split_ifs at hs <;> cases hs <;> simp
  | block m timeout =>
    simp only [mutexStep] at hs
    split at hs <;> cases hs <;> simp
  | enter | acquired | release =>
    cases hs
    simp [Obs.family]
  | locked | lockTimeoutReturned | trylocked | unlocked => cases hs

theorem queueStep_family {c c' : QueueCtl} (hs : queueStep k t c = some (k', c', o)) :
    ∀ b ∈ o, b.family = .queue := by
  have hobs : ∀ q op item, (queueObs q op item).family = .queue := by
    intro q op item
    cases op <;> rfl
  cases c with
  | loop q op deadline retry =>
    simp only [queueStep] at hs
    split at hs <;> cases hs <;> simp [hobs]
  | attempt q op =>
    simp only [queueStep] at hs
    split_ifs at hs <;> cases hs <;> simp [hobs]
  | blocked | finish =>
    simp only [queueStep] at hs
    split_ifs at hs <;> cases hs <;> simp
  | wake w timed r => cases w <;> cases hs <;> simp
  | enter | trigger =>
    cases hs
    simp
  | returned r => cases hs

theorem eventStep_family {c c' : EventCtl} (hs : eventStep k t c = some (k', c', o)) :
    ∀ b ∈ o, b.family = .event := by
  cases c with
  | set e bits =>
    obtain ⟨⟨k₁, gs⟩, -, he⟩ := Option.map_eq_some_iff.1 hs
    cases he
    intro b hb
    rcases List.mem_cons.1 hb with rfl | hmem
    · rfl
    · obtain ⟨g, -, rfl⟩ := List.mem_map.1 hmem
      rfl
  | loop w deadline =>
    simp only [eventStep] at hs
    split at hs
    · cases hs
      simp [Obs.family]
    · cases hs
      simp
    · split at hs <;> cases hs <;> simp
    · cases hs
      simp
    · cases hs
  | blocked w deadline i =>
    simp only [eventStep] at hs
    split_ifs at hs <;> cases hs <;> simp
  | clear | get | enter =>
    cases hs
    simp [Obs.family]
  | done | got | returned => cases hs

theorem notifyStep_family {c c' : NotifyCtl} (hs : notifyStep k t c = some (k', c', o)) :
    ∀ b ∈ o, b.family = .notify := by
  cases c with
  | give u value =>
    cases u with
    | none =>
      cases hs
      simp
    | some u =>
      simp only [notifyStep] at hs
      split at hs <;> cases hs <;> simp [Obs.family]
  | wait timeoutMs | blocked =>
    simp only [notifyStep] at hs
    split_ifs at hs <;> cases hs <;> simp [Obs.family]
  | wake | trigger =>
    cases hs
    simp
  | given | returned => cases hs

theorem schedStep_silent {c c' : SchedCtl} (hs : schedStep k t c = some (k', c', o)) : o = [] := by
  cases c with
  | delay | delayWait | create =>
    simp only [schedStep] at hs
    split_ifs at hs <;> cases hs <;> rfl
  | delayTrigger | yield | block | trigger | pause | resume | createSection | createReturn =>
    cases hs
    rfl
  | returned | created => cases hs

/-- A step of a call reports about its module only. -/
theorem ctlStep_family {c c' : Ctl} (hF : c.family = some F)
    (h : ctlStep k t c = some (k', c', o)) : ∀ b ∈ o, b.family = F := by
  cases ctlStep_cases h with
  | sem hs =>
    cases hF
    exact semStep_family hs
  | mutex hs =>
    cases hF
    exact mutexStep_family hs
  | queue hs =>
    cases hF
    exact queueStep_family hs
  | event hs =>
    cases hF
    exact eventStep_family hs
  | notify hs =>
    cases hF
    exact notifyStep_family hs
  | sched hs =>
    rw [schedStep_silent hs]
    simp

end TamgaOs
