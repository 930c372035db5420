import TamgaOs.Machine.Coherence
import TamgaOs.Library.Handoff

/-!
# The context that executes, and the waiters that will try again

The facts that the steps of all primitives share: what is known of the context that takes the
step, how it hands a list's first waiter over to the scheduler, and what a wait list is owed. A
waiter that has been popped does not receive what it waits for; it has to test again, and any
other context may be faster. `Covered` says that a list with waiters has enough such tasks for what
is available.

## Main definitions

* `Runs k x t`: the context `x` executes, and `g_current_task` is `t`.
* `avail k l`: how many waiters of the list `l` would find their test true.
* `StillToRetry k ctl L l t`: the task `t` has been popped from `l` and has still to test again.
* `Covered k ctl L l`.
* `Untouched F x k k' L L'`: what the calls of the module `F` leave alone.

## Main results

* `Coherent.advance`: the executing context goes on.
* `Coherent.handOver`: the first waiter of a list is popped and woken.
* `Covered.elsewhere`: a step that is not about the list `l`.
-/

namespace TamgaOs

/-- The context `x` executes: the thread of the current task `t` with no context switch pended, or
a handler that has interrupted `t`. -/
structure Runs (k : Kernel) (x : Ctx) (t : TaskPtr) : Prop where
  current : k.currentTask = some t
  ctx : (x = .thread t ∧ k.pendsv = false) ∨ ∃ i, x = .isr i

theorem Machine.runs {m : Machine} {x : Ctx} {t : TaskPtr} (h : m.active = some x)
    (hcur : m.kernel.currentTask = some t) : Runs m.kernel x t := by
  refine ⟨hcur, ?_⟩
  cases x with
  | thread u =>
    obtain ⟨-, hp, hu⟩ := Machine.active_thread h
    have hut : u = t := Option.some.inj (hu.symm.trans hcur)
    exact Or.inl ⟨by rw [hut], hp⟩
  | isr i => exact Or.inr ⟨i, rfl⟩

namespace Coherent

variable {k k' : Kernel} {ctl : Ctx → Ctl} {W : Ctx → Option TaskPtr}
  {L : WaitList → List TaskPtr} {t w : TaskPtr} {l : WaitList} {x : Ctx} {xs : List TaskPtr}

/-- The executing task itself is in no list and in its table entry. -/
theorem free_of_runs (h : Coherent k ctl W L) (hx : Runs k (.thread t) t)
    (happ : ctl (.thread t) ≠ .app) : Free L W t ∧ InTable k t := by
  refine ⟨?_, h.table t happ⟩
  rcases hx.ctx with ⟨-, hp⟩ | ⟨i, hi⟩
  · exact h.free_of_current hx.current hp
  · cases hi

/-- A context at a program point that no handler reaches is a task. -/
theorem thread_of_not_isrSafe (h : Coherent k ctl W L) (hx : Runs k x t)
    (hc : (ctl x).isrSafe = false) : x = .thread t := by
  rcases hx.ctx with ⟨hxt, -⟩ | ⟨i, rfl⟩
  · exact hxt
  · rw [h.isr i] at hc
    cases hc

/-- A context whose task, if it is a thread, is in no list goes on, outside `sched_delay_ms`. -/
theorem advanceFree (h : Coherent k ctl W L)
    (hfree : ∀ u, x = .thread u → Free L W u ∧ InTable k u) {c c' : Ctl} (hc : ctl x = c)
    (hdel : c.delaying = false) (hsafe : c.isrSafe = true → c'.isrSafe = true) :
    Coherent k (Function.update ctl x c') W L := by
  subst hc
  refine h.setCtl (fun u hu => ?_) fun i hi => ?_
  · obtain ⟨hf, htab⟩ := hfree u hu
    refine ⟨hf, htab, fun hd => ?_⟩
    rw [h.delay_eq_zero hf (hu ▸ hdel)] at hd
    exact absurd hd (lt_irrefl 0)
  · subst hi
    exact hsafe (h.isr i)

/-- The executing context goes on, outside `sched_delay_ms`. -/
theorem advance (h : Coherent k ctl W L) (hx : Runs k x t) {c c' : Ctl} (hc : ctl x = c)
    (happ : c ≠ .app) (hdel : c.delaying = false) (hsafe : c.isrSafe = true → c'.isrSafe = true) :
    Coherent k (Function.update ctl x c') W L := by
  refine h.advanceFree (fun u hu => ?_) hc hdel hsafe
  subst hu
  have hut : u = t := by
    rcases hx.ctx with ⟨he, -⟩ | ⟨i, he⟩ <;> cases he
    rfl
  subst hut
  exact h.free_of_runs hx (by rw [hc]; exact happ)

/-- The first waiter of a list is popped and woken. -/
theorem handOver (h : Coherent k ctl W L) (hl : L l = w :: xs) :
    Coherent ((k.setHead l (k.waitNext w)).schedWakeTask w) ctl W (Function.update L l xs) := by
  have hw : w ∈ L l := hl ▸ List.mem_cons_self
  have hchain : k.Waiters l (w :: xs) := hl ▸ h.waiters l
  have herase : (L l).erase w = xs := by rw [hl, List.erase_cons_head]
  have hrel := h.release hw (.setHead (k.waitNext w) l)
    (by rw [herase]; exact Kernel.waiters_setHead_of_cons hchain)
    (f := fun y => { y with waitNext := none, delayTicks := 0, state := .ready }) rfl
  rw [herase] at hrel
  exact hrel.schedPickAndMark.triggerIfSwitch

end Coherent

theorem Quiet.wakeSection (k : Kernel) (t : TaskPtr) {T : Set TaskPtr} :
    Quiet k (k.wakeSection t) T :=
  (Quiet.modifyTask t rfl fun _ => rfl).trans
    (Kernel.rescheduled_schedPickAndMark.quiet.mono (Set.empty_subset T))

theorem Quiet.schedWakeTask (k : Kernel) (t : TaskPtr) {T : Set TaskPtr} :
    Quiet k (k.schedWakeTask t) T :=
  (Quiet.wakeSection k t).trans (.triggerIfSwitch _)

theorem Quiet.handOver (k : Kernel) (l : WaitList) (t : TaskPtr) (n : Option TaskPtr)
    {T : Set TaskPtr} : Quiet k ((k.setHead l n).schedWakeTask t) T :=
  .trans ((Relinked.setHead (S := []) n l).quiet.mono (Set.empty_subset T)) (.schedWakeTask _ t)

/-! ### What a step leaves alone -/

/-- The module that a wait list belongs to. -/
def WaitList.family : WaitList → Family
  | .sem _ => .sem
  | .mutex _ => .mutex
  | .queueSend _ | .queueReceive _ => .queue
  | .event _ => .event

/-- The module that makes a report. -/
def Obs.family : Obs → Family
  | .semTaken _ | .semGiven _ _ => .sem
  | .mutexAcquired _ _ | .mutexReleased _ _ => .mutex
  | .queueSent _ _ | .queueReceived _ _ => .queue
  | .eventSet _ _ | .eventCleared _ _ | .eventGranted _ _ _ => .event
  | .notifyGiven _ _ | .notifyTaken _ _ => .notify

theorem Ctl.family_of_waitsOn {c : Ctl} {l : WaitList} (h : c.waitsOn = some l) :
    c.family = some l.family := by
  unfold Ctl.waitsOn at h
  split at h <;> cases h
  · rfl
  · rfl
  · rename_i q op d
    cases op <;> rfl
  · rfl

theorem Ctl.family_of_retries {c : Ctl} {l : WaitList} (h : c.retries = some l) :
    c.family = some l.family := by
  unfold Ctl.retries at h
  split at h <;> cases h
  · rfl
  · rfl
  · rename_i q op d
    cases op <;> rfl

/-- What a step of the context `x` in a call of the module `F` leaves alone: the objects and the
wait lists of the other modules, and the timeout marks of the tasks other than its own. -/
structure Untouched (F : Family) (x : Ctx) (k k' : Kernel) (L L' : WaitList → List TaskPtr) :
    Prop where
  sem : F ≠ .sem → k'.sem = k.sem
  mutex : F ≠ .mutex → k'.mutex = k.mutex
  queue : F ≠ .queue → k'.queue = k.queue
  event : F ≠ .event → k'.group = k.group ∧ k'.pending = k.pending
  priority : F ≠ .mutex → F ≠ .sched → ∀ t, (k'.tcb t).priority = (k.tcb t).priority
  taskCount : F ≠ .sched → k'.taskCount = k.taskCount
  inTable : ∀ {t}, InTable k t → InTable k' t
  ticks : k'.ticks = k.ticks
  timedOut : ∀ t, InTable k t → x ≠ .thread t → (k'.tcb t).timedOut = (k.tcb t).timedOut
  lists : ∀ l, l.family ≠ F → L' l = L l

theorem Untouched.trans {F : Family} {x : Ctx} {k k' k'' : Kernel}
    {L L' L'' : WaitList → List TaskPtr} (h : Untouched F x k k' L L')
    (h' : Untouched F x k' k'' L' L'') : Untouched F x k k'' L L'' :=
  ⟨fun hF => (h'.sem hF).trans (h.sem hF), fun hF => (h'.mutex hF).trans (h.mutex hF),
    fun hF => (h'.queue hF).trans (h.queue hF),
    fun hF => ⟨(h'.event hF).1.trans (h.event hF).1, (h'.event hF).2.trans (h.event hF).2⟩,
    fun hF hS t => (h'.priority hF hS t).trans (h.priority hF hS t),
    fun hF => (h'.taskCount hF).trans (h.taskCount hF), fun ht => h'.inTable (h.inTable ht),
    h'.ticks.trans h.ticks,
    fun t htab ht => (h'.timedOut t (h.inTable htab) ht).trans (h.timedOut t htab ht),
    fun l hl => (h'.lists l hl).trans (h.lists l hl)⟩

theorem Quiet.untouched {F : Family} {x : Ctx} {k k' : Kernel} {L L' : WaitList → List TaskPtr}
    {T : Set TaskPtr} (h : Quiet k k' T) (hT : ∀ t ∈ T, x = .thread t)
    (hL : ∀ l, l.family ≠ F → L' l = L l) : Untouched F x k k' L L' :=
  ⟨fun _ => h.sem, fun _ => h.mutex, fun _ => h.queue, fun _ => ⟨h.group, h.pending⟩,
    fun _ _ => h.priority, fun _ => h.taskCount, fun ht => by rwa [InTable, h.taskCount], h.ticks,
    fun t _ ht => h.timedOut t fun hmem => ht (hT t hmem), hL⟩

theorem mem_of_mem_update {L : WaitList → List TaskPtr} {l l' : WaitList} {xs : List TaskPtr}
    {u : TaskPtr} (h : u ∈ Function.update L l xs l') : u ∈ L l' ∨ (l' = l ∧ u ∈ xs) := by
  by_cases hl : l' = l
  · subst hl
    rw [Function.update_self] at h
    exact Or.inr ⟨rfl, h⟩
  · rw [Function.update_of_ne hl] at h
    exact Or.inl h

/-- A task that a step of the context `x`, in a call of the current task `t`, has linked: the task
itself, whose mark is clear if it waits with a timeout. -/
def Newly (k' : Kernel) (t : TaskPtr) (c c' : Ctl) (u : TaskPtr) : Prop :=
  u = t ∧ c.isrSafe = false ∧ (c'.timed = true → (k'.tcb t).timedOut = false)

theorem Untouched.refl {F : Family} {x : Ctx} (k : Kernel) (L : WaitList → List TaskPtr) :
    Untouched F x k k L L :=
  (Quiet.refl k ∅).untouched (by simp) fun _ _ => rfl

theorem Ctl.retries_eq_none_of_waitsOn {c : Ctl} {l : WaitList} (h : c.waitsOn = some l) :
    c.retries = none := by
  unfold Ctl.waitsOn at h
  split at h <;> first | rfl | cases h

theorem Ctl.ne_app_of_waitsOn {c : Ctl} {l : WaitList} (h : c.waitsOn = some l) : c ≠ .app := by
  rintro rfl
  cases h

/-! ### What a wait list is owed -/

/-- How many waiters of the list would find their test true. -/
def avail (k : Kernel) : WaitList → ℕ
  | .sem s => (k.sem s).count.toNat
  | .mutex m => if (k.mutex m).task = none then 1 else 0
  | .queueSend q => (k.queue q).capacity.toNat - (k.queue q).count
  | .queueReceive q => (k.queue q).count
  | .event _ => 0

/-- The task `t` has been popped from the list `l` and has still to run its test again: it has
not left `sched_block_locked` yet, and not by a timeout, or it is about to test. -/
def StillToRetry (k : Kernel) (ctl : Ctx → Ctl) (L : WaitList → List TaskPtr) (l : WaitList)
    (t : TaskPtr) : Prop :=
  (ctl (.thread t)).retries = some l ∨
  ((ctl (.thread t)).waitsOn = some l ∧ t ∉ L l ∧
    ¬ ((ctl (.thread t)).timed = true ∧ (k.tcb t).timedOut = true))

/-- As long as the list `l` is not empty, at least as many popped tasks have still to test again
as would find their test true. -/
def Covered (k : Kernel) (ctl : Ctx → Ctl) (L : WaitList → List TaskPtr) (l : WaitList) : Prop :=
  Handoff.Covered (avail k l) (L l ≠ []) (StillToRetry k ctl L l)

theorem avail_congr {k k' : Kernel} {T : Set TaskPtr} (h : Quiet k k' T) (l : WaitList) :
    avail k' l = avail k l := by
  cases l <;> simp only [avail, h.sem, h.mutex, h.queue]

section Steps

variable {k k' : Kernel} {ctl ctl' : Ctx → Ctl} {L L' : WaitList → List TaskPtr} {l : WaitList}
  {t u : TaskPtr} {x : Ctx} {c' : Ctl}

theorem StillToRetry.ne_app (h : StillToRetry k ctl L l u) : ctl (.thread u) ≠ .app := by
  intro he
  rcases h with hr | ⟨hw, -⟩
  · rw [he] at hr
    cases hr
  · exact Ctl.ne_app_of_waitsOn hw he

/-- A popped task stays popped as long as it does nothing and no timeout marks it. -/
theorem StillToRetry.keep (h : StillToRetry k ctl L l u)
    (hctl : ctl' (.thread u) = ctl (.thread u))
    (hmark : (k'.tcb u).timedOut = (k.tcb u).timedOut) (hL : u ∈ L' l → u ∈ L l) :
    StillToRetry k' ctl' L' l u := by
  unfold StillToRetry at h ⊢
  rw [hctl, hmark]
  exact h.imp_right fun ⟨hw, hnot, hmark⟩ => ⟨hw, fun hin => hnot (hL hin), hmark⟩

/-- A task is not about to test again when it is not in the call of the list. -/
theorem not_stillToRetry (hr : (ctl (.thread t)).retries ≠ some l)
    (hw : (ctl (.thread t)).waitsOn ≠ some l) : ¬ StillToRetry k ctl L l t := by
  rintro (he | ⟨he, -⟩)
  · exact hr he
  · exact hw he

/-- A step of the context `x` that takes nothing, when `x` has not been popped from the list. -/
theorem Covered.elsewhere (h : Covered k ctl L l)
    (hno : ∀ u, x = .thread u → ¬ StillToRetry k ctl L l u)
    (hmark : ∀ u, ctl (.thread u) ≠ .app → x ≠ .thread u →
      (k'.tcb u).timedOut = (k.tcb u).timedOut)
    (ha : avail k' l ≤ avail k l) (hL : L' l = L l) :
    Covered k' (Function.update ctl x c') L' l := by
  refine h.mono (by rw [hL]; exact id) ha fun u hu => ?_
  have hxu : x ≠ .thread u := fun he => hno u he hu
  exact hu.keep (Function.update_of_ne (Ne.symm hxu) ..) (hmark u hu.ne_app hxu)
    (by rw [hL]; exact id)

/-- A step in a call of another module. -/
theorem Covered.untouched {F : Family} {W : Ctx → Option TaskPtr} (h : Covered k ctl L l)
    (hco : Coherent k ctl W L) (hu : Untouched F x k k' L L')
    (hF : (ctl x).family = some F) (hl : l.family ≠ F) :
    Covered k' (Function.update ctl x c') L' l := by
  have hne : ∀ c : Ctl, c.family = some F → c.family ≠ some l.family := fun c hc he =>
    hl (Option.some.inj (he.symm.trans hc))
  refine h.elsewhere ?_ (fun u happ => hu.timedOut u (hco.table u happ)) (le_of_eq ?_)
    (hu.lists l hl)
  · rintro u rfl
    exact not_stillToRetry (fun he => hne _ hF (Ctl.family_of_retries he))
      fun he => hne _ hF (Ctl.family_of_waitsOn he)
  · cases l with
    | sem s => simp only [avail, hu.sem fun he => hl he.symm]
    | mutex m => simp only [avail, hu.mutex fun he => hl he.symm]
    | queueSend q => simp only [avail, hu.queue fun he => hl he.symm]
    | queueReceive q => simp only [avail, hu.queue fun he => hl he.symm]
    | event e => rfl

/-- The task `t` finds its test true. -/
theorem Covered.take (h : Covered k ctl L l)
    (hmark : ∀ u, ctl (.thread u) ≠ .app → u ≠ t → (k'.tcb u).timedOut = (k.tcb u).timedOut)
    (ha : avail k' l + 1 ≤ avail k l) (hL : L' l = L l) :
    Covered k' (Function.update ctl (.thread t) c') L' l := by
  refine Handoff.Covered.take h t (by rw [hL]; exact id) ha fun u hut hu => ?_
  refine hu.keep ?_ (hmark u hu.ne_app hut) (by rw [hL]; exact id)
  exact Function.update_of_ne (fun he => hut (by simpa using he)) ..

/-- The task `t` goes back to its test after it has been woken. -/
theorem Covered.resume (h : Covered k ctl L l)
    (hr : (ctl (.thread t)).retries = none) (hw : (ctl (.thread t)).waitsOn = c'.retries) :
    Covered k (Function.update ctl (.thread t) c') L l := by
  refine h.mono id le_rfl fun u hu => ?_
  by_cases hut : u = t
  · subst hut
    left
    rw [Function.update_self, ← hw]
    rcases hu with he | ⟨he, -⟩
    · rw [hr] at he
      cases he
    · exact he
  · refine hu.keep ?_ rfl id
    exact Function.update_of_ne (fun he => hut (by simpa using he)) ..

/-- The first waiter `w` of the list is popped by the context `x`, which has added at most one to
what is available. -/
theorem Covered.supply {w : TaskPtr} {xs : List TaskPtr} {W : Ctx → Option TaskPtr}
    (h : Covered k ctl L l) (hco : Coherent k ctl W L) (hl : L l = w :: xs)
    (hfresh : (ctl (.thread w)).timed = true → (k.tcb w).timedOut = false)
    (hr : (ctl x).retries ≠ some l) (hw : (ctl x).waitsOn ≠ some l)
    (hmark : ∀ u, ctl (.thread u) ≠ .app → x ≠ .thread u →
      (k'.tcb u).timedOut = (k.tcb u).timedOut)
    (ha : avail k' l ≤ avail k l + 1) (hL : L' l = xs) :
    Covered k' (Function.update ctl x c') L' l := by
  have hmem : w ∈ L l := hl ▸ List.mem_cons_self
  have hwait := (hco.linked l w hmem).2
  have hnot : w ∉ xs := (List.nodup_cons.1 (hl ▸ (hco.waiters l).nodup)).1
  have hxw : x ≠ .thread w := by
    rintro rfl
    exact hw hwait
  refine Handoff.Covered.supply (t := w) h (by rw [hl]; exact List.cons_ne_nil w xs) ha ?_ ?_
    fun u hu => ?_
  · rintro (he | ⟨-, hn, -⟩)
    · rw [Ctl.retries_eq_none_of_waitsOn hwait] at he
      cases he
    · exact hn hmem
  · right
    rw [Function.update_of_ne (Ne.symm hxw), hL]
    refine ⟨hwait, hnot, fun hm => ?_⟩
    rw [hmark w (Ctl.ne_app_of_waitsOn hwait) hxw, hfresh hm.1] at hm
    cases hm.2
  · have hxu : x ≠ .thread u := by
      rintro rfl
      rcases hu with he | ⟨he, -⟩
      · exact hr he
      · exact hw he
    refine hu.keep (Function.update_of_ne (Ne.symm hxu) ..) (hmark u hu.ne_app hxu) fun hin => ?_
    rw [hl]
    exact List.mem_cons_of_mem w (hL ▸ hin)

end Steps

end TamgaOs
