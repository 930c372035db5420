import TamgaOs.Properties.Mutex
import TamgaOs.Library.Stable
import Mathlib.Data.List.TakeWhile

/-!
# The order of the wait lists

`wq_insert` puts a task behind all waiters that are at least as urgent, and nothing moves it later.
The order of a list is therefore that of the priorities which its tasks have had when they linked
themselves; `mutex_lock` raises the priority of an owner wherever the owner is.

## Main definitions

* `Arrivals`, `Machine.stamped`: the machine with the number of the step in which each task has
  begun its last wait.
* `Machine.ServedInOrder m g`: every list is in the order of the priorities, first come first served
  among equals.
* `Machine.ElevatesInOrder m g a`: the step raises no linked owner past a task ahead of it.

## Main results

* `waitLists_inOrder_iff`: runs that elevate in order keep the lists in order, and a step that does
  not leaves a list out of order.
* `elevatedOwner_outOfOrder`: a receiver that has become the most urgent one is served second.
-/

namespace TamgaOs

/-! ### Arrivals -/

/-- The number of steps so far, and of the step in which each task has begun its last wait in a
list. -/
structure Arrivals where
  steps : ℕ := 0
  time : TaskPtr → ℕ := fun _ => 0

namespace Machine

/-- The task `t` has linked itself in the step from `m` to `m'`. -/
def BeginsToWait (m m' : Machine) (t : TaskPtr) : Prop :=
  (m'.ctl (.thread t)).waitsOn.isSome = true ∧ m'.ctl (.thread t) ≠ m.ctl (.thread t)

instance (m m' : Machine) : DecidablePred (BeginsToWait m m') := fun _ =>
  inferInstanceAs (Decidable (_ ∧ _))

/-- The arrivals after an action. -/
def arrive (m : Machine) (a : Action) (_ : List Obs) (g : Arrivals) : Arrivals :=
  match m.step a with
  | some (m', _) =>
    { steps := g.steps + 1, time := fun t => if m.BeginsToWait m' t then g.steps else g.time t }
  | none => g

/-- The machine with its arrivals. -/
def stamped : Machine × Arrivals → Action → Option ((Machine × Arrivals) × List Obs) :=
  Run.annotate step arrive

/-! ### The order, and the condition on the steps -/

/-- Every wait list is in the order of the current priorities, and of the arrivals among equals;
`wq_pop` yields a waiter that is at least as urgent as all others. -/
def ServedInOrder (m : Machine) (g : Arrivals) : Prop :=
  ∀ l, ∃ xs, m.kernel.Waiters l xs ∧
    Stable.InOrder (fun t => (m.kernel.tcb t).priority) g.time xs ∧
    ∀ t, (m.kernel.wqPop l).2 = some t → ∀ u ∈ xs,
      (m.kernel.tcb t).priority ≤ (m.kernel.tcb u).priority

/-- The executing task and the owner whose priority it is about to raise. -/
def elevating (m : Machine) : Option (TaskPtr × TaskPtr) :=
  match m.active with
  | some (.thread t) =>
    match m.ctl (.thread t) with
    | .mutex (.block x _) =>
      match (m.kernel.mutex x).task with
      | some owner =>
        if (m.kernel.tcb t).priority < (m.kernel.tcb owner).priority then some (t, owner) else none
      | none => none
    | _ => none
  | _ => none

/-- When the step raises the priority of an owner that is linked, all tasks ahead of it in its list
are more urgent than the caller, or as urgent and linked before it. -/
def ElevatesInOrder (m : Machine) (g : Arrivals) : Action → Prop
  | .exec => ∀ t owner, m.elevating = some (t, owner) → ∀ l xs, m.kernel.Waiters l xs →
      owner ∈ xs → ∀ u ∈ xs.takeWhile (· ≠ owner),
        (m.kernel.tcb u).priority < (m.kernel.tcb t).priority ∨
          (m.kernel.tcb u).priority = (m.kernel.tcb t).priority ∧ g.time u < g.time owner
  | _ => True

variable {m m' : Machine} {o : List Obs} {x : Ctx} {k' : Kernel} {c' : Ctl} {t owner : TaskPtr}

theorem not_beginsToWait_resume (hc' : c'.waitsOn = none) (t : TaskPtr) :
    ¬ m.BeginsToWait (m.resume x k' c') t := by
  rintro ⟨hw, hne⟩
  rw [ctl_resume] at hw hne
  by_cases hx : Ctx.thread t = x
  · subst hx
    rw [Function.update_self, hc'] at hw
    cases hw
  · exact hne (Function.update_of_ne hx ..)

theorem beginsToWait_resume {l : WaitList} (m : Machine) (k' : Kernel) (c' : Ctl)
    (hc' : c'.waitsOn = some l) (hold : (m.ctl (.thread t)).waitsOn = none) :
    (∀ u, m.BeginsToWait (m.resume (.thread t) k' c') u → u = t) ∧
      ((m.resume (.thread t) k' c').ctl (.thread t)).waitsOn = some l ∧
      m.BeginsToWait (m.resume (.thread t) k' c') t := by
  have hself : (m.resume (.thread t) k' c').ctl (.thread t) = c' := Function.update_self ..
  refine ⟨fun u hu => ?_, by rw [hself, hc'], by rw [hself, hc']; rfl, fun he => ?_⟩
  · by_contra hne
    exact hu.2 (Function.update_of_ne (by simpa using hne) ..)
  · rw [hself] at he
    rw [← he, hc'] at hold
    cases hold

theorem elevating_eq_some : m.elevating = some (t, owner) ↔ ∃ x timeout,
    m.active = some (.thread t) ∧ m.ctl (.thread t) = .mutex (.block x timeout) ∧
      (m.kernel.mutex x).task = some owner ∧
      (m.kernel.tcb t).priority < (m.kernel.tcb owner).priority := by
  constructor
  · intro h
    unfold elevating at h
    split at h
    · rename_i u hact
      split at h
      · rename_i x timeout hc
        split at h
        · rename_i w hw
          split_ifs at h with hlt
          cases h
          exact ⟨x, timeout, hact, hc, hw, hlt⟩
        · cases h
      · cases h
    · cases h
  · rintro ⟨x, timeout, hact, hc, hw, hlt⟩
    simp [elevating, hact, hc, hw, hlt]

/-- A task that raises an owner's priority begins to wait for the mutex. -/
theorem beginsToWait_of_elevating (hs : m.step .exec = some (m', o))
    (he : m.elevating = some (t, owner)) :
    m.BeginsToWait m' t ∧ ∃ x, (m'.ctl (.thread t)).waitsOn = some (.mutex x) := by
  obtain ⟨x, timeout, hact, hc, hw, -⟩ := elevating_eq_some.1 he
  rcases step_cases hs with ⟨_, _, he, _⟩ | ⟨y, u, k', c', -, hact', -, hst, rfl⟩ | ⟨_, he, _⟩ |
    ⟨he, _⟩ | ⟨_, he, _⟩ | ⟨_, _, he, _⟩
  · cases he
  · obtain rfl : Ctx.thread t = y := Option.some.inj (hact.symm.trans hact')
    rw [hc] at hst
    obtain ⟨⟨k₁, c₁, o₁⟩, hmutex, he⟩ := Option.map_eq_some_iff.1 hst
    cases he
    rcases mutexStep_block hmutex with ⟨hfree, -⟩ | ⟨owner', -, -, rfl, -⟩
    · rw [hw] at hfree
      cases hfree
    · obtain ⟨-, hwaits, hnew⟩ := beginsToWait_resume m k'
        (.mutex (.blocked x (timeout.map Prod.fst))) rfl (by rw [hc]; rfl)
      exact ⟨hnew, x, hwaits⟩
  · cases he
  · cases he
  · cases he
  · cases he

end Machine

/-! ### What a step does to the lists -/

/-- How one step changes the lists and the priorities of the tasks in them: tasks leave; or a task
links itself; or it does so after it has raised the priority of an owner. -/
inductive ListMove (m : Machine) (L : WaitList → List TaskPtr) (a : Action) (m' : Machine)
    (L' : WaitList → List TaskPtr) : Prop
  | leave (hL : ∀ l, (L' l).Sublist (L l))
      (hp : ∀ l, ∀ t ∈ L' l, (m'.kernel.tcb t).priority = (m.kernel.tcb t).priority)
      (hctl : ∀ t, ¬ m.BeginsToWait m' t)
  | enter {t : TaskPtr} {l : WaitList}
      (hp : ∀ u, (m'.kernel.tcb u).priority = (m.kernel.tcb u).priority)
      (hfree : ∀ l, t ∉ L l) (hL : L' = Function.update L l (m.kernel.enqueued t (L l)))
      (hctl : ∀ u, m.BeginsToWait m' u → u = t) (hw : (m'.ctl (.thread t)).waitsOn = some l)
      (hl : l.family ≠ .mutex) (hnew : m.BeginsToWait m' t)
  | block {t owner : TaskPtr} {x : ℕ} {timeout : Option (ℕ × ℕ)}
      (ha : a = .exec) (hact : m.active = some (.thread t))
      (hc : m.ctl (.thread t) = .mutex (.block x timeout))
      (howner : (m.kernel.mutex x).task = some owner)
      (hp : ∀ u, (m'.kernel.tcb u).priority =
        ((m.kernel.mutexElevate x owner t).tcb u).priority)
      (hL : L' = Function.update L (.mutex x)
        ((m.kernel.mutexElevate x owner t).enqueued t (L (.mutex x))))
      (hctl : ∀ u, m.BeginsToWait m' u → u = t) (hnew : m.BeginsToWait m' t)

section Steps

variable {m m' : Machine} {L L' : WaitList → List TaskPtr} {a : Action} {o : List Obs}
  {g : Arrivals}

/-- The lists after the pop of a first waiter. -/
theorem sublist_update_tail {l : WaitList} {w : TaskPtr} {xs : List TaskPtr} (hl : L l = w :: xs)
    (l' : WaitList) : (Function.update L l xs l').Sublist (L l') := by
  rw [Function.update_apply]
  split_ifs with he
  · rw [he, hl]
    exact List.sublist_cons_self ..
  · exact List.Sublist.refl _

theorem Popped.sublist {k : Kernel} {l : WaitList} {w : Option TaskPtr}
    (h : Popped k L l k' w L') (l' : WaitList) : (L' l').Sublist (L l') := by
  cases h with
  | nobody _ => exact List.Sublist.refl _
  | first hl => exact sublist_update_tail hl l'

/-- What a step of an orderly run does to the lists. -/
theorem StepEffect.listMove (he : StepEffect m L a m' L' o) (hs : Sound m L)
    (hrel : ∀ t x, (m.ctl (.thread t)) = .mutex (.release x) → (m.kernel.mutex x).task = some t) :
    ListMove m L a m' L' := by
  have hthread : ∀ {x : Ctx} {t : TaskPtr}, Runs m.kernel x t → (m.ctl x).isrSafe = false →
      x = .thread t := fun hx => hs.coherent.thread_of_not_isrSafe hx
  have hfree : ∀ {t : TaskPtr}, Runs m.kernel (.thread t) t → m.ctl (.thread t) ≠ .app →
      ∀ l, t ∉ L l := fun hx happ => (hs.coherent.free_of_runs hx happ).1.1
  have hsame : ∀ {k' : Kernel}, (∀ u, (k'.tcb u).priority = (m.kernel.tcb u).priority) →
      ∀ l, ∀ t ∈ L l, (k'.tcb t).priority = (m.kernel.tcb t).priority := fun h _ t _ => h t
  cases he with
  | @call c i hact hrest =>
    refine .leave (fun _ => List.Sublist.refl _) (hsame fun _ => rfl) fun t ht => ?_
    by_cases hti : t = .tcb i
    · subst hti
      have hw := ht.1
      dsimp only at hw
      rw [Function.update_self] at hw
      cases c <;> cases hw
    · exact ht.2 (Function.update_of_ne (by simpa using hti) ..)
  | @irq c _ =>
    exact .leave (fun _ => List.Sublist.refl _) (hsame fun _ => rfl) fun t ht =>
      ht.2 (Machine.update_isr m.ctl m.depth c.entry t)
  | pendSV | clock =>
    exact .leave (fun _ => List.Sublist.refl _) (hsame fun _ => rfl) fun t ht => ht.2 rfl
  | tick he =>
    refine .leave (fun l => ?_) (fun l t _ => he.quiet.priority t) fun t ht => ht.2 rfl
    rw [he.lists]
    exact List.filter_sublist
  | @sem _ _ _ _ k' _ _ hx hc he hu _ =>
    have hp := hu.priority (by simp) (by simp)
    cases he with
    | take _ | resume | give _ | trytake _ | tryfail _ =>
      exact .leave (fun _ => List.Sublist.refl _) (fun _ t _ => hp t)
        (Machine.not_beginsToWait_resume rfl)
    | wake hl _ =>
      exact .leave (sublist_update_tail hl) (fun _ t _ => hp t)
        (Machine.not_beginsToWait_resume rfl)
    | @block s retry _ _ _ =>
      obtain rfl := hthread hx (by rw [hc]; rfl)
      obtain ⟨hctl, hw, hnew⟩ := Machine.beginsToWait_resume m k' (.sem (.blocked s)) rfl
        (by rw [hc]; rfl)
      exact .enter hp (hfree hx (by rw [hc]; simp)) rfl hctl hw (by simp [WaitList.family]) hnew
  | @queue _ _ _ _ k' _ _ hx hc he hu =>
    have hp := hu.priority (by simp) (by simp)
    cases he with
    | enter | expired _ | timeout _ | resume | fail | wake _ | skip | trigger _ | finish _ =>
      exact .leave (fun _ => List.Sublist.refl _) (fun _ t _ => hp t)
        (Machine.not_beginsToWait_resume rfl)
    | transfer _ hpop | attempt _ hpop =>
      exact .leave hpop.sublist (fun _ t _ => hp t) (Machine.not_beginsToWait_resume rfl)
    | @block q op d retry _ _ _ _ =>
      obtain rfl := hthread hx (by rw [hc]; rfl)
      obtain ⟨hctl, hw, hnew⟩ := Machine.beginsToWait_resume m k' (.queue (.blocked q op d)) rfl
        (by rw [hc]; rfl)
      exact .enter hp (hfree hx (by rw [hc]; simp)) rfl hctl hw (by cases op <;> simp [WaitList.family, QueueOp.ownList]) hnew
  | @event _ _ _ _ k' _ _ hx hc he hu =>
    have hp := hu.priority (by simp) (by simp)
    cases he with
    | clear | get | enter | granted _ | expired | timeout _ | finish _ =>
      exact .leave (fun _ => List.Sublist.refl _) (fun _ t _ => hp t)
        (Machine.not_beginsToWait_resume rfl)
    | noSlot _ hc' =>
      refine .leave (fun _ => List.Sublist.refl _) (fun _ t _ => hp t)
        (Machine.not_beginsToWait_resume ?_)
      rcases hc' with rfl | rfl <;> rfl
    | @set e bits b kept gs k' hpass _ =>
      refine .leave (fun l => ?_) (fun _ t _ => hp t) (Machine.not_beginsToWait_resume rfl)
      have hkept : kept.Sublist (L (.event e)) := by
        rw [show kept = (eventPass (waitOf m.ctl) ((m.kernel.group e).bits ||| bits)
          (L (.event e))).2.1 by rw [hpass]]
        exact eventPass_sublist
      rw [Function.update_apply]
      split_ifs with he
      · rw [he]
        exact hkept
      · exact List.Sublist.refl _
    | @block w d i _ _ _ _ _ =>
      obtain rfl := hthread hx (by rw [hc]; rfl)
      obtain ⟨hctl, hw, hnew⟩ := Machine.beginsToWait_resume m k' (.event (.blocked w d i)) rfl
        (by rw [hc]; rfl)
      exact .enter hp (hfree hx (by rw [hc]; simp)) rfl hctl hw (by simp [WaitList.family]) hnew
  | @sched y u c c' k' hx hc hu hst =>
    refine .leave (fun _ => List.Sublist.refl _) (fun l t ht => ?_)
      (Machine.not_beginsToWait_resume rfl)
    by_cases hnew : ∃ priority, c = .createSection priority
    · obtain ⟨priority, rfl⟩ := hnew
      cases hst
      obtain ⟨i, hi, rfl⟩ := hs.coherent.inTable_of_mem ht
      rw [Machine.kernel_resume, Kernel.tcb_createSection, if_neg]
      intro he
      cases he
      exact lt_irrefl _ hi
    · exact (schedStep_quiet hst fun priority he => hnew ⟨priority, he⟩).1.priority t
  | @mutex u c c' k' _ o hx hc he hu hact =>
    have hself := hfree hx (by rw [hc]; simp)
    -- the current task gets its own priority back, and it is in no list
    have hfreed : ∀ y, (m.kernel.mutex y).task = some u → ∀ t, t ≠ u →
        ((m.kernel.mutexFreed y).tcb t).priority = (m.kernel.tcb t).priority := by
      intro y hy t htu
      rw [Kernel.priority_mutexFreed, Kernel.savedPriority, if_neg, Option.getD_none]
      rintro ⟨he, -⟩
      rw [hy] at he
      exact htu (Option.some.inj he).symm
    cases he with
    | enter | expired | read | reconsider | resume | tryfail | unlock _ | refuse _ | acquire _
    | trylock _ | retreat _ =>
      refine .leave (fun _ => List.Sublist.refl _) (hsame fun _ => rfl)
        (Machine.not_beginsToWait_resume ?_)
      first | rfl | (split <;> rfl)
    | timeout _ | acquired =>
      refine .leave (fun _ => List.Sublist.refl _) (hsame fun t => ?_)
        (Machine.not_beginsToWait_resume rfl)
      rw [Machine.kernel_resume, Kernel.modifyTask_tcb]
      split_ifs with ht
      · rw [ht]
      · rfl
    | @block y timeout owner _ howner hq _ =>
      obtain ⟨hctl, hw, hnew⟩ := Machine.beginsToWait_resume m k'
        (.mutex (.blocked y (timeout.map Prod.fst))) rfl (by rw [hc]; rfl)
      exact .block rfl hact hc howner hq.priority rfl hctl hnew
    | @release y hl =>
      refine .leave (fun _ => List.Sublist.refl _) (fun l t ht => ?_)
        (Machine.not_beginsToWait_resume rfl)
      exact hfreed y (hrel u y hc) t (ne_of_mem_of_not_mem ht (hself l))
    | @handOver y w xs k' hl hq =>
      refine .leave (sublist_update_tail hl) (fun l t ht => ?_)
        (Machine.not_beginsToWait_resume rfl)
      rw [Machine.kernel_resume, hq.priority]
      exact hfreed y (hrel u y hc) t
        (ne_of_mem_of_not_mem ((sublist_update_tail hl l).subset ht) (hself l))

/-! ### The order -/

/-- The lists `L` are in the order of the current priorities, and of the arrivals among equals. -/
def Kernel.ListsInOrder (k : Kernel) (g : Arrivals) (L : WaitList → List TaskPtr) : Prop :=
  ∀ l, Stable.InOrder (fun t => (k.tcb t).priority) g.time (L l)

theorem Sound.servedInOrder_iff (hs : Sound m L) :
    m.ServedInOrder g ↔ m.kernel.ListsInOrder g L := by
  constructor
  · intro h l
    obtain ⟨xs, hw, hin, -⟩ := h l
    rwa [← hw.unique (hs.coherent.waiters l)]
  · intro h l
    refine ⟨L l, hs.coherent.waiters l, h l, fun t ht u hu => ?_⟩
    cases hl : L l with
    | nil =>
      rw [hl] at hu
      cases hu
    | cons w ws =>
      rw [Kernel.wqPop_cons (hl ▸ hs.coherent.waiters l)] at ht
      obtain rfl : w = t := Option.some.inj ht
      have hin := h l
      rw [hl] at hin hu
      exact hin.head_le hu

/-- The arrivals after a step. -/
theorem Machine.arrive_time (hstep : m.step a = some (m', o)) (t : TaskPtr) :
    (m.arrive a o g).time t = if m.BeginsToWait m' t then g.steps else g.time t := by
  simp only [Machine.arrive, hstep]

theorem Machine.arrive_steps (hstep : m.step a = some (m', o)) :
    (m.arrive a o g).steps = g.steps + 1 := by
  simp only [Machine.arrive, hstep]

/-- The tasks in the lists have arrived. -/
def Arrivals.Past (g : Arrivals) (L : WaitList → List TaskPtr) : Prop :=
  ∀ l, ∀ t ∈ L l, g.time t < g.steps

theorem Arrivals.Past.step (hg : g.Past L) (hstep : m.step a = some (m', o))
    (hL : ∀ l, ∀ t ∈ L' l, t ∈ L l ∨ m.BeginsToWait m' t) : (m.arrive a o g).Past L' := by
  intro l t ht
  rw [Machine.arrive_time hstep, Machine.arrive_steps hstep]
  split_ifs with hnew
  · exact Nat.lt_succ_self _
  · exact Nat.lt_succ_of_lt (hg l t ((hL l t ht).resolve_right hnew))

/-- A task that is in no list links itself: the other tasks stay in order, and it comes behind all
that are at least as urgent. -/
theorem Kernel.ListsInOrder.enter_iff {k k' : Kernel} {t : TaskPtr} {l : WaitList}
    {g' : Arrivals} (hp : ∀ u, (k'.tcb u).priority = (k.tcb u).priority)
    (hL : L' = Function.update L l (k.enqueued t (L l))) (hfree : ∀ l, t ∉ L l)
    (hold : ∀ u, u ≠ t → g'.time u = g.time u) (hnew : ∀ u ∈ L l, g.time u < g'.time t) :
    k'.ListsInOrder g' L' ↔ k.ListsInOrder g L := by
  have hkey : (fun u => (k'.tcb u).priority) = fun u => (k.tcb u).priority := funext hp
  have hne : ∀ l, ∀ u ∈ L l, u ≠ t := fun l u hu => ne_of_mem_of_not_mem hu (hfree l)
  have htime : ∀ l, Stable.InOrder (fun u => (k.tcb u).priority) g'.time (L l) ↔
      Stable.InOrder (fun u => (k.tcb u).priority) g.time (L l) := fun l =>
    ⟨fun h => h.congr (fun _ _ => rfl) fun u hu => (hold u (hne l u hu)).symm,
      fun h => h.congr (fun _ _ => rfl) fun u hu => hold u (hne l u hu)⟩
  unfold Kernel.ListsInOrder
  rw [hkey, hL]
  constructor
  · intro h l'
    rw [← htime l']
    by_cases hl : l' = l
    · subst hl
      have hl' := h l'
      rw [Function.update_self] at hl'
      exact hl'.sublist (List.sublist_orderedInsert ..)
    · have hl' := h l'
      rwa [Function.update_of_ne hl] at hl'
  · intro h l'
    by_cases hl : l' = l
    · subst hl
      rw [Function.update_self]
      refine ((htime l').2 (h l')).insert fun u hu => ?_
      rw [hold u (hne l' u hu)]
      exact hnew u hu
    · rw [Function.update_of_ne hl]
      exact (htime l').2 (h l')

/-- The owner `owner` gets the priority of the task `t`, which is more urgent. -/
theorem Kernel.ListsInOrder.elevate_iff {k : Kernel} {t owner : TaskPtr} {x : ℕ}
    (h : k.ListsInOrder g L) (hlt : (k.tcb t).priority < (k.tcb owner).priority) :
    (k.mutexElevate x owner t).ListsInOrder g L ↔ ∀ l, owner ∈ L l →
      ∀ u ∈ (L l).takeWhile (· ≠ owner), (k.tcb u).priority < (k.tcb t).priority ∨
        (k.tcb u).priority = (k.tcb t).priority ∧ g.time u < g.time owner := by
  have hprio := k.priority_mutexElevate x owner t
  have hother : ∀ u, u ≠ owner →
      ((k.mutexElevate x owner t).tcb u).priority = (k.tcb u).priority := fun u hu => by
    rw [hprio, if_neg hu]
  have hself : ((k.mutexElevate x owner t).tcb owner).priority = (k.tcb t).priority := by
    rw [hprio, if_pos rfl, min_eq_right hlt.le]
  refine forall_congr' fun l => ?_
  by_cases hmem : owner ∈ L l
  · rw [(h l).lower_iff hmem hother (hself.trans_le hlt.le), imp_iff_right hmem]
    refine forall₂_congr fun u hu => ?_
    have huo : u ≠ owner := by simpa using List.mem_takeWhile_imp hu
    simp only [Stable.Before, hself, hother u huo]
  · refine iff_of_true ?_ fun hin => absurd hin hmem
    exact (h l).congr (fun u hu => hother u (ne_of_mem_of_not_mem hu hmem)) fun _ _ => rfl

/-- One step: it keeps the lists in order if and only if it meets the condition. -/
theorem ListMove.inOrder_iff (hm : ListMove m L a m' L') (hs : Sound m L)
    (hin : m.kernel.ListsInOrder g L) (hg : g.Past L) (hstep : m.step a = some (m', o)) :
    (m'.kernel.ListsInOrder (m.arrive a o g) L' ↔ m.ElevatesInOrder g a) ∧
      (m.arrive a o g).Past L' := by
  have htime : ∀ {t : TaskPtr}, (∀ u, m.BeginsToWait m' u → u = t) → ∀ u, u ≠ t →
      (m.arrive a o g).time u = g.time u := fun hctl u hu => by
    rw [Machine.arrive_time hstep, if_neg fun hnew => hu (hctl u hnew)]
  have hlate : ∀ {t : TaskPtr}, m.BeginsToWait m' t → ∀ l, ∀ u ∈ L l,
      g.time u < (m.arrive a o g).time t := fun hnew l u hu => by
    rw [Machine.arrive_time hstep, if_pos hnew]
    exact hg l u hu
  have hidle : (∀ t owner, a = .exec → m.elevating ≠ some (t, owner)) → m.ElevatesInOrder g a := by
    intro hno
    cases a <;> first | exact fun t owner he => absurd he (hno t owner rfl) | trivial
  cases hm with
  | leave hL hp hctl =>
    refine ⟨iff_of_true (fun l => ?_) (hidle fun t owner ha he => ?_),
      hg.step hstep fun l t ht => Or.inl ((hL l).subset ht)⟩
    · refine ((hin l).sublist (hL l)).congr (fun t ht => hp l t ht) fun t _ => ?_
      rw [Machine.arrive_time hstep, if_neg (hctl t)]
    · subst ha
      exact hctl t (Machine.beginsToWait_of_elevating hstep he).1
  | @enter t l hp hfree hL hctl hw hl hnew =>
    refine ⟨iff_of_true ?_ (hidle fun u owner ha he => ?_), hg.step hstep fun l' u hu => ?_⟩
    · exact (Kernel.ListsInOrder.enter_iff hp hL hfree (htime hctl) (hlate hnew l)).2 hin
    · subst ha
      obtain ⟨hnew', x, hx⟩ := Machine.beginsToWait_of_elevating hstep he
      rw [hctl u hnew', hw] at hx
      exact hl (by rw [Option.some.inj hx]; rfl)
    · rw [hL] at hu
      rcases mem_of_mem_update hu with hold | ⟨rfl, hmem⟩
      · exact Or.inl hold
      · rcases Kernel.mem_enqueued.1 hmem with rfl | hold
        · exact Or.inr hnew
        · exact Or.inl hold
  | @block t owner x timeout ha hact hc howner hp hL hctl hnew =>
    subst ha
    have hfree : ∀ l, t ∉ L l := by
      obtain ⟨-, hpend, hcur⟩ := Machine.active_thread hact
      exact (hs.coherent.free_of_current hcur hpend).1
    refine ⟨?_, hg.step hstep fun l' u hu => ?_⟩
    · rw [Kernel.ListsInOrder.enter_iff hp hL hfree (htime hctl) (hlate hnew _)]
      by_cases hlt : (m.kernel.tcb t).priority < (m.kernel.tcb owner).priority
      · have he := Machine.elevating_eq_some.2 ⟨x, timeout, hact, hc, howner, hlt⟩
        rw [hin.elevate_iff hlt]
        constructor
        · intro h u w hu l xs hxs hmem
          obtain ⟨rfl, rfl⟩ := Prod.mk.inj (Option.some.inj (he.symm.trans hu))
          rw [hxs.unique (hs.coherent.waiters l)] at hmem ⊢
          exact h l hmem
        · intro h l hmem
          exact h t owner he l (L l) (hs.coherent.waiters l) hmem
      · -- the owner is as urgent as the caller
        have hsame : ∀ u, ((m.kernel.mutexElevate x owner t).tcb u).priority =
            (m.kernel.tcb u).priority := by
          intro u
          rw [m.kernel.priority_mutexElevate]
          split_ifs with hu
          · rw [hu, min_eq_left (not_lt.1 hlt)]
          · rfl
        refine iff_of_true (fun l => (hin l).congr (fun u _ => hsame u) fun _ _ => rfl)
          fun u w hu => ?_
        obtain ⟨x', timeout', hact', hc', howner', hlt'⟩ := Machine.elevating_eq_some.1 hu
        rw [hact] at hact'
        cases hact'
        rw [hc] at hc'
        cases hc'
        rw [howner] at howner'
        cases howner'
        exact absurd hlt' hlt
    · rw [hL] at hu
      rcases mem_of_mem_update hu with hold | ⟨rfl, hmem⟩
      · exact Or.inl hold
      · rcases Kernel.mem_enqueued.1 hmem with rfl | hold
        · exact Or.inr hnew
        · exact Or.inl hold

end Steps

/-! ### What holds on every run -/

/-- Every run has its arrivals. -/
theorem Machine.stamped_of_reach {cfg : Config} {ok : Machine → Action → Prop} {m : Machine}
    {out : List Obs} (h : Run.Reach Machine.step ok (Machine.start cfg) m out) :
    ∃ g, Run.Reach Machine.stamped (fun p a => ok p.1 a) (Machine.start cfg, {}) (m, g) out := by
  have hg : ∃ g, Run.Reach (Run.annotate Machine.step Machine.arrive) (fun p a => ok p.1 a)
      (Machine.start cfg, ({} : Arrivals)) (m, g) out := h.annotate _
  exact hg

/-- The invariant of the runs that elevate in order. -/
theorem Machine.listsInOrder_of_reach {cfg : Config} {m : Machine} {g : Arrivals} {out : List Obs}
    (h : Run.Reach Machine.stamped (fun p a => p.1.Orderly a ∧ p.1.ElevatesInOrder p.2 a)
      (Machine.start cfg, {}) (m, g) out) :
    ∃ L, Sound m L ∧ m.kernel.ListsInOrder g L ∧ g.Past L ∧
      ∀ t x, m.ctl (.thread t) = .mutex (.release x) → (m.kernel.mutex x).task = some t := by
  have hinv : (∃ L, Sound (m, g).1 L ∧ (m, g).1.kernel.ListsInOrder (m, g).2 L ∧
      (m, g).2.Past L) ∧ Owned (m, g).1 out := by
    refine h.induct (I := fun p out => (∃ L, Sound p.1 L ∧ p.1.kernel.ListsInOrder p.2 L ∧
      p.2.Past L) ∧ Owned p.1 out) ⟨⟨_, Sound.init cfg, fun _ => List.Pairwise.nil, ?_⟩,
        Owned.init cfg⟩ ?_
    · intro l t ht
      cases ht
    · rintro ⟨m, g⟩ ⟨m', g'⟩ a out o - ⟨⟨L, hs, hin, hg⟩, hown⟩ hok hstep
      obtain ⟨hst, rfl⟩ := Run.annotate_eq_some.1 hstep
      obtain ⟨L', he, hs'⟩ := hs.step hok.1 hst
      obtain ⟨hiff, hg'⟩ := (he.listMove hs fun t x hc =>
        hown.releasing t x (by rw [hc]; rfl)).inOrder_iff hs hin hg hst
      exact ⟨⟨L', hs', hiff.2 hok.2, hg'⟩, hown.step he.ownerMove⟩
  obtain ⟨⟨L, hs, hin, hg⟩, hown⟩ := hinv
  exact ⟨L, hs, hin, hg, fun t x hc => hown.releasing t x (by rw [hc]; rfl)⟩

/-- Along every orderly run that elevates in order the wait lists are served in the order of the
current priorities, first come first served among equals. The next step keeps this if and only if
it elevates in order too. A tick is a single step: nothing comes between its statements. -/
theorem waitLists_inOrder_iff (cfg : Config) {m : Machine} {g : Arrivals} {out : List Obs}
    (h : Run.Reach Machine.stamped (fun p a => p.1.Orderly a ∧ p.1.ElevatesInOrder p.2 a)
      (Machine.start cfg, {}) (m, g) out) :
    m.ServedInOrder g ∧ ∀ a m' g' o, m.Orderly a →
      Machine.stamped (m, g) a = some ((m', g'), o) →
      (m'.ServedInOrder g' ↔ m.ElevatesInOrder g a) := by
  obtain ⟨L, hs, hin, hg, hrel⟩ := Machine.listsInOrder_of_reach h
  refine ⟨hs.servedInOrder_iff.2 hin, fun a m' g' o ha hstep => ?_⟩
  obtain ⟨hst, rfl⟩ := Run.annotate_eq_some.1 hstep
  obtain ⟨L', he, hs'⟩ := hs.step ha hst
  rw [hs'.servedInOrder_iff]
  exact ((he.listMove hs hrel).inOrder_iff hs hin hg hst).1

/-- Task 1 holds a mutex and waits for a semaphore; task 0 is about to wait for the mutex. -/
def ownerInList : Scenario where
  config := { priorities := [0, 1], sem := fun _ => ⟨0, 1⟩ }
  actions := [.call (.eventWaitTimeout ⟨0, 1, .any, false⟩ 1), .exec, .exec, .pendSV,
    .call (.mutexLock 1), .exec, .call (.semTake 0), .exec, .pendSV, .clock 1, .tick 1, .pendSV,
    .exec, .call (.mutexLock 1), .exec]
  possible := by decide +kernel

/-- Task 1, the only taker, gets the priority of task 0, and its list stays in order. -/
theorem ownerInList_inOrder :
    ∃ g m' g' o, Machine.stamped (ownerInList.final, g) .exec = some ((m', g'), o) ∧
      ownerInList.final.ServedInOrder g ∧ m'.ServedInOrder g' ∧
      ownerInList.final.elevating = some (.tcb 0, .tcb 1) := by
  have hsteady : Run.Reach Machine.step (fun m a => a.Within Call.Steady ∧ m.elevating = none)
      (Machine.start ownerInList.config) ownerInList.final ownerInList.reports :=
    ownerInList.reach (by decide +kernel)
  have horderly := Machine.orderly_of_steady (fun _ _ ha => ha.1) hsteady
  obtain ⟨L, hs⟩ := Machine.sound_of_reach (fun _ _ ha => ha.2) horderly
  obtain ⟨g, hg⟩ := Machine.stamped_of_reach horderly
  have hreach : Run.Reach Machine.stamped (fun p a => p.1.Orderly a ∧ p.1.ElevatesInOrder p.2 a)
      (Machine.start ownerInList.config, {}) (ownerInList.final, g) ownerInList.reports := by
    refine hg.mono fun p _ a _ ha => ⟨ha.2, ?_⟩
    cases a with
    | exec =>
      intro t owner he
      rw [ha.1.2] at he
      cases he
    | call | irq | pendSV | clock | tick => trivial
  obtain ⟨hserved, hnext⟩ := waitLists_inOrder_iff ownerInList.config hreach
  have hexec : (ownerInList.final.step .exec).isSome = true := by decide +kernel
  obtain ⟨⟨m', o⟩, hstep⟩ := Option.isSome_iff_exists.1 hexec
  have hstamped : Machine.stamped (ownerInList.final, g) .exec =
      some ((m', ownerInList.final.arrive .exec o g), o) := Run.annotate_eq_some.2 ⟨hstep, rfl⟩
  have hresume : ownerInList.final.Orderly .exec := by
    intro x index hx hc
    have hx0 : ownerInList.final.active = some (.thread (.tcb 0)) := by decide +kernel
    obtain rfl : Ctx.thread (.tcb 0) = x := Option.some.inj (hx0.symm.trans hx)
    have hc0 : ownerInList.final.ctl (.thread (.tcb 0)) = .mutex (.block 1 none) := by
      decide +kernel
    rw [hc0] at hc
    cases hc
  have hraise : ownerInList.final.elevating = some (.tcb 0, .tcb 1) := by decide +kernel
  refine ⟨g, m', _, o, hstamped, hserved, (hnext .exec m' _ o hresume hstamped).2 ?_, hraise⟩
  intro t owner he l xs hxs hmem u hu
  rw [hraise] at he
  cases he
  have hl := hs.coherent.linked l (.tcb 1) (hxs.unique (hs.coherent.waiters l) ▸ hmem)
  have hsem : (ownerInList.final.ctl (.thread (.tcb 1))).waitsOn = some (.sem 0) := by
    decide +kernel
  rw [hsem] at hl
  obtain rfl : WaitList.sem 0 = l := Option.some.inj hl.2
  have hw : ownerInList.final.kernel.Waiters (.sem 0) [.tcb 1] := by decide +kernel
  rw [hxs.unique hw] at hu
  simp at hu

/-- Tasks 1 and 2 wait for a semaphore, in this order; task 2 holds the mutex that task 0 then comes
to wait for. -/
def ownerBehind : Scenario where
  config := { priorities := [0, 1, 2], sem := fun _ => ⟨0, 1⟩ }
  actions := [.call (.eventWaitTimeout ⟨0, 1, .any, false⟩ 1), .exec, .exec, .pendSV,
    .call (.semTake 0), .exec, .pendSV, .call (.mutexLock 1), .exec, .call (.semTake 0), .exec,
    .pendSV, .clock 1, .tick 1, .pendSV, .exec, .call (.mutexLock 1), .exec, .exec]
  possible := by decide +kernel

/-- Task 2 then is as urgent as task 0, and `wq_pop` yields the less urgent task 1. -/
theorem elevatedOwner_outOfOrder :
    ∃ m g out, Run.Reach Machine.stamped
      (fun p a => (a.Within fun c => c.family ∈ [some .sem, some .mutex, some .event]) ∧
        p.1.Orderly a) (Machine.start ownerBehind.config, {}) (m, g) out ∧
      (m.kernel.wqPop (.sem 0)).2 = some (.tcb 1) ∧ m.kernel.Waiters (.sem 0) [.tcb 1, .tcb 2] ∧
      (m.kernel.tcb (.tcb 1)).priority = 1 ∧ (m.kernel.tcb (.tcb 2)).priority = 0 ∧
      ¬ m.ServedInOrder g := by
  have hcalls : Run.Reach Machine.step
      (fun _ a => (a.Within fun c => c.family ∈ [some .sem, some .mutex, some .event]) ∧
        a.Within Call.Steady) (Machine.start ownerBehind.config) ownerBehind.final
      ownerBehind.reports := ownerBehind.reach (by decide +kernel)
  have horderly := Machine.orderly_of_steady (fun _ _ ha => ha.2) hcalls
  obtain ⟨g, hg⟩ := Machine.stamped_of_reach horderly
  have hpop : (ownerBehind.final.kernel.wqPop (.sem 0)).2 = some (.tcb 1) := by decide +kernel
  have hw : ownerBehind.final.kernel.Waiters (.sem 0) [.tcb 1, .tcb 2] := by decide +kernel
  have h1 : (ownerBehind.final.kernel.tcb (.tcb 1)).priority = 1 := by decide +kernel
  have h2 : (ownerBehind.final.kernel.tcb (.tcb 2)).priority = 0 := by decide +kernel
  refine ⟨ownerBehind.final, g, ownerBehind.reports, hg.mono fun _ _ _ _ ha => ⟨ha.1.1, ha.2⟩,
    hpop, hw, h1, h2, fun h => ?_⟩
  obtain ⟨xs, hxs, -, hmin⟩ := h (.sem 0)
  have hle := hmin (.tcb 1) hpop (.tcb 2) (by rw [hxs.unique hw]; simp)
  omega

end TamgaOs
