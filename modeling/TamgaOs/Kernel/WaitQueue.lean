import TamgaOs.Kernel.Scheduler

/-!
# Wait lists

Semaphores, queues, mutexes and event groups link their waiters through the one field `wait_next`
of the control block. `wq_insert` stands, with the same text, in each of the four modules, and so
does `wq_pop` in the first three; they are written once here, with the list as a parameter.

## Main definitions

* `Kernel.wqInsert`, `Kernel.wqPop`; `Kernel.wqInsertWithin` has the number of its loop tests as a
  parameter, for lists of any length.
* `Kernel.linkBehind`, `Kernel.unlinkBehind`: the stores that link and unlink a task.
* `Kernel.blockOn`: how every primitive that waits in a list blocks its caller.
* `Kernel.enqueued k t xs`: the list `xs` with `t` behind its last task that is at least as urgent.
* `Relinked k k' l S`: `k'` differs from `k` only in the head of `l` and the links of `S`.

## Main results

* `Kernel.wqInsertWithin_eq`, `Kernel.schedWaitListRemoveWithin_mem`: the stores that are executed.
* `Kernel.wqInsert_spec`, `Kernel.wqPop_cons`, `Kernel.schedWaitListRemove_mem`,
  `Kernel.schedWaitListRemove_notMem`: the operations on well formed lists.
-/

namespace TamgaOs

open IntrusiveList

namespace Kernel

variable (k : Kernel)

/-- `wq_pop`: the task popped, or `none` for the null pointer. -/
def wqPop (l : WaitList) : Kernel × Option TaskPtr :=
  match k.head l with
  | some t => (k.setHead l (k.waitNext t), some t)
  | none => (k, none)

/-- `wq_insert`, whose loop test is evaluated at most `fuel` times. -/
def wqInsertWithin (fuel : ℕ) (l : WaitList) (t : TaskPtr) : Option Kernel :=
  let k := k.setWaitNext t none
  match k.head l with
  | none => some (k.setHead l (some t))
  | some h =>
    if (k.tcb t).priority < (k.tcb h).priority then
      some ((k.setWaitNext t (some h)).setHead l (some t))
    else
      match advance k.waitNext
          (fun n => decide ((k.tcb n).priority ≤ (k.tcb t).priority)) fuel h with
      | some cur => some ((k.setWaitNext t (k.waitNext cur)).setWaitNext cur (some t))
      | none => none

/-- `wq_insert`. -/
def wqInsert (l : WaitList) (t : TaskPtr) : Option Kernel := k.wqInsertWithin k.walkFuel l t

/-- The stores that link `t` behind a task, or as the first task of `l`. -/
def linkBehind (l : WaitList) (t : TaskPtr) : Option TaskPtr → Kernel
  | none => (k.setWaitNext t (k.head l)).setHead l (some t)
  | some p => (k.setWaitNext t (k.waitNext p)).setWaitNext p (some t)

/-- The store that unlinks `t` behind a task, or as the first task of `l`. -/
def unlinkBehind (l : WaitList) (t : TaskPtr) : Option TaskPtr → Kernel
  | none => k.setHead l (k.waitNext t)
  | some p => k.setWaitNext p (k.waitNext t)

/-- The statements with which a primitive blocks its caller `t` on the list `l`. With a timeout,
`remaining` is the budget that is left. -/
def blockOn (l : WaitList) (t : TaskPtr) (remaining : Option ℕ) : Option Kernel :=
  let k := k.setState t .blocked
  let k :=
    match remaining with
    | some ms =>
      k.modifyTask t fun x =>
        { x with delayTicks := ms, waitListHead := some l, timedOut := false }
    | none => k
  (k.wqInsert l t).map schedBlockLocked

/-- The list `xs` with `t` put behind its last task that is at least as urgent as `t`. -/
def enqueued (t : TaskPtr) (xs : List TaskPtr) : List TaskPtr :=
  xs.orderedInsert (fun a b => (k.tcb a).priority < (k.tcb b).priority) t

variable {k}

@[simp] theorem mem_enqueued {t u : TaskPtr} {xs : List TaskPtr} :
    u ∈ k.enqueued t xs ↔ u = t ∨ u ∈ xs :=
  List.mem_orderedInsert ..

/-- Tasks of the table, without repetition, are no more than the table has. -/
theorem length_lt_walkFuel {xs : List TaskPtr} (hnodup : xs.Nodup)
    (hmem : ∀ t ∈ xs, ∃ i < k.taskCount, t = .tcb i) : xs.length < k.walkFuel := by
  have hsub : xs ⊆ (List.range k.taskCount).map TaskPtr.tcb := by
    intro t ht
    obtain ⟨i, hi, rfl⟩ := hmem t ht
    exact List.mem_map_of_mem (List.mem_range.2 hi)
  have hle := (List.subperm_of_subset hnodup hsub).length_le
  simp only [List.length_map, List.length_range] at hle
  unfold walkFuel
  omega

end Kernel

/-! ### What a list operation changes -/

/-- `k'` differs from `k` only in the head of `l` and in the links of the tasks `S`. -/
structure Relinked (k k' : Kernel) (l : WaitList) (S : List TaskPtr) : Prop where
  eq : k' = { k with tcb := k'.tcb, head := k'.head }
  tcb : ∀ u, k'.tcb u = { k.tcb u with waitNext := k'.waitNext u }
  waitNext : ∀ u, u ∉ S → k'.waitNext u = k.waitNext u
  head : ∀ l', l' ≠ l → k'.head l' = k.head l'

namespace Relinked

variable {k k' k'' : Kernel} {l l' : WaitList} {S T : List TaskPtr}

theorem refl (k : Kernel) (l : WaitList) (S : List TaskPtr) : Relinked k k l S :=
  ⟨rfl, fun _ => rfl, fun _ _ => rfl, fun _ _ => rfl⟩

theorem trans (h : Relinked k k' l S) (h' : Relinked k' k'' l S) : Relinked k k'' l S where
  eq := by rw [h'.eq, h.eq]
  tcb u := by rw [h'.tcb u, h.tcb u]
  waitNext u hu := (h'.waitNext u hu).trans (h.waitNext u hu)
  head l' hl := (h'.head l' hl).trans (h.head l' hl)

theorem mono (h : Relinked k k' l S) (hST : S ⊆ T) : Relinked k k' l T where
  eq := h.eq
  tcb := h.tcb
  waitNext u hu := h.waitNext u fun hmem => hu (hST hmem)
  head := h.head

theorem setWaitNext {t : TaskPtr} (n : Option TaskPtr) (l : WaitList) (ht : t ∈ S) :
    Relinked k (k.setWaitNext t n) l S where
  eq := rfl
  tcb u := by
    by_cases hu : u = t
    · subst hu
      simp [Kernel.setWaitNext, Kernel.waitNext]
    · simp [Kernel.setWaitNext, Kernel.waitNext, Kernel.modifyTask_of_ne hu]
  waitNext u hu := by
    rw [Kernel.waitNext_setWaitNext]
    exact Function.update_of_ne (ne_of_mem_of_not_mem ht hu).symm ..
  head _ _ := rfl

theorem setHead (h : Option TaskPtr) (l : WaitList) : Relinked k (k.setHead l h) l S where
  eq := rfl
  tcb _ := rfl
  waitNext _ _ := rfl
  head _ hl := Kernel.setHead_of_ne hl h

/-- The other lists keep their tasks, as long as these are not relinked. -/
theorem waiters_of_ne (h : Relinked k k' l S) {ys : List TaskPtr} (hl : l' ≠ l)
    (hys : k.Waiters l' ys) (hdisj : ∀ t ∈ ys, t ∉ S) : k'.Waiters l' ys := by
  unfold Kernel.Waiters at hys ⊢
  rw [h.head l' hl]
  exact hys.congr fun t ht => h.waitNext t (hdisj t ht)

section Fields

variable (h : Relinked k k' l S)
include h

theorem currentTask : k'.currentTask = k.currentTask := by rw [h.eq]
theorem nextTask : k'.nextTask = k.nextTask := by rw [h.eq]
theorem taskCount : k'.taskCount = k.taskCount := by rw [h.eq]
theorem pendsv : k'.pendsv = k.pendsv := by rw [h.eq]
theorem sem : k'.sem = k.sem := by rw [h.eq]
theorem queue : k'.queue = k.queue := by rw [h.eq]
theorem mutex : k'.mutex = k.mutex := by rw [h.eq]
theorem group : k'.group = k.group := by rw [h.eq]
theorem pending : k'.pending = k.pending := by rw [h.eq]
theorem ticks : k'.ticks = k.ticks := by rw [h.eq]
theorem priority (t : TaskPtr) : (k'.tcb t).priority = (k.tcb t).priority := by rw [h.tcb t]
theorem state (t : TaskPtr) : (k'.tcb t).state = (k.tcb t).state := by rw [h.tcb t]
theorem delayTicks (t : TaskPtr) : (k'.tcb t).delayTicks = (k.tcb t).delayTicks := by
  rw [h.tcb t]
theorem waitListHead (t : TaskPtr) : (k'.tcb t).waitListHead = (k.tcb t).waitListHead := by
  rw [h.tcb t]
theorem timedOut (t : TaskPtr) : (k'.tcb t).timedOut = (k.tcb t).timedOut := by rw [h.tcb t]

theorem quiet : Quiet k k' ∅ :=
  ⟨h.sem, h.queue, h.mutex, h.group, h.pending, h.ticks, h.taskCount, h.priority,
    fun t _ => h.timedOut t⟩

end Fields

end Relinked

namespace Kernel

variable {k : Kernel} {l : WaitList} {t : TaskPtr} {xs : List TaskPtr}

/-! ### The stores of the list operations -/

/-- Linking a task that is not in the list. -/
theorem waiters_linkBehind {pre post : List TaskPtr} (hw : k.Waiters l (pre ++ post))
    (ht : t ∉ pre ++ post) : (k.linkBehind l t pre.getLast?).Waiters l (pre ++ t :: post) := by
  rcases List.eq_nil_or_concat pre with rfl | ⟨pre, p, rfl⟩
  · rw [List.getLast?_nil, linkBehind, Waiters, setHead_self, waitNext_setHead,
      waitNext_setWaitNext]
    exact hw.insert_head ht
  · simp only [List.concat_eq_append, List.append_assoc, List.cons_append, List.nil_append]
      at hw ht ⊢
    rw [List.getLast?_append, List.getLast?_singleton, Option.some_or, linkBehind, Waiters,
      waitNext_setWaitNext, waitNext_setWaitNext]
    exact hw.insert_after ht

/-- Unlinking a task of the list. -/
theorem waiters_unlinkBehind {pre post : List TaskPtr} (hw : k.Waiters l (pre ++ t :: post)) :
    (k.unlinkBehind l t pre.getLast?).Waiters l (pre ++ post) := by
  rcases List.eq_nil_or_concat pre with rfl | ⟨pre, p, rfl⟩
  · rw [List.getLast?_nil, unlinkBehind, Waiters, setHead_self, waitNext_setHead]
    exact hw.2
  · simp only [List.concat_eq_append, List.append_assoc, List.cons_append, List.nil_append]
      at hw ⊢
    rw [List.getLast?_append, List.getLast?_singleton, Option.some_or, unlinkBehind, Waiters,
      waitNext_setWaitNext]
    exact hw.unlink

theorem relinked_linkBehind {p : Option TaskPtr} (hp : ∀ u ∈ p, u ∈ xs) :
    Relinked k (k.linkBehind l t p) l (t :: xs) := by
  cases p with
  | none => exact (Relinked.setWaitNext _ l List.mem_cons_self).trans (.setHead _ l)
  | some p =>
    exact (Relinked.setWaitNext _ l List.mem_cons_self).trans
      (.setWaitNext _ l (List.mem_cons_of_mem t (hp p rfl)))

theorem relinked_unlinkBehind {p : Option TaskPtr} (hp : ∀ u ∈ p, u ∈ xs) :
    Relinked k (k.unlinkBehind l t p) l xs := by
  cases p with
  | none => exact .setHead _ l
  | some p => exact .setWaitNext _ l (hp p rfl)

/-- The last of some tasks at the front of a list is in the list. -/
theorem mem_of_mem_getLast? {pre : List TaskPtr} (hsub : pre ⊆ xs) {u : TaskPtr}
    (hu : u ∈ pre.getLast?) : u ∈ xs :=
  hsub (List.mem_of_getLast? hu)

theorem setWaitNext_setWaitNext (n n' : Option TaskPtr) :
    (k.setWaitNext t n).setWaitNext t n' = k.setWaitNext t n' := by
  simp [setWaitNext, modifyTask, Function.update_idem]

/-- `wq_insert` links a task behind all tasks ahead of the first one that is less urgent. -/
theorem wqInsertWithin_eq (hw : k.Waiters l xs) (ht : t ∉ xs) {fuel : ℕ}
    (hlen : xs.length < fuel) :
    k.wqInsertWithin fuel l t = some (k.linkBehind l t
      (xs.takeWhile fun u => decide ((k.tcb u).priority ≤ (k.tcb t).priority)).getLast?) := by
  set k₁ := k.setWaitNext t none with hk₁
  have hclear : Relinked k k₁ l [t] := .setWaitNext none l List.mem_cons_self
  have hw₁ : IsChain k₁.waitNext (k₁.head l) xs := by
    rw [hk₁, waitNext_setWaitNext]
    exact hw.update_of_notMem ht none
  have hset (n : Option TaskPtr) : k₁.setWaitNext t n = k.setWaitNext t n :=
    setWaitNext_setWaitNext none n
  cases xs with
  | nil =>
    have hhead : k₁.head l = none := hw₁
    have hhead' : k.head l = none := hw
    simp only [wqInsertWithin, ← hk₁, hhead, List.takeWhile_nil, List.getLast?_nil, linkBehind,
      hhead']
  | cons h xs =>
    have hhead : k₁.head l = some h := hw₁.1
    have hhead' : k.head l = some h := hw.1
    by_cases hlt : (k.tcb t).priority < (k.tcb h).priority
    · simp only [wqInsertWithin, ← hk₁, hhead, hclear.priority, if_pos hlt, hset,
        List.takeWhile_cons, decide_eq_true_iff, if_neg (Nat.not_le.2 hlt), List.getLast?_nil,
        linkBehind, hhead']
    · have hlen₁ : xs.length < fuel := by
        simp only [List.length_cons] at hlen
        omega
      have hstop := advance_eq
        (fun n => decide ((k.tcb n).priority ≤ (k.tcb t).priority)) hw₁.2 hlen₁
      -- The loop has stopped at a task of the list, whose link the first statement has not changed.
      obtain ⟨p, hp⟩ : ∃ p, (h :: xs.takeWhile fun n =>
          decide ((k.tcb n).priority ≤ (k.tcb t).priority)).getLast? = some p :=
        Option.isSome_iff_exists.1 (by simp)
      have hpmem : p ∈ h :: xs :=
        mem_of_mem_getLast? (List.cons_subset_cons h (List.takeWhile_subset _)) hp
      have hpt : k₁.waitNext p = k.waitNext p :=
        hclear.waitNext p fun hmem => ht (List.mem_singleton.1 hmem ▸ hpmem)
      rw [hp] at hstop
      simp only [wqInsertWithin, ← hk₁, hhead, hclear.priority, if_neg hlt, hstop, hpt, hset,
        List.takeWhile_cons, decide_eq_true_iff, if_pos (Nat.not_lt.1 hlt), hp, linkBehind]

/-- `sched_wait_list_remove` unlinks a task of the list. -/
theorem schedWaitListRemoveWithin_mem {pre post : List TaskPtr}
    (hw : k.Waiters l (pre ++ t :: post)) {fuel : ℕ} (hlen : pre.length < fuel) :
    k.schedWaitListRemoveWithin fuel l t = some (k.unlinkBehind l t pre.getLast?) := by
  have hnotMem : t ∉ pre := fun hmem =>
    (List.nodup_append.1 hw.nodup).2.2 t hmem t List.mem_cons_self rfl
  rcases List.eq_nil_or_concat pre with rfl | ⟨pre, p, rfl⟩
  · have hhead : k.head l = some t := hw.1
    rw [schedWaitListRemoveWithin, if_pos hhead, List.getLast?_nil, unlinkBehind]
  · simp only [List.concat_eq_append, List.append_assoc, List.cons_append, List.nil_append,
      List.length_append, List.length_cons] at hw hlen hnotMem ⊢
    have hhead : k.head l ≠ some t := by
      intro he
      have h := hw.head_eq_head?
      rw [he] at h
      cases pre with
      | nil => exact hnotMem (by simp [show t = p by simpa using h])
      | cons r pre => exact hnotMem (by simp [show t = r by simpa using h])
    rw [schedWaitListRemoveWithin, if_neg hhead, seek_spec hw (by omega), List.getLast?_append,
      List.getLast?_singleton, Option.some_or, unlinkBehind]

/-- `sched_wait_list_remove` stores nothing when the task is not in the list. -/
theorem schedWaitListRemoveWithin_notMem (hw : k.Waiters l xs) (ht : t ∉ xs) {fuel : ℕ}
    (hlen : xs.length < fuel) : k.schedWaitListRemoveWithin fuel l t = some k := by
  have hhead : k.head l ≠ some t := by
    intro he
    have h := hw.head_eq_head?
    rw [he] at h
    exact ht (List.mem_of_mem_head? (by simp [← h]))
  rw [schedWaitListRemoveWithin, if_neg hhead, seek_notMem hw ht hlen]

theorem wqInsertWithin_mono {k' : Kernel} {fuel fuel' : ℕ}
    (h : k.wqInsertWithin fuel l t = some k') (hle : fuel ≤ fuel') :
    k.wqInsertWithin fuel' l t = some k' := by
  unfold wqInsertWithin at h ⊢
  dsimp only at h ⊢
  split at h
  · exact h
  · split_ifs at h ⊢
    · exact h
    · split at h
      · rename_i cur hstop
        rw [advance_mono hstop hle]
        exact h
      · cases h

theorem schedWaitListRemoveWithin_mono {k' : Kernel} {fuel fuel' : ℕ}
    (h : k.schedWaitListRemoveWithin fuel l t = some k') (hle : fuel ≤ fuel') :
    k.schedWaitListRemoveWithin fuel' l t = some k' := by
  unfold schedWaitListRemoveWithin at h ⊢
  split_ifs at h ⊢
  · exact h
  · split at h
    · rename_i cur hstop
      rw [seek_mono hstop hle]
      exact h
    · rename_i hstop
      rw [seek_mono hstop hle]
      exact h
    · cases h

/-- `enqueued` puts a task where `wq_insert` links it. -/
theorem enqueued_eq_takeWhile (k : Kernel) (t : TaskPtr) (xs : List TaskPtr) :
    k.enqueued t xs =
      xs.takeWhile (fun u => decide ((k.tcb u).priority ≤ (k.tcb t).priority)) ++
        t :: xs.dropWhile fun u => decide ((k.tcb u).priority ≤ (k.tcb t).priority) := by
  rw [enqueued, List.orderedInsert_eq_take_drop]
  simp only [Nat.not_lt]

/-- Inserting a task that is not in the list. -/
theorem wqInsert_spec (hw : k.Waiters l xs) (ht : t ∉ xs) (hlen : xs.length < k.walkFuel) :
    ∃ k', k.wqInsert l t = some k' ∧ k'.Waiters l (k.enqueued t xs) ∧
      Relinked k k' l (t :: xs) := by
  refine ⟨_, wqInsertWithin_eq hw ht hlen, ?_,
    relinked_linkBehind fun u hu => mem_of_mem_getLast? (List.takeWhile_subset _) hu⟩
  rw [enqueued_eq_takeWhile]
  rw [← List.takeWhile_append_dropWhile (l := xs)
    (p := fun u => decide ((k.tcb u).priority ≤ (k.tcb t).priority))] at hw ht
  exact waiters_linkBehind hw ht

/-- Whatever the list looks like, inserting a task changes links only. -/
theorem wqInsert_relinked {k' : Kernel} (h : k.wqInsert l t = some k') :
    ∃ S, Relinked k k' l S := by
  have hself : ∀ (k : Kernel) (u : TaskPtr) (n : Option TaskPtr) (S : List TaskPtr), u ∈ S →
      Relinked k (k.setWaitNext u n) l S := fun k u n S hu => .setWaitNext n l hu
  have hclear := hself k t none [t] List.mem_cons_self
  unfold wqInsert wqInsertWithin at h
  dsimp only at h
  split at h
  · cases h
    exact ⟨[t], hclear.trans (.setHead _ l)⟩
  · rename_i hd _
    split_ifs at h
    · cases h
      exact ⟨[t], (hclear.trans (hself _ t _ _ List.mem_cons_self)).trans (.setHead _ l)⟩
    · split at h
      · rename_i cur _
        cases h
        exact ⟨[t, cur], ((hclear.mono (by simp)).trans (hself _ t _ _ (by simp))).trans
          (hself _ cur _ _ (by simp))⟩
      · cases h

/-- The control block of a caller when it is linked: `blockOn` before `wq_insert`. -/
def blockedTask (l : WaitList) (remaining : Option ℕ) (y : Task) : Task :=
  match remaining with
  | some ms =>
    { y with state := .blocked, delayTicks := ms, waitListHead := some l, timedOut := false }
  | none => { y with state := .blocked }

theorem blockOn_eq (k : Kernel) (l : WaitList) (t : TaskPtr) (remaining : Option ℕ) :
    k.blockOn l t remaining =
      ((k.modifyTask t (blockedTask l remaining)).wqInsert l t).map schedBlockLocked := by
  cases remaining <;>
    simp [blockOn, setState, modifyTask, Function.update_idem, blockedTask]

end Kernel

/-- What blocking `t` on the list `l`, which held `xs`, does: `t` is blocked and linked behind the
waiters that are at least as urgent, PendSV is pended, and a runnable task is next. -/
structure BlockedOn (k k' : Kernel) (l : WaitList) (t : TaskPtr) (xs : List TaskPtr)
    (remaining : Option ℕ) : Prop where
  waiters : k'.Waiters l (k.enqueued t xs)
  other : ∀ l' ys, l' ≠ l → k.Waiters l' ys → (∀ u ∈ ys, u ∉ t :: xs) → k'.Waiters l' ys
  currentTask : k'.currentTask = k.currentTask
  pendsv : k'.pendsv = true
  next : ∃ n, k'.nextTask = some n ∧
    (n = .idle ∨ ∃ i < k.taskCount, n = .tcb i ∧ (k'.tcb n).state.Runnable)
  state_self : (k'.tcb t).state = .blocked
  state : ∀ u, u ≠ t → ¬ (k.tcb u).state.Runnable → (k'.tcb u).state = (k.tcb u).state
  delayTicks_self : (k'.tcb t).delayTicks = remaining.getD (k.tcb t).delayTicks
  delayTicks : ∀ u, u ≠ t → (k'.tcb u).delayTicks = (k.tcb u).delayTicks
  waitListHead_self : remaining.isSome → (k'.tcb t).waitListHead = some l
  waitListHead : ∀ u, u ≠ t → (k'.tcb u).waitListHead = (k.tcb u).waitListHead
  timedOut_self : remaining.isSome → (k'.tcb t).timedOut = false
  quiet : Quiet k k' {u | u = t ∧ remaining.isSome}

namespace Kernel

variable {k : Kernel} {l : WaitList} {t : TaskPtr} {xs : List TaskPtr}

theorem blockOn_spec (hw : k.Waiters l xs) (ht : t ∉ xs) (hlen : xs.length < k.walkFuel)
    (remaining : Option ℕ) :
    ∃ k', k.blockOn l t remaining = some k' ∧ BlockedOn k k' l t xs remaining := by
  set k₁ := k.modifyTask t (blockedTask l remaining) with hk₁
  have hself : k₁.tcb t = blockedTask l remaining (k.tcb t) := modifyTask_self _
  have hother : ∀ u, u ≠ t → k₁.tcb u = k.tcb u := fun u hu => modifyTask_of_ne hu _
  have hkeep : ∀ l' ys, t ∉ ys → k.Waiters l' ys → k₁.Waiters l' ys := by
    intro l' ys hnot hys
    refine hys.congr fun u hu => ?_
    unfold waitNext
    rw [hother u (ne_of_mem_of_not_mem hu hnot)]
  have hquiet : Quiet k k₁ {u | u = t ∧ remaining.isSome} := by
    refine .modifyTask t (by cases remaining <;> rfl) fun hT => ?_
    cases remaining with
    | none => rfl
    | some ms => exact absurd ⟨rfl, rfl⟩ hT
  have henq : k₁.enqueued t xs = k.enqueued t xs := by
    unfold enqueued
    simp only [hquiet.priority]
  obtain ⟨k₂, hins, hw₂, hlink⟩ := wqInsert_spec (hkeep l xs ht hw) ht hlen
  have hresch := k₂.rescheduled_schedPickAndMark
  obtain ⟨n, hn, hrun⟩ := k₂.schedPickAndMark_next
  have hblocked : (k₂.tcb t).state = .blocked := by
    rw [hlink.state, hself]
    cases remaining <;> rfl
  refine ⟨k₂.schedBlockLocked, by rw [blockOn_eq, ← hk₁, hins]; rfl, ?_⟩
  constructor
  case waiters =>
    change IsChain k₂.schedPickAndMark.waitNext (k₂.schedPickAndMark.head l) _
    rw [hresch.waitNext, hresch.head, ← henq]
    exact hw₂
  case other =>
    intro l' ys hl hys hdisj
    change IsChain k₂.schedPickAndMark.waitNext (k₂.schedPickAndMark.head l') _
    rw [hresch.waitNext, hresch.head]
    refine hlink.waiters_of_ne hl (hkeep l' ys (fun hmem => ?_) hys) hdisj
    exact hdisj t hmem List.mem_cons_self
  case currentTask => exact hresch.currentTask.trans hlink.currentTask
  case pendsv => rfl
  case next =>
    refine ⟨n, hn, hrun.imp_right ?_⟩
    rintro ⟨i, hi, hni, hr⟩
    exact ⟨i, hlink.taskCount ▸ hi, hni, hresch.runnable n hr⟩
  case state_self =>
    change (k₂.schedPickAndMark.tcb t).state = _
    rw [hresch.state t (by simp [hblocked, TaskState.Runnable]), hblocked]
  case state =>
    intro u hu hnr
    have hs : (k₂.tcb u).state = (k.tcb u).state := by rw [hlink.state, hother u hu]
    change (k₂.schedPickAndMark.tcb u).state = _
    rw [hresch.state u (by rwa [hs]), hs]
  case delayTicks_self =>
    change (k₂.schedPickAndMark.tcb t).delayTicks = _
    rw [hresch.delayTicks, hlink.delayTicks, hself]
    cases remaining <;> rfl
  case delayTicks =>
    intro u hu
    change (k₂.schedPickAndMark.tcb u).delayTicks = _
    rw [hresch.delayTicks, hlink.delayTicks, hother u hu]
  case waitListHead_self =>
    intro hrem
    change (k₂.schedPickAndMark.tcb t).waitListHead = _
    rw [hresch.waitListHead, hlink.waitListHead, hself]
    cases remaining with
    | none => cases hrem
    | some ms => rfl
  case waitListHead =>
    intro u hu
    change (k₂.schedPickAndMark.tcb u).waitListHead = _
    rw [hresch.waitListHead, hlink.waitListHead, hother u hu]
  case timedOut_self =>
    intro hrem
    change (k₂.schedPickAndMark.tcb t).timedOut = _
    rw [hresch.timedOut, hlink.timedOut, hself]
    cases remaining with
    | none => cases hrem
    | some ms => rfl
  case quiet =>
    exact ((hquiet.trans (hlink.quiet.mono (Set.empty_subset _))).trans
      (hresch.quiet.mono (Set.empty_subset _))).trans (.triggerPendsv _)

theorem wqPop_nil (hw : k.Waiters l []) : k.wqPop l = (k, none) := by
  have hhead : k.head l = none := hw
  simp [wqPop, hhead]

theorem wqPop_cons (hw : k.Waiters l (t :: xs)) :
    k.wqPop l = (k.setHead l (k.waitNext t), some t) := by
  simp [wqPop, hw.1]

/-- Popping leaves the rest of the list. -/
theorem waiters_setHead_of_cons (hw : k.Waiters l (t :: xs)) :
    (k.setHead l (k.waitNext t)).Waiters l xs := by
  rw [Waiters, setHead_self, waitNext_setHead]
  exact hw.2

/-- Removing a task of the list. -/
theorem schedWaitListRemove_mem (hw : k.Waiters l xs) (ht : t ∈ xs)
    (hlen : xs.length < k.walkFuel) :
    ∃ k', k.schedWaitListRemove l t = some k' ∧ k'.Waiters l (xs.erase t) ∧
      Relinked k k' l xs := by
  obtain ⟨pre, post, rfl⟩ := List.append_of_mem ht
  have hnotMem : t ∉ pre := fun hmem =>
    (List.nodup_append.1 hw.nodup).2.2 t hmem t List.mem_cons_self rfl
  rw [List.length_append] at hlen
  refine ⟨_, schedWaitListRemoveWithin_mem hw (by omega), ?_,
    relinked_unlinkBehind fun u hu => mem_of_mem_getLast? (List.subset_append_left _ _) hu⟩
  rw [List.erase_append_right _ hnotMem, List.erase_cons_head]
  exact waiters_unlinkBehind hw

/-- Removing a task that is not in the list changes nothing. -/
theorem schedWaitListRemove_notMem (hw : k.Waiters l xs) (ht : t ∉ xs)
    (hlen : xs.length < k.walkFuel) : k.schedWaitListRemove l t = some k :=
  schedWaitListRemoveWithin_notMem hw ht hlen

/-- Popping a task changes one head only. -/
theorem wqPop_relinked (l : WaitList) : Relinked k (k.wqPop l).1 l [] := by
  unfold wqPop
  split
  · exact .setHead _ l
  · exact .refl k l []

/-- Whatever the list looks like, removing a task changes links only. -/
theorem schedWaitListRemove_relinked {k' : Kernel} (h : k.schedWaitListRemove l t = some k') :
    ∃ S, Relinked k k' l S := by
  unfold schedWaitListRemove schedWaitListRemoveWithin at h
  split_ifs at h
  · cases h
    exact ⟨[], .setHead _ l⟩
  · split at h
    · rename_i cur _
      cases h
      exact ⟨[cur], .setWaitNext _ l List.mem_cons_self⟩
    · cases h
      exact ⟨[], .refl k l []⟩
    · cases h

end Kernel

end TamgaOs
