import TamgaOs.Kernel.WaitQueue
import TamgaOs.Library.Run
import TamgaOs.Library.Stable
import TamgaOs.Machine.Step

/-!
# The wait lists as stable priority queues

The primitives are taken by themselves, on control blocks that are linked in any way. A list may be
of any length, so the number of times that a loop test is evaluated is a parameter; every number
that exceeds the length of the list will do.

## Main definitions

* `WaitOp.run`: one primitive on one list, or any code that leaves links, heads and priorities alone.
* `Enrolment`: which task is in which list, and the turn in which it was inserted.
* `Enrolled k g`: every list holds its tasks in the order of their priorities and turns.

## Main results

* `waitLists_stable`: what each primitive stores, and what `wq_pop` yields in every run.
-/

namespace TamgaOs

open IntrusiveList

namespace Kernel

/-- The priority values never decrease along the tasks `xs`. -/
def Prioritised (k : Kernel) (xs : List TaskPtr) : Prop :=
  xs.Pairwise fun u v => (k.tcb u).priority ≤ (k.tcb v).priority

variable {k : Kernel} {l : WaitList} {t u : TaskPtr} {xs : List TaskPtr}

/-- The place of a task in a list that is ordered by priority. -/
theorem Prioritised.exists_split (h : k.Prioritised xs) (t : TaskPtr) : ∃ pre post,
    xs = pre ++ post ∧
    xs.takeWhile (fun u => Decidable.decide ((k.tcb u).priority ≤ (k.tcb t).priority)) = pre ∧
    (∀ u ∈ pre, (k.tcb u).priority ≤ (k.tcb t).priority) ∧
      ∀ u ∈ post, (k.tcb t).priority < (k.tcb u).priority := by
  induction xs with
  | nil => exact ⟨[], [], rfl, rfl, by simp, by simp⟩
  | cons v xs ih =>
    obtain ⟨hv, hxs⟩ := List.pairwise_cons.1 h
    by_cases hle : (k.tcb v).priority ≤ (k.tcb t).priority
    · obtain ⟨pre, post, hsplit, htake, hpre, hpost⟩ := ih hxs
      refine ⟨v :: pre, post, by simp [hsplit], ?_, ?_, hpost⟩
      · rw [List.takeWhile_cons, if_pos (by simpa using hle), htake]
      · rintro u (- | ⟨-, hu⟩)
        · exact hle
        · exact hpre u hu
    · refine ⟨[], v :: xs, rfl, ?_, by simp, fun u hu => ?_⟩
      · rw [List.takeWhile_cons, if_neg (by simpa using hle)]
      · rcases List.mem_cons.1 hu with rfl | hu
        · exact Nat.not_le.1 hle
        · exact (Nat.not_le.1 hle).trans_le (hv u hu)

end Kernel

/-! ### Runs of the primitives -/

/-- One primitive on one list, with a bound on the evaluations of its loop test; or other code, which
leads to the state `k`. -/
inductive WaitOp
  | insert (l : WaitList) (t : TaskPtr) (fuel : ℕ)
  | pop (l : WaitList)
  | remove (l : WaitList) (t : TaskPtr) (fuel : ℕ)
  | other (k : Kernel)

/-- The state after an operation, and what `wq_pop` has returned. -/
def WaitOp.run (k : Kernel) : WaitOp → Option (Kernel × List (WaitList × Option TaskPtr))
  | .insert l t fuel => (k.wqInsertWithin fuel l t).map fun k' => (k', [])
  | .pop l => some ((k.wqPop l).1, [(l, (k.wqPop l).2)])
  | .remove l t fuel => (k.schedWaitListRemoveWithin fuel l t).map fun k' => (k', [])
  | .other k' => some (k', [])

/-- The number of insertions so far, the turn in which each task was inserted last, and the list that
it is in. -/
structure Enrolment where
  turns : ℕ := 0
  turn : TaskPtr → ℕ := fun _ => 0
  list : TaskPtr → Option WaitList := fun _ => none

namespace Enrolment

variable (g : Enrolment)

def join (l : WaitList) (t : TaskPtr) : Enrolment where
  turns := g.turns + 1
  turn := Function.update g.turn t g.turns
  list := Function.update g.list t (some l)

def leave (t : TaskPtr) : Enrolment := { g with list := Function.update g.list t none }

theorem list_join (l : WaitList) (t : TaskPtr) :
    (g.join l t).list = Function.update g.list t (some l) := rfl

theorem list_leave (t : TaskPtr) : (g.leave t).list = Function.update g.list t none := rfl

/-- What an operation is meant to do. -/
def note (k : Kernel) (a : WaitOp) (_ : List (WaitList × Option TaskPtr)) (g : Enrolment) :
    Enrolment :=
  match a with
  | .insert l t _ => g.join l t
  | .pop l =>
    match (k.wqPop l).2 with
    | some t => g.leave t
    | none => g
  | .remove l t _ => if g.list t = some l then g.leave t else g
  | .other _ => g

/-- The runs with their enrolment. -/
def system : Kernel × Enrolment → WaitOp →
    Option ((Kernel × Enrolment) × List (WaitList × Option TaskPtr)) :=
  Run.annotate WaitOp.run note

/-- Only a task that is in no list is inserted, and other code keeps links, heads and priorities. -/
def Allowed (p : Kernel × Enrolment) : WaitOp → Prop
  | .insert _ t _ => p.2.list t = none
  | .pop _ | .remove _ _ _ => True
  | .other k' => k'.head = p.1.head ∧ k'.waitNext = p.1.waitNext ∧
    ∀ t, (k'.tcb t).priority = (p.1.tcb t).priority

end Enrolment

/-- Every list holds the tasks enrolled in it, in the order of the priorities and, among equals, of the
turns. -/
structure Enrolled (k : Kernel) (g : Enrolment) (xs : WaitList → List TaskPtr) : Prop where
  waiters : ∀ l, k.Waiters l (xs l)
  mem : ∀ l t, t ∈ xs l ↔ g.list t = some l
  order : ∀ l, Stable.InOrder (fun t => (k.tcb t).priority) g.turn (xs l)
  turn : ∀ l, ∀ t ∈ xs l, g.turn t < g.turns

namespace Enrolled

variable {k k' : Kernel} {g : Enrolment} {l : WaitList} {t : TaskPtr}
  {xs : WaitList → List TaskPtr}

/-- A task is in one list only. -/
theorem disjoint (h : Enrolled k g xs) {l' : WaitList} (hl : l' ≠ l) : ∀ u ∈ xs l', u ∉ xs l := by
  intro u hu hu'
  exact hl (Option.some.inj (((h.mem l' u).1 hu).symm.trans ((h.mem l u).1 hu')))

/-- `wq_insert` of a task that is in no list. -/
theorem insert (h : Enrolled k g xs) (ht : g.list t = none) {fuel : ℕ}
    (hk : k.wqInsertWithin fuel l t = some k') :
    Enrolled k' (g.join l t) (Function.update xs l (k.enqueued t (xs l))) := by
  have hfree (l' : WaitList) : t ∉ xs l' := by simp [h.mem, ht]
  have hlarge := Kernel.wqInsertWithin_mono hk (Nat.le_max_left fuel ((xs l).length + 1))
  rw [Kernel.wqInsertWithin_eq (h.waiters l) (hfree l) (by omega)] at hlarge
  obtain rfl := Option.some.inj hlarge
  set ahead := fun u => decide ((k.tcb u).priority ≤ (k.tcb t).priority) with hahead
  have hlink : Relinked k (k.linkBehind l t ((xs l).takeWhile ahead).getLast?) l (t :: xs l) :=
    Kernel.relinked_linkBehind fun u hu => Kernel.mem_of_mem_getLast? (List.takeWhile_subset ahead) hu
  have hturn (l' : WaitList) : ∀ u ∈ xs l', Function.update g.turn t g.turns u = g.turn u :=
    fun u hu => Function.update_of_ne (ne_of_mem_of_not_mem hu (hfree l')) ..
  refine ⟨fun l' => ?_, fun l' u => ?_, fun l' => ?_, fun l' u hu => ?_⟩ <;> by_cases hl : l' = l
  · subst hl
    have hw := h.waiters l'
    have hnot := hfree l'
    rw [Function.update_self, Kernel.enqueued_eq_takeWhile, ← hahead]
    rw [← List.takeWhile_append_dropWhile (l := xs l') (p := ahead)] at hw hnot
    exact Kernel.waiters_linkBehind hw hnot
  · rw [Function.update_of_ne hl]
    refine hlink.waiters_of_ne hl (h.waiters l') fun u hu => ?_
    simp only [List.mem_cons, not_or]
    exact ⟨ne_of_mem_of_not_mem hu (hfree l'), h.disjoint hl u hu⟩
  · subst hl
    rw [Function.update_self, Kernel.mem_enqueued, h.mem, Enrolment.list_join, Function.update_apply]
    by_cases hu : u = t <;> simp [hu]
  · rw [Function.update_of_ne hl, h.mem, Enrolment.list_join, Function.update_apply]
    by_cases hu : u = t
    · simp [hu, ht, Ne.symm hl]
    · simp [hu]
  · subst hl
    rw [Function.update_self]
    have horder := (h.order l').congr (fun _ _ => rfl) (hturn l')
    refine (horder.insert fun u hu => ?_).congr (fun u _ => hlink.priority u) fun _ _ => rfl
    rw [hturn l' u hu, Function.update_self]
    exact h.turn l' u hu
  · rw [Function.update_of_ne hl]
    exact (h.order l').congr (fun u _ => hlink.priority u) (hturn l')
  · subst hl
    rw [Function.update_self, Kernel.mem_enqueued] at hu
    rcases hu with rfl | hu
    · simp [Enrolment.join]
    · exact (hturn l' u hu).trans_lt (Nat.lt_succ_of_lt (h.turn l' u hu))
  · rw [Function.update_of_ne hl] at hu
    exact (hturn l' u hu).trans_lt (Nat.lt_succ_of_lt (h.turn l' u hu))

/-- A task of `l` is unlinked behind the tasks `pre`. -/
theorem leave (h : Enrolled k g xs) {pre post : List TaskPtr} (hxs : xs l = pre ++ t :: post) :
    Enrolled (k.unlinkBehind l t pre.getLast?) (g.leave t)
      (Function.update xs l (pre ++ post)) := by
  have hw := h.waiters l
  have hmem := h.mem l
  have horder := h.order l
  have hturn := h.turn l
  rw [hxs] at hw hmem horder hturn
  have hsub : (pre ++ post).Sublist (pre ++ t :: post) :=
    List.Sublist.append_left (List.sublist_cons_self t post) pre
  have hnot : t ∉ pre ++ post := by
    have hnodup := hw.nodup
    rw [List.nodup_middle] at hnodup
    exact (List.nodup_cons.1 hnodup).1
  have hlink : Relinked k (k.unlinkBehind l t pre.getLast?) l (pre ++ t :: post) :=
    Kernel.relinked_unlinkBehind fun u hu =>
      Kernel.mem_of_mem_getLast? (List.subset_append_left pre _) hu
  refine ⟨fun l' => ?_, fun l' u => ?_, fun l' => ?_, fun l' u hu => ?_⟩ <;> by_cases hl : l' = l
  · subst hl
    rw [Function.update_self]
    exact Kernel.waiters_unlinkBehind hw
  · rw [Function.update_of_ne hl]
    exact hlink.waiters_of_ne hl (h.waiters l') fun u hu => hxs ▸ h.disjoint hl u hu
  · subst hl
    rw [Function.update_self, Enrolment.list_leave, Function.update_apply]
    by_cases hu : u = t
    · simpa [hu] using hnot
    · rw [if_neg hu, ← hmem u]
      simp [hu]
  · rw [Function.update_of_ne hl, h.mem, Enrolment.list_leave, Function.update_apply]
    by_cases hu : u = t
    · have htl : g.list t = some l := (hmem t).1 (by simp)
      simp [hu, htl, Ne.symm hl]
    · simp [hu]
  · subst hl
    rw [Function.update_self]
    exact (horder.sublist hsub).congr (fun u _ => hlink.priority u) fun _ _ => rfl
  · rw [Function.update_of_ne hl]
    exact (h.order l').congr (fun u _ => hlink.priority u) fun _ _ => rfl
  · subst hl
    rw [Function.update_self] at hu
    exact hturn u (hsub.subset hu)
  · rw [Function.update_of_ne hl] at hu
    exact h.turn l' u hu

theorem pop (h : Enrolled k g xs) (l : WaitList) : ∃ xs',
    Enrolled (k.wqPop l).1 (Enrolment.note k (.pop l) [] g) xs' := by
  cases hxs : xs l with
  | nil =>
    refine ⟨xs, ?_⟩
    rw [Enrolment.note, Kernel.wqPop_nil (hxs ▸ h.waiters l)]
    exact h
  | cons t ys =>
    rw [Enrolment.note, Kernel.wqPop_cons (hxs ▸ h.waiters l)]
    have hfirst : xs l = [] ++ t :: ys := hxs
    exact ⟨_, h.leave hfirst⟩

theorem remove (h : Enrolled k g xs) {fuel : ℕ}
    (hk : k.schedWaitListRemoveWithin fuel l t = some k') : ∃ xs',
    Enrolled k' (Enrolment.note k (.remove l t fuel) [] g) xs' := by
  have hlarge :=
    Kernel.schedWaitListRemoveWithin_mono hk (Nat.le_max_left fuel ((xs l).length + 1))
  by_cases ht : t ∈ xs l
  · rw [Enrolment.note, if_pos ((h.mem l t).1 ht)]
    obtain ⟨pre, post, hxs⟩ := List.append_of_mem ht
    have hlen := congrArg List.length hxs
    rw [List.length_append] at hlen
    rw [Kernel.schedWaitListRemoveWithin_mem (hxs ▸ h.waiters l) (by omega)] at hlarge
    obtain rfl := Option.some.inj hlarge
    exact ⟨_, h.leave hxs⟩
  · rw [Enrolment.note, if_neg fun hl => ht ((h.mem l t).2 hl)]
    rw [Kernel.schedWaitListRemoveWithin_notMem (h.waiters l) ht (by omega)] at hlarge
    obtain rfl := Option.some.inj hlarge
    exact ⟨xs, h⟩

theorem other (h : Enrolled k g xs) (hhead : k'.head = k.head) (hnext : k'.waitNext = k.waitNext)
    (hpriority : ∀ t, (k'.tcb t).priority = (k.tcb t).priority) : Enrolled k' g xs where
  waiters l := by
    rw [Kernel.Waiters, hhead, hnext]
    exact h.waiters l
  mem := h.mem
  order l := (h.order l).congr (fun t _ => hpriority t) fun _ _ => rfl
  turn := h.turn

/-- The step lemma: one case for each operation. -/
theorem step (h : Enrolled k g xs) {g' : Enrolment} {a : WaitOp}
    {o : List (WaitList × Option TaskPtr)} (hok : Enrolment.Allowed (k, g) a)
    (hs : Enrolment.system (k, g) a = some ((k', g'), o)) : ∃ xs', Enrolled k' g' xs' := by
  obtain ⟨hrun, rfl⟩ := Run.annotate_eq_some.1 hs
  cases a with
  | insert l t fuel =>
    obtain ⟨k₁, hk, he⟩ := Option.map_eq_some_iff.1 hrun
    cases he
    exact ⟨_, h.insert hok hk⟩
  | pop l =>
    cases hrun
    exact h.pop l
  | remove l t fuel =>
    obtain ⟨k₁, hk, he⟩ := Option.map_eq_some_iff.1 hrun
    cases he
    exact h.remove hk
  | other k₁ =>
    cases hrun
    exact ⟨xs, h.other hok.1 hok.2.1 hok.2.2⟩

/-- The task that `wq_pop` yields comes before all others of its list. -/
theorem wqPop_before (h : Enrolled k g xs) (ht : (k.wqPop l).2 = some t) :
    g.list t = some l ∧ ∀ u, g.list u = some l →
      u = t ∨ Stable.Before (fun u => (k.tcb u).priority) g.turn t u := by
  cases hxs : xs l with
  | nil =>
    rw [Kernel.wqPop_nil (hxs ▸ h.waiters l)] at ht
    cases ht
  | cons v ys =>
    rw [Kernel.wqPop_cons (hxs ▸ h.waiters l)] at ht
    obtain rfl : v = t := Option.some.inj ht
    have horder := h.order l
    have hmem := h.mem l
    rw [hxs] at horder hmem
    refine ⟨(hmem v).1 List.mem_cons_self, fun u hu => ?_⟩
    rcases List.mem_cons.1 ((hmem u).2 hu) with rfl | hys
    · exact Or.inl rfl
    · exact Or.inr ((List.pairwise_cons.1 horder).1 u hys)

/-- `wq_pop` yields the null pointer only when no task is in the list. -/
theorem wqPop_none (h : Enrolled k g xs) (hnone : (k.wqPop l).2 = none) (u : TaskPtr) :
    g.list u ≠ some l := by
  cases hxs : xs l with
  | nil =>
    intro hu
    have hmem := (h.mem l u).2 hu
    rw [hxs] at hmem
    cases hmem
  | cons v ys =>
    rw [Kernel.wqPop_cons (hxs ▸ h.waiters l)] at hnone
    cases hnone

/-- The empty lists. -/
theorem init (hhead : ∀ l, k.head l = none) : Enrolled k {} fun _ => [] where
  waiters := hhead
  mem := by simp
  order _ := List.Pairwise.nil
  turn := by simp

/-- The run lemma. -/
theorem of_reach {k₀ : Kernel} {out : List (WaitList × Option TaskPtr)}
    (h₀ : ∀ l, k₀.head l = none)
    (h : Run.Reach Enrolment.system Enrolment.Allowed (k₀, {}) (k, g) out) :
    ∃ xs, Enrolled k g xs := by
  refine h.invariant (I := fun p => ∃ xs, Enrolled p.1 p.2 xs) ⟨_, init h₀⟩ ?_
  rintro ⟨k, g⟩ ⟨k', g'⟩ a o ⟨xs, hI⟩ hok hs
  exact hI.step hok hs

end Enrolled

/-- `wq_insert` stops for every task that is in no list, and `sched_wait_list_remove` for every task. -/
def PrimitivesStop (k : Kernel) (g : Enrolment) : Prop :=
  ∀ l t, ∃ n, (g.list t = none → ∀ fuel > n, (k.wqInsertWithin fuel l t).isSome = true) ∧
    ∀ fuel > n, (k.schedWaitListRemoveWithin fuel l t).isSome = true

theorem Enrolled.primitivesStop {k : Kernel} {g : Enrolment} {xs : WaitList → List TaskPtr}
    (h : Enrolled k g xs) : PrimitivesStop k g := by
  refine fun l t => ⟨(xs l).length, fun ht fuel hfuel => ?_, fun fuel hfuel => ?_⟩
  · rw [Kernel.wqInsertWithin_eq (h.waiters l) (by simp [h.mem, ht]) hfuel]
    rfl
  · by_cases ht : t ∈ xs l
    · obtain ⟨pre, post, hxs⟩ := List.append_of_mem ht
      have hlen := congrArg List.length hxs
      rw [List.length_append] at hlen
      rw [Kernel.schedWaitListRemoveWithin_mem (hxs ▸ h.waiters l) (by omega)]
      rfl
    · rw [Kernel.schedWaitListRemoveWithin_notMem (h.waiters l) ht hfuel]
      rfl

/-- `wq_insert` puts a task behind the last task that is at least as urgent, `wq_pop` takes the first
task, and `sched_wait_list_remove` takes out one task. In every run of these operations from empty
lists `wq_pop` takes, among the tasks of the list, the one inserted first of the most urgent ones. -/
theorem waitLists_stable :
    (∀ (k : Kernel) (l : WaitList) (xs : List TaskPtr) (t : TaskPtr), k.Waiters l xs →
      k.Prioritised xs → t ∉ xs → ∃ pre post, xs = pre ++ post ∧
        (∀ u ∈ pre, (k.tcb u).priority ≤ (k.tcb t).priority) ∧
        (∀ u ∈ post, (k.tcb t).priority < (k.tcb u).priority) ∧
        (∀ fuel > xs.length, k.wqInsertWithin fuel l t = some (k.linkBehind l t pre.getLast?)) ∧
        (k.linkBehind l t pre.getLast?).Waiters l (pre ++ t :: post)) ∧
    (∀ (k : Kernel) (l : WaitList), k.Waiters l [] → k.wqPop l = (k, none)) ∧
    (∀ (k : Kernel) (l : WaitList) (t : TaskPtr) (xs : List TaskPtr), k.Waiters l (t :: xs) →
      k.wqPop l = (k.setHead l (k.waitNext t), some t) ∧
        (k.setHead l (k.waitNext t)).Waiters l xs) ∧
    (∀ (k : Kernel) (l : WaitList) (t : TaskPtr) (pre post : List TaskPtr),
      k.Waiters l (pre ++ t :: post) →
        (∀ fuel > (pre ++ t :: post).length,
          k.schedWaitListRemoveWithin fuel l t = some (k.unlinkBehind l t pre.getLast?)) ∧
        (k.unlinkBehind l t pre.getLast?).Waiters l (pre ++ post)) ∧
    (∀ (k : Kernel) (l : WaitList) (xs : List TaskPtr) (t : TaskPtr), k.Waiters l xs → t ∉ xs →
      ∀ fuel > xs.length, k.schedWaitListRemoveWithin fuel l t = some k) ∧
    ∀ (k₀ k : Kernel) (g : Enrolment) (out : List (WaitList × Option TaskPtr)),
      (∀ l, k₀.head l = none) →
      Run.Reach Enrolment.system Enrolment.Allowed (k₀, {}) (k, g) out →
        PrimitivesStop k g ∧ (∃ xs, Enrolled k g xs) ∧
        ∀ l, ((k.wqPop l).2 = none → ∀ u, g.list u ≠ some l) ∧
          ∀ t, (k.wqPop l).2 = some t → g.list t = some l ∧ ∀ u, g.list u = some l →
            u = t ∨ Stable.Before (fun u => (k.tcb u).priority) g.turn t u := by
  refine ⟨fun k l xs t hw hprio ht => ?_, fun k l hw => Kernel.wqPop_nil hw,
    fun k l t xs hw => ⟨Kernel.wqPop_cons hw, Kernel.waiters_setHead_of_cons hw⟩,
    fun k l t pre post hw => ⟨fun fuel hfuel => ?_, Kernel.waiters_unlinkBehind hw⟩,
    fun k l xs t hw ht fuel hfuel => Kernel.schedWaitListRemoveWithin_notMem hw ht hfuel,
    fun k₀ k g out h₀ h => ?_⟩
  · obtain ⟨pre, post, rfl, htake, hpre, hpost⟩ := hprio.exists_split t
    refine ⟨pre, post, rfl, hpre, hpost, fun fuel hfuel => ?_, Kernel.waiters_linkBehind hw ht⟩
    rw [Kernel.wqInsertWithin_eq hw ht hfuel, htake]
  · rw [List.length_append] at hfuel
    exact Kernel.schedWaitListRemoveWithin_mem hw (by omega)
  · obtain ⟨xs, hI⟩ := Enrolled.of_reach h₀ h
    exact ⟨hI.primitivesStop, ⟨xs, hI⟩, fun l => ⟨hI.wqPop_none, fun t => hI.wqPop_before⟩⟩

/-- Three tasks wait for one semaphore, and the first one in the list leaves. -/
def semaphoreWaits : List WaitOp :=
  [.insert (.sem 0) (.tcb 0) 1, .insert (.sem 0) (.tcb 1) 2, .insert (.sem 0) (.tcb 2) 3,
    .pop (.sem 0)]

/-- The last of the three tasks is the most urgent one. -/
def semaphoreEnd : Kernel × Enrolment :=
  ((Run.exec Enrolment.system (Config.created { priorities := [2, 2, 1] }, {})
    semaphoreWaits).get (by decide +kernel)).1

theorem waitLists_stable_semaphore :
    semaphoreEnd.2.list (.tcb 0) = some (.sem 0) ∧
      ∀ u, semaphoreEnd.2.list u = some (.sem 0) →
        u = .tcb 0 ∨ Stable.Before (fun u => (semaphoreEnd.1.tcb u).priority) semaphoreEnd.2.turn
          (.tcb 0) u := by
  have hpermitted : Run.Permitted Enrolment.system Enrolment.Allowed
      (Config.created { priorities := [2, 2, 1] }, {}) semaphoreWaits := by
    refine ⟨rfl, fun r hr => ?_⟩
    cases hr
    refine ⟨rfl, fun r hr => ?_⟩
    cases hr
    refine ⟨rfl, fun r hr => ?_⟩
    cases hr
    exact ⟨trivial, fun _ _ => trivial⟩
  exact ((waitLists_stable.2.2.2.2.2 _ _ _ _ (fun _ => rfl)
    (Run.Reach.exec hpermitted (by decide +kernel))).2.2 (.sem 0)).2 (.tcb 0) (by decide +kernel)

end TamgaOs
