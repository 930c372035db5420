import TamgaOs.Kernel.IdleTask
import TamgaOs.Machine.Apart

/-!
# The statements of a tick

`sched_tick_n` is no critical section, so that its statements are steps of their own. When nothing
comes between them they compute the same state as `Kernel.schedTickN`, and they come to an end
exactly when it is defined. Here the bound on the walks of `sched_wait_list_remove` is no
restriction: the lists lead to tasks of the table only, and a walk that ends visits none of them
twice.

## Main definitions

* `TickRuns n k c k'`: the statements from the program point `c` on lead from `k` to `k'`.
* `Kernel.ListsTabled`: the wait lists lead to tasks of the table only.

## Main results

* `tickRuns_iff`: a whole tick is `Kernel.schedTickN`.
* `Machine.listsTabled_of_reach`: the lists of every reachable state lead to tasks of the table.
-/

namespace TamgaOs

open IntrusiveList

/-- The statements of `sched_tick_n` from the program point `c` to its return lead from `k` to
`k'`. -/
inductive TickRuns (n : ℕ) : Kernel → TickCtl → Kernel → Prop
  | last {k k' : Kernel} {c : TickCtl} (h : tickStep k n c = some (k', none)) : TickRuns n k c k'
  | next {k k₁ k' : Kernel} {c c₁ : TickCtl} (h : tickStep k n c = some (k₁, some c₁))
      (hrest : TickRuns n k₁ c₁ k') : TickRuns n k c k'

namespace TickRuns

variable {k k₁ k' : Kernel} {n i : ℕ} {c c₁ : TickCtl}

/-- A statement that is not the last one. -/
theorem next_iff (h : tickStep k n c = some (k₁, some c₁)) :
    TickRuns n k c k' ↔ TickRuns n k₁ c₁ k' := by
  refine ⟨fun hruns => ?_, .next h⟩
  cases hruns with
  | last h' => cases h.symm.trans h'
  | next h' hrest =>
    cases h.symm.trans h'
    exact hrest

/-- The last statement. -/
theorem last_iff (h : tickStep k n c = some (k₁, none)) : TickRuns n k c k' ↔ k' = k₁ := by
  refine ⟨fun hruns => ?_, fun he => he ▸ .last h⟩
  cases hruns with
  | last h' =>
    cases h.symm.trans h'
    rfl
  | next h' _ => cases h.symm.trans h'

/-! ### The scheduling decision -/

theorem switchTest_iff : TickRuns n k .switchTest k' ↔ k' = k.triggerIfSwitch := by
  unfold Kernel.triggerIfSwitch
  split_ifs with hne
  · have h : tickStep k n .switchTest = some (k, some .switch) := by simp only [tickStep, if_pos hne]
    rw [next_iff h, last_iff rfl]
  · have h : tickStep k n .switchTest = some (k, none) := by simp only [tickStep, if_neg hne]
    rw [last_iff h]

/-- From the store to `g_next_task` on. -/
theorem install_iff {t : TaskPtr} :
    TickRuns n k (.install t) k' ↔ k' = (k.installNext t).triggerIfSwitch := by
  set k₁ : Kernel := { k with nextTask := some t } with hk₁
  have hstore : tickStep k n (.install t) = some (k₁, some .runTest) := rfl
  have hnext : k₁.nextTask = some t := rfl
  rw [next_iff hstore]
  unfold Kernel.installNext
  dsimp only
  split_ifs with hready
  · have htest : tickStep k₁ n .runTest = some (k₁, some .run) := by
      simp only [tickStep, hnext, Option.map_some]
      rw [if_pos hready]
    have hrun : tickStep k₁ n .run = some (k₁.setState t .running, some .switchTest) := rfl
    rw [next_iff htest, next_iff hrun, switchTest_iff]
  · have htest : tickStep k₁ n .runTest = some (k₁, some .switchTest) := by
      simp only [tickStep, hnext, Option.map_some]
      rw [if_neg hready]
    rw [next_iff htest, switchTest_iff]

theorem select_iff : TickRuns n k .select k' ↔
    k' = (k.installNext k.schedSelectNext).triggerIfSwitch := by
  have h : tickStep k n .select = some (k, some (.install k.schedSelectNext)) := rfl
  rw [next_iff h, install_iff]

/-- `sched_commit_next`. -/
theorem nextTest_iff : TickRuns n k .nextTest k' ↔ k' = k.schedCommitNext.triggerIfSwitch := by
  unfold Kernel.schedCommitNext Kernel.releaseNext
  cases hnext : k.nextTask with
  | none =>
    have h : tickStep k n .nextTest = some (k, some .select) := by simp only [tickStep, hnext]
    rw [next_iff h, select_iff]
  | some t =>
    dsimp only
    split_ifs with hlost
    · have h : tickStep k n .nextTest = some (k, some .nextReady) := by
        simp only [tickStep, hnext, if_pos hlost]
      have hready : tickStep k n .nextReady = some (k.setState t .ready, some .select) := by
        simp only [tickStep, hnext, Option.map_some]
      rw [next_iff h, next_iff hready, select_iff]
    · have h : tickStep k n .nextTest = some (k, some .select) := by
        simp only [tickStep, hnext, if_neg hlost]
      rw [next_iff h, select_iff]

/-- The statements behind the loop. -/
theorem currentTest_iff :
    TickRuns n k .currentTest k' ↔ k' = k.schedPickAndMark.triggerIfSwitch := by
  unfold Kernel.schedPickAndMark Kernel.readyCurrent
  cases hcur : k.currentTask with
  | none =>
    have h : tickStep k n .currentTest = some (k, some .nextTest) := by simp only [tickStep, hcur]
    rw [next_iff h, nextTest_iff]
  | some t =>
    dsimp only
    split_ifs with hrun
    · have h : tickStep k n .currentTest = some (k, some .currentReady) := by
        simp only [tickStep, hcur, if_pos hrun]
      have hready : tickStep k n .currentReady = some (k.setState t .ready, some .nextTest) := by
        simp only [tickStep, hcur, Option.map_some]
      rw [next_iff h, next_iff hready, nextTest_iff]
    · have h : tickStep k n .currentTest = some (k, some .nextTest) := by
        simp only [tickStep, hcur, if_neg hrun]
      rw [next_iff h, nextTest_iff]

/-! ### The expiry of a delay -/

/-- The stores behind the removal from the list. -/
theorem clearHead_iff : TickRuns n k (.clearHead i) k' ↔
    TickRuns n (k.modifyTask (.tcb i) fun x =>
      { x with waitListHead := none, timedOut := true, state := .ready }) (.test (i + 1)) k' := by
  set k₁ := k.modifyTask (.tcb i) fun x => { x with waitListHead := none } with hk₁
  set k₂ := k₁.modifyTask (.tcb i) fun x => { x with timedOut := true } with hk₂
  have hclear : tickStep k n (.clearHead i) = some (k₁, some (.mark i)) := rfl
  have hmark : tickStep k₁ n (.mark i) = some (k₂, some (.ready i)) := rfl
  have hready : tickStep k₂ n (.ready i) =
      some (k₂.setState (.tcb i) .ready, some (.test (i + 1))) := rfl
  rw [next_iff hclear, next_iff hmark, next_iff hready, hk₂, hk₁]
  simp only [Kernel.setState, Kernel.modifyTask, Function.update_self, Function.update_idem]

/-- The store that unlinks `t` behind the task that the search has found. -/
def unlinked (k : Kernel) (t : TaskPtr) : Option TaskPtr → Kernel
  | some cur => k.setWaitNext cur (k.waitNext t)
  | none => k

/-- The loop of `sched_wait_list_remove` comes to an end like the search. -/
theorem seek_of_removeTest (h : TickRuns n k c k') :
    (∀ cur, c = .removeTest i cur → ∃ fuel r, seek k.waitNext (.tcb i) fuel cur = some r ∧
      TickRuns n (unlinked k (.tcb i) r) (.clearHead i) k') ∧
    ∀ cur, c = .removeNext i cur → ∃ fuel r,
      seek k.waitNext (.tcb i) fuel (k.waitNext cur) = some r ∧
        TickRuns n (unlinked k (.tcb i) r) (.clearHead i) k' := by
  induction h with
  | last h =>
    refine ⟨fun cur hc => ?_, fun cur hc => ?_⟩
    · subst hc
      simp only [tickStep] at h
      split at h
      · split_ifs at h <;> cases h
      · cases h
    · subst hc
      cases h
  | next h hrest ih =>
    refine ⟨fun cur hc => ?_, fun cur hc => ?_⟩
    · subst hc
      cases cur with
      | none =>
        cases h
        exact ⟨1, none, rfl, hrest⟩
      | some d =>
        simp only [tickStep] at h
        split_ifs at h with hd
        · cases h
          obtain ⟨fuel, r, hseek, hr⟩ := ih.2 d rfl
          exact ⟨fuel + 1, r, by rwa [seek, if_neg hd], hr⟩
        · cases h
          rw [not_not] at hd
          exact ⟨1, some d, by rw [seek, if_pos hd], (next_iff rfl).1 hrest⟩
    · subst hc
      cases h
      exact ih.1 _ rfl

theorem removeTest_of_seek {r : Option TaskPtr}
    (h : TickRuns n (unlinked k (.tcb i) r) (.clearHead i) k') : ∀ {fuel : ℕ} {cur : Option TaskPtr},
    seek k.waitNext (.tcb i) fuel cur = some r → TickRuns n k (.removeTest i cur) k'
  | 0, _, hseek => by cases hseek
  | _ + 1, none, hseek => by
    cases hseek
    exact .next rfl h
  | fuel + 1, some d, hseek => by
    rw [seek] at hseek
    split_ifs at hseek with hd
    · cases hseek
      have htest : tickStep k n (.removeTest i (some d)) = some (k, some (.removeLink i d)) := by
        simp only [tickStep, hd, ne_eq, not_true_eq_false, if_false]
      exact .next htest (.next rfl h)
    · have htest : tickStep k n (.removeTest i (some d)) = some (k, some (.removeNext i d)) := by
        simp only [tickStep, ne_eq, hd, not_false_eq_true, if_true]
      exact .next htest (.next rfl (removeTest_of_seek h hseek))

end TickRuns

/-- The wait lists lead to tasks of the table only. -/
def Kernel.ListsTabled (k : Kernel) : Prop := ∀ t, k.Reached t → InTable k t

/-- Stores after which the lists lead to the same tasks at most. -/
theorem Kernel.ListsTabled.of_closed {k k' : Kernel} (hk : k.ListsTabled)
    (h : ∀ P, k.Closed P → k'.Closed P) (hcount : k.taskCount ≤ k'.taskCount) : k'.ListsTabled :=
  fun t ht => (hk t (ht.mem (h _ k.closed_reached))).mono hcount

namespace TickRuns

variable {k k₁ k' : Kernel} {n i : ℕ}

/-- A search that comes to an end does so within the bound. -/
theorem seek_walkFuel (hk : k.ListsTabled) {l : WaitList} {t : TaskPtr} {r : Option TaskPtr}
    {fuel : ℕ} (h : seek k.waitNext t fuel (k.head l) = some r) :
    seek k.waitNext t k.walkFuel (k.head l) = some r := by
  obtain ⟨xs, hnodup, hin, hseek⟩ :=
    seek_bounded h (k.closed_reached.root l) k.closed_reached.next
  exact seek_mono hseek (Kernel.length_lt_walkFuel hnodup fun x hx => hk x (hin x hx))

/-- `sched_wait_list_remove` and the stores behind it. -/
theorem remove_iff (hk : k.ListsTabled) {l : WaitList}
    (hl : (k.tcb (.tcb i)).waitListHead = some l) : TickRuns n k (.remove i) k' ↔
      ∃ k₁, k.schedWaitListRemove l (.tcb i) = some k₁ ∧ TickRuns n k₁ (.clearHead i) k' := by
  by_cases hhead : k.head l = some (.tcb i)
  · have htest : tickStep k n (.remove i) = some (k, some (.removeHead i l)) := by
      simp only [tickStep, hl, if_pos hhead]
    have hstore : tickStep k n (.removeHead i l) =
        some (k.setHead l (k.waitNext (.tcb i)), some (.clearHead i)) := rfl
    rw [next_iff htest, next_iff hstore, Kernel.schedWaitListRemove,
      Kernel.schedWaitListRemoveWithin, if_pos hhead]
    simp
  · have htest : tickStep k n (.remove i) = some (k, some (.removeStart i l)) := by
      simp only [tickStep, hl, if_neg hhead]
    have hstart : tickStep k n (.removeStart i l) = some (k, some (.removeTest i (k.head l))) := rfl
    have hremove : ∀ r, seek k.waitNext (.tcb i) k.walkFuel (k.head l) = some r →
        k.schedWaitListRemove l (.tcb i) = some (unlinked k (.tcb i) r) := by
      intro r hr
      rw [Kernel.schedWaitListRemove, Kernel.schedWaitListRemoveWithin, if_neg hhead, hr]
      cases r <;> rfl
    rw [next_iff htest, next_iff hstart]
    constructor
    · intro h
      obtain ⟨fuel, r, hseek, hrest⟩ := (seek_of_removeTest h).1 _ rfl
      exact ⟨_, hremove r (seek_walkFuel hk hseek), hrest⟩
    · rintro ⟨k₁, hk₁, hrest⟩
      cases hseek : seek k.waitNext (.tcb i) k.walkFuel (k.head l) with
      | none =>
        rw [Kernel.schedWaitListRemove, Kernel.schedWaitListRemoveWithin, if_neg hhead, hseek] at hk₁
        cases hk₁
      | some r =>
        cases (hremove r hseek).symm.trans hk₁
        exact removeTest_of_seek hrest hseek

/-- `t->delay_ticks = 0`. -/
def clearDelay (k : Kernel) (t : TaskPtr) : Kernel := k.modifyTask t fun x => { x with delayTicks := 0 }

/-- The removal does not read the delay that the statement before it clears. -/
theorem schedWaitListRemove_clearDelay (k : Kernel) (l : WaitList) (t u : TaskPtr) :
    (clearDelay k u).schedWaitListRemove l t =
      (k.schedWaitListRemove l t).map fun k₁ => clearDelay k₁ u := by
  have hlinks : (clearDelay k u).waitNext = k.waitNext := by
    funext v
    unfold Kernel.waitNext clearDelay
    rw [Kernel.modifyTask_tcb]
    split_ifs with hv
    · rw [hv]
    · rfl
  have hset : ∀ c v, (clearDelay k u).setWaitNext c v = clearDelay (k.setWaitNext c v) u := by
    intro c v
    unfold Kernel.setWaitNext clearDelay Kernel.modifyTask
    dsimp only
    by_cases hcu : c = u
    · subst hcu
      simp only [Function.update_self, Function.update_idem]
    · rw [Function.update_of_ne hcu, Function.update_of_ne (Ne.symm hcu),
        Function.update_comm hcu]
  have hwalk : (clearDelay k u).walkFuel = k.walkFuel := rfl
  have hheads : (clearDelay k u).head = k.head := rfl
  unfold Kernel.schedWaitListRemove Kernel.schedWaitListRemoveWithin
  rw [hlinks, hwalk, hheads]
  split_ifs
  · rfl
  · split <;> simp only [hset, Option.map_some, Option.map_none]

/-- The stores for a delay that is over. -/
theorem zero_iff (hk : k.ListsTabled) : TickRuns n k (.zero i) k' ↔
    ∃ k₁, k.expire (.tcb i) = some k₁ ∧ TickRuns n k₁ (.test (i + 1)) k' := by
  have hzero : tickStep k n (.zero i) = some (clearDelay k (.tcb i), some (.headTest i)) := rfl
  have hhead : ((clearDelay k (.tcb i)).tcb (.tcb i)).waitListHead =
      (k.tcb (.tcb i)).waitListHead := by
    rw [clearDelay, Kernel.modifyTask_self]
  have htabled : (clearDelay k (.tcb i)).ListsTabled :=
    hk.of_closed (fun _ hP => hP.modifyTask (.tcb i) fun _ => Or.inl rfl) le_rfl
  rw [next_iff hzero, Kernel.expire]
  cases hl : (k.tcb (.tcb i)).waitListHead with
  | none =>
    have htest : tickStep (clearDelay k (.tcb i)) n (.headTest i) =
        some (clearDelay k (.tcb i), some (.ready i)) := by
      simp only [tickStep, hhead, hl]
    have hready : tickStep (clearDelay k (.tcb i)) n (.ready i) =
        some ((clearDelay k (.tcb i)).setState (.tcb i) .ready, some (.test (i + 1))) := rfl
    have hstores : (clearDelay k (.tcb i)).setState (.tcb i) .ready =
        k.modifyTask (.tcb i) fun x => { x with delayTicks := 0, state := .ready } := by
      simp only [clearDelay, Kernel.setState, Kernel.modifyTask, Function.update_self,
        Function.update_idem]
    rw [next_iff htest, next_iff hready, hstores]
    simp
  | some l =>
    have htest : tickStep (clearDelay k (.tcb i)) n (.headTest i) =
        some (clearDelay k (.tcb i), some (.remove i)) := by
      simp only [tickStep, hhead, hl]
    have hstores : ∀ k₂ : Kernel, ((clearDelay k₂ (.tcb i)).modifyTask (.tcb i) fun x =>
        { x with waitListHead := none, timedOut := true, state := .ready }) =
          k₂.modifyTask (.tcb i) fun x =>
            { x with delayTicks := 0, waitListHead := none, timedOut := true, state := .ready } := by
      intro k₂
      simp only [clearDelay, Kernel.modifyTask, Function.update_self, Function.update_idem]
    dsimp only
    rw [next_iff htest, remove_iff htabled (hhead.trans hl), schedWaitListRemove_clearDelay]
    cases k.schedWaitListRemove l (.tcb i) with
    | none => simp
    | some k₂ =>
      simp only [Option.map_some, Option.some.injEq, exists_eq_left', clearHead_iff, hstores]

/-! ### The loop -/

/-- The body of the loop. -/
theorem test_iff (hk : k.ListsTabled) (hi : i < k.taskCount) : TickRuns n k (.test i) k' ↔
    ∃ k₁, Kernel.tickTask n k i = some k₁ ∧ TickRuns n k₁ (.test (i + 1)) k' := by
  unfold Kernel.tickTask
  dsimp only
  by_cases hw : (k.tcb (.tcb i)).state = .blocked ∧ 0 < (k.tcb (.tcb i)).delayTicks
  · have htest : tickStep k n (.test i) = some (k, some (.compare i)) := by
      simp only [tickStep, if_pos hi, if_pos hw]
    rw [next_iff htest, if_pos hw]
    by_cases hd : (k.tcb (.tcb i)).delayTicks ≤ n
    · have hcompare : tickStep k n (.compare i) = some (k, some (.zero i)) := by
        simp only [tickStep, if_pos hd]
      rw [next_iff hcompare, if_pos hd, zero_iff hk]
    · have hcompare : tickStep k n (.compare i) = some (k, some (.subtract i)) := by
        simp only [tickStep, if_neg hd]
      have hsubtract : tickStep k n (.subtract i) = some (k.modifyTask (.tcb i) fun x =>
          { x with delayTicks := uint32Sub x.delayTicks n }, some (.test (i + 1))) := rfl
      have hsame : (k.modifyTask (.tcb i) fun x =>
          { x with delayTicks := uint32Sub x.delayTicks n }) =
            k.modifyTask (.tcb i) fun x => { x with delayTicks := x.delayTicks - n } := by
        unfold Kernel.modifyTask uint32Sub
        simp only [if_pos (le_of_not_ge hd)]
      rw [next_iff hcompare, if_neg hd, next_iff hsubtract, hsame]
      simp
  · have htest : tickStep k n (.test i) = some (k, some (.test (i + 1))) := by
      simp only [tickStep, if_pos hi, if_neg hw]
    rw [next_iff htest, if_neg hw]
    simp

end TickRuns

namespace Kernel.ListsTabled

variable {k k' : Kernel} {n i : ℕ}

theorem tickTask (hk : k.ListsTabled) (h : Kernel.tickTask n k i = some k') :
    k'.ListsTabled :=
  fun t ht => (hk t ((Bypasses.tickTask (t := t) h).reached ht)).mono
    (Kernel.tickTask_only h).taskCount.ge

end Kernel.ListsTabled

namespace TickRuns

variable {k k' : Kernel} {n : ℕ}

/-- The rest of the loop, from the task at the index `i` on. -/
theorem loop_iff {d i : ℕ} (hk : k.ListsTabled) (hd : i + d = k.taskCount) :
    TickRuns n k (.test i) k' ↔ ∃ k₁, (List.range' i d).foldlM (Kernel.tickTask n) k = some k₁ ∧
      k' = k₁.schedPickAndMark.triggerIfSwitch := by
  induction d generalizing k i with
  | zero =>
    have htest : tickStep k n (.test i) = some (k, some .currentTest) := by
      simp only [tickStep, if_neg (show ¬ i < k.taskCount by omega)]
    rw [next_iff htest, currentTest_iff]
    simp
  | succ d ih =>
    rw [test_iff hk (by omega), List.range'_succ, List.foldlM_cons]
    cases h : Kernel.tickTask n k i with
    | none => simp
    | some k₁ =>
      have hcount : k₁.taskCount = k.taskCount := (Kernel.tickTask_only h).taskCount
      simp only [Option.some.injEq, exists_eq_left', Option.bind_eq_bind, Option.bind_some]
      exact ih (hk.tickTask h) (by omega)

end TickRuns

/-- The statements of a whole tick compute `Kernel.schedTickN`. -/
theorem tickRuns_iff {k k' : Kernel} {n : ℕ} (hk : k.ListsTabled) :
    TickRuns n k (.test 0) k' ↔ k.schedTickN n = some k' := by
  rw [TickRuns.loop_iff hk (Nat.zero_add _), Kernel.schedTickN, Option.map_eq_some_iff,
    ← List.range_eq_range']
  exact exists_congr fun k₁ => and_congr_right fun _ => eq_comm

/-! ### The lists of the reachable states -/

namespace Machine

variable {m m' : Machine} {a : Action} {o : List Obs}

/-- A step links its own task at most. -/
theorem listsTabled_step (hm : m.IdleApart) (ht : m.Tabled) (hl : m.kernel.ListsTabled)
    (hs : m.step a = some (m', o)) : m'.kernel.ListsTabled := by
  intro t hreached
  by_contra hout
  have hle : m.kernel.taskCount ≤ m'.kernel.taskCount := (Machine.step_path hs).taskCount_le
  have hout₀ : ¬ InTable m.kernel t := fun hin => hout (hin.mono hle)
  have hkeep : ¬ Bypasses t m.kernel m'.kernel := fun h => hout₀ (hl t (h.reached hreached))
  rcases Machine.step_cases hs with ⟨c, i, rfl, -, -, rfl, -⟩ |
    ⟨x, u, k', c', rfl, hact, hu, hst, rfl⟩ | ⟨c, rfl, -, rfl, -⟩ | ⟨rfl, -, -, rfl, -⟩ |
    ⟨n, rfl, rfl, -⟩ | ⟨n, k', rfl, htick, rfl, -⟩
  · exact hkeep (.refl _)
  · by_cases hcreate : ∃ p, m.ctl x = .sched (.createSection p)
    · obtain ⟨p, hc⟩ := hcreate
      rw [hc] at hst
      cases hst
      refine hout₀ (hl t (hreached.mem ?_))
      exact m.kernel.closed_reached.modifyTask (.tcb m.kernel.taskCount) (f := fun x => { x with
        priority := p, state := .ready, delayTicks := 0, waitListHead := none
        timedOut := false, notifyPending := false, notifyValue := 0 }) fun _ => Or.inl rfl
    · refine hkeep (ctlStep_bypasses (fun p hc => absurd ⟨p, hc⟩ hcreate) (fun hut => ?_) hst)
      have happ : m.ctl x ≠ .app := by
        intro he
        rw [he] at hst
        cases hst
      rcases hm.active hact hu happ with ⟨rfl, -⟩ | ⟨hsafe, -⟩
      · exact absurd (ht.ctl t (hut ▸ happ)) hout₀
      · exact hsafe
  · exact hkeep (.refl _)
  · exact hout₀ (hl t hreached)
  · exact hkeep (.of_eq rfl rfl rfl)
  · exact hkeep (.schedTickN htick)

theorem listsTabled_start (cfg : Config) : (start cfg).kernel.ListsTabled :=
  fun t ht => absurd ht (apart_start cfg t).unreached

/-- A run that goes on from a reachable state. -/
theorem listsTabled_of_continued {cfg : Config} {ok₀ ok : Machine → Action → Prop} {m₀ : Machine}
    {out₀ out : List Obs} (h₀ : Run.Reach step ok₀ (start cfg) m₀ out₀)
    (h : Run.Reach step ok m₀ m out) : m.kernel.ListsTabled := by
  have hkeep : ∀ (m m' : Machine) (a : Action) (o : List Obs), m.IdleApart ∧ m.Tabled ∧ m.kernel.ListsTabled →
      m.step a = some (m', o) → m'.IdleApart ∧ m'.Tabled ∧ m'.kernel.ListsTabled :=
    fun _ _ _ _ hI hs => ⟨hI.1.step hs, hI.2.1.step hs, listsTabled_step hI.1 hI.2.1 hI.2.2 hs⟩
  have hinv₀ := h₀.invariant (I := fun m => m.IdleApart ∧ m.Tabled ∧ m.kernel.ListsTabled)
    ⟨idleApart_start cfg, tabled_start cfg, listsTabled_start cfg⟩
    fun m m' a o hI _ hs => hkeep m m' a o hI hs
  have hinv := h.invariant (I := fun m => m.IdleApart ∧ m.Tabled ∧ m.kernel.ListsTabled) hinv₀
    fun m m' a o hI _ hs => hkeep m m' a o hI hs
  exact hinv.2.2

theorem listsTabled_of_reach {cfg : Config} {ok : Machine → Action → Prop} {out : List Obs}
    (h : Run.Reach step ok (start cfg) m out) : m.kernel.ListsTabled := by
  have hstart : Run.Reach step ok (start cfg) (start cfg) [] := .init
  exact listsTabled_of_continued hstart h

end Machine

end TamgaOs
