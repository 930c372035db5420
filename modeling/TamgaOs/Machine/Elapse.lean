import TamgaOs.Machine.Delays

/-!
# Ticks at once and one after the other

`sched_tick_n` is called with 1 by the tick handler and with the length of its sleep by the idle
task. As long as no delay ends, a tick of `n` only shortens the delays; and a tick of `a + b` does
what a tick of `b` does after `a` ms in which no delay has ended.

## Main definitions

* `Kernel.elapse`: time passes for the waiting tasks, and nobody is made ready.
* `Kernel.Resting`: the idle task runs, and no task of the table is ready.

## Main results

* `Kernel.schedTickN_add`: the law above.
* `Kernel.schedTickN_elapse`: a tick that ends no delay while the kernel rests.
* `Kernel.schedTickN_advanceClock`: the tick does not read the clock.
-/

namespace TamgaOs

namespace Kernel

variable {k k' : Kernel} {a b n i : ℕ} {t : TaskPtr} {l : WaitList} {d : TaskPtr → ℕ}

/-- The task at the index `i` is blocked with a running delay. -/
def Waiting (k : Kernel) (i : ℕ) : Prop :=
  (k.tcb (.tcb i)).state = .blocked ∧ 0 < (k.tcb (.tcb i)).delayTicks

instance (k : Kernel) (i : ℕ) : Decidable (k.Waiting i) := inferInstanceAs (Decidable (_ ∧ _))

/-- Other delays. -/
def setDelays (k : Kernel) (d : TaskPtr → ℕ) : Kernel :=
  { k with tcb := fun t => { k.tcb t with delayTicks := d t } }

/-- The delays after `n` ms have passed for the tasks at the indices `is`. -/
def shortened (k : Kernel) (n : ℕ) (is : List ℕ) : TaskPtr → ℕ
  | .idle => (k.tcb .idle).delayTicks
  | .tcb i =>
    if i ∈ is ∧ k.Waiting i then (k.tcb (.tcb i)).delayTicks - n else (k.tcb (.tcb i)).delayTicks

/-- `n` ms pass. -/
def elapse (k : Kernel) (n : ℕ) : Kernel := k.setDelays (k.shortened n (List.range k.taskCount))

/-! ### Delays and wait lists -/

theorem setDelays_self (h : ∀ t, d t = (k.tcb t).delayTicks) : k.setDelays d = k := by
  have htcb : (k.setDelays d).tcb = k.tcb := by
    funext t
    show { k.tcb t with delayTicks := d t } = k.tcb t
    rw [h t]
  show { k with tcb := (k.setDelays d).tcb } = k
  rw [htcb]

theorem setDelays_modifyTask {f g : Task → Task} {d' : TaskPtr → ℕ}
    (hself : { f (k.tcb t) with delayTicks := d' t } = g { k.tcb t with delayTicks := d t })
    (hother : ∀ u, u ≠ t → d' u = d u) :
    (k.modifyTask t f).setDelays d' = (k.setDelays d).modifyTask t g := by
  have htcb : ((k.modifyTask t f).setDelays d').tcb = ((k.setDelays d).modifyTask t g).tcb := by
    funext u
    show { (k.modifyTask t f).tcb u with delayTicks := d' u } = _
    rw [modifyTask_tcb, modifyTask_tcb]
    split_ifs with hu
    · subst hu
      exact hself
    · rw [hother u hu]
      rfl
  show { (k.setDelays d).modifyTask t g with tcb := ((k.modifyTask t f).setDelays d').tcb } = _
  rw [htcb]

/-- A walk of a wait list does not read the delays. -/
theorem schedWaitListRemove_setDelays : (k.setDelays d).schedWaitListRemove l t =
    (k.schedWaitListRemove l t).map fun k' => k'.setDelays d := by
  have hnext : (k.setDelays d).waitNext = k.waitNext := rfl
  have hhead : (k.setDelays d).head = k.head := rfl
  have hfuel : (k.setDelays d).walkFuel = k.walkFuel := rfl
  unfold schedWaitListRemove schedWaitListRemoveWithin
  rw [hnext, hhead, hfuel]
  split_ifs
  · rfl
  · split
    · rw [Option.map_some]
      exact congrArg some (setDelays_modifyTask rfl fun _ _ => rfl).symm
    · rfl
    · rfl

/-- A delay that has ended has no length. -/
theorem expire_setDelays : (k.setDelays d).expire t =
    (k.expire t).map fun k' => k'.setDelays (Function.update d t 0) := by
  have hother : ∀ u, u ≠ t → Function.update d t 0 u = d u := fun u hu =>
    Function.update_of_ne hu ..
  unfold expire
  have hlist : ((k.setDelays d).tcb t).waitListHead = (k.tcb t).waitListHead := rfl
  rw [hlist]
  split
  · rw [schedWaitListRemove_setDelays, Option.map_map, Option.map_map]
    refine congrFun (congrArg Option.map (funext fun k₁ => ?_)) _
    simp only [Function.comp_apply]
    refine (setDelays_modifyTask ?_ hother).symm
    rw [Function.update_self]
  · rw [Option.map_some]
    refine congrArg some (setDelays_modifyTask ?_ hother).symm
    rw [Function.update_self]

/-! ### The loop of the tick -/

theorem shortened_nil (t : TaskPtr) : k.shortened n [] t = (k.tcb t).delayTicks := by
  cases t <;> simp [shortened]

theorem shortened_of_ne {is : List ℕ} (h : t ≠ .tcb i) :
    k.shortened n (i :: is) t = k.shortened n is t := by
  cases t with
  | idle => rfl
  | tcb j =>
    have hj : j ≠ i := fun he => h (congrArg TaskPtr.tcb he)
    simp [shortened, hj]

theorem shortened_cons {is : List ℕ} (h : k.Waiting i) :
    k.shortened n (i :: is) (.tcb i) = (k.tcb (.tcb i)).delayTicks - n := by
  simp [shortened, h]

theorem shortened_of_not_waiting {is : List ℕ} (h : ¬ k.Waiting i) :
    k.shortened n is (.tcb i) = (k.tcb (.tcb i)).delayTicks := by
  simp [shortened, h]

theorem shortened_of_notMem {is : List ℕ} (h : i ∉ is) :
    k.shortened n is (.tcb i) = (k.tcb (.tcb i)).delayTicks := by
  simp [shortened, h]

/-- The amounts by which the delays of other tasks get shorter do not depend on one task. -/
theorem shortened_congr {is : List ℕ}
    (h : ∀ u, u ≠ .tcb i → (k'.tcb u).state = (k.tcb u).state ∧
      (k'.tcb u).delayTicks = (k.tcb u).delayTicks) (ht : t ≠ .tcb i) :
    k'.shortened n is t = k.shortened n (i :: is) t := by
  rw [shortened_of_ne ht]
  cases t with
  | idle => exact (h .idle ht).2
  | tcb j =>
    have hw : k'.Waiting j ↔ k.Waiting j := by
      unfold Waiting
      rw [(h _ ht).1, (h _ ht).2]
    simp only [shortened, hw, (h _ ht).2]

/-- A pass of the loop after `a` ms in which no delay has ended. -/
theorem tickTask_setDelays {is : List ℕ} (hi : i ∉ is)
    (hlt : k.Waiting i → a < (k.tcb (.tcb i)).delayTicks) :
    tickTask b (k.setDelays (k.shortened a (i :: is))) i =
      (tickTask (a + b) k i).map fun k' => k'.setDelays (k'.shortened a is) := by
  by_cases hw : k.Waiting i
  · have hpos := hlt hw
    have hdelay : k.shortened a (i :: is) (.tcb i) = _ := shortened_cons hw
    have hw' : (k.tcb (.tcb i)).state = .blocked ∧ 0 < k.shortened a (i :: is) (.tcb i) :=
      ⟨hw.1, by omega⟩
    unfold tickTask
    show (if (k.tcb (.tcb i)).state = .blocked ∧ 0 < k.shortened a (i :: is) (.tcb i) then _
      else _) = Option.map _ (if k.Waiting i then _ else _)
    rw [if_pos hw', if_pos hw]
    show (if k.shortened a (i :: is) (.tcb i) ≤ b then _ else _) = _
    by_cases hle : (k.tcb (.tcb i)).delayTicks ≤ a + b
    · rw [if_pos (by omega), if_pos hle, expire_setDelays]
      cases hexp : k.expire (.tcb i) with
      | none => rfl
      | some k₁ =>
        obtain ⟨hother, hstate, hzero, -⟩ := expire_only hexp
        simp only [Option.map_some]
        congr 2
        funext t
        rw [Function.update_apply]
        split_ifs with ht
        · rw [ht, shortened_of_notMem hi, hzero]
        · rw [shortened_congr hother ht]
    · rw [if_neg (by omega), if_neg hle, Option.map_some]
      refine congrArg some (setDelays_modifyTask ?_ fun u hu => ?_).symm
      · rw [shortened_of_notMem hi, modifyTask_self]
        simp only [hdelay]
        congr 1
        omega
      · exact shortened_congr (fun v hv => by rw [modifyTask_of_ne hv]; exact ⟨rfl, rfl⟩) hu
  · have hdelay : k.shortened a (i :: is) (.tcb i) = _ := shortened_of_not_waiting hw
    unfold tickTask
    show (if (k.tcb (.tcb i)).state = .blocked ∧ 0 < k.shortened a (i :: is) (.tcb i) then _
      else _) = Option.map _ (if k.Waiting i then _ else _)
    rw [hdelay, if_neg hw, if_neg (show ¬ (_ ∧ _) from hw), Option.map_some]
    congr 2
    funext t
    by_cases ht : t = .tcb i
    · rw [ht, hdelay, shortened_of_notMem hi]
    · exact shortened_of_ne ht

/-- The loop after `a` ms in which no delay has ended. -/
theorem tickLoop_setDelays : ∀ {is : List ℕ} {k : Kernel}, is.Nodup →
    (∀ i ∈ is, k.Waiting i → a < (k.tcb (.tcb i)).delayTicks) →
    is.foldlM (tickTask b) (k.setDelays (k.shortened a is)) = is.foldlM (tickTask (a + b)) k
  | [], k, _, _ => congrArg some (setDelays_self shortened_nil)
  | i :: is, k, hnodup, hlt => by
    obtain ⟨hi, hnodup⟩ := List.nodup_cons.1 hnodup
    rw [List.foldlM_cons, List.foldlM_cons, tickTask_setDelays hi (hlt i List.mem_cons_self)]
    cases hone : tickTask (a + b) k i with
    | none => rfl
    | some k₁ =>
      refine tickLoop_setDelays hnodup fun j hj hw => ?_
      have htask := (tickTask_only hone).task (.tcb j)
      have hne : ¬ ∃ j' ∈ [i], TaskPtr.tcb j = .tcb j' := by
        rintro ⟨j', hj', he⟩
        cases he
        exact hi (List.mem_singleton.1 hj' ▸ hj)
      rw [if_neg hne] at htask
      obtain ⟨hstate, hdelay⟩ := Prod.mk.inj htask
      unfold Waiting at hw
      rw [hstate, hdelay] at hw
      rw [hdelay]
      exact hlt j (List.mem_cons_of_mem i hj) hw

theorem tickTask_zero (k : Kernel) (i : ℕ) : tickTask 0 k i = some k := by
  unfold tickTask
  dsimp only
  split_ifs with hw hle
  · omega
  · have hsame : (k.modifyTask (.tcb i) fun x => { x with delayTicks := x.delayTicks - 0 }) = k := by
      unfold modifyTask
      simp only [Nat.sub_zero, Function.update_eq_self]
    rw [hsame]
  · rfl

/-- The loop when it ends no delay. -/
theorem tickLoop_elapse {is : List ℕ} (hnodup : is.Nodup)
    (hlt : ∀ i ∈ is, k.Waiting i → n < (k.tcb (.tcb i)).delayTicks) :
    is.foldlM (tickTask n) k = some (k.setDelays (k.shortened n is)) := by
  have hzero : ∀ (is : List ℕ) (k : Kernel), is.foldlM (tickTask 0) k = some k := by
    intro is
    induction is with
    | nil => exact fun _ => rfl
    | cons i is ih =>
      intro k
      rw [List.foldlM_cons, tickTask_zero]
      exact ih k
  rw [← hzero is, tickLoop_setDelays hnodup hlt, Nat.add_zero]

/-! ### The tick -/

/-- No delay ends within `n` ms. -/
def NoneWithin (k : Kernel) (n : ℕ) : Prop :=
  ∀ i < k.taskCount, k.Waiting i → n < (k.tcb (.tcb i)).delayTicks

/-- A tick of `a + b` is a tick of `b` after `a` ms in which no delay has ended. -/
theorem schedTickN_add (h : k.NoneWithin a) : (k.elapse a).schedTickN b = k.schedTickN (a + b) := by
  show Option.map _ ((List.range k.taskCount).foldlM (tickTask b) (k.elapse a)) = _
  unfold elapse
  rw [tickLoop_setDelays List.nodup_range fun i hi => h i (List.mem_range.1 hi)]
  rfl

/-- The idle task is current and chosen, no switch is pending, and no task of the table is ready. -/
structure Resting (k : Kernel) : Prop where
  currentTask : k.currentTask = some .idle
  nextTask : k.nextTask = some .idle
  pendsv : k.pendsv = false
  idle : (k.tcb .idle).state = .running
  ready : ∀ i < k.taskCount, (k.tcb (.tcb i)).state ≠ .ready

instance (k : Kernel) : Decidable k.Resting :=
  decidable_of_iff (k.currentTask = some .idle ∧ k.nextTask = some .idle ∧ k.pendsv = false ∧
      (k.tcb .idle).state = .running ∧ ∀ i < k.taskCount, (k.tcb (.tcb i)).state ≠ .ready)
    ⟨fun ⟨hc, hn, hp, hi, hr⟩ => ⟨hc, hn, hp, hi, hr⟩,
      fun h => ⟨h.currentTask, h.nextTask, h.pendsv, h.idle, h.ready⟩⟩

theorem Resting.elapse (h : k.Resting) (n : ℕ) : (k.elapse n).Resting :=
  ⟨h.currentTask, h.nextTask, h.pendsv, h.idle, h.ready⟩

/-- The decision is made with the idle task marked ready. -/
theorem schedPickAndMark_of_idle (hcur : k.currentTask = some .idle)
    (hnext : k.nextTask = some .idle) (hidle : (k.tcb .idle).state = .running) :
    k.schedPickAndMark =
      (k.setState .idle .ready).installNext (k.setState .idle .ready).schedSelectNext := by
  have hready : k.readyCurrent = k.setState .idle .ready := by
    simp only [readyCurrent, hcur, hidle, if_true]
  have hrelease : (k.setState .idle .ready).releaseNext = k.setState .idle .ready := by
    have hsame : k.nextTask = k.currentTask := hnext.trans hcur.symm
    unfold releaseNext
    split
    · exact if_neg fun hne => hne.1 hsame
    · rfl
  unfold schedPickAndMark schedCommitNext
  rw [hready, hrelease]

/-- A scheduling decision without a ready task chooses the idle task again. -/
theorem Resting.schedPickAndMark (h : k.Resting) : k.schedPickAndMark.triggerIfSwitch = k := by
  have hselect : (k.setState .idle .ready).schedSelectNext = .idle := by
    rcases (k.setState .idle .ready).schedSelectNext_spec with he | ⟨i, hi, -, hstate⟩
    · exact he
    · rw [setState, modifyTask_of_ne (by simp)] at hstate
      exact absurd hstate (h.ready i hi)
  have hidle : { k.tcb .idle with state := .running } = k.tcb .idle := by rw [← h.idle]
  have hpick : k.schedPickAndMark = k := by
    rw [schedPickAndMark_of_idle h.currentTask h.nextTask h.idle, hselect]
    unfold installNext
    dsimp only
    rw [if_pos (by rw [setState, modifyTask_self])]
    unfold setState modifyTask
    simp only [Function.update_self, Function.update_idem, hidle, Function.update_eq_self,
      ← h.nextTask]
  rw [hpick]
  exact if_neg fun hne => hne (h.nextTask.trans h.currentTask.symm)

/-- A tick that ends no delay while the kernel rests. -/
theorem schedTickN_elapse (h : k.Resting) (hn : k.NoneWithin n) :
    k.schedTickN n = some (k.elapse n) := by
  unfold schedTickN
  rw [tickLoop_elapse List.nodup_range fun i hi => hn i (List.mem_range.1 hi), Option.map_some]
  exact congrArg some (h.elapse n).schedPickAndMark

/-! ### The clock -/

theorem expire_advanceClock : (k.advanceClock a).expire t =
    (k.expire t).map fun k' => k'.advanceClock a := by
  have hremove : ∀ l, (k.advanceClock a).schedWaitListRemove l t =
      (k.schedWaitListRemove l t).map fun k' => k'.advanceClock a := by
    intro l
    have hnext : (k.advanceClock a).waitNext = k.waitNext := rfl
    have hhead : (k.advanceClock a).head = k.head := rfl
    have hfuel : (k.advanceClock a).walkFuel = k.walkFuel := rfl
    unfold schedWaitListRemove schedWaitListRemoveWithin
    rw [hnext, hhead, hfuel]
    split_ifs
    · rfl
    · split <;> rfl
  unfold expire
  have hlist : ((k.advanceClock a).tcb t).waitListHead = (k.tcb t).waitListHead := rfl
  rw [hlist]
  split
  · rw [hremove, Option.map_map, Option.map_map]
    rfl
  · rfl

theorem tickTask_advanceClock : tickTask n (k.advanceClock a) i =
    (tickTask n k i).map fun k' => k'.advanceClock a := by
  unfold tickTask
  have htcb : (k.advanceClock a).tcb = k.tcb := rfl
  rw [htcb]
  dsimp only
  split_ifs
  · exact expire_advanceClock
  · rfl
  · rfl

theorem tickLoop_advanceClock : ∀ (is : List ℕ) (k : Kernel),
    is.foldlM (tickTask n) (k.advanceClock a) =
      (is.foldlM (tickTask n) k).map fun k' => k'.advanceClock a
  | [], _ => rfl
  | i :: is, k => by
    rw [List.foldlM_cons, List.foldlM_cons, tickTask_advanceClock]
    cases tickTask n k i with
    | none => rfl
    | some k₁ => exact tickLoop_advanceClock is k₁

theorem schedPickAndMark_advanceClock :
    (k.advanceClock a).schedPickAndMark = k.schedPickAndMark.advanceClock a := by
  have hready : (k.advanceClock a).readyCurrent = k.readyCurrent.advanceClock a := by
    have hcur : (k.advanceClock a).currentTask = k.currentTask := rfl
    have htcb : (k.advanceClock a).tcb = k.tcb := rfl
    unfold readyCurrent
    rw [hcur, htcb]
    split
    · split_ifs <;> rfl
    · rfl
  have hcommit : ∀ k : Kernel, (k.advanceClock a).schedCommitNext =
      k.schedCommitNext.advanceClock a := by
    intro k
    have hrelease : (k.advanceClock a).releaseNext = k.releaseNext.advanceClock a := by
      have hcur : (k.advanceClock a).currentTask = k.currentTask := rfl
      have hnext : (k.advanceClock a).nextTask = k.nextTask := rfl
      have htcb : (k.advanceClock a).tcb = k.tcb := rfl
      unfold releaseNext
      rw [hcur, hnext, htcb]
      split
      · split_ifs <;> rfl
      · rfl
    have hinstall : ∀ (k : Kernel) (u : TaskPtr), (k.advanceClock a).installNext u =
        (k.installNext u).advanceClock a := by
      intro k u
      have htcb : (k.advanceClock a).tcb = k.tcb := rfl
      unfold installNext
      rw [htcb]
      dsimp only
      split_ifs <;> rfl
    unfold schedCommitNext
    rw [hrelease]
    exact hinstall _ _
  unfold schedPickAndMark
  rw [hready, hcommit]

theorem advanceClock_advanceClock : (k.advanceClock a).advanceClock b = k.advanceClock (a + b) := by
  unfold advanceClock
  simp only [Nat.mod_add_mod, Nat.add_assoc]

theorem Resting.advanceClock (h : k.Resting) (n : ℕ) : (k.advanceClock n).Resting :=
  ⟨h.currentTask, h.nextTask, h.pendsv, h.idle, h.ready⟩

/-- The tick does not read the clock. -/
theorem schedTickN_advanceClock : (k.advanceClock a).schedTickN n =
    (k.schedTickN n).map fun k' => k'.advanceClock a := by
  have htrigger : ∀ k : Kernel, (k.advanceClock a).triggerIfSwitch =
      k.triggerIfSwitch.advanceClock a := by
    intro k
    have hcur : (k.advanceClock a).currentTask = k.currentTask := rfl
    have hnext : (k.advanceClock a).nextTask = k.nextTask := rfl
    unfold triggerIfSwitch
    rw [hcur, hnext]
    split_ifs <;> rfl
  have hcount : (k.advanceClock a).taskCount = k.taskCount := rfl
  unfold schedTickN
  rw [hcount, tickLoop_advanceClock]
  cases (List.range k.taskCount).foldlM (tickTask n) k with
  | none => rfl
  | some k₁ =>
    simp only [Option.map_some]
    rw [schedPickAndMark_advanceClock, htrigger]

end Kernel

end TamgaOs
