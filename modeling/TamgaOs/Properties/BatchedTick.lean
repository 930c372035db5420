import TamgaOs.Machine.Elapse
import TamgaOs.Properties.Running

/-!
# One tick of many ms

The idle task reports the length of a sleep in one call of `sched_tick_n`. As long as no context switch
is taken, that is what the same time in smaller parts does, down to the calls of `sched_tick` for every
ms, in whatever order the expired tasks leave their lists, and although each part decides who runs
next. No time at all is the exception: `sched_tick_n(0)` makes a decision.

## Main definitions

* `Kernel.WellLinked`: the wait lists are lists, of different tasks of the table.
* `Task.aged`, `Task.leaves`: what a tick does to one control block, and to the list that it is in.
* `Kernel.SameTick`: equal but for PendSV and for the links of tasks in no list.
* `Kernel.oldSchedTick`: `sched_tick` as its comment has it.

## Main results

* `Kernel.WellLinked.schedTickN`: the tick, task by task and list by list.
* `schedTickN_batched`: the laws.
-/

namespace TamgaOs

open IntrusiveList

/-! ### One control block -/

namespace Task

variable {x : Task} {a b n : ℕ} {l : WaitList}

/-- The control block without its link. -/
def unlinked (x : Task) : Task := { x with waitNext := none }

/-- What the loop of `sched_tick_n` makes of a control block, but for its link. -/
def aged (n : ℕ) (x : Task) : Task :=
  if x.state = .blocked ∧ 0 < x.delayTicks then
    if x.delayTicks ≤ n then
      { x with
        delayTicks := 0, waitListHead := none, state := .ready
        timedOut := x.waitListHead.isSome || x.timedOut }
    else { x with delayTicks := x.delayTicks - n }
  else x

/-- The loop of `sched_tick_n` removes the task from the list `l`. -/
def leaves (n : ℕ) (l : WaitList) (x : Task) : Bool :=
  decide (x.state = .blocked ∧ 0 < x.delayTicks ∧ x.delayTicks ≤ n ∧ x.waitListHead = some l)

/-- A task that loses the processor or the switch to it. -/
def freed (m : Prop) [Decidable m] (x : Task) : Task :=
  if m ∧ x.state = .running then { x with state := .ready } else x

/-- A task that is chosen. -/
def marked (m : Prop) [Decidable m] (x : Task) : Task :=
  if m ∧ x.state = .ready then { x with state := .running } else x

variable {c m m' : Prop} [Decidable c] [Decidable m] [Decidable m']

theorem aged_of_ne (h : x.state ≠ .blocked) (n : ℕ) : x.aged n = x := if_neg fun hw => h hw.1

theorem aged_of_zero (h : x.delayTicks = 0) (n : ℕ) : x.aged n = x :=
  if_neg fun hw => hw.2.ne' h

theorem aged_of_lt (h : x.state = .blocked) (hlt : n < x.delayTicks) :
    x.aged n = { x with delayTicks := x.delayTicks - n } := by
  unfold aged
  rw [if_pos ⟨h, by omega⟩, if_neg (by omega)]

theorem aged_of_le (h : x.state = .blocked) (hpos : 0 < x.delayTicks) (hle : x.delayTicks ≤ n) :
    x.aged n = { x with
      delayTicks := 0, waitListHead := none, state := .ready
      timedOut := x.waitListHead.isSome || x.timedOut } := by
  unfold aged
  rw [if_pos ⟨h, hpos⟩, if_pos hle]

/-- A blocked task stays blocked with what is left of its delay, or is ready for both lengths. -/
theorem aged_cases (h : x.state = .blocked) (a b : ℕ) :
    ((x.aged a).state = .blocked ∧ (x.aged a).aged b = x.aged (a + b)) ∨
      ((x.aged a).state = .ready ∧ x.aged a = x.aged (a + b)) := by
  rcases Nat.eq_zero_or_pos x.delayTicks with hzero | hpos
  · left
    simp only [aged_of_zero hzero]
    exact ⟨h, trivial⟩
  rcases Nat.lt_or_ge a x.delayTicks with hlt | hle
  · left
    have hrest := aged_of_lt h hlt
    have hstate : (x.aged a).state = .blocked := by rw [hrest, h]
    have hdelay : (x.aged a).delayTicks = x.delayTicks - a := by rw [hrest]
    refine ⟨hstate, ?_⟩
    rcases Nat.lt_or_ge (a + b) x.delayTicks with hlong | hend
    · rw [aged_of_lt hstate (by omega), aged_of_lt h hlong, hrest, Nat.sub_sub]
    · rw [aged_of_le hstate (by omega) (by omega), aged_of_le h hpos hend, hrest]
  · right
    rw [aged_of_le h hpos hle, aged_of_le h hpos (by omega)]
    exact ⟨rfl, rfl⟩

theorem freed_of_ne (h : x.state ≠ .running) : x.freed m = x := if_neg fun hw => h hw.2

theorem marked_of_ne (h : x.state ≠ .ready) : x.marked m = x := if_neg fun hw => h hw.2

theorem freed_of_not (h : ¬m) : x.freed m = x := if_neg fun hw => h hw.1

theorem marked_of_not (h : ¬m) : x.marked m = x := if_neg fun hw => h hw.1

/-- A ready task that is chosen is ready again at the next decision. -/
theorem freed_marked (h : x.state = .ready) : (x.marked m').freed (c ∨ m') = x := by
  by_cases hm : m'
  · have hrun : x.marked m' = { x with state := .running } := if_pos ⟨hm, h⟩
    rw [hrun, freed, if_pos ⟨.inr hm, rfl⟩, ← h]
  · rw [marked_of_not hm, freed_of_ne (by rw [h]; decide)]

theorem state_marked (h : x.state = .ready) : (x.marked m').state ≠ .blocked := by
  unfold marked
  split_ifs
  · simp
  · rw [h]
    decide

/-- A decision after another one: the task that the first one has chosen is freed again. -/
theorem freed_marked_freed (hm : m' → (x.freed (c ∨ m)).state ≠ .running) :
    ((x.freed (c ∨ m)).marked m').freed (c ∨ m') = x.freed (c ∨ m) := by
  by_cases hchosen : m'
  · by_cases hready : (x.freed (c ∨ m)).state = .ready
    · exact freed_marked hready
    · rw [marked_of_ne hready, freed_of_ne (hm hchosen)]
  · rw [marked_of_not hchosen]
    by_cases hc : c
    · have hfree : (x.freed (c ∨ m)).state ≠ .running := by
        unfold freed
        split_ifs with h
        · simp
        · exact fun hrun => h ⟨.inl hc, hrun⟩
      exact freed_of_ne hfree
    · exact freed_of_not fun h => h.elim hc hchosen

/-- A decision between two parts of a tick leaves no trace on a task of the table. -/
theorem aged_add (hm : m' → ((x.aged a).freed (c ∨ m)).state = .ready) :
    ((((x.aged a).freed (c ∨ m)).marked m').aged b).freed (c ∨ m') = (x.aged (a + b)).freed (c ∨ m) := by
  by_cases hblocked : x.state = .blocked
  · rcases aged_cases hblocked a b with ⟨hstate, hrest⟩ | ⟨hstate, hsame⟩
    · have hend : (x.aged (a + b)).state ≠ .running := by
        rcases aged_cases hblocked (a + b) 0 with ⟨h, -⟩ | ⟨h, -⟩ <;> rw [h] <;> decide
      have hkeep : ((x.aged a).freed (c ∨ m)).marked m' = x.aged a := by
        rw [freed_of_ne (by rw [hstate]; decide), marked_of_ne (by rw [hstate]; decide)]
      rw [hkeep, hrest, freed_of_ne hend, freed_of_ne hend]
    · have hne : (x.aged a).state ≠ .running := by
        rw [hstate]
        decide
      rw [freed_of_ne hne, aged_of_ne (state_marked hstate), freed_marked hstate, ← hsame,
        freed_of_ne hne]
  · have hafter : ((x.freed (c ∨ m)).marked m').state ≠ .blocked := by
      unfold freed marked
      split_ifs <;> simp_all
    rw [aged_of_ne hblocked] at hm ⊢
    rw [aged_of_ne hblocked, aged_of_ne hafter]
    exact freed_marked_freed fun h => by rw [hm h]; decide

theorem leaves_of_ne (h : x.state ≠ .blocked) (n : ℕ) : x.leaves n l = false :=
  decide_eq_false fun hw => h hw.1

theorem leaves_add : x.leaves (a + b) l =
    (x.leaves a l || (((x.aged a).freed m).marked m').leaves b l) := by
  by_cases hblocked : x.state = .blocked
  · rcases aged_cases hblocked a b with ⟨hstate, -⟩ | ⟨hstate, -⟩
    · have hkeep : ((x.aged a).freed m).marked m' = x.aged a := by
        rw [freed_of_ne (by rw [hstate]; decide), marked_of_ne (by rw [hstate]; decide)]
      rw [hkeep]
      unfold leaves aged at *
      grind
    · have hafter : (((x.aged a).freed m).marked m').state ≠ .blocked := by
        rw [freed_of_ne (by rw [hstate]; decide)]
        exact state_marked hstate
      rw [leaves_of_ne hafter]
      unfold leaves aged at *
      grind
  · have hafter : (((x.aged a).freed m).marked m').state ≠ .blocked := by
      rw [aged_of_ne hblocked]
      unfold freed marked
      split_ifs <;> simp_all
    rw [leaves_of_ne hblocked, leaves_of_ne hblocked, leaves_of_ne hafter]
    rfl

end Task

/-! ### The loop -/

namespace Kernel

variable {k k' k'' : Kernel} {L L' L'' : WaitList → List TaskPtr} {n i : ℕ} {is : List ℕ}
  {t : TaskPtr} {l : WaitList}

/-- The wait lists are the lists `L`: lists of tasks of the table, no task in two of them. -/
structure WellLinked (k : Kernel) (L : WaitList → List TaskPtr) : Prop where
  waiters : ∀ l, k.Waiters l (L l)
  table : ∀ l t, t ∈ L l → InTable k t
  disjoint : ∀ l l' t, t ∈ L l → t ∈ L l' → l = l'

/-- The control block of a task, but for its link. -/
def card (k : Kernel) (t : TaskPtr) : Task := (k.tcb t).unlinked

/-- What the loop of `sched_tick_n` does for the tasks at the indices `is`. -/
structure AgedIn (n : ℕ) (is : List ℕ) (k k' : Kernel) (L L' : WaitList → List TaskPtr) : Prop where
  eq : k' = { k with tcb := k'.tcb, head := k'.head }
  card : ∀ t, k'.card t = if ∃ i ∈ is, t = .tcb i then (k.card t).aged n else k.card t
  lists : ∀ l, L' l = (L l).filter fun t => !(decide (∃ i ∈ is, t = .tcb i) && (k.card t).leaves n l)
  linked : k'.WellLinked L'

theorem WellLinked.length_lt (h : k.WellLinked L) (l : WaitList) : (L l).length < k.walkFuel :=
  length_lt_walkFuel (h.waiters l).nodup (h.table l)

/-- A state with the same links. -/
theorem WellLinked.congr (h : k.WellLinked L) (hcount : k'.taskCount = k.taskCount)
    (hhead : k'.head = k.head) (hnext : k'.waitNext = k.waitNext) : k'.WellLinked L where
  waiters l := by
    unfold Waiters
    rw [hhead, hnext]
    exact h.waiters l
  table l t ht := by
    unfold InTable
    rw [hcount]
    exact h.table l t ht
  disjoint := h.disjoint

theorem waitNext_modifyTask {f : Task → Task} (hf : (f (k.tcb t)).waitNext = (k.tcb t).waitNext) :
    (k.modifyTask t f).waitNext = k.waitNext := by
  funext u
  unfold waitNext
  rw [modifyTask_tcb]
  split_ifs with hu
  · rw [hf, hu]
  · rfl

theorem card_modifyTask {f : Task → Task} (u : TaskPtr) :
    (k.modifyTask t f).card u = if u = t then (f (k.tcb t)).unlinked else k.card u := by
  unfold card
  rw [modifyTask_tcb]
  split_ifs <;> rfl

/-- A task that stays in its list, or is in none. -/
theorem AgedIn.stays {f : Task → Task} (h : k.WellLinked L)
    (hf : (f (k.tcb (.tcb i))).waitNext = (k.tcb (.tcb i)).waitNext)
    (haged : (f (k.tcb (.tcb i))).unlinked = (k.card (.tcb i)).aged n)
    (hleaves : ∀ l, .tcb i ∈ L l → (k.card (.tcb i)).leaves n l = false) :
    AgedIn n [i] k (k.modifyTask (.tcb i) f) L L where
  eq := rfl
  card u := by
    rw [card_modifyTask, haged]
    by_cases hu : u = .tcb i
    · simp [hu]
    · simp [hu]
  lists l := by
    rw [eq_comm, List.filter_eq_self]
    intro u hu
    by_cases hui : u = .tcb i
    · subst hui
      simp [hleaves l hu]
    · simp [hui]
  linked := h.congr rfl rfl (waitNext_modifyTask hf)

theorem card_relinked {S : List TaskPtr} (h : Relinked k k' l S) (u : TaskPtr) :
    k'.card u = k.card u := by
  unfold card
  rw [h.tcb u]
  rfl

/-- A task that is removed from its list. -/
theorem AgedIn.removed {f : Task → Task} (h : k.WellLinked L) (hmem : .tcb i ∈ L l)
    (hlink : Relinked k k' l (L l)) (hw : k'.Waiters l ((L l).erase (.tcb i)))
    (hf : (f (k'.tcb (.tcb i))).waitNext = (k'.tcb (.tcb i)).waitNext)
    (haged : (f (k'.tcb (.tcb i))).unlinked = (k.card (.tcb i)).aged n)
    (hleaves : ∀ l', (k.card (.tcb i)).leaves n l' = decide (l' = l)) :
    AgedIn n [i] k (k'.modifyTask (.tcb i) f) L (Function.update L l ((L l).erase (.tcb i))) where
  eq := congrArg (fun q : Kernel => q.modifyTask (.tcb i) f) hlink.eq
  card u := by
    rw [card_modifyTask, haged, card_relinked hlink]
    by_cases hu : u = .tcb i
    · simp [hu]
    · simp [hu]
  lists l' := by
    by_cases hl : l' = l
    · subst hl
      rw [Function.update_self, (h.waiters l').nodup.erase_eq_filter]
      refine List.filter_congr fun u _ => ?_
      by_cases hu : u = .tcb i
      · subst hu
        simp [hleaves l']
      · simp [hu]
    · rw [Function.update_of_ne hl, eq_comm, List.filter_eq_self]
      intro u hu
      have hui : u ≠ .tcb i := fun he => hl (h.disjoint l' l u hu (he ▸ hmem))
      simp [hui]
  linked := by
    have hsub : ∀ l' u, u ∈ Function.update L l ((L l).erase (.tcb i)) l' → u ∈ L l' := by
      intro l' u hu
      by_cases hl : l' = l
      · subst hl
        rw [Function.update_self] at hu
        exact List.mem_of_mem_erase hu
      · rwa [Function.update_of_ne hl] at hu
    have hlinked : k'.WellLinked (Function.update L l ((L l).erase (.tcb i))) := by
      refine ⟨fun l' => ?_, fun l' u hu => ?_, fun l₁ l₂ u hu₁ hu₂ =>
        h.disjoint l₁ l₂ u (hsub l₁ u hu₁) (hsub l₂ u hu₂)⟩
      · by_cases hl : l' = l
        · subst hl
          rwa [Function.update_self]
        · rw [Function.update_of_ne hl]
          exact hlink.waiters_of_ne hl (h.waiters l') fun u hu hu' => hl (h.disjoint l' l u hu hu')
      · unfold InTable
        rw [hlink.taskCount]
        exact h.table l' u (hsub l' u hu)
    exact hlinked.congr rfl rfl (waitNext_modifyTask hf)

/-- A pass of the loop. -/
theorem WellLinked.tickTask (h : k.WellLinked L) (n i : ℕ) :
    ∃ k' L', Kernel.tickTask n k i = some k' ∧ AgedIn n [i] k k' L L' := by
  unfold Kernel.tickTask
  dsimp only
  split_ifs with hwait hle
  · have haged := Task.aged_of_le (x := k.card (.tcb i)) hwait.1 hwait.2 hle
    have hleaves : ∀ l, (k.card (.tcb i)).leaves n l = decide ((k.tcb (.tcb i)).waitListHead = some l) := by
      intro l
      refine decide_eq_decide.2 ⟨fun hc => hc.2.2.2, fun hc => ⟨hwait.1, hwait.2, hle, hc⟩⟩
    unfold expire
    cases hhead : (k.tcb (.tcb i)).waitListHead with
    | none =>
      refine ⟨_, L, rfl, .stays h rfl ?_ fun l _ => by rw [hleaves, hhead]; rfl⟩
      rw [haged]
      simp [card, Task.unlinked, hhead]
    | some l =>
      by_cases hmem : .tcb i ∈ L l
      · obtain ⟨k₁, hrem, hw₁, hlink⟩ := schedWaitListRemove_mem (h.waiters l) hmem (h.length_lt l)
        simp only [hrem, Option.map_some]
        refine ⟨_, _, rfl, .removed h hmem hlink hw₁ rfl ?_ fun l' => ?_⟩
        · rw [haged, hlink.tcb]
          simp [card, Task.unlinked, hhead]
        · rw [hleaves, hhead]
          exact decide_eq_decide.2 ⟨fun he => (Option.some.inj he).symm, fun he => he ▸ rfl⟩
      · simp only [schedWaitListRemove_notMem (h.waiters l) hmem (h.length_lt l), Option.map_some]
        refine ⟨_, L, rfl, .stays h rfl ?_ fun l' hl' => ?_⟩
        · rw [haged]
          simp [card, Task.unlinked, hhead]
        · rw [hleaves, hhead]
          refine decide_eq_false fun he => hmem ?_
          rw [Option.some.inj he]
          exact hl'
  · refine ⟨_, L, rfl, .stays h rfl ?_ fun l _ => decide_eq_false fun hc => hle hc.2.2.1⟩
    have hcard : (k.card (.tcb i)).state = .blocked := hwait.1
    rw [Task.aged_of_lt hcard (Nat.lt_of_not_le hle)]
    rfl
  · have hsame : (k.modifyTask (.tcb i) fun x => x) = k := by
      unfold modifyTask
      rw [Function.update_eq_self]
    have hstays := AgedIn.stays (n := n) (i := i) (f := fun x => x) h rfl
      (if_neg hwait : (k.card (.tcb i)).aged n = _).symm
      fun l _ => decide_eq_false fun hc => hwait ⟨hc.1, hc.2.1⟩
    rw [hsame] at hstays
    exact ⟨k, L, rfl, hstays⟩

theorem AgedIn.cons (h : AgedIn n [i] k k' L L') (h' : AgedIn n is k' k'' L' L'') (hi : i ∉ is) :
    AgedIn n (i :: is) k k'' L L'' := by
  have hone : ∀ t, (∃ j ∈ is, t = .tcb j) → k'.card t = k.card t := by
    rintro t ⟨j, hj, rfl⟩
    rw [h.card, if_neg]
    rintro ⟨j', hj', he⟩
    cases he
    exact hi (List.mem_singleton.1 hj' ▸ hj)
  refine ⟨by rw [h'.eq, h.eq], fun t => ?_, fun l => ?_, h'.linked⟩
  · rw [h'.card]
    by_cases hrest : ∃ j ∈ is, t = .tcb j
    · obtain ⟨j, hj, rfl⟩ := hrest
      rw [if_pos ⟨j, hj, rfl⟩, if_pos ⟨j, List.mem_cons_of_mem i hj, rfl⟩, hone _ ⟨j, hj, rfl⟩]
    · rw [if_neg hrest, h.card]
      simp only [List.exists_mem_cons_iff, List.not_mem_nil, false_and, exists_false, or_false, hrest]
  · rw [h'.lists, h.lists, List.filter_filter]
    refine List.filter_congr fun t _ => ?_
    by_cases hrest : ∃ j ∈ is, t = .tcb j
    · have hfirst : t ≠ .tcb i := by
        obtain ⟨j, hj, rfl⟩ := hrest
        rintro ⟨⟩
        exact hi hj
      rw [hone t hrest]
      simp [hrest, hfirst]
    · simp [hrest]

theorem WellLinked.tickLoop (n : ℕ) : ∀ {is : List ℕ} {k : Kernel} {L : WaitList → List TaskPtr},
    is.Nodup → k.WellLinked L →
    ∃ k' L', is.foldlM (Kernel.tickTask n) k = some k' ∧ AgedIn n is k k' L L'
  | [], k, L, _, h => by
    refine ⟨k, L, rfl, rfl, fun t => ?_, fun l => ?_, h⟩
    · simp
    · simp
  | i :: is, k, L, hnodup, h => by
    obtain ⟨hi, hnodup⟩ := List.nodup_cons.1 hnodup
    obtain ⟨k₁, L₁, hone, haged⟩ := h.tickTask n i
    obtain ⟨k', L', hrest, haged'⟩ := tickLoop n hnodup haged.linked
    exact ⟨k', L', by rw [List.foldlM_cons, hone]; exact hrest, haged.cons haged' hi⟩

/-! ### The decision -/

/-- The state when the current task and the next one have been freed. -/
def freed (k : Kernel) : Kernel := k.readyCurrent.releaseNext

theorem schedPickAndMark_eq : k.schedPickAndMark = k.freed.installNext k.freed.schedSelectNext := rfl

theorem rescheduled_freed (k : Kernel) : Rescheduled k k.freed :=
  rescheduled_readyCurrent.trans rescheduled_releaseNext

theorem state_freed (t : TaskPtr) : (k.freed.tcb t).state =
    if (k.currentTask = some t ∨ k.nextTask = some t) ∧ (k.tcb t).state = .running then .ready
    else (k.tcb t).state := by
  have hrelease : ∀ k : Kernel, (k.releaseNext.tcb t).state =
      if (k.nextTask = some t ∧ k.currentTask ≠ some t) ∧ (k.tcb t).state = .running then .ready
      else (k.tcb t).state := by
    intro k
    unfold releaseNext
    cases hn : k.nextTask with
    | none => simp
    | some n =>
      by_cases hlost : some n ≠ k.currentTask ∧ (k.tcb n).state = .running
      · simp only [hlost, ne_eq, not_false_eq_true, and_self, if_true, state_setState]
        by_cases ht : t = n
        · subst ht
          simp [hlost.2, Ne.symm hlost.1]
        · simp [ht, Ne.symm ht]
      · simp only [hlost, if_false]
        rw [if_neg]
        rintro ⟨⟨he, hne⟩, hrun⟩
        cases he
        exact hlost ⟨Ne.symm hne, hrun⟩
  rw [freed, hrelease, nextTask_readyCurrent, rescheduled_readyCurrent.currentTask, state_readyCurrent]
  grind

theorem card_freed (t : TaskPtr) :
    k.freed.card t = (k.card t).freed (k.currentTask = some t ∨ k.nextTask = some t) := by
  have hcard : k.freed.card t = { k.card t with state := (k.freed.tcb t).state } := by
    unfold card
    rw [(rescheduled_freed k).tcb t]
    rfl
  rw [hcard, state_freed]
  unfold Task.freed
  split_ifs <;> first | rfl | contradiction

theorem card_installNext (u t : TaskPtr) : (k.installNext u).card t = (k.card t).marked (u = t) := by
  have hcard : (k.installNext u).card t = { k.card t with state := ((k.installNext u).tcb t).state } := by
    unfold card
    rw [(rescheduled_installNext u).tcb t]
    rfl
  have hstate : ((k.installNext u).tcb t).state =
      if u = t ∧ (k.tcb t).state = .ready then .running else (k.tcb t).state := by
    unfold installNext
    dsimp only
    split_ifs with hready hchosen hchosen
    · rw [state_setState, if_pos hchosen.1.symm]
    · have hne : t ≠ u := fun he => hchosen ⟨he.symm, he ▸ hready⟩
      rw [state_setState, if_neg hne]
    · exact absurd (hchosen.1 ▸ hchosen.2) hready
    · rfl
  rw [hcard, hstate]
  unfold Task.marked
  split_ifs <;> first | rfl | contradiction

/-- The choice depends on the control blocks, not on the links. -/
theorem schedSelectNext_congr (hcount : k'.taskCount = k.taskCount)
    (hcurrent : k'.currentTask = k.currentTask) (hcard : ∀ t, k'.card t = k.card t) :
    k'.schedSelectNext = k.schedSelectNext := by
  have hstate : ∀ t, (k'.card t).state = (k.card t).state := fun t => by rw [hcard]
  have hpriority : ∀ t, (k'.card t).priority = (k.card t).priority := fun t => by rw [hcard]
  change ∀ t, (k'.tcb t).state = (k.tcb t).state at hstate
  change ∀ t, (k'.tcb t).priority = (k.tcb t).priority at hpriority
  have hbest : k'.selectBest = k.selectBest := by
    funext acc i
    unfold selectBest
    rw [hstate, hpriority]
  unfold schedSelectNext selectStart
  rw [hbest, hcount, hcurrent]
  simp only [hstate, hpriority]

/-! ### The tick -/

/-- The states are equal but for PendSV and for the links of tasks in no list. -/
structure SameTick (k k' : Kernel) : Prop where
  eq : k' = { k with tcb := k'.tcb, pendsv := k'.pendsv }
  card : ∀ t, k'.card t = k.card t
  lists : ∀ l, ∃ ts, k.Waiters l ts ∧ k'.Waiters l ts ∧ ∀ t ∈ ts, k'.waitNext t = k.waitNext t

theorem SameTick.refl (h : k.WellLinked L) : k.SameTick k :=
  ⟨rfl, fun _ => rfl, fun l => ⟨L l, h.waiters l, h.waiters l, fun _ _ => rfl⟩⟩

theorem SameTick.trans (h : k.SameTick k') (h' : k'.SameTick k'') : k.SameTick k'' where
  eq := by rw [h'.eq, h.eq]
  card t := (h'.card t).trans (h.card t)
  lists l := by
    obtain ⟨ts, hw, hw₁, hnext⟩ := h.lists l
    obtain ⟨ts', hw₂, hw', hnext'⟩ := h'.lists l
    obtain rfl := hw₁.unique hw₂
    exact ⟨ts, hw, hw', fun t ht => (hnext' t ht).trans (hnext t ht)⟩

/-- The idle task is marked running because it is current or next. -/
def IdleMarked (k : Kernel) : Prop :=
  (k.tcb .idle).state = .running → k.currentTask = some .idle ∨ k.nextTask = some .idle

/-- `sched_tick_n` on wait lists: the loop, and a decision. -/
theorem WellLinked.schedTickN (h : k.WellLinked L) (n : ℕ) :
    ∃ k₁ L₁, AgedIn n (List.range k.taskCount) k k₁ L L₁ ∧
      k.schedTickN n = some k₁.schedPickAndMark.triggerIfSwitch := by
  obtain ⟨k₁, L₁, hloop, haged⟩ := h.tickLoop n List.nodup_range
  exact ⟨k₁, L₁, haged, by rw [Kernel.schedTickN, hloop]; rfl⟩

/-- What a decision does to the control blocks. -/
theorem card_decision (t : TaskPtr) : k.schedPickAndMark.triggerIfSwitch.card t =
    ((k.card t).freed (k.currentTask = some t ∨ k.nextTask = some t)).marked
      (k.freed.schedSelectNext = t) := by
  have htrigger : k.schedPickAndMark.triggerIfSwitch.card t = k.schedPickAndMark.card t := by
    unfold triggerIfSwitch
    split_ifs <;> rfl
  rw [htrigger, schedPickAndMark_eq, card_installNext, card_freed]

theorem nextTask_decision : k.schedPickAndMark.triggerIfSwitch.nextTask = some k.freed.schedSelectNext := by
  have htrigger : k.schedPickAndMark.triggerIfSwitch.nextTask = k.schedPickAndMark.nextTask := by
    unfold triggerIfSwitch
    split_ifs <;> rfl
  rw [htrigger, schedPickAndMark_eq, nextTask_installNext]

theorem decision_eq (k : Kernel) : k.schedPickAndMark.triggerIfSwitch =
    { k with
      tcb := k.schedPickAndMark.triggerIfSwitch.tcb
      nextTask := k.schedPickAndMark.triggerIfSwitch.nextTask
      pendsv := k.schedPickAndMark.triggerIfSwitch.pendsv } := by
  have heq := k.rescheduled_schedPickAndMark.eq
  unfold triggerIfSwitch
  split_ifs
  · exact congrArg Kernel.triggerPendsv heq
  · rw [← k.rescheduled_schedPickAndMark.pendsv] at heq
    exact heq

theorem WellLinked.decision (h : k.WellLinked L) : k.schedPickAndMark.triggerIfSwitch.WellLinked L := by
  have hr := k.rescheduled_schedPickAndMark
  refine (h.congr hr.taskCount hr.head hr.waitNext).congr ?_ ?_ ?_ <;>
  · unfold triggerIfSwitch
    split_ifs <;> rfl

/-- The decision frees the idle task, unless it chooses it. -/
theorem IdleMarked.decision (h : k.IdleMarked) : k.schedPickAndMark.triggerIfSwitch.IdleMarked := by
  intro hrun
  rw [nextTask_decision]
  by_cases hchosen : k.freed.schedSelectNext = .idle
  · exact .inr (congrArg some hchosen)
  · exfalso
    have hcard := card_decision (k := k) .idle
    rw [Task.marked_of_not hchosen] at hcard
    have hstate : ((k.card .idle).freed (k.currentTask = some .idle ∨ k.nextTask = some .idle)).state =
        .running := hcard ▸ hrun
    unfold Task.freed at hstate
    split_ifs at hstate with hfree
    exact hfree ⟨h hstate, hstate⟩

section Parts

variable {ka kb kab : Kernel} {La Lb Lab : WaitList → List TaskPtr} {a b c : ℕ}

theorem AgedIn.card_of_lt (h : AgedIn n (List.range c) k k' L L') (hi : i < c) :
    k'.card (.tcb i) = (k.card (.tcb i)).aged n := by
  rw [h.card, if_pos ⟨i, List.mem_range.2 hi, rfl⟩]

theorem AgedIn.card_of_not (h : AgedIn n (List.range c) k k' L L') (ht : ∀ i < c, t ≠ .tcb i) :
    k'.card t = k.card t := by
  rw [h.card, if_neg]
  rintro ⟨i, hi, he⟩
  exact ht i (List.mem_range.1 hi) he

/-- The idle task is not marked running when the current task and the next one have been freed. -/
theorem IdleMarked.freed (h : k.IdleMarked) : (k.freed.card .idle).state ≠ .running := by
  rw [card_freed]
  unfold Task.freed
  split_ifs with hfree
  · simp
  · exact fun hrun => hfree ⟨h hrun, hrun⟩

theorem AgedIn.idleMarked (h : AgedIn n (List.range c) k k' L L') (hk : k.IdleMarked) : k'.IdleMarked := by
  intro hrun
  have hcard := h.card_of_not (t := .idle) fun i _ => nofun
  have hstate : (k'.card .idle).state = (k.card .idle).state := by rw [hcard]
  rw [h.eq]
  exact hk (hstate ▸ hrun)

/-- The second part of a tick leaves what the whole tick leaves, when the tasks that have been chosen
are freed. -/
theorem card_freed_parts (hidle : k.IdleMarked) (ha : AgedIn a (List.range k.taskCount) k ka L La)
    (hb : AgedIn b (List.range k.taskCount) ka.schedPickAndMark.triggerIfSwitch kb La Lb)
    (hab : AgedIn (a + b) (List.range k.taskCount) k kab L Lab) (t : TaskPtr) :
    kb.freed.card t = kab.freed.card t := by
  have hcurrent : ka.currentTask = k.currentTask ∧ kb.currentTask = k.currentTask ∧
      kab.currentTask = k.currentTask := by
    refine ⟨by rw [ha.eq], ?_, by rw [hab.eq]⟩
    rw [hb.eq, decision_eq, ha.eq]
  have hnext : ka.nextTask = k.nextTask ∧ kab.nextTask = k.nextTask ∧
      kb.nextTask = some ka.freed.schedSelectNext := by
    refine ⟨by rw [ha.eq], by rw [hab.eq], ?_⟩
    rw [hb.eq]
    exact nextTask_decision
  have hcount : ka.freed.taskCount = k.taskCount := by
    rw [(rescheduled_freed ka).taskCount, ha.eq]
  have hdecided := card_decision (k := ka) t
  rw [hcurrent.1, hnext.1] at hdecided
  rw [card_freed, card_freed, hcurrent.2.1, hcurrent.2.2, hnext.2.1, hnext.2.2]
  simp only [Option.some.injEq]
  by_cases ht : ∃ i < k.taskCount, t = .tcb i
  · obtain ⟨i, hi, rfl⟩ := ht
    rw [hb.card_of_lt hi, hab.card_of_lt hi, hdecided, ha.card_of_lt hi]
    refine Task.aged_add fun hchosen => ?_
    -- the choice is a ready task
    rcases ka.freed.schedSelectNext_spec with hnone | ⟨j, -, hj, hready⟩
    · rw [hchosen] at hnone
      cases hnone
    · have hcard := card_freed (k := ka) (.tcb i)
      rw [hcurrent.1, hnext.1, ha.card_of_lt hi] at hcard
      rw [← hcard]
      rw [hj] at hchosen
      exact hchosen ▸ hready
  · have hnot : ∀ i < k.taskCount, t ≠ .tcb i := fun i hi he => ht ⟨i, hi, he⟩
    rw [hb.card_of_not hnot, hab.card_of_not hnot, hdecided, ha.card_of_not hnot]
    refine Task.freed_marked_freed fun hchosen => ?_
    rcases ka.freed.schedSelectNext_spec with hnone | ⟨j, hj, hsel, -⟩
    · obtain rfl : t = .idle := hchosen.symm.trans hnone
      have hfreed := hidle.freed
      rwa [card_freed] at hfreed
    · exact absurd (hchosen.symm.trans hsel) (hnot j (hcount ▸ hj))

theorem AgedIn.lists_of_linked (h : AgedIn n (List.range k.taskCount) k k' L L') (hk : k.WellLinked L)
    (l : WaitList) : L' l = (L l).filter fun t => !(k.card t).leaves n l := by
  rw [h.lists]
  refine List.filter_congr fun t ht => ?_
  obtain ⟨i, hi, rfl⟩ := hk.table l t ht
  have hmem : ∃ j ∈ List.range k.taskCount, TaskPtr.tcb i = .tcb j := ⟨i, List.mem_range.2 hi, rfl⟩
  simp only [hmem, decide_true, Bool.true_and]

/-- The second part removes from a list the tasks that the first part leaves there. -/
theorem lists_parts (h : k.WellLinked L) (ha : AgedIn a (List.range k.taskCount) k ka L La)
    (hb : AgedIn b (List.range k.taskCount) ka.schedPickAndMark.triggerIfSwitch kb La Lb)
    (hab : AgedIn (a + b) (List.range k.taskCount) k kab L Lab) (l : WaitList) : Lb l = Lab l := by
  have hcount : ka.schedPickAndMark.triggerIfSwitch.taskCount = k.taskCount := by
    rw [decision_eq, ha.eq]
  rw [← hcount] at hb
  rw [hb.lists_of_linked ha.linked.decision, ha.lists_of_linked h, hab.lists_of_linked h,
    List.filter_filter]
  refine List.filter_congr fun t ht => ?_
  obtain ⟨i, hi, rfl⟩ := h.table l t ht
  rw [card_decision, ha.card_of_lt hi, Bool.and_comm, ← Bool.not_or]
  exact congrArg not Task.leaves_add.symm

end Parts

/-- `k'` is `k` but for what the scheduler stores in a tick. -/
def TickOf (k k' : Kernel) : Prop :=
  k' = { k with tcb := k'.tcb, head := k'.head, nextTask := k'.nextTask, pendsv := k'.pendsv }

theorem TickOf.trans (h : k.TickOf k') (h' : k'.TickOf k'') : k.TickOf k'' := by
  unfold TickOf at *
  rw [h', h]

theorem AgedIn.tickOf (h : AgedIn n is k k' L L') : k.TickOf k'.schedPickAndMark.triggerIfSwitch := by
  have hloop : k.TickOf k' := by
    unfold TickOf
    rw [h.eq]
  have hdecision : k'.TickOf k'.schedPickAndMark.triggerIfSwitch := by
    unfold TickOf
    rw [decision_eq]
  exact hloop.trans hdecision

/-- Two states after ticks whose control blocks, lists and choices are the same. -/
theorem SameTick.of_tickOf (h : k.TickOf k') (h' : k.TickOf k'') (hcard : ∀ t, k''.card t = k'.card t)
    (hnext : k''.nextTask = k'.nextTask) (hw : ∀ l, k'.Waiters l (L l)) (hw' : ∀ l, k''.Waiters l (L l)) :
    k'.SameTick k'' := by
  have hhead : k''.head = k'.head := by
    funext l
    rw [(hw' l).head_eq_head?, (hw l).head_eq_head?]
  refine ⟨?_, hcard, fun l => ⟨L l, hw l, hw' l, fun t ht => (hw' l).next_eq (hw l) ht⟩⟩
  unfold TickOf at h h'
  rw [hhead, hnext] at h'
  exact h'.trans (by rw [h])

/-- Two parts of a tick, one after the other. -/
theorem WellLinked.schedTickN_parts (h : k.WellLinked L) (hidle : k.IdleMarked) (a b : ℕ) :
    ∃ k₁ k₂ k₃, k.schedTickN a = some k₁ ∧ k₁.schedTickN b = some k₂ ∧
      k.schedTickN (a + b) = some k₃ ∧ k₂.SameTick k₃ := by
  obtain ⟨ka, La, ha, hka⟩ := h.schedTickN a
  obtain ⟨kb, Lb, hb, hkb⟩ := ha.linked.decision.schedTickN b
  obtain ⟨kab, Lab, hab, hkab⟩ := h.schedTickN (a + b)
  have hcount : ka.schedPickAndMark.triggerIfSwitch.taskCount = k.taskCount := by
    rw [decision_eq, ha.eq]
  rw [hcount] at hb
  have hcard := card_freed_parts hidle ha hb hab
  have hselect : kab.freed.schedSelectNext = kb.freed.schedSelectNext := by
    refine schedSelectNext_congr ?_ ?_ fun t => (hcard t).symm
    · rw [(rescheduled_freed _).taskCount, (rescheduled_freed _).taskCount, hab.eq, hb.eq, hcount]
    · rw [(rescheduled_freed _).currentTask, (rescheduled_freed _).currentTask, hab.eq, hb.eq,
        decision_eq, ha.eq]
  refine ⟨_, _, _, hka, hkb, hkab, .of_tickOf (ha.tickOf.trans hb.tickOf) hab.tickOf (fun t => ?_) ?_
    hb.linked.decision.waiters fun l => ?_⟩
  · rw [card_decision, card_decision, hselect, ← card_freed, ← card_freed, hcard]
  · rw [nextTask_decision, nextTask_decision, hselect]
  · rw [lists_parts h ha hb hab]
    exact hab.linked.decision.waiters l

/-! ### Every ms -/

/-- `n` calls of `sched_tick`. -/
def schedTicks : ℕ → Kernel → Option Kernel
  | 0, k => some k
  | n + 1, k => k.schedTick.bind (schedTicks n)

theorem WellLinked.schedTicks (h : k.WellLinked L) (hidle : k.IdleMarked) (n : ℕ) :
    ∃ k₁ k₂, k.schedTickN (n + 1) = some k₁ ∧ Kernel.schedTicks (n + 1) k = some k₂ ∧
      k₂.SameTick k₁ := by
  induction n generalizing k L with
  | zero =>
    obtain ⟨ka, La, ha, hka⟩ := h.schedTickN 1
    exact ⟨_, _, hka, by rw [Kernel.schedTicks, schedTick, hka]; rfl, .refl ha.linked.decision⟩
  | succ n ih =>
    obtain ⟨ka, La, ha, hka⟩ := h.schedTickN 1
    obtain ⟨k₁, k₂, k₃, hk₁, hk₂, hk₃, hparts⟩ := h.schedTickN_parts hidle 1 (n + 1)
    obtain rfl := Option.some.inj (hka.symm.trans hk₁)
    obtain ⟨k₂', k₄, hk₂', hk₄, hrest⟩ := ih ha.linked.decision (ha.idleMarked hidle).decision
    obtain rfl := Option.some.inj (hk₂.symm.trans hk₂')
    refine ⟨k₃, k₄, by rw [← hk₃, Nat.add_comm 1], ?_, hrest.trans hparts⟩
    rw [Kernel.schedTicks, schedTick, hka]
    exact hk₄

/-! ### The tick in the comment -/

/-- The body of the loop in the comment of `sched_tick`. -/
def oldTickTask (k : Kernel) (i : ℕ) : Option Kernel :=
  if (k.tcb (.tcb i)).state = .blocked ∧ 0 < (k.tcb (.tcb i)).delayTicks then
    let k := k.modifyTask (.tcb i) fun x => { x with delayTicks := x.delayTicks - 1 }
    if (k.tcb (.tcb i)).delayTicks = 0 then
      (match (k.tcb (.tcb i)).waitListHead with
      | some l => (k.schedWaitListRemove l (.tcb i)).map fun k' : Kernel =>
          k'.modifyTask (.tcb i) fun x => { x with waitListHead := none, timedOut := true }
      | none => some k).map fun k' : Kernel => k'.setState (.tcb i) .ready
    else some k
  else some k

/-- `sched_tick` as its comment has it. -/
def oldSchedTick (k : Kernel) : Option Kernel :=
  ((List.range k.taskCount).foldlM oldTickTask k).map fun k' => k'.schedPickAndMark.triggerIfSwitch

/-- `n` calls of that. -/
def oldSchedTicks : ℕ → Kernel → Option Kernel
  | 0, k => some k
  | n + 1, k => k.oldSchedTick.bind (oldSchedTicks n)

theorem oldTickTask_eq (k : Kernel) (i : ℕ) : oldTickTask k i = tickTask 1 k i := by
  unfold oldTickTask tickTask
  dsimp only
  by_cases hwait : (k.tcb (.tcb i)).state = .blocked ∧ 0 < (k.tcb (.tcb i)).delayTicks
  · rw [if_pos hwait, if_pos hwait]
    set kd := k.modifyTask (.tcb i) fun x => { x with delayTicks := x.delayTicks - 1 } with hkd
    have hself : kd.tcb (.tcb i) = { k.tcb (.tcb i) with delayTicks := (k.tcb (.tcb i)).delayTicks - 1 } :=
      modifyTask_self _
    by_cases hle : (k.tcb (.tcb i)).delayTicks ≤ 1
    · have hzero : (k.tcb (.tcb i)).delayTicks - 1 = 0 := by omega
      rw [if_pos hle, if_pos (by rw [hself, hzero]), expire]
      have hhead : (kd.tcb (.tcb i)).waitListHead = (k.tcb (.tcb i)).waitListHead := by rw [hself]
      rw [hhead]
      cases (k.tcb (.tcb i)).waitListHead with
      | none =>
        refine congrArg some ?_
        rw [hkd]
        unfold Kernel.setState Kernel.modifyTask
        simp [hzero]
      | some l =>
        -- the walk does not read the delay
        have hdelays : kd = k.setDelays fun u => (kd.tcb u).delayTicks := by
          have htcb : kd.tcb = fun u => { k.tcb u with delayTicks := (kd.tcb u).delayTicks } := by
            funext u
            by_cases hu : u = .tcb i
            · rw [hu, hself]
            · rw [hkd, modifyTask_of_ne hu]
          rw [setDelays, ← htcb]
          rfl
        have hremove : kd.schedWaitListRemove l (.tcb i) = _ :=
          (congrArg (fun k : Kernel => k.schedWaitListRemove l (.tcb i)) hdelays).trans
            schedWaitListRemove_setDelays
        dsimp only
        rw [hremove]
        cases hrem : k.schedWaitListRemove l (.tcb i) with
        | none => rfl
        | some k₁ =>
          obtain ⟨S, hlink⟩ := schedWaitListRemove_relinked hrem
          have hended : k₁.setDelays (fun u => (kd.tcb u).delayTicks) =
              k₁.modifyTask (.tcb i) fun x => { x with delayTicks := 0 } := by
            have htcb : (fun u => { k₁.tcb u with delayTicks := (kd.tcb u).delayTicks }) =
                (k₁.modifyTask (.tcb i) fun x => { x with delayTicks := 0 }).tcb := by
              funext u
              by_cases hu : u = .tcb i
              · rw [hu, hself, modifyTask_self, hzero]
              · rw [hkd, modifyTask_of_ne hu, modifyTask_of_ne hu, ← hlink.delayTicks]
            rw [setDelays, htcb]
            rfl
          refine congrArg some ?_
          dsimp only
          rw [hended]
          unfold Kernel.setState Kernel.modifyTask
          simp
    · rw [if_neg hle, if_neg (by rw [hself]; dsimp only; omega)]
  · rw [if_neg hwait, if_neg hwait]

theorem oldSchedTicks_eq (n : ℕ) (k : Kernel) : oldSchedTicks n k = schedTicks n k := by
  have hone : oldSchedTick = schedTick := by
    funext k
    rw [oldSchedTick, show oldTickTask = tickTask 1 from funext fun k => funext fun i => oldTickTask_eq k i]
    rfl
  induction n generalizing k with
  | zero => rfl
  | succ n ih =>
    rw [oldSchedTicks, schedTicks, hone]
    exact congrArg _ (funext ih)

end Kernel

theorem Coherent.wellLinked {k : Kernel} {ctl : Ctx → Ctl} {W : Ctx → Option TaskPtr}
    {L : WaitList → List TaskPtr} (h : Coherent k ctl W L) : k.WellLinked L :=
  ⟨h.waiters, fun _ _ ht => h.inTable_of_mem ht, fun _ _ _ ht ht' => h.eq_of_mem ht ht'⟩

/-- A tick in parts. For every state whose wait lists are lists, and whose idle task is marked running
only when it is current or next: a tick of `a` and a tick of `b` do what a tick of `a + b` does, and so
do `n` calls of `sched_tick`, as it is and as it was, for `n` ms that are not none. -/
theorem schedTickN_batched {k : Kernel} {L : WaitList → List TaskPtr} (h : k.WellLinked L)
    (hidle : k.IdleMarked) :
    (∀ a b, ∃ k₁ k₂ k₃, k.schedTickN a = some k₁ ∧ k₁.schedTickN b = some k₂ ∧
      k.schedTickN (a + b) = some k₃ ∧ k₂.SameTick k₃) ∧
    ∀ n, 0 < n → ∃ k₁ k₂, k.schedTickN n = some k₁ ∧ Kernel.schedTicks n k = some k₂ ∧
      Kernel.oldSchedTicks n k = some k₂ ∧ k₂.SameTick k₁ := by
  refine ⟨h.schedTickN_parts hidle, fun n hpos => ?_⟩
  obtain ⟨n, rfl⟩ := Nat.exists_eq_succ_of_ne_zero hpos.ne'
  obtain ⟨k₁, k₂, hk₁, hk₂, hsame⟩ := h.schedTicks hidle n
  exact ⟨k₁, k₂, hk₁, hk₂, (Kernel.oldSchedTicks_eq _ k).trans hk₂, hsame⟩

/-- Two tasks wait for a semaphore, the first of them for 2 ms, and a third one runs. -/
def twoWaiters : Kernel :=
  { (Machine.start { priorities := [1, 1, 2] }).kernel with
    tcb := fun
      | .tcb 0 => { state := .blocked, priority := 1, delayTicks := 2, waitListHead := some (.sem 0)
                    waitNext := some (.tcb 1) }
      | .tcb 1 => { state := .blocked, priority := 1 }
      | .tcb 2 => { state := .running, priority := 2 }
      | _ => {}
    head := fun l => if l = .sem 0 then some (.tcb 0) else none
    currentTask := some (.tcb 2)
    nextTask := some (.tcb 2) }

/-- The lists of that state. -/
def twoWaiters.lists (l : WaitList) : List TaskPtr := if l = .sem 0 then [.tcb 0, .tcb 1] else []

theorem twoWaiters_batched : ∃ k₁ k₂, twoWaiters.schedTickN 3 = some k₁ ∧
    Kernel.schedTicks 3 twoWaiters = some k₂ ∧ k₂.SameTick k₁ := by
  have hwell : twoWaiters.WellLinked twoWaiters.lists := by
    refine ⟨fun l => ?_, fun l t ht => ?_, fun l l' t ht ht' => ?_⟩
    · by_cases hl : l = .sem 0
      · subst hl
        decide
      · simp [Kernel.Waiters, twoWaiters, twoWaiters.lists, hl]
    · by_cases hl : l = .sem 0
      · subst hl
        obtain rfl | rfl : t = .tcb 0 ∨ t = .tcb 1 := by simpa [twoWaiters.lists] using ht
        · exact ⟨0, by decide, rfl⟩
        · exact ⟨1, by decide, rfl⟩
      · simp [twoWaiters.lists, hl] at ht
    · have honly : ∀ l t, t ∈ twoWaiters.lists l → l = .sem 0 := by
        intro l t ht
        by_contra hl
        simp [twoWaiters.lists, hl] at ht
      rw [honly l t ht, honly l' t ht']
  have hidle : twoWaiters.IdleMarked := fun h => by cases h
  obtain ⟨k₁, k₂, hk₁, hk₂, -, hsame⟩ := (schedTickN_batched hwell hidle).2 3 (by decide)
  exact ⟨k₁, k₂, hk₁, hk₂, hsame⟩

/-- Two ready tasks of one priority, after the start. -/
def twoReady : Kernel := (Machine.start { priorities := [1, 1] }).kernel

/-- A task sleeps for 2 ms, and the idle task is marked running although the switch to it is over. -/
def staleIdle : Kernel :=
  { (Machine.start { priorities := [1] }).kernel with
    tcb := fun
      | .idle => { state := .running }
      | .tcb _ => { state := .blocked, delayTicks := 2 }
    currentTask := some (.tcb 0)
    nextTask := some (.tcb 0) }

/-- With two ready tasks `sched_tick_n(0)` chooses the other one, and no call of
`sched_tick` at all does not; and the first of two parts chooses the stale idle task, which is made
ready by the second one. -/
theorem schedTickN_not_batched :
    (twoReady.WellLinked (fun _ => []) ∧ twoReady.IdleMarked ∧
      ¬∃ k₁ k₂, twoReady.schedTickN 0 = some k₁ ∧ Kernel.schedTicks 0 twoReady = some k₂ ∧
        k₂.SameTick k₁) ∧
    staleIdle.WellLinked (fun _ => []) ∧
    ¬∃ k₁ k₂ k₃, staleIdle.schedTickN 1 = some k₁ ∧ k₁.schedTickN 1 = some k₂ ∧
      staleIdle.schedTickN (1 + 1) = some k₃ ∧ k₂.SameTick k₃ := by
  have hempty : ∀ k : Kernel, (∀ l, k.head l = none) → k.WellLinked fun _ => [] := fun k hk =>
    ⟨hk, fun _ _ ht => (nomatch ht), fun _ _ _ ht => (nomatch ht)⟩
  have hidle : twoReady.IdleMarked := fun h => (nomatch h)
  refine ⟨⟨hempty _ fun _ => rfl, hidle, ?_⟩, hempty _ fun _ => rfl, ?_⟩
  · rintro ⟨k₁, k₂, hk₁, hk₂, hsame⟩
    cases hk₂
    have hnext : (twoReady.schedTickN 0).map Kernel.nextTask = some twoReady.nextTask := by
      rw [hk₁, hsame.eq]
      rfl
    exact absurd hnext (by decide +kernel)
  · rintro ⟨k₁, k₂, k₃, hk₁, hk₂, hk₃, hsame⟩
    have hparts := congrArg (Option.map fun k : Kernel => (k.tcb .idle).state)
      ((congrArg (· >>= fun k : Kernel => k.schedTickN 1) hk₁).trans hk₂)
    have hwhole := congrArg (Option.map fun k : Kernel => (k.tcb .idle).state) hk₃
    have hstate : (k₃.card .idle).state = (k₂.card .idle).state := by rw [hsame.card]
    rw [Option.map_some, show (k₃.tcb .idle).state = (k₂.tcb .idle).state from hstate] at hwhole
    exact absurd (hparts.trans hwhole.symm) (by decide +kernel)

end TamgaOs
