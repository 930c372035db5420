import TamgaOs.Machine.Idle
import TamgaOs.Machine.Tickless

/-!
# A choice of another task is followed by a context switch

A handler that chooses the next task pends PendSV when its choice is not the current task, at once or
before it ends. While the idle task is current, a next task that differs therefore always has a
switch pended, or one that a handler or the idle task itself is about to pend.

## Main definitions

* `Kernel.Settled`: a switch is pended, or none is needed.
* `Ctl.triggers`, `IdleCtl.triggers`: the program points before `trigger_pendsv`.
* `Tickless.SwitchDue`: the invariant.

## Main results

* `Ctl.settled_ctlStep`: what a step of a handler does.
* `Tickless.SwitchDue.step`: a step keeps the invariant.
-/

namespace TamgaOs

/-- A switch is pended, or the next task is the current one. -/
def Kernel.Settled (k : Kernel) : Prop := k.pendsv = true ∨ k.nextTask = k.currentTask

/-- The current task, the next task and the pended switch are the same. -/
structure Kernel.SameSwitch (k k' : Kernel) : Prop where
  currentTask : k'.currentTask = k.currentTask
  nextTask : k'.nextTask = k.nextTask
  pendsv : k'.pendsv = k.pendsv

/-- The handler is at the end of `sched_wake_task`, before `trigger_pendsv`. -/
def Ctl.triggers : Ctl → Bool
  | queue (.trigger _ _) | notify .trigger => true
  | _ => false

/-- The idle task has installed the next task and has not tested yet whether to switch. -/
def IdleCtl.triggers : IdleCtl → Bool
  | .tick _ .runTest | .tick _ .run | .tick _ .switchTest | .tick _ .switch => true
  | _ => false

/-- A handler before `trigger_pendsv` has not finished. -/
theorem Ctl.atRest_of_triggers {c : Ctl} (h : c.triggers = true) : c.atRest = false := by
  unfold Ctl.triggers at h
  split at h <;> first | rfl | cases h

namespace Kernel

variable {k k' k'' : Kernel}

theorem SameSwitch.refl (k : Kernel) : SameSwitch k k := ⟨rfl, rfl, rfl⟩

theorem SameSwitch.trans (h : SameSwitch k k') (h' : SameSwitch k' k'') : SameSwitch k k'' :=
  ⟨h'.currentTask.trans h.currentTask, h'.nextTask.trans h.nextTask, h'.pendsv.trans h.pendsv⟩

theorem SameSwitch.settled (h : SameSwitch k k') (hk : k.Settled) : k'.Settled := by
  unfold Settled
  rw [h.pendsv, h.nextTask, h.currentTask]
  exact hk

/-- After `if (g_next_task != g_current_task) trigger_pendsv()`. -/
theorem settled_triggerIfSwitch (k : Kernel) : k.triggerIfSwitch.Settled := by
  unfold triggerIfSwitch
  split_ifs with h
  · exact Or.inl rfl
  · exact Or.inr (not_not.mp h)

theorem sameSwitch_wqPop (k : Kernel) (l : WaitList) : SameSwitch k (k.wqPop l).1 := by
  unfold wqPop
  split <;> exact ⟨rfl, rfl, rfl⟩

theorem sameSwitch_semIncr (k : Kernel) (s : ℕ) : SameSwitch k (k.semIncr s) := by
  unfold semIncr
  split_ifs <;> exact ⟨rfl, rfl, rfl⟩

theorem settled_semGive (k : Kernel) (s : ℕ) : (k.semGive s).Settled ∨ SameSwitch k (k.semGive s) := by
  have hpop := sameSwitch_wqPop k (.sem s)
  unfold semGive
  split
  · exact Or.inl (settled_triggerIfSwitch _)
  · rename_i k₁ heq
    rw [heq] at hpop
    exact Or.inr (hpop.trans (sameSwitch_semIncr _ _))

/-- A loop that grants at least one wait ends with a switch pended where one is needed. -/
theorem settled_eventWakeLoop (e : ℕ) : ∀ (fuel : ℕ) (cur : Link) {k k' : Kernel}
    {gs : List EventGrant}, eventWakeLoop e fuel cur k = some (k', gs) →
    k'.Settled ∨ SameSwitch k k'
  | 0, _, _, _, _, h => by cases h
  | fuel + 1, cur, k, k', gs, h => by
    unfold eventWakeLoop at h
    split at h
    · cases h
      exact Or.inr (.refl k)
    · rename_i t ht
      split at h
      · rename_i i hi
        obtain ⟨⟨k₁, gs₁⟩, hrest, he⟩ := Option.map_eq_some_iff.1 h
        cases he
        have hgrant : (k.eventGrant e cur t i).Settled := settled_triggerIfSwitch _
        rcases settled_eventWakeLoop e fuel cur hrest with hk | hk
        · exact Or.inl hk
        · exact Or.inl (hk.settled hgrant)
      · exact settled_eventWakeLoop e fuel (.next t) h

theorem settled_eventSet {e : ℕ} {bits : BitVec 32} {gs : List EventGrant}
    (h : k.eventSet e bits = some (k', gs)) : k'.Settled ∨ SameSwitch k k' := by
  have hbits : SameSwitch k (k.setEventBits e ((k.group e).bits ||| bits)) := ⟨rfl, rfl, rfl⟩
  exact (settled_eventWakeLoop e _ _ h).imp_right hbits.trans

end Kernel

variable {k k' : Kernel} {t : TaskPtr} {c c' : Ctl} {o : List Obs}

/-- A step of a handler leaves a switch pended where one is needed, is followed by `trigger_pendsv`,
or leaves the choice of the next task alone. -/
theorem Ctl.settled_ctlStep (hc : c.isrSafe = true) (h : ctlStep k t c = some (k', c', o)) :
    k'.Settled ∨ c'.triggers = true ∨ c.triggers = false ∧ Kernel.SameSwitch k k' := by
  cases ctlStep_cases h with
  | @sem c c₁ hs =>
    cases c with
    | give s =>
      cases hs
      exact (k.settled_semGive s).imp_right fun hk => Or.inr ⟨rfl, hk⟩
    | trytake s =>
      have htry : Kernel.SameSwitch k (k.semTrytake s).1 := by
        unfold Kernel.semTrytake
        split_ifs <;> exact ⟨rfl, rfl, rfl⟩
      simp only [semStep] at hs
      split at hs
      all_goals
        rename_i heq
        cases hs
        rw [heq] at htry
        exact Or.inr (Or.inr ⟨rfl, htry⟩)
    | take | blocked | taken => cases hc
    | given | trytaken => cases hs
  | mutex c => cases hc
  | @queue c c₁ hs =>
    cases c with
    | attempt q op =>
      have htransfer : Kernel.SameSwitch k (k.queueTransfer q op).1 := by
        cases op with
        | send item =>
          have hcopy : Kernel.SameSwitch k (k.queueCopyIn q item) := ⟨rfl, rfl, rfl⟩
          exact hcopy.trans (Kernel.sameSwitch_wqPop _ (.queueReceive q))
        | receive =>
          have hcopy : Kernel.SameSwitch k (k.queueCopyOut q).1 := ⟨rfl, rfl, rfl⟩
          exact hcopy.trans (Kernel.sameSwitch_wqPop _ (.queueSend q))
      simp only [queueStep] at hs
      split_ifs at hs <;> cases hs
      · exact Or.inr (Or.inr ⟨rfl, htransfer⟩)
      · exact Or.inr (Or.inr ⟨rfl, .refl k⟩)
    | wake w timed r =>
      cases w with
      | none =>
        cases hs
        exact Or.inr (Or.inr ⟨rfl, .refl k⟩)
      | some w =>
        cases hs
        exact Or.inr (Or.inl rfl)
    | trigger timed r =>
      cases hs
      exact Or.inl k.settled_triggerIfSwitch
    | finish timed r =>
      simp only [queueStep] at hs
      split_ifs at hs <;> cases hs
      · exact Or.inr (Or.inr ⟨rfl, rfl, rfl, rfl⟩)
      · exact Or.inr (Or.inr ⟨rfl, .refl k⟩)
    | enter | loop | blocked => cases hc
    | returned => cases hs
  | @event c c₁ hs =>
    cases c with
    | set e bits =>
      obtain ⟨⟨k₂, gs⟩, hset, he⟩ := Option.map_eq_some_iff.1 hs
      cases he
      exact (Kernel.settled_eventSet hset).imp_right fun hk => Or.inr ⟨rfl, hk⟩
    | clear | get =>
      cases hs
      exact Or.inr (Or.inr ⟨rfl, rfl, rfl, rfl⟩)
    | enter | loop | blocked | returned => cases hc
    | done | got => cases hs
  | @notify c c₁ hs =>
    cases c with
    | give u value =>
      cases u with
      | none =>
        cases hs
        exact Or.inr (Or.inr ⟨rfl, .refl k⟩)
      | some u =>
        simp only [notifyStep, Kernel.notifyGiveSection] at hs
        split at hs
        all_goals
          rename_i heq
          obtain ⟨rfl, -⟩ := Prod.mk.inj heq
          cases hs
          exact Or.inr (Or.inr ⟨rfl, rfl, rfl, rfl⟩)
    | wake u =>
      cases hs
      exact Or.inr (Or.inl rfl)
    | trigger =>
      cases hs
      exact Or.inl k.settled_triggerIfSwitch
    | wait | blocked | returned => cases hc
    | given => cases hs
  | @sched c c₁ hs =>
    cases c with
    | pause i =>
      cases hs
      refine Or.inr (Or.inr ⟨rfl, ?_⟩)
      unfold Kernel.schedTaskPause
      split_ifs <;> exact ⟨rfl, rfl, rfl⟩
    | resume i =>
      cases hs
      refine Or.inr (Or.inr ⟨rfl, ?_⟩)
      unfold Kernel.schedTaskResume
      split_ifs <;> exact ⟨rfl, rfl, rfl⟩
    | delay | delayTrigger | delayWait | yield | block | trigger | create | createSection
    | createReturn | created => cases hc
    | returned => cases hs

namespace Tickless

variable {b : Board} {s s' : Tickless} {a : TicklessAction} {o : List TicklessObs}

/-- While the idle task is current: a switch is pended, or none is needed, or it is about to be
pended. -/
def SwitchDue (s : Tickless) : Prop :=
  s.kernel.currentTask = some .idle →
    s.kernel.Settled ∨ (∃ i < s.machine.depth, (s.machine.ctl (.isr i)).triggers = true) ∨
      s.idle.triggers = true

/-- The idle task runs and is not about to switch: it is the next task, too. -/
theorem SwitchDue.next_idle (h : s.SwitchDue) (hact : s.machine.active = some (.thread .idle))
    (hidle : s.idle.triggers = false) : s.kernel.nextTask = some .idle := by
  obtain ⟨hdepth, hpend, hcur⟩ := Machine.active_thread hact
  rcases h hcur with (hp | hnext) | ⟨i, hi, -⟩ | ht
  · exact absurd (hp.symm.trans hpend) (by decide)
  · exact hnext.trans hcur
  · exact absurd hi (by omega)
  · exact absurd (ht.symm.trans hidle) (by decide)

/-- A statement of `sched_tick_n` of the idle task. -/
theorem settled_tickStep {k k' : Kernel} {n : ℕ} {c : TickCtl} {c' : Option TickCtl}
    (h : tickStep k n c = some (k', c')) :
    k'.Settled ∨ (∃ d, c' = some d ∧ (IdleCtl.tick n d).triggers = true) ∨
      (IdleCtl.tick n c).triggers = false ∧ Kernel.SameSwitch k k' := by
  cases c with
  | install t =>
    cases h
    exact Or.inr (Or.inl ⟨_, rfl, rfl⟩)
  | runTest =>
    obtain ⟨u, -, he⟩ := Option.map_eq_some_iff.1 h
    obtain ⟨-, he⟩ := Prod.mk.inj he
    split_ifs at he <;> exact Or.inr (Or.inl ⟨_, he.symm, rfl⟩)
  | run =>
    obtain ⟨u, -, he⟩ := Option.map_eq_some_iff.1 h
    cases he
    exact Or.inr (Or.inl ⟨_, rfl, rfl⟩)
  | switchTest =>
    by_cases hne : k.nextTask ≠ k.currentTask
    · simp only [tickStep, if_pos hne] at h
      cases h
      exact Or.inr (Or.inl ⟨_, rfl, rfl⟩)
    · simp only [tickStep, if_neg hne] at h
      cases h
      exact Or.inl (Or.inr (not_not.mp hne))
  | switch =>
    cases h
    exact Or.inl (Or.inl rfl)
  | test i | compare i =>
    refine Or.inr (Or.inr ⟨rfl, ?_⟩)
    simp only [tickStep] at h
    split_ifs at h <;> cases h <;> exact .refl k
  | headTest i | currentTest | nextTest | remove i | removeTest i cur =>
    refine Or.inr (Or.inr ⟨rfl, ?_⟩)
    simp only [tickStep] at h
    split at h
    · first
      | cases h
        exact .refl k
      | split_ifs at h <;> cases h <;> exact .refl k
    · first
      | cases h
        exact .refl k
      | cases h
  | currentReady | nextReady =>
    obtain ⟨u, -, he⟩ := Option.map_eq_some_iff.1 h
    cases he
    exact Or.inr (Or.inr ⟨rfl, rfl, rfl, rfl⟩)
  | zero | removeHead | removeStart | removeNext | removeLink | clearHead | mark | ready | subtract
  | select =>
    cases h
    exact Or.inr (Or.inr ⟨rfl, rfl, rfl, rfl⟩)

/-- A step of a task or of a handler. -/
theorem SwitchDue.machine {m' : Machine} {a' : Action} {o' : List Obs} (h : s.SwitchDue)
    (hm : s.machine.IdleApart) (ha : a'.ticks = false) (hs : s.machine.step a' = some (m', o')) :
    SwitchDue { s with machine := m' } := by
  intro hcur
  rcases Machine.step_cases hs with ⟨c, i, rfl, hact, -, rfl, -⟩ |
    ⟨x, u, k', c', rfl, hact, hu, hst, rfl⟩ | ⟨c, rfl, -, rfl, -⟩ | ⟨rfl, -, -, rfl, -⟩ |
    ⟨n, rfl, -⟩ | ⟨n, k', rfl, -⟩
  · obtain ⟨-, -, hthread⟩ := Machine.active_thread hact
    exact absurd (hthread.symm.trans hcur) (by simp)
  · have hcur' : k'.currentTask = some .idle := hcur
    cases x with
    | thread v =>
      -- the idle task makes no call
      obtain ⟨-, -, hv⟩ := Machine.active_thread hact
      have hsame : k'.currentTask = s.kernel.currentTask :=
        (ctlStep_path hu hst).currentTask fun op hop => (Ctl.owner_of_setPriority hop).1.1
      have hidle : some TaskPtr.idle = some v := hcur'.symm.trans (hsame.trans hv)
      cases hidle
      rw [hm.ctl] at hst
      cases hst
    | isr d =>
      have hdepth := Machine.active_isr hact
      rcases Ctl.settled_ctlStep (hm.isr d) hst with hk | ht | ⟨hc, hk⟩
      · exact Or.inl hk
      · have hrest : c'.atRest = false := Ctl.atRest_of_triggers ht
        refine Or.inr (Or.inl ⟨d, ?_, ?_⟩)
        · show d < if c'.atRest then d else s.machine.depth
          rw [hrest, hdepth]
          exact Nat.lt_succ_self d
        · exact (congrArg Ctl.triggers (Function.update_self ..)).trans ht
      · refine (h (hk.currentTask.symm.trans hcur')).imp hk.settled (Or.imp_left ?_)
        rintro ⟨i, hi, ht⟩
        have hne : i ≠ d := by
          rintro rfl
          exact absurd (ht.symm.trans hc) (by decide)
        refine ⟨i, ?_, (congrArg Ctl.triggers (Function.update_of_ne (by simpa using hne) ..)).trans ht⟩
        show i < if c'.atRest then d else s.machine.depth
        split_ifs <;> omega
  · refine (h hcur).imp_right (Or.imp_left ?_)
    rintro ⟨i, hi, ht⟩
    have hne : Ctx.isr i ≠ .isr s.machine.depth := by simpa using hi.ne
    exact ⟨i, Nat.lt_succ_of_lt hi, (congrArg Ctl.triggers (Function.update_of_ne hne ..)).trans ht⟩
  · exact Or.inl (Or.inr rfl)
  · cases ha
  · cases ha

/-- A statement of the idle task outside `sched_tick_n` leaves the choice of the next task alone. -/
theorem idleStep_switch (hs : s.idleStep b = some (s', o)) :
    s.idle.triggers = false ∧ Kernel.SameSwitch s.kernel s'.kernel ∨
      ∃ n c c', s.idle = .tick n c ∧ tickStep s.kernel n c = some (s'.kernel, c') ∧
        ∀ d, c' = some d → s'.idle = .tick n d := by
  unfold idleStep at hs
  split at hs
  all_goals rename_i hidle
  · cases hs
    exact Or.inl ⟨by rw [hidle]; rfl, .refl _⟩
  · cases hs
    exact Or.inl ⟨by rw [hidle]; rfl, .refl _⟩
  · cases hs
    exact Or.inl ⟨by rw [hidle]; rfl, .refl _⟩
  · cases hs
    exact Or.inl ⟨by rw [hidle]; rfl, .refl _⟩
  · cases hs
    refine Or.inl ⟨by rw [hidle]; rfl, ?_⟩
    rename_i c
    cases c <;> exact ⟨rfl, rfl, rfl⟩
  · obtain ⟨r, hr, he⟩ := Option.map_eq_some_iff.1 hs
    cases he
    refine Or.inr ⟨_, _, r.2, hidle, hr, fun d hd => ?_⟩
    rw [hd]
    rfl
  · cases hs
    exact Or.inl ⟨by rw [hidle]; rfl, .refl _⟩

/-- A statement of the idle task. -/
theorem SwitchDue.idle (h : s.SwitchDue) (hs : s.idleStep b = some (s', o)) : s'.SwitchDue := by
  intro hcur
  have hmach := (idleStep_machine hs).1
  have hframes (hk : Kernel.SameSwitch s.kernel s'.kernel) (hidle : s.idle.triggers = false) :
      s'.kernel.Settled ∨ ∃ i < s'.machine.depth, (s'.machine.ctl (.isr i)).triggers = true := by
    rcases h (hk.currentTask.symm.trans hcur) with hset | hfr | ht
    · exact Or.inl (hk.settled hset)
    · rw [hmach]
      exact Or.inr hfr
    · exact absurd (ht.symm.trans hidle) (by decide)
  rcases idleStep_switch hs with ⟨hidle, hk⟩ | ⟨n, c, c', hc, hst, hc'⟩
  · exact (hframes hk hidle).imp_right Or.inl
  · rcases settled_tickStep hst with hset | ⟨d, hd, ht⟩ | ⟨ht, hk⟩
    · exact Or.inl hset
    · exact Or.inr (Or.inr (by rw [hc' d hd]; exact ht))
    · exact (hframes hk (by rw [hc]; exact ht)).imp_right Or.inl

theorem SwitchDue.step (h : s.SwitchDue) (hm : s.machine.IdleApart)
    (hs : s.step b a = some (s', o)) : s'.SwitchDue := by
  rcases step_cases hs with ⟨a', m', o', rfl, ha, -, hst, rfl, -⟩ | ⟨op, rfl, rfl, -⟩ |
    ⟨rfl, -, -, hidle⟩ | ⟨rfl, rfl, -⟩ | ⟨rfl, -, hh⟩
  · exact h.machine hm ha hst
  · exact h
  · exact h.idle hidle
  · exact h
  · rcases handlerStep_cases hh with ⟨-, -, rfl⟩ | ⟨k', -, hk, rfl, -⟩
    · exact h
    · obtain ⟨k₁, -, rfl⟩ := Kernel.schedTickN_only hk
      exact fun _ => Or.inl (Kernel.settled_triggerIfSwitch _)

theorem switchDue_start (b : Board) (cfg : Config) : (start b cfg).SwitchDue :=
  fun _ => Or.inl (Or.inr rfl)

end Tickless

end TamgaOs
