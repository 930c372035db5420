import TamgaOs.Machine.SysTick
import TamgaOs.Library.Stride

/-!
# Tickless idle and the periodic tick

While no task is ready and the counter is the only source of interrupts, the idle task may count
many ticks at once. Its passes are compared with the same number of calls of the handler, up to the
first tick at which a task becomes ready.

## Main definitions

* `Ticking.ticks`, `Ticking.passes`: both modes.
* `Ticking.Equivalent`: the passes end in the kernel of the ticks, and have made the same calls.
* `Ticking.SwitchApart`: no callback is due at a tick that pends a switch.

## Main results

* `Ticking.ticks_of_lt`: nothing happens within the budget of a pass.
* `ticklessIdle_iff`: the modes are equivalent exactly when switches and callbacks are apart.
* `ticklessIdle_callback_late`: a callback that is due together with a delay.
-/

namespace TamgaOs

open Stride

namespace Ticking

variable (s : Ticking) (b : Board)

/-- `n` ticks by the handler, until a task is ready. -/
def ticks (n : ℕ) (s : Ticking) : Option (Ticking × List TimerCall) :=
  steps sysTickHandler (fun s => s.kernel.Resting) n s

/-- `m` passes of the idle task, until a task is ready. -/
def passes (b : Board) (m : ℕ) (s : Ticking) : Option (Ticking × List TimerCall × ℕ) :=
  Stride.passes (fun s => s.kernel.Resting) (fun s => s.idlePass b) m s

/-- The passes end in the kernel, with the counter, of the ticks that they stand for, and have
called the same callbacks at the same values of the counter. They get to the first tick at which a
task is ready, and up to one sleep before every other tick. -/
structure Equivalent : Prop where
  agrees : ∀ m s' o n, s.passes b m = some (s', o, n) →
    ∃ ts, s.ticks n = some ({ s' with timers := ts }, o)
  reaches : ∀ n s₁ o₁, s.ticks n = some (s₁, o₁) → ∃ m s' o n', s.passes b m = some (s', o, n') ∧
    (s₁.kernel.Resting → n < n' + ticklessMaxSleepMs) ∧ (¬s₁.kernel.Resting → n = n')

/-- At a tick that pends a switch, no callback is called, unless the idle task has had no budget. -/
def SwitchApart : Prop :=
  ∀ n s₁ o₁ s₂ o₂, s.ticks n = some (s₁, o₁) → s.ticks (n + 1) = some (s₂, o₂) →
    0 < s₁.idleBudget →
    (∃ i < s₁.kernel.taskCount, s₁.kernel.expires 1 (.tcb i) = true ∧
      (s₁.kernel.tcb (.tcb i)).priority < 0xFF) →
    s₁.timers.dueCalls ((s₁.kernel.ticks + 1) % 2 ^ 32) (List.range timerMaxCount) = []

variable {s b} {s' : Ticking} {o : List TimerCall} {n j : ℕ}

/-! ### The budget -/

theorem idleBudget_le : s.idleBudget ≤ s.kernel.schedGetNextWakeupMs ∧
    s.idleBudget ≤ s.timers.getNextReadyInMs s.kernel.ticks ∧
    s.idleBudget ≤ ticklessMaxSleepMs := by
  unfold idleBudget
  dsimp only
  split_ifs <;> omega

theorem noneWithin_of_lt (h : j < s.idleBudget) : s.kernel.NoneWithin j := fun _ hi hw =>
  h.trans_le (idleBudget_le.1.trans (Kernel.schedGetNextWakeupMs_le hi hw))

theorem anyDue_of_lt (h : j < s.idleBudget) :
    s.timers.anyDue ((s.kernel.ticks + j) % 2 ^ 32) = false :=
  Timers.anyDue_of_lt (h.trans_le idleBudget_le.2.1)

/-! ### The ticks of a pass -/

/-- The state after `j` ms in which nothing has happened. -/
def later (s : Ticking) (j : ℕ) : Ticking := { s with kernel := (s.kernel.elapse j).advanceClock j }

theorem resting_later (h : s.kernel.Resting) (j : ℕ) : (s.later j).kernel.Resting :=
  (h.elapse j).advanceClock j

/-- The handler after `j` ms in which nothing has happened. -/
theorem sysTickHandler_later (h : j < s.idleBudget) : (s.later j).sysTickHandler =
    ((s.kernel.advanceClock (j + 1)).schedTickN (j + 1)).map fun k =>
      { s with kernel := k }.serviceTick := by
  have hclock : (s.later j).kernel.advanceClock 1 = (s.kernel.elapse j).advanceClock (j + 1) :=
    Kernel.advanceClock_advanceClock
  unfold sysTickHandler Kernel.schedTick
  rw [hclock, Kernel.schedTickN_advanceClock, Kernel.schedTickN_advanceClock,
    Kernel.schedTickN_add (noneWithin_of_lt h)]
  rfl

/-- A tick within the budget changes the clock and the delays only. -/
theorem serviceTick_later (hs : s.kernel.Resting) (h : j < s.idleBudget) :
    (((s.kernel.advanceClock j).schedTickN j).map fun k => { s with kernel := k }.serviceTick) =
      some (s.later j, []) := by
  rw [Kernel.schedTickN_advanceClock, Kernel.schedTickN_elapse hs (noneWithin_of_lt h)]
  have hnone : s.timers.serviceTick (s.later j).kernel.ticks = (s.timers, []) :=
    Timers.serviceTickWith_of_none (anyDue_of_lt h)
  show some (Ticking.serviceTick (s.later j)) = _
  unfold serviceTick
  show some ({ s.later j with timers := (s.timers.serviceTick (s.later j).kernel.ticks).1 },
    (s.timers.serviceTick (s.later j).kernel.ticks).2) = _
  rw [hnone]
  rfl

theorem ticks_one (hs : s.kernel.Resting) : s.ticks 1 = s.sysTickHandler := by
  have hzero : steps sysTickHandler (fun s => s.kernel.Resting) 0 s = some (s, []) := rfl
  unfold ticks
  rw [steps_succ hzero hs]
  simp

/-- As many ticks as the budget of a pass allows. -/
theorem ticks_succ (hs : s.kernel.Resting) : ∀ {j : ℕ}, j < s.idleBudget →
    s.ticks (j + 1) = ((s.kernel.advanceClock (j + 1)).schedTickN (j + 1)).map fun k =>
      { s with kernel := k }.serviceTick
  | 0, _ => ticks_one hs
  | j + 1, h => by
    have ih := ticks_succ hs (Nat.lt_of_succ_lt h)
    rw [serviceTick_later hs h] at ih
    unfold ticks at ih ⊢
    rw [steps_succ ih (resting_later hs _), sysTickHandler_later h, Option.map_map]
    refine congrFun (congrArg Option.map (funext fun k => ?_)) _
    simp

/-- Nothing happens within the budget of a pass. -/
theorem ticks_of_lt (hs : s.kernel.Resting) (hpos : 0 < j) (h : j < s.idleBudget) :
    s.ticks j = some (s.later j, []) := by
  obtain ⟨i, rfl⟩ : ∃ i, j = i + 1 := ⟨j - 1, by omega⟩
  rw [ticks_succ hs (Nat.lt_of_succ_lt h)]
  exact serviceTick_later hs h

/-! ### One pass -/

theorem idlePass_pos {r : Ticking × List TimerCall × ℕ} (h : s.idlePass b = some r) : 0 < r.2.2 := by
  unfold idlePass at h
  split_ifs at h
  · obtain ⟨r', -, rfl⟩ := Option.map_eq_some_iff.1 h
    exact Nat.one_pos
  · obtain ⟨k, -, rfl⟩ := Option.map_eq_some_iff.1 h
    split_ifs
    · exact Board.elapsedMs_pos ..
    · exact Board.elapsedMs_pos ..

/-- A pass and its ticks: the kernel and the counter are the same, and unless the pass has a budget
and pends a switch, so are the timers and the calls. -/
theorem idlePass_spec (hs : s.kernel.Resting) {r : Ticking × List TimerCall × ℕ}
    (h : s.idlePass b = some r) : ∃ ts o, s.ticks r.2.2 = some ({ r.1 with timers := ts }, o) ∧
      ((r.1.kernel.pendsv = true → s.idleBudget = 0) → ts = r.1.timers ∧ o = r.2.1) ∧
      (0 < s.idleBudget → r.2.2 ≤ s.idleBudget ∧ (r.1.kernel.pendsv = true → r.2.1 = [])) := by
  unfold idlePass at h
  split_ifs at h with hzero
  · obtain ⟨r', hr, rfl⟩ := Option.map_eq_some_iff.1 h
    exact ⟨r'.1.timers, r'.2, (ticks_one hs).trans hr, fun _ => ⟨rfl, rfl⟩, fun hpos => by omega⟩
  · obtain ⟨k, hk, rfl⟩ := Option.map_eq_some_iff.1 h
    have hle : b.sleepToExpiry s.idleBudget ≤ s.idleBudget :=
      Board.sleepToExpiry_le (Nat.pos_of_ne_zero hzero) idleBudget_le.2.2
    have hpos : 0 < b.sleepToExpiry s.idleBudget := Board.elapsedMs_pos ..
    have hticks := ticks_succ hs (show b.sleepToExpiry s.idleBudget - 1 < s.idleBudget by omega)
    rw [Nat.sub_add_cancel hpos, hk, Option.map_some] at hticks
    by_cases hpend : k.pendsv = true
    · rw [if_pos hpend]
      exact ⟨_, _, hticks, fun hno => absurd (hno hpend) hzero, fun _ => ⟨hle, fun _ => rfl⟩⟩
    · rw [if_neg hpend]
      exact ⟨_, _, hticks, fun _ => ⟨rfl, rfl⟩, fun _ => ⟨hle, fun hp => absurd hp hpend⟩⟩

/-- The last tick of a pass. -/
theorem ticks_pred (hs : s.kernel.Resting) (hj : j < s.idleBudget) : ∃ s₁,
    s.ticks j = some (s₁, []) ∧ s₁.timers = s.timers ∧ s₁.kernel.Resting ∧ 0 < s₁.idleBudget := by
  by_cases hzero : j = 0
  · subst hzero
    exact ⟨s, rfl, rfl, hs, hj⟩
  · refine ⟨s.later j, ticks_of_lt hs (Nat.pos_of_ne_zero hzero) hj, rfl, resting_later hs j, ?_⟩
    have hwake := Kernel.schedGetNextWakeupMs_pos (s.later j).kernel
    have hready : 0 < (s.later j).timers.getNextReadyInMs (s.later j).kernel.ticks :=
      Timers.getNextReadyInMs_pos fun i hi hrun => Timer.remainingMs_pos_of_lt
        (hj.trans_le (idleBudget_le.2.1.trans (Timers.getNextReadyInMs_le hi hrun)))
    unfold idleBudget ticklessMaxSleepMs
    dsimp only
    split_ifs <;> omega

/-- The calls of a tick. -/
theorem sysTickHandler_calls {r : Ticking × List TimerCall} (h : s.sysTickHandler = some r) :
    (s.kernel.advanceClock 1).schedTickN 1 = some r.1.kernel ∧
      r.2 = s.timers.dueCalls ((s.kernel.ticks + 1) % 2 ^ 32) (List.range timerMaxCount) := by
  obtain ⟨k, hk, rfl⟩ := Option.map_eq_some_iff.1 h
  have hclock : k.ticks = (s.kernel.ticks + 1) % 2 ^ 32 := (SameObjects.schedTickN hk).ticks
  refine ⟨hk, ?_⟩
  show (s.timers.serviceTick k.ticks).2 = _
  rw [Timers.serviceTick_calls, hclock]

/-- A tick while the kernel rests pends a switch when it makes a task ready that can be chosen. -/
theorem pendsv_sysTickHandler (hs : s.kernel.Resting) {r : Ticking × List TimerCall}
    (h : s.sysTickHandler = some r) : r.1.kernel.pendsv = true ↔ ∃ i < s.kernel.taskCount,
      s.kernel.expires 1 (.tcb i) = true ∧ (s.kernel.tcb (.tcb i)).priority < 0xFF := by
  have hclock : (s.kernel.advanceClock 1).Resting := Kernel.Resting.advanceClock hs 1
  have hpend := Kernel.pendsv_schedTickN hclock (sysTickHandler_calls h).1
  exact hpend

/-! ### All passes -/

/-- The same kernel, and the same timers while it rests. -/
def SameKernel (s₁ s₂ : Ticking) : Prop :=
  s₁.kernel = s₂.kernel ∧ (s₂.kernel.Resting → s₁ = s₂)

/-- The inversion of the last tick. -/
theorem ticks_succ_cases {s'' : Ticking} {o' : List TimerCall}
    (h : s.ticks (n + 1) = some (s'', o')) : ∃ s' o r, s.ticks n = some (s', o) ∧
      s'.kernel.Resting ∧ s'.sysTickHandler = some r ∧ s'' = r.1 ∧ o' = o ++ r.2 :=
  steps_succ_cases h

/-- When switches and callbacks are apart, the passes end where their ticks do. -/
theorem SwitchApart.agrees (h : s.SwitchApart) {m : ℕ} (hp : s.passes b m = some (s', o, n)) :
    ∃ ts, s.ticks n = some ({ s' with timers := ts }, o) := by
  have hpass : ∀ m s' o n r, s.passes b m = some (s', o, n) → s.ticks n = some (s', o) →
      s'.kernel.Resting → s'.idlePass b = some r →
      ∃ s'', s'.ticks r.2.2 = some (s'', r.2.1) ∧ SameKernel s'' r.1 := by
    intro m s' o n r _ hsteps hrest hr
    obtain ⟨ts, o', hticks, hsame, hbudget⟩ := idlePass_spec hrest hr
    by_cases hpend : r.1.kernel.pendsv = true → s'.idleBudget = 0
    · obtain ⟨rfl, rfl⟩ := hsame hpend
      exact ⟨r.1, hticks, rfl, fun _ => rfl⟩
    · obtain ⟨hpend, hzero⟩ := Classical.not_imp.1 hpend
      obtain ⟨hle, hnone⟩ := hbudget (Nat.pos_of_ne_zero hzero)
      have hpos : 0 < r.2.2 := idlePass_pos hr
      obtain ⟨j, hj⟩ : ∃ j, r.2.2 = j + 1 := ⟨r.2.2 - 1, by omega⟩
      rw [hj] at hle hticks
      obtain ⟨s₁, hpred, -, hrest₁, hbudget₁⟩ := ticks_pred hrest (by omega : j < s'.idleBudget)
      obtain ⟨s₁', o₁, r', hpred', -, hr', hlast, ho⟩ := ticks_succ_cases hticks
      rw [hpred] at hpred'
      cases hpred'
      -- the tick pends the switch of the pass
      have hpend' : r'.1.kernel.pendsv = true := by
        rw [← hlast]
        exact hpend
      have hready := (pendsv_sysTickHandler hrest₁ hr').1 hpend'
      have hn₁ : s.ticks (n + j) = some (s₁, o ++ []) := by
        unfold ticks at hpred ⊢
        rw [steps_add hsteps, hpred]
        rfl
      have hn₂ : s.ticks (n + j + 1) = some (r'.1, o ++ [] ++ r'.2) := by
        unfold ticks at hn₁ ⊢
        rw [steps_succ hn₁ hrest₁, hr']
        rfl
      have hcalls := h (n + j) _ _ _ _ hn₁ hn₂ hbudget₁ hready
      rw [← (sysTickHandler_calls hr').2] at hcalls
      refine ⟨{ r.1 with timers := ts }, ?_, rfl, fun hr => ?_⟩
      · rw [hj, hticks, ho, hcalls, hnone hpend]
        rfl
      · rw [hr.pendsv] at hpend
        cases hpend
  obtain ⟨s'', hsteps, hkernel, -⟩ := steps_of_passes (R := SameKernel) (fun s => ⟨rfl, fun _ => rfl⟩)
    (fun _ _ hR hr => hR.2 hr) hpass hp
  refine ⟨s''.timers, ?_⟩
  show steps _ _ n s = _
  rw [hsteps, ← hkernel]

/-- A pass that ends at rest ends where its ticks do. -/
theorem idlePass_agree (hs : s.kernel.Resting) {r : Ticking × List TimerCall × ℕ}
    (h : s.idlePass b = some r) {s'' : Ticking} (hticks : s.ticks r.2.2 = some (s'', o))
    (hrest : s''.kernel.Resting) : r.1 = s'' ∧ r.2.1 = o := by
  obtain ⟨ts, o', hticks', hsame, -⟩ := idlePass_spec hs h
  rw [hticks] at hticks'
  cases hticks'
  have hpend : r.1.kernel.pendsv = false := hrest.pendsv
  obtain ⟨rfl, rfl⟩ := hsame fun hp => by
    rw [hpend] at hp
    cases hp
  exact ⟨rfl, rfl⟩

/-- The length of a pass. -/
def passLength (s : Ticking) (b : Board) : ℕ :=
  if s.idleBudget = 0 then 1 else b.sleepToExpiry s.idleBudget

theorem passLength_le : s.passLength b ≤ ticklessMaxSleepMs := by
  unfold passLength
  split_ifs with hzero
  · decide
  · exact (Board.sleepToExpiry_le (Nat.pos_of_ne_zero hzero) idleBudget_le.2.2).trans
      idleBudget_le.2.2

/-- A pass is defined when its ticks are. -/
theorem idlePass_isSome (hs : s.kernel.Resting) (h : (s.ticks (s.passLength b)).isSome = true) :
    ∃ r, s.idlePass b = some r ∧ r.2.2 = s.passLength b := by
  unfold passLength at h ⊢
  unfold idlePass
  split_ifs at h ⊢ with hzero
  · rw [ticks_one hs] at h
    obtain ⟨r, hr⟩ := Option.isSome_iff_exists.1 h
    exact ⟨(r.1, r.2, 1), by rw [hr]; rfl, rfl⟩
  · have hle : b.sleepToExpiry s.idleBudget ≤ s.idleBudget :=
      Board.sleepToExpiry_le (Nat.pos_of_ne_zero hzero) idleBudget_le.2.2
    have hlen : 0 < b.sleepToExpiry s.idleBudget := Board.elapsedMs_pos ..
    have hticks := ticks_succ hs (show b.sleepToExpiry s.idleBudget - 1 < s.idleBudget by omega)
    rw [Nat.sub_add_cancel hlen] at hticks
    rw [hticks, Option.isSome_map] at h
    obtain ⟨k, hk⟩ := Option.isSome_iff_exists.1 h
    dsimp only
    rw [hk, Option.map_some]
    refine ⟨_, rfl, ?_⟩
    split_ifs <;> rfl

/-- A pass is not longer than the time until a task is ready. -/
theorem passLength_le_of_ready (hs : s.kernel.Resting) {s'' : Ticking} (hpos : 0 < j)
    (h : s.ticks j = some (s'', o)) (hready : ¬s''.kernel.Resting) : s.passLength b ≤ j := by
  unfold passLength
  split_ifs with hzero
  · exact hpos
  · refine (Board.sleepToExpiry_le (Nat.pos_of_ne_zero hzero) idleBudget_le.2.2).trans ?_
    by_contra hlt
    rw [ticks_of_lt hs hpos (Nat.lt_of_not_le hlt)] at h
    cases h
    exact hready (resting_later hs j)

theorem ticks_isSome_of_le {s'' : Ticking} (h : s.ticks n = some (s'', o)) (hle : j ≤ n) :
    (s.ticks j).isSome = true := by
  by_cases hlast : j = n
  · rw [hlast, h]
    rfl
  · have hsome : (s.ticks n).isSome = true := by
      rw [h]
      rfl
    obtain ⟨s₄, o₄, hs₄, -⟩ := rest_of_steps hsome (by omega : j < n)
    show (steps _ _ j s).isSome = true
    rw [hs₄]
    rfl

/-- The last passes before a state at rest. The next one gets beyond it. -/
theorem exists_passes_before {s₁ : Ticking} {o₁ : List TimerCall} (h : s.ticks n = some (s₁, o₁))
    (hrest : s₁.kernel.Resting) : ∃ m s₃ o₃ n₃ j o, s.passes b m = some (s₃, o₃, n₃) ∧
      s.ticks n₃ = some (s₃, o₃) ∧ s₃.kernel.Resting ∧ n = n₃ + j ∧ j < s₃.passLength b ∧
        s₃.ticks j = some (s₁, o) ∧ o₁ = o₃ ++ o := by
  have hpos : ∀ (s : Ticking) r, s.kernel.Resting → s.idlePass b = some r → 0 < r.2.2 :=
    fun _ _ _ hr => idlePass_pos hr
  have hagree : ∀ (s : Ticking) r s'' o, s.kernel.Resting → s.idlePass b = some r →
      s.ticks r.2.2 = some (s'', o) → s''.kernel.Resting → r.1 = s'' ∧ r.2.1 = o :=
    fun _ _ _ _ hs hr hticks hrest => idlePass_agree hs hr hticks hrest
  obtain ⟨m, s₃, o₃, n₃, hp, hs₃, hrest₃, hle, hbeyond⟩ := exists_passes hpos hagree h hrest
  obtain ⟨j, rfl⟩ : ∃ j, n = n₃ + j := ⟨n - n₃, by omega⟩
  unfold ticks at h
  rw [steps_add hs₃] at h
  obtain ⟨r, hr, he⟩ := Option.map_eq_some_iff.1 h
  cases he
  have hlt : j < s₃.passLength b := by
    by_contra hge
    obtain ⟨r', hr', hlen⟩ := idlePass_isSome hrest₃
      (ticks_isSome_of_le (show s₃.ticks j = some r from hr) (Nat.le_of_not_lt hge))
    have hnext := hbeyond r' hr'
    omega
  exact ⟨m, s₃, o₃, n₃, j, r.2, hp, hs₃, hrest₃, rfl, hlt, hr, rfl⟩

/-- The pass that ends at the tick at which a task becomes ready. -/
theorem exists_pass_onto {s₁ : Ticking} {o₁ : List TimerCall} {r : Ticking × List TimerCall}
    (h : s.ticks n = some (s₁, o₁)) (hrest : s₁.kernel.Resting) (hr : s₁.sysTickHandler = some r)
    (hready : ¬r.1.kernel.Resting) : ∃ m s₃ o₃ j o r', s.passes b m = some (s₃, o₃, n - j) ∧
      j ≤ n ∧ s₃.kernel.Resting ∧ s₃.ticks j = some (s₁, o) ∧ o₁ = o₃ ++ o ∧
      s₃.idlePass b = some r' ∧ r'.2.2 = j + 1 := by
  obtain ⟨m, s₃, o₃, n₃, j, o, hp, -, hrest₃, rfl, hlt, hj, ho⟩ := exists_passes_before (b := b) h hrest
  have hj' : s₃.ticks (j + 1) = some (r.1, o ++ r.2) := by
    unfold ticks at hj ⊢
    rw [steps_succ hj hrest, hr]
    rfl
  have hle : s₃.passLength b ≤ j + 1 := passLength_le_of_ready hrest₃ (Nat.succ_pos j) hj' hready
  obtain ⟨r', hr', hlen⟩ := idlePass_isSome hrest₃ (ticks_isSome_of_le hj' hle)
  refine ⟨m, s₃, o₃, j, o, r', ?_, by omega, hrest₃, hj, ho, hr', by omega⟩
  rw [Nat.add_sub_cancel]
  exact hp

/-- The passes get as far as the ticks. -/
theorem passes_reach (hs : s.kernel.Resting) {s₁ : Ticking} {o₁ : List TimerCall}
    (h : s.ticks n = some (s₁, o₁)) : ∃ m s' o n', s.passes b m = some (s', o, n') ∧
      (s₁.kernel.Resting → n < n' + ticklessMaxSleepMs) ∧ (¬s₁.kernel.Resting → n = n') := by
  by_cases hrest : s₁.kernel.Resting
  · obtain ⟨m, s₃, o₃, n₃, j, o, hp, -, -, rfl, hlt, -⟩ := exists_passes_before (b := b) h hrest
    have hmax := s₃.passLength_le (b := b)
    exact ⟨m, s₃, o₃, n₃, hp, fun _ => by omega, fun hn => absurd hrest hn⟩
  · cases n with
    | zero =>
      cases h
      exact absurd hs hrest
    | succ n =>
      obtain ⟨s', o, r, hn, hrest', hr, rfl, rfl⟩ := ticks_succ_cases h
      obtain ⟨m, s₃, o₃, j, o', r', hp, hle, hrest₃, -, -, hr', hlen⟩ :=
        exists_pass_onto (b := b) hn hrest' hr hrest
      refine ⟨m + 1, r'.1, o₃ ++ r'.2.1, n - j + r'.2.2, ?_, fun hn => absurd hn hrest,
        fun _ => by omega⟩
      unfold passes
      rw [passes_succ hp hrest₃, hr']
      rfl

/-- When the passes end where their ticks do, switches and callbacks are apart. -/
theorem Equivalent.switchApart (h : s.Equivalent b) : s.SwitchApart := by
  intro n s₁ o₁ s₂ o₂ hn hn' hbudget hready
  obtain ⟨s₁', o₁', r, hpred, hrest, hr, rfl, rfl⟩ := ticks_succ_cases hn'
  rw [hn] at hpred
  cases hpred
  have hpend : r.1.kernel.pendsv = true := (pendsv_sysTickHandler hrest hr).2 hready
  have hnot : ¬r.1.kernel.Resting := fun hrest' => by
    rw [hrest'.pendsv] at hpend
    cases hpend
  obtain ⟨m, s₃, o₃, j, o, r', hp, hle, hrest₃, hj, rfl, hr', hlen⟩ :=
    exists_pass_onto (b := b) hn hrest hr hnot
  have hj' : s₃.ticks (j + 1) = some (r.1, o ++ r.2) := by
    unfold ticks at hj ⊢
    rw [steps_succ hj hrest, hr]
    rfl
  obtain ⟨ts, o₄, hticks, -, hquiet⟩ := idlePass_spec hrest₃ hr'
  rw [hlen, hj'] at hticks
  obtain ⟨hkernel, -⟩ := Prod.mk.inj (Option.some.inj hticks)
  have hbudget₃ : 0 < s₃.idleBudget := by
    by_contra hzero
    -- such a pass is one tick, and starts in the state before it
    have hlen₁ : r'.2.2 = 1 := by
      unfold idlePass at hr'
      rw [if_pos (by omega)] at hr'
      obtain ⟨_, -, rfl⟩ := Option.map_eq_some_iff.1 hr'
      rfl
    obtain rfl : j = 0 := by omega
    cases hj
    omega
  -- the pass pends the switch, and so has called nothing
  have hcalls : r'.2.1 = [] := (hquiet hbudget₃).2 (by
    rw [hkernel] at hpend
    exact hpend)
  have hpasses : s.passes b (m + 1) = some (r'.1, o₃ ++ r'.2.1, n - j + r'.2.2) := by
    unfold passes
    rw [passes_succ hp hrest₃, hr']
    rfl
  obtain ⟨ts', hts'⟩ := h.agrees (m + 1) _ _ _ hpasses
  rw [hlen, show n - j + (j + 1) = n + 1 by omega, hn', hcalls, List.append_nil,
    List.append_assoc] at hts'
  have ho := (Prod.mk.inj (Option.some.inj hts')).2
  have hnil : o ++ r.2 = [] := List.append_right_eq_self.1 ho
  rw [← (sysTickHandler_calls hr).2]
  exact (List.append_eq_nil_iff.1 hnil).2

/-- Without running timers, switches and callbacks are apart. -/
theorem SwitchApart.of_not_running (h : ∀ i, (s.timers i).running = false) : s.SwitchApart := by
  have hnone : ∀ ts : Timers, (∀ i, (ts i).running = false) → ∀ now, ts.anyDue now = false := by
    intro ts hts now
    unfold Timers.anyDue
    rw [List.any_eq_false]
    intro i _
    rw [hts i]
    simp
  have hkeep : ∀ n s₁ o₁, s.ticks n = some (s₁, o₁) → ∀ i, (s₁.timers i).running = false := by
    intro n
    induction n with
    | zero =>
      intro s₁ o₁ hn
      cases hn
      exact h
    | succ n ih =>
      intro s₂ o₂ hn
      obtain ⟨s₁, o₁, r, hpred, -, hr, rfl, rfl⟩ := ticks_succ_cases hn
      obtain ⟨k, -, rfl⟩ := Option.map_eq_some_iff.1 hr
      show ∀ i, ((s₁.timers.serviceTick k.ticks).1 i).running = false
      rw [Timers.serviceTick, Timers.serviceTickWith_of_none (hnone _ (ih _ _ hpred) _)]
      exact ih _ _ hpred
  intro n s₁ o₁ s₂ o₂ hn _ _ _
  unfold Timers.dueCalls
  rw [List.flatMap_eq_nil_iff]
  intro i _
  rw [hkeep n _ _ hn i]
  rfl

end Ticking

/-! ### Both modes -/

/-- Tickless idle is equivalent to ticking exactly when no callback is due at a tick that pends a
switch: the switch is taken before `timer_service_tick`, which the handler runs first. -/
theorem ticklessIdle_iff (b : Board) (s : Ticking) (hs : s.kernel.Resting) :
    s.Equivalent b ↔ s.SwitchApart :=
  ⟨fun h => h.switchApart, fun h => ⟨fun _ _ _ _ hp => h.agrees hp, fun _ _ _ => Ticking.passes_reach hs⟩⟩

/-- A task has called `sched_delay_ms(5)`, and the idle task runs. -/
def delayedTask : Scenario where
  config := { priorities := [1] }
  actions := [.call (.schedDelayMs 5), .exec, .exec, .pendSV]
  possible := by decide +kernel

/-- The delay, and no timer. -/
theorem ticklessIdle_delay : Ticking.Equivalent ⟨delayedTask.final.kernel, fun _ => {}⟩ .k64f :=
  (ticklessIdle_iff .k64f ⟨delayedTask.final.kernel, fun _ => {}⟩ (by decide +kernel)).2
    (.of_not_running fun _ => rfl)

/-- The delay, and a timer that is due in the same millisecond. -/
def delayAndTimer : Ticking where
  kernel := delayedTask.final.kernel
  timers i :=
    if i = 0 then { inUse := true, active := true, periodMs := 5, deadlineMs := 5, callback := some 0 }
    else {}

/-- The handler calls the callback at the tick 5. The pass of the idle task has not called it when
the task runs. -/
theorem ticklessIdle_callback_late : delayAndTimer.kernel.Resting ∧
    ∀ b, ¬delayAndTimer.Equivalent b := by
  refine ⟨by decide +kernel, fun b h => ?_⟩
  have hticks : (delayAndTimer.ticks 5).map Prod.snd = some [⟨0, 0, 0, 5⟩] := by decide +kernel
  have hpass : (delayAndTimer.passes b 1).map Prod.snd = some ([], 5) := by
    cases b <;> decide +kernel
  obtain ⟨r, hr, ho⟩ := Option.map_eq_some_iff.1 hpass
  obtain ⟨ts, hts⟩ := h.agrees 1 r.1 r.2.1 r.2.2 hr
  rw [ho] at hts
  rw [hts] at hticks
  cases hticks

end TamgaOs
