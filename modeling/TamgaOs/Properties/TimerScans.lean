import TamgaOs.Properties.TimerSchedule

/-!
# The two scans of the timers

`timer_get_next_ready_in_ms` and `timer_service_tick` look at the same table, the one with
`(int32_t)(deadline - now) > 0` and the other with `(int32_t)(now - deadline) >= 0`. The two tests
differ at one distance: a timer whose deadline is `2 ^ 31` ms away is ready for the first and not
due for the second.

## Main definitions

* `Timer.sinceDeadline`: the ms since the deadline, as a 32-bit number.
* `Timers.ScansAgree`: what the length of a sleep promises about the services during it.

## Main results

* `Timers.getNextReadyInMs_spec`: the length is the remaining time of some running timer.
* `timerScans_agree_iff`: when the scans agree, for every table that `timer.c` makes.
-/

namespace TamgaOs

variable {x : Timer} {ts : Timers} {now i j : ℕ}
  {body : TimerCall → Timers → List (ℕ × TimerOp)}

/-! ### The distance of a deadline -/

namespace Timer

/-- `now - deadline_ms`. -/
def sinceDeadline (x : Timer) (now : ℕ) : ℕ := (((now : ℤ) - x.deadlineMs) % 2 ^ 32).toNat

theorem sinceDeadline_lt (x : Timer) (now : ℕ) : x.sinceDeadline now < 2 ^ 32 := by
  unfold sinceDeadline
  omega

theorem sinceDeadline_add (x : Timer) (now j : ℕ) :
    x.sinceDeadline ((now + j) % 2 ^ 32) = (x.sinceDeadline now + j) % 2 ^ 32 := by
  unfold sinceDeadline
  omega

theorem due_iff : x.due now = true ↔ x.sinceDeadline now < 2 ^ 31 := by
  unfold due sinceDeadline
  rw [decide_eq_true_iff, int32Sub_eq]
  split_ifs <;> omega

theorem remainingMs_eq : x.remainingMs now =
    if x.sinceDeadline now ≤ 2 ^ 31 then 0 else 2 ^ 32 - x.sinceDeadline now := by
  unfold remainingMs sinceDeadline
  rw [int32Sub_eq]
  split_ifs <;> omega

theorem remainingMs_lt (x : Timer) (now : ℕ) : x.remainingMs now < 2 ^ 31 := by
  rw [remainingMs_eq]
  split_ifs <;> omega

/-- When the remaining time has passed the timer is due, unless it has been over from the beginning. -/
theorem due_remainingMs (h : 0 < x.remainingMs now) : x.due ((now + x.remainingMs now) % 2 ^ 32) = true := by
  have hlt := x.sinceDeadline_lt now
  rw [due_iff, sinceDeadline_add]
  rw [remainingMs_eq] at h ⊢
  split_ifs at h ⊢ <;> omega

end Timer

/-! ### The two scans -/

namespace Timers

/-- What the result of `timer_get_next_ready_in_ms` says about `timer_service_tick`: no callback runs
before that time has passed, one runs when it has, and none ever does when there is no active timer. -/
structure ScansAgree (ts : Timers) (now : ℕ) : Prop where
  quiet : ∀ j < ts.getNextReadyInMs now, ∀ body, (ts.serviceTickWith body ((now + j) % 2 ^ 32)).2 = []
  ready : ts.getNextReadyInMs now ≠ 0xFFFFFFFF →
    ∀ body, (ts.serviceTickWith body ((now + ts.getNextReadyInMs now) % 2 ^ 32)).2 ≠ []
  never : ts.getNextReadyInMs now = 0xFFFFFFFF →
    (∀ i < timerMaxCount, (ts i).running = false) ∧
      ∀ now' body, (ts.serviceTickWith body now').2 = []

theorem anyDue_iff : ts.anyDue now = true ↔
    ∃ i < timerMaxCount, (ts i).running = true ∧ (ts i).due now = true := by
  simp [anyDue]

/-- Only a table without a due timer leaves the callbacks alone, whatever they would do. -/
theorem serviceTickWith_eq_nil_iff (h : ts.Callable) :
    (ts.serviceTickWith body now).2 = [] ↔ ts.anyDue now = false := by
  have hgrows : ∀ (is : List ℕ) (acc : Timers × List TimerCall), acc.2 ≠ [] →
      (is.foldl (serviceTimerWith body now) acc).2 ≠ [] := by
    intro is
    induction is with
    | nil => exact fun _ hne => hne
    | cons i is ih =>
      intro acc hne
      refine ih _ ?_
      unfold serviceTimerWith
      dsimp only
      split_ifs
      · exact List.append_ne_nil_of_left_ne_nil hne _
      · exact hne
  have hloop : ∀ is : List ℕ, (is.foldl (serviceTimerWith body now) (ts, [])).2 = [] ↔
      (is.any fun i => (ts i).running && (ts i).due now) = false := by
    intro is
    induction is with
    | nil => exact ⟨fun _ => rfl, fun _ => rfl⟩
    | cons i is ih =>
      rw [List.foldl_cons, List.any_cons]
      cases hc : (ts i).running && (ts i).due now with
      | true =>
        -- the callback of a timer in use is called
        have huse : (ts i).inUse = true := by
          simp only [Timer.running, Bool.and_eq_true] at hc
          exact hc.1.1
        obtain ⟨cb, hcb⟩ := Option.isSome_iff_exists.1 (h i huse)
        refine iff_of_false (hgrows is _ ?_) (by simp)
        simp [serviceTimerWith, hc, Timer.calls, hcb]
      | false =>
        rw [serviceTimerWith_of_not_due hc, ih, Bool.false_or]
  exact hloop _

/-- The result is the remaining time of a running timer, or there is none. -/
theorem getNextReadyInMs_spec (ts : Timers) (now : ℕ) :
    (ts.getNextReadyInMs now = 0xFFFFFFFF ∧ ∀ i < timerMaxCount, (ts i).running = false) ∨
    ∃ i < timerMaxCount, (ts i).running = true ∧ (ts i).remainingMs now = ts.getNextReadyInMs now := by
  have hloop : ∀ (is : List ℕ) (soonest : ℕ), is.foldl (ts.nextReady now) soonest = soonest ∨
      ∃ i ∈ is, (ts i).running = true ∧
        (ts i).remainingMs now = is.foldl (ts.nextReady now) soonest := by
    intro is
    induction is with
    | nil => exact fun _ => .inl rfl
    | cons i is ih =>
      intro soonest
      rw [List.foldl_cons]
      rcases ih (ts.nextReady now soonest i) with hkeep | ⟨j, hj, hrest⟩
      · rw [hkeep]
        unfold nextReady
        split_ifs with hrun
        · exact .inr ⟨i, List.mem_cons_self, hrun, rfl⟩
        · exact .inl rfl
        · exact .inl rfl
      · exact .inr ⟨j, List.mem_cons_of_mem i hj, hrest⟩
  rcases hloop (List.range timerMaxCount) 0xFFFFFFFF with hnone | ⟨i, hi, hrest⟩
  · refine .inl ⟨hnone, fun i hi => Bool.eq_false_iff.2 fun hrun => ?_⟩
    have hle : ts.getNextReadyInMs now ≤ (ts i).remainingMs now := getNextReadyInMs_le hi hrun
    have hlt := (ts i).remainingMs_lt now
    rw [getNextReadyInMs, hnone] at hle
    omega
  · exact .inr ⟨i, List.mem_range.1 hi, hrest⟩

/-- The scans agree unless a timer is ready for the one, and none is due for the other. -/
theorem scansAgree_iff (h : ts.Callable) : ts.ScansAgree now ↔
    ((∃ i < timerMaxCount, (ts i).running = true ∧ (ts i).sinceDeadline now = 2 ^ 31) →
      ∃ i < timerMaxCount, (ts i).running = true ∧ (ts i).sinceDeadline now < 2 ^ 31) := by
  constructor
  · rintro hagree ⟨i, hi, hrun, hfar⟩
    have hzero : ts.getNextReadyInMs now = 0 := by
      have hle : ts.getNextReadyInMs now ≤ (ts i).remainingMs now := getNextReadyInMs_le hi hrun
      rw [Timer.remainingMs_eq, if_pos hfar.le] at hle
      exact Nat.le_zero.1 hle
    have hsome := hagree.ready (by rw [hzero]; decide) fun _ _ => []
    rw [ne_eq, serviceTickWith_eq_nil_iff h, Bool.not_eq_false, anyDue_iff, hzero] at hsome
    obtain ⟨j, hj, hrunj, hdue⟩ := hsome
    rw [Timer.due_iff, Timer.sinceDeadline_add] at hdue
    have hlt := (ts j).sinceDeadline_lt now
    exact ⟨j, hj, hrunj, by omega⟩
  · intro hcond
    refine ⟨fun j hj body => (serviceTickWith_eq_nil_iff h).2 (anyDue_of_lt hj), fun hne body => ?_,
      fun hmax => ?_⟩
    · rcases getNextReadyInMs_spec ts now with ⟨hmax, -⟩ | ⟨i, hi, hrun, hremaining⟩
      · exact absurd hmax hne
      rw [ne_eq, serviceTickWith_eq_nil_iff h, Bool.not_eq_false, anyDue_iff, ← hremaining]
      rcases Nat.eq_zero_or_pos ((ts i).remainingMs now) with hzero | hpos
      · -- ready at once: it is due, or another one is
        have hready : (ts i).sinceDeadline now ≤ 2 ^ 31 := by
          have hlt := (ts i).sinceDeadline_lt now
          rw [Timer.remainingMs_eq] at hzero
          split_ifs at hzero <;> omega
        obtain ⟨m, hm, hrunm, hdue⟩ : ∃ m < timerMaxCount, (ts m).running = true ∧
            (ts m).sinceDeadline now < 2 ^ 31 := by
          rcases hready.lt_or_eq with hlt | hfar
          · exact ⟨i, hi, hrun, hlt⟩
          · exact hcond ⟨i, hi, hrun, hfar⟩
        refine ⟨m, hm, hrunm, ?_⟩
        rw [Timer.due_iff, Timer.sinceDeadline_add, hzero]
        omega
      · exact ⟨i, hi, hrun, Timer.due_remainingMs hpos⟩
    · rcases getNextReadyInMs_spec ts now with ⟨-, hnone⟩ | ⟨i, hi, hrun, hremaining⟩
      · refine ⟨hnone, fun now' body => (serviceTickWith_eq_nil_iff h).2 (Bool.eq_false_iff.2 fun hdue => ?_)⟩
        obtain ⟨i, hi, hrun, -⟩ := anyDue_iff.1 hdue
        rw [hnone i hi] at hrun
        cases hrun
      · have hlt := (ts i).remainingMs_lt now
        omega

/-! ### The tables that `timer.c` makes -/

theorem Callable.modify_reload (h : ts.Callable) (i : ℕ) : (ts.modify i Timer.reload).Callable := by
  intro j huse
  by_cases hj : j = i
  · subst hj
    rw [Timers.modify, Function.update_self] at huse ⊢
    unfold Timer.reload at huse ⊢
    split_ifs at huse ⊢ <;> exact h j huse
  · rw [Timers.modify, Function.update_of_ne hj] at huse ⊢
    exact h j huse

theorem Callable.callback {calls : List (ℕ × TimerOp)} (h : ts.Callable) :
    (ts.callback calls).Callable := by
  unfold Timers.callback
  induction calls generalizing ts with
  | nil => exact h
  | cons p calls ih => exact ih h.call

theorem Callable.callbacks {cs : List TimerCall} (h : ts.Callable) :
    (ts.callbacks body cs).Callable := by
  unfold Timers.callbacks
  induction cs generalizing ts with
  | nil => exact h
  | cons c cs ih => exact ih h.callback

theorem Callable.service (h : ts.Callable) (now : ℕ) : (ts.serviceTickWith body now).1.Callable := by
  have hloop : ∀ (is : List ℕ) (acc : Timers × List TimerCall), acc.1.Callable →
      (is.foldl (serviceTimerWith body now) acc).1.Callable := by
    intro is
    induction is with
    | nil => exact fun _ hacc => hacc
    | cons i is ih =>
      intro acc hacc
      refine ih _ ?_
      unfold serviceTimerWith
      dsimp only
      split_ifs
      · exact (hacc.modify_reload i).callbacks
      · exact hacc
  exact hloop _ _ h

end Timers

namespace TimerClock

/-- No timer has been created. -/
def powerOn : TimerClock := ⟨fun _ => {}, 0⟩

theorem callable_of_reach {s : TimerClock} {out : List TimerCall}
    (h : Run.Reach step (fun _ _ => True) powerOn s out) : s.timers.Callable :=
  h.invariant (I := fun s => s.timers.Callable) (fun _ huse => by cases huse) <| by
    rintro s s' a o hI - hs
    cases a with
    | pass =>
      cases hs
      exact hI
    | service body =>
      cases hs
      exact hI.service s.ticks
    | call op =>
      cases hs
      exact hI.call

/-- A timer of `2 ^ 31` ms has been created and started. -/
def farAhead : TimerClock :=
  ⟨(powerOn.timers.call 0 (.create (2 ^ 31) false (some 0x1000) 0)).call 0 (.start 0), 0⟩

theorem reach_farAhead : Run.Reach step (fun _ _ => True) powerOn farAhead [] := by
  have hcreate : step powerOn (.call (.create (2 ^ 31) false (some 0x1000) 0)) =
      some (⟨powerOn.timers.call 0 (.create (2 ^ 31) false (some 0x1000) 0), 0⟩, []) := rfl
  have hstart : step ⟨powerOn.timers.call 0 (.create (2 ^ 31) false (some 0x1000) 0), 0⟩
      (.call (.start 0)) = some (farAhead, []) := rfl
  exact (Run.Reach.init.step trivial hcreate).step trivial hstart

end TimerClock

open TimerClock in
/-- The two scans agree, for every table that the calls, the services and the callbacks make and for
every value of the counter, if and only if no running timer is `2 ^ 31` ms away from its deadline or
some other one is due. -/
theorem timerScans_agree_iff {s : TimerClock} {out : List TimerCall}
    (h : Run.Reach step (fun _ _ => True) powerOn s out) (now : ℕ) :
    s.timers.ScansAgree now ↔
      ((∃ i < timerMaxCount, (s.timers i).running = true ∧ (s.timers i).sinceDeadline now = 2 ^ 31) →
        ∃ i < timerMaxCount, (s.timers i).running = true ∧ (s.timers i).sinceDeadline now < 2 ^ 31) :=
  Timers.scansAgree_iff (callable_of_reach h)

open TimerClock in
/-- One ms after its start a timer of `2 ^ 31` ms is announced and served at its deadline. -/
theorem timerScans_agree_farAhead :
    farAhead.timers.getNextReadyInMs 1 = 2 ^ 31 - 1 ∧ farAhead.timers.ScansAgree 1 :=
  ⟨by decide +kernel,
    (timerScans_agree_iff reach_farAhead 1).2 fun hfar => absurd hfar (by decide +kernel)⟩

open TimerClock in
/-- At its start that timer is ready for `timer_get_next_ready_in_ms`, and no callback runs. -/
theorem timerScans_disagree : Run.Reach step (fun _ _ => True) powerOn farAhead [] ∧
    farAhead.timers.getNextReadyInMs farAhead.ticks = 0 ∧
    (farAhead.timers.serviceTick farAhead.ticks).2 = [] ∧
    ¬farAhead.timers.ScansAgree farAhead.ticks := by
  refine ⟨reach_farAhead, by decide +kernel, by decide +kernel, fun hagree => ?_⟩
  exact absurd (hagree.ready (by decide +kernel) fun _ _ => []) (by decide +kernel)

end TamgaOs
