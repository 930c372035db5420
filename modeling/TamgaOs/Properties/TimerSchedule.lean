import TamgaOs.Kernel.Timer
import TamgaOs.Library.Run

/-!
# The schedule of a timer

A timer that was started once is served while the counter passes ms after ms, wraps, and the other
timers and their callbacks do what they like. Nobody operates on this timer. Its deadline is always
one period after its last scheduled one, so that neither late nor missing services shift it.

## Main definitions

* `TimerClock`, `TimerClock.step`: the table and the counter; the ms, the services, and the calls of
  the application.
* `TimerRecord`: what has happened since the start.
* `Timer.expected`: the calls that the schedule asks for.
* `TimerClock.Prompt`, `TimerClock.InReach`: one service for each ms; never half of the range late.

## Main results

* `timer_on_schedule`: the number of calls under both conditions.
-/

namespace TamgaOs

/-- The table and the ms counter. -/
structure TimerClock where
  timers : Timers
  ticks : ℕ

/-- What happens to the timers: a ms passes, `timer_service_tick` is called, and its callbacks make
the calls `body`, or the application makes a call. -/
inductive ClockAction
  | pass
  | service (body : TimerCall → Timers → List (ℕ × TimerOp))
  | call (op : TimerOp)

/-- What has happened since the start of a timer. -/
structure TimerRecord where
  /-- The ms that have passed. -/
  elapsed : ℕ := 0
  /-- The ms that have passed since the last service. -/
  unserved : ℕ := 0
  /-- The calls of the callback. -/
  fires : ℕ := 0

/-- The calls of the callback that are due `elapsed` ms after the start. -/
def Timer.expected (x : Timer) (elapsed : ℕ) : ℕ :=
  if x.autoReload then elapsed / x.periodMs else min 1 (elapsed / x.periodMs)

namespace ClockAction

/-- The action does not operate on the timer at the index `j`. -/
def Spares (j : ℕ) : ClockAction → Prop
  | pass => True
  | service body => Timers.BodySpares j body
  | call op => op.Spares j

end ClockAction

namespace TimerClock

/-- A step, with the calls of the callbacks. -/
def step (s : TimerClock) : ClockAction → Option (TimerClock × List TimerCall)
  | .pass => some ({ s with ticks := (s.ticks + 1) % 2 ^ 32 }, [])
  | .service body =>
    let r := s.timers.serviceTickWith body s.ticks
    some ({ s with timers := r.1 }, r.2)
  | .call op => some ({ s with timers := s.timers.call s.ticks op }, [])

/-- The record of the timer at the index `j` after a step. -/
def note (j : ℕ) (_ : TimerClock) (a : ClockAction) (o : List TimerCall) (r : TimerRecord) :
    TimerRecord :=
  match a with
  | .pass => { r with elapsed := r.elapsed + 1, unserved := r.unserved + 1 }
  | .service _ =>
    { r with unserved := 0, fires := r.fires + o.countP fun c => decide (c.index = j) }
  | .call _ => r

/-- The clock with the record of the timer at the index `j`. -/
def recorded (j : ℕ) :
    TimerClock × TimerRecord → ClockAction → Option ((TimerClock × TimerRecord) × List TimerCall) :=
  Run.annotate step (note j)

/-- The clock when the timer `handle` has been started. -/
def started (ts : Timers) (now : ℕ) (handle : ℤ) : TimerClock × TimerRecord :=
  (⟨ts.start now handle, now⟩, {})

/-- Every ms is served before the next one. -/
def Served (p : TimerClock × TimerRecord) : ClockAction → Prop
  | .pass => p.2.unserved = 0
  | _ => True

instance (p : TimerClock × TimerRecord) : DecidablePred (Served p) := fun a => by
  cases a <;> unfold Served <;> infer_instance

/-- Nobody operates on the timer, and every ms is served before the next one. -/
def Prompt (j : ℕ) (p : TimerClock × TimerRecord) (a : ClockAction) : Prop :=
  a.Spares j ∧ Served p a

/-- Nobody operates on the timer, and when it is served its deadline is not `2 ^ 31` ms ago. -/
def InReach (j : ℕ) (p : TimerClock × TimerRecord) (a : ClockAction) : Prop :=
  a.Spares j ∧ match a with
    | .service _ => (p.1.timers j).active = true →
      p.2.elapsed < (p.2.fires + 1) * (p.1.timers j).periodMs + 2 ^ 31
    | _ => True

/-- `y` is the timer `x`, started when the counter was `now`, at a time when it is `ticks`: its
deadline is one period later than its calls say, and it has not been called too often. -/
structure OnSchedule (x : Timer) (now ticks : ℕ) (y : Timer) (r : TimerRecord) : Prop where
  inUse : y.inUse = true
  callback : y.callback = x.callback
  autoReload : y.autoReload = x.autoReload
  periodMs : y.periodMs = x.periodMs
  active : y.active = true ↔ x.autoReload = true ∨ r.fires = 0
  deadline : y.active = true →
    y.deadlineMs % 2 ^ 32 = (now + (r.fires + 1) * x.periodMs) % 2 ^ 32
  ticks : ticks % 2 ^ 32 = (now + r.elapsed) % 2 ^ 32
  oneShot : x.autoReload = false → r.fires ≤ 1
  notEarly : r.fires * x.periodMs ≤ r.elapsed

variable {j now ticks : ℕ} {x y : Timer} {s s' : TimerClock} {r r' : TimerRecord} {a : ClockAction}
  {o : List TimerCall}

/-! ### The number of calls -/

theorem OnSchedule.le_expected (h : OnSchedule x now ticks y r) (hpos : 0 < x.periodMs) :
    r.fires ≤ x.expected r.elapsed := by
  have hle : r.fires ≤ r.elapsed / x.periodMs := (Nat.le_div_iff_mul_le hpos).2 h.notEarly
  unfold Timer.expected
  split_ifs with hauto
  · exact hle
  · exact Nat.le_min.2 ⟨h.oneShot (Bool.eq_false_iff.2 hauto), hle⟩

/-- The timer is due when its next deadline has passed. -/
theorem OnSchedule.due_iff (h : OnSchedule x now ticks y r) (hactive : y.active = true)
    (hlong : x.periodMs < 2 ^ 31) (hlate : r.elapsed < (r.fires + 1) * y.periodMs + 2 ^ 31) :
    y.due ticks = true ↔ (r.fires + 1) * x.periodMs ≤ r.elapsed := by
  have hdeadline := h.deadline hactive
  have hticks := h.ticks
  have hearly := h.notEarly
  have hnext : (r.fires + 1) * x.periodMs = r.fires * x.periodMs + x.periodMs := Nat.succ_mul ..
  rw [Timer.due, decide_eq_true_iff, int32Sub_eq]
  rw [h.periodMs, hnext] at hlate
  rw [hnext] at hdeadline ⊢
  generalize r.fires * x.periodMs = served at hdeadline hlate hearly ⊢
  split_ifs <;> omega

/-- One more call is due when the schedule asks for it. -/
theorem OnSchedule.next_iff (h : OnSchedule x now ticks y r) (hpos : 0 < x.periodMs) :
    y.active = true ∧ (r.fires + 1) * x.periodMs ≤ r.elapsed ↔
      r.fires + 1 ≤ x.expected r.elapsed := by
  have hnext : r.fires + 1 ≤ r.elapsed / x.periodMs ↔ (r.fires + 1) * x.periodMs ≤ r.elapsed :=
    Nat.le_div_iff_mul_le hpos
  rw [← hnext, h.active]
  unfold Timer.expected
  cases hauto : x.autoReload with
  | true => simp
  | false =>
    simp only [Bool.false_eq_true, false_or, if_false]
    omega

/-! ### One step -/

/-- The timer is as it was, and has not been called. -/
theorem OnSchedule.same {ticks' : ℕ} (h : OnSchedule x now ticks y r)
    (hticks : ticks' % 2 ^ 32 = (now + r'.elapsed) % 2 ^ 32) (hfires : r'.fires = r.fires)
    (hle : r.elapsed ≤ r'.elapsed) : OnSchedule x now ticks' y r' where
  inUse := h.inUse
  callback := h.callback
  autoReload := h.autoReload
  periodMs := h.periodMs
  active := by rw [hfires]; exact h.active
  deadline := by rw [hfires]; exact h.deadline
  ticks := hticks
  oneShot := by rw [hfires]; exact h.oneShot
  notEarly := by rw [hfires]; exact h.notEarly.trans hle

/-- The timer has been called: its deadline is one period later, or it is not active any more. -/
theorem OnSchedule.reload (h : OnSchedule x now ticks y r) (hactive : y.active = true)
    (hover : (r.fires + 1) * x.periodMs ≤ r.elapsed) (hfires : r'.fires = r.fires + 1)
    (helapsed : r'.elapsed = r.elapsed) : OnSchedule x now ticks y.reload r' := by
  have hdeadline := h.deadline hactive
  have hticks := h.ticks
  cases hauto : x.autoReload with
  | true =>
    have hreload : y.reload = { y with deadlineMs := (y.deadlineMs + y.periodMs) % 2 ^ 32 } :=
      if_pos (h.autoReload.trans hauto)
    have hnext : (r.fires + 1 + 1) * x.periodMs = (r.fires + 1) * x.periodMs + x.periodMs :=
      Nat.succ_mul ..
    rw [hreload]
    refine ⟨h.inUse, h.callback, h.autoReload, h.periodMs, ⟨fun _ => Or.inl hauto, fun _ => hactive⟩,
      fun _ => ?_, by rw [helapsed]; exact hticks, fun hno => ?_, by rw [hfires, helapsed]; exact hover⟩
    · rw [hfires, hnext]
      show (y.deadlineMs + y.periodMs) % 2 ^ 32 % 2 ^ 32 = _
      rw [h.periodMs]
      omega
    · rw [hauto] at hno
      cases hno
  | false =>
    have hreload : y.reload = { y with active := false } :=
      if_neg (by rw [h.autoReload, hauto]; exact Bool.false_ne_true)
    have hzero : r.fires = 0 := by
      have hcause := h.active.1 hactive
      rw [hauto] at hcause
      exact hcause.resolve_left Bool.false_ne_true
    rw [hreload]
    refine ⟨h.inUse, h.callback, h.autoReload, h.periodMs, ?_, fun hno => (by cases hno),
      by rw [helapsed]; exact hticks, fun _ => by omega, by rw [hfires, helapsed]; exact hover⟩
    rw [hfires, hauto]
    simp

theorem recorded_eq_some (h : recorded j (s, r) a = some ((s', r'), o)) :
    s.step a = some (s', o) ∧ r' = note j s a o r := Run.annotate_eq_some.1 h

/-- A service calls the callback once if the next deadline has passed, and not at all before. -/
theorem OnSchedule.service {body : TimerCall → Timers → List (ℕ × TimerOp)}
    (h : OnSchedule x now s.ticks (s.timers j) r) (hj : j < timerMaxCount)
    (hsome : x.callback.isSome) (hpos : 0 < x.periodMs) (hlong : x.periodMs < 2 ^ 31)
    (hok : InReach j (s, r) (.service body))
    (hs : recorded j (s, r) (.service body) = some ((s', r'), o)) :
    OnSchedule x now s'.ticks (s'.timers j) r' ∧ r'.elapsed = r.elapsed ∧
      r'.fires = min (r.fires + 1) (x.expected r.elapsed) := by
  obtain ⟨hstep, rfl⟩ := recorded_eq_some hs
  obtain ⟨hspares, hlate⟩ := hok
  cases hstep
  obtain ⟨htimer, hcount⟩ := Timers.serviceTickWith_timer hspares hj h.inUse s.ticks
  have hle := h.le_expected hpos
  have hcall : (s.timers j).running = true ∧ (s.timers j).due s.ticks = true ↔
      r.fires + 1 ≤ x.expected r.elapsed := by
    rw [← h.next_iff hpos, Timer.running, h.inUse, Bool.true_and]
    exact and_congr_right fun hactive => h.due_iff hactive hlong (hlate hactive)
  have hfires : (note j s (.service body) (s.timers.serviceTickWith body s.ticks).2 r).fires =
      r.fires + if r.fires + 1 ≤ x.expected r.elapsed then 1 else 0 := by
    rw [note, hcount, h.callback, hsome]
    simp only [hcall, Bool.toNat_true]
  refine ⟨?_, rfl, by rw [hfires]; split_ifs <;> omega⟩
  show OnSchedule x now s.ticks ((s.timers.serviceTickWith body s.ticks).1 j) _
  rw [htimer]
  split_ifs with hc
  · obtain ⟨hactive, hover⟩ := (h.next_iff hpos).2 (hcall.1 hc)
    exact h.reload hactive hover (by rw [hfires, if_pos (hcall.1 hc)]) rfl
  · exact h.same h.ticks (by rw [hfires, if_neg fun h => hc (hcall.2 h)]; rfl) le_rfl

theorem OnSchedule.step (h : OnSchedule x now s.ticks (s.timers j) r) (hj : j < timerMaxCount)
    (hsome : x.callback.isSome) (hpos : 0 < x.periodMs) (hlong : x.periodMs < 2 ^ 31)
    (hok : InReach j (s, r) a) (hs : recorded j (s, r) a = some ((s', r'), o)) :
    OnSchedule x now s'.ticks (s'.timers j) r' := by
  cases a with
  | pass =>
    obtain ⟨hstep, rfl⟩ := recorded_eq_some hs
    cases hstep
    have hticks := h.ticks
    refine h.same ?_ rfl (Nat.le_succ _)
    show (s.ticks + 1) % 2 ^ 32 % 2 ^ 32 = (now + (r.elapsed + 1)) % 2 ^ 32
    omega
  | service body => exact (h.service hj hsome hpos hlong hok hs).1
  | call op =>
    obtain ⟨hstep, rfl⟩ := recorded_eq_some hs
    cases hstep
    show OnSchedule x now s.ticks (s.timers.call s.ticks op j) _
    rw [Timers.call_of_spares hok.1 h.inUse]
    exact h

/-! ### Runs -/

section Runs

variable {ts : Timers} {handle : ℤ} {out : List TimerCall}

theorem OnSchedule.start (hslot : ts.slotOf handle = some j) :
    OnSchedule (ts j) now now ((ts.start now handle) j) {} := by
  obtain ⟨-, -, huse⟩ := Timers.slotOf_eq_some hslot
  have htimer : ts.start now handle j =
      { ts j with deadlineMs := (now + (ts j).periodMs) % 2 ^ 32, active := true } :=
    (Timers.onHandle_timer handle _).trans (if_pos hslot)
  rw [htimer]
  refine ⟨huse, rfl, rfl, rfl, by simp, fun _ => by simp, rfl, fun _ => Nat.zero_le _, ?_⟩
  exact (Nat.zero_mul _).le

/-- A timer in reach stays on its schedule. -/
theorem OnSchedule.of_reach (hslot : ts.slotOf handle = some j) (hsome : (ts j).callback.isSome)
    (hpos : 0 < (ts j).periodMs) (hlong : (ts j).periodMs < 2 ^ 31)
    (h : Run.Reach (recorded j) (InReach j) (started ts now handle) (s, r) out) :
    OnSchedule (ts j) now s.ticks (s.timers j) r :=
  h.invariant (I := fun p => OnSchedule (ts j) now p.1.ticks (p.1.timers j) p.2) (.start hslot) <| by
    rintro ⟨s, r⟩ ⟨s', r'⟩ a o hI hok hs
    exact hI.step (Timers.slotOf_eq_some hslot).2.1 hsome hpos hlong hok hs

/-- The timer has been called as often as the schedule asks for, but for the last ms perhaps. -/
structure UpToDate (x : Timer) (r : TimerRecord) : Prop where
  unserved : r.unserved ≤ 1
  le_elapsed : r.unserved ≤ r.elapsed
  fires : r.fires = x.expected (r.elapsed - r.unserved)

/-- A timer that is up to date is not late. -/
theorem UpToDate.inReach (h : UpToDate x r)
    (hs : OnSchedule x now s.ticks (s.timers j) r) (hpos : 0 < x.periodMs)
    (hok : Prompt j (s, r) a) : InReach j (s, r) a := by
  refine ⟨hok.1, ?_⟩
  cases a with
  | pass => trivial
  | call => trivial
  | service body =>
    intro hactive
    obtain ⟨hunserved, hle, hfires⟩ := h
    have hlt : (r.elapsed - r.unserved) / x.periodMs < r.fires + 1 := by
      rcases hs.active.1 hactive with hauto | hzero
      · rw [hfires, Timer.expected, if_pos hauto]
        exact Nat.lt_succ_self _
      · rw [hzero] at hfires ⊢
        unfold Timer.expected at hfires
        split_ifs at hfires <;> omega
    have hend : r.elapsed - r.unserved < (r.fires + 1) * x.periodMs :=
      (Nat.div_lt_iff_lt_mul hpos).1 hlt
    show r.elapsed < (r.fires + 1) * (s.timers j).periodMs + 2 ^ 31
    rw [hs.periodMs]
    omega

theorem UpToDate.step (h : UpToDate x r) (hs : OnSchedule x now s.ticks (s.timers j) r)
    (hj : j < timerMaxCount) (hsome : x.callback.isSome) (hpos : 0 < x.periodMs) (hlong : x.periodMs < 2 ^ 31)
    (hok : Prompt j (s, r) a) (hstep : recorded j (s, r) a = some ((s', r'), o)) :
    UpToDate x r' := by
  cases a with
  | pass =>
    obtain ⟨-, rfl⟩ := recorded_eq_some hstep
    have hzero : r.unserved = 0 := hok.2
    have hfires := h.fires
    rw [hzero] at hfires
    refine ⟨?_, ?_, ?_⟩
    · show r.unserved + 1 ≤ 1
      omega
    · show r.unserved + 1 ≤ r.elapsed + 1
      omega
    · show r.fires = x.expected (r.elapsed + 1 - (r.unserved + 1))
      rw [hfires, hzero]
      rfl
  | call =>
    obtain ⟨-, rfl⟩ := recorded_eq_some hstep
    exact h
  | service body =>
    obtain ⟨-, helapsed, hfires⟩ := hs.service hj hsome hpos hlong (h.inReach hs hpos hok) hstep
    obtain ⟨-, rfl⟩ := recorded_eq_some hstep
    refine ⟨Nat.zero_le _, Nat.zero_le _, ?_⟩
    rw [hfires]
    show min (r.fires + 1) (x.expected r.elapsed) = x.expected (r.elapsed - 0)
    -- one ms is at most one period more
    have hnext : x.expected r.elapsed ≤ x.expected (r.elapsed - r.unserved) + 1 := by
      have hunserved := h.unserved
      have hdiv : r.elapsed / x.periodMs ≤ (r.elapsed - r.unserved) / x.periodMs + 1 := by
        rw [← Nat.add_div_right _ hpos]
        exact Nat.div_le_div_right (by omega)
      unfold Timer.expected
      split_ifs <;> omega
    rw [← h.fires] at hnext
    exact Nat.min_eq_right hnext

/-- A timer that is served once for each ms is up to date. -/
theorem UpToDate.of_reach (hslot : ts.slotOf handle = some j) (hsome : (ts j).callback.isSome)
    (hpos : 0 < (ts j).periodMs) (hlong : (ts j).periodMs < 2 ^ 31)
    (h : Run.Reach (recorded j) (Prompt j) (started ts now handle) (s, r) out) :
    OnSchedule (ts j) now s.ticks (s.timers j) r ∧ UpToDate (ts j) r :=
  h.invariant
    (I := fun p => OnSchedule (ts j) now p.1.ticks (p.1.timers j) p.2 ∧ UpToDate (ts j) p.2)
    ⟨.start hslot, Nat.zero_le _, Nat.zero_le _, by simp [started, Timer.expected]⟩ <| by
    rintro ⟨s, r⟩ ⟨s', r'⟩ a o ⟨hI, hdate⟩ hok hs
    have hj := (Timers.slotOf_eq_some hslot).2.1
    exact ⟨hI.step hj hsome hpos hlong (hdate.inReach hI hpos hok) hs,
      hdate.step hI hj hsome hpos hlong hok hs⟩

end Runs

end TimerClock

open TimerClock in
/-- A timer fires on schedule. When every ms is served, its callback has been called `elapsed /
periodMs` times after `elapsed` ms, once at most for a one-shot timer. When services are skipped it
has been called no more often than that, and each service makes up one call until it is. -/
theorem timer_on_schedule {ts : Timers} {handle : ℤ} {j now : ℕ} (hcallable : ts.Callable)
    (hslot : ts.slotOf handle = some j) (hpos : 1 ≤ (ts j).periodMs) (hlong : (ts j).periodMs < 2 ^ 31) :
    (∀ s r out, Run.Reach (recorded j) (Prompt j) (started ts now handle) (s, r) out →
      r.unserved = 0 → r.fires = (ts j).expected r.elapsed) ∧
    ∀ s r out, Run.Reach (recorded j) (InReach j) (started ts now handle) (s, r) out →
      r.fires ≤ (ts j).expected r.elapsed ∧
      ∀ body s' r' o, InReach j (s, r) (.service body) →
        recorded j (s, r) (.service body) = some ((s', r'), o) →
        r'.elapsed = r.elapsed ∧ r'.fires = min (r.fires + 1) ((ts j).expected r.elapsed) := by
  have hsome := hcallable j (Timers.slotOf_eq_some hslot).2.2
  constructor
  · intro s r out h hserved
    have hfires := (UpToDate.of_reach hslot hsome hpos hlong h).2.fires
    rwa [hserved] at hfires
  · intro s r out h
    have hon := OnSchedule.of_reach hslot hsome hpos hlong h
    exact ⟨hon.le_expected hpos, fun body s' r' o hok hs =>
      (hon.service (Timers.slotOf_eq_some hslot).2.1 hsome hpos hlong hok hs).2⟩

namespace TimerClock

/-- The table after `timer_create` of an auto-reload timer of 2 ms. -/
def twoMs : Timers := (Timers.create (fun _ => {}) 2 true (some 0x1000) 0).1

/-- A callback that creates another timer and starts it. -/
def startSecond (c : TimerCall) (_ : Timers) : List (ℕ × TimerOp) :=
  [(c.ticks, .create 1 false (some 0x2000) 0), (c.ticks, .start 1)]

/-- Five ms, each of them served. -/
def fiveServed : List ClockAction := (List.replicate 5 [.pass, .service startSecond]).flatten

end TimerClock

open TimerClock in
/-- The counter wraps in the second ms. -/
theorem twoMs_on_schedule : ∃ s r out,
    Run.exec (recorded 0) (started twoMs (2 ^ 32 - 2) 0) fiveServed = some ((s, r), out) ∧
      r.elapsed = 5 ∧ s.ticks = 3 ∧ r.fires = 5 / 2 := by
  have hspares : ∀ a ∈ fiveServed, a.Spares 0 := by
    intro a ha
    obtain ⟨pair, hpair, ha⟩ := List.mem_flatten.1 ha
    obtain rfl := List.eq_of_mem_replicate hpair
    obtain rfl | rfl : a = .pass ∨ a = .service startSecond := by simpa using ha
    · trivial
    · intro c ts p hp
      obtain rfl | rfl : p = (c.ticks, .create 1 false (some 0x2000) 0) ∨ p = (c.ticks, .start 1) := by
        simpa [startSecond] using hp
      · trivial
      · show (1 : ℤ) ≠ (0 : ℕ)
        decide
  have hpermitted : Run.Permitted (recorded 0) (Prompt 0) (started twoMs (2 ^ 32 - 2) 0)
      fiveServed :=
    .and (.of_forall _ fun a ha _ => hspares a ha) (by decide +kernel)
  have hsome : (Run.exec (recorded 0) (started twoMs (2 ^ 32 - 2) 0) fiveServed).isSome := by
    decide +kernel
  have hslot : twoMs.slotOf 0 = some 0 := by decide +kernel
  have hcallable : twoMs.Callable := by
    have hempty : Timers.Callable fun _ => {} := fun _ huse => by cases huse
    have hmade : (Timers.call (fun _ => {}) 0 (.create 2 true (some 0x1000) 0)).Callable := hempty.call
    exact hmade
  have hfires := (timer_on_schedule hcallable hslot (by decide +kernel) (by decide +kernel)).1 _ _ _
    (.exec hpermitted hsome) (by decide +kernel)
  refine ⟨_, _, _, (Option.some_get hsome).symm, by decide +kernel, by decide +kernel,
    hfires.trans (by decide +kernel)⟩

end TamgaOs
