import TamgaOs.Machine.Counter
import TamgaOs.Properties.TickAccounting

/-!
# Delays under tickless idle

The idle task measures a sleep once and charges it to all waiting tasks later, with interrupts
enabled. Beside the machine runs the clock of the counter and, for every task, a record of its last
wait: the delay, the cycle in which the task blocked, and how far the ms of the counter had got then.

## Main definitions

* `Wait`, `Watch`, `Tickless.watch`: the record.
* `IdleCtl.toCharge`: what the idle task has still to charge to a task.
* `Tickless.Earned`: what is left of a delay covers what is still to be charged.
* `Tickless.KeepsTime`: the condition on the steps.
* `Tickless.Readies`: `sched_tick_n` makes a task ready.

## Main results

* `Tickless.Earned.readies`: along the runs whose steps meet the condition a delay lasts its ms of the
  counter, the one in which the task blocked counted as a whole.
* `delay_not_early`: it lasts as long when the task is not made ready earlier in a ms than it blocked.
* `delay_early`: a task that a handler wakes delays itself before the sleep has been charged.
-/

namespace TamgaOs

/-- A wait of a task. -/
structure Wait where
  /-- The delay with which it has begun; 0 for a wait without a delay. -/
  length : ℕ
  /-- The cycles of the counter when the task blocked. -/
  begun : ℕ
  /-- The cycles of the current ms at that time. -/
  phase : ℕ

/-- What is recorded beside the machine. -/
structure Watch where
  clock : Clock
  wait : ℕ → Wait

/-- The index of the loop of `sched_tick_n`. -/
def TickCtl.index : TickCtl → Option ℕ
  | test i | compare i | zero i | headTest i | remove i | removeHead i _ | removeStart i _
  | removeTest i _ | removeNext i _ | removeLink i _ | clearHead i | mark i | ready i
  | subtract i => some i
  | _ => none

namespace IdleCtl

/-- The index of the task whose delay the idle task has found to be over. -/
def ending : IdleCtl → Option ℕ
  | .tick _ (.zero i) => some i
  | c => c.expiring

/-- The index of the task that the idle task has found to be waiting. -/
def judged : IdleCtl → Option ℕ
  | .tick _ (.compare i) | .tick _ (.subtract i) => some i
  | _ => none

/-- The flag is cleared, and the counter has still the period of the sleep. -/
def measuring : IdleCtl → Bool
  | .sleep (.readFlag _) | .sleep (.readCounter _) | .sleep (.stop _) => true
  | _ => false

/-- The ms of the sleep that are still to be charged to the task at the index `i`, `n` cycles after
the counter has last been started. -/
def toCharge (b : Board) (n i : ℕ) : IdleCtl → ℕ
  | .sleep (.wfi _) | .sleep (.deactivate _) | .sleep (.readFlag _) | .sleep (.readCounter _) =>
    n / b.ticksPerMs
  | .sleep (.stop elapsedMs) | .sleep (.restore elapsedMs) | .sleep (.restart elapsedMs)
  | .sleep (.start elapsedMs) | .sleep (.advance elapsedMs) => elapsedMs
  | .tick elapsedMs c => if ∃ j ∈ c.index, j ≤ i then elapsedMs else 0
  | _ => 0

end IdleCtl

namespace Tickless

variable (b : Board) (s : Tickless)

/-- The record of a task after the step of a task or of a handler that leads to `s'`. It is opened
when the task blocks, and closed when something else changes the delay. -/
def waitEntry (s' : Tickless) (c : Clock) (i : ℕ) (w : Wait) : Wait :=
  if s'.Blocked i ∧ ¬(s.Blocked i ∧ s'.delayTicks i = s.delayTicks i) then
    ⟨s'.delayTicks i, c.now, c.phase b.ticksPerMs⟩
  else if s'.delayTicks i = s.delayTicks i then w
  else ⟨0, c.now, c.phase b.ticksPerMs⟩

/-- The record after a step. -/
def watch (s : Tickless) (a : TicklessAction) (_o : List TicklessObs) (g : Watch) : Watch :=
  let s' := ((s.step b a).map Prod.fst).getD s
  { clock := s.clock a g.clock
    wait := fun i =>
      match a with
      | .kernel _ => s.waitEntry b s' g.clock i (g.wait i)
      | _ => g.wait i }

/-- The machine with its record. -/
def watched : Tickless × Watch → TicklessAction →
    Option ((Tickless × Watch) × List TicklessObs) :=
  Run.annotate (step b) (watch b)

/-- Nothing has been recorded. -/
def noWatch : Watch := ⟨⟨0, 0⟩, fun _ => ⟨0, 0, 0⟩⟩

/-- A delay runs. -/
def Delays : Prop := ∃ i < s.kernel.taskCount, s.kernel.Waiting i

instance : Decidable s.Delays := inferInstanceAs (Decidable (∃ i < _, _))

/-- No task begins a delay while the ms of a sleep are still to be charged to it. When the idle task
reads the counter and a delay runs, the counter has run for one ms at least. The handler counts no
tick for a delay while the counter has the period of the sleep. -/
def KeepsTime (g : Watch) : TicklessAction → Prop
  | .kernel a =>
    match s.kernel.currentTask with
    | some (.tcb i) =>
      ∀ n ∈ s.machine.waits a, n = 0 ∨ s.idle.toCharge b g.clock.cycles i = 0
    | _ => True
  | .idle =>
    match s.idle with
    | .sleep (.readCounter _) => s.Delays → b.ticksPerMs ≤ g.clock.cycles
    | _ => True
  | .sysTick => s.ticklessActive = false → s.idle.measuring = true → ¬s.Delays
  | .timer _ | .cycle => True

instance (g : Watch) : DecidablePred (s.KeepsTime b g) := fun a => by
  unfold KeepsTime
  cases a <;> dsimp only <;> (try split) <;> infer_instance

/-- In the step `sched_tick_n` makes the task at the index `i` ready. -/
def Readies (a : TicklessAction) (i : ℕ) : Prop :=
  match a, s.idle with
  | .idle, .tick _ (.ready j) => j = i
  | .sysTick, _ => s.ticklessActive = false ∧ s.kernel.expires 1 (.tcb i) = true
  | _, _ => False

instance (a : TicklessAction) (i : ℕ) : Decidable (s.Readies a i) := by
  unfold Readies
  split <;> infer_instance

/-! ### What is still to be charged -/

/-- The tick that the handler is about to count. -/
def tickDue : ℕ :=
  if s.sysTick.pending = true ∧ s.ticklessActive = false ∧ s.idle.measuring = false then 1 else 0

/-- What is still to be charged to the task at the index `i`. -/
def owed (n i : ℕ) : ℕ := s.tickDue + s.idle.toCharge b n i

/-- The delay of the task runs, or the idle task takes it for running. -/
def Held (i : ℕ) : Prop :=
  s.kernel.Waiting i ∧ s.idle.ending ≠ some i ∨ s.idle.judged = some i

/-- The delay covers what is still to be charged, and the time that is left; a delay that the idle
task has found to be over is over. -/
structure Earned (c : Clock) (i : ℕ) (w : Wait) : Prop where
  held : s.Held i → 0 < w.length →
    (w.length + s.owed b c.cycles i) * b.ticksPerMs + w.begun ≤
      s.delayTicks i * b.ticksPerMs + c.msBegin b.ticksPerMs + w.phase
  ending : s.idle.ending = some i → 0 < w.length →
    w.length * b.ticksPerMs + w.begun ≤ c.msBegin b.ticksPerMs + w.phase

variable {b s} {s' : Tickless} {a : TicklessAction} {o : List TicklessObs} {c c' : Clock} {i : ℕ}
  {w : Wait} {out : List TicklessObs}

/-- A step that leaves the delay alone, and after which not more is to be charged than time has
passed. -/
theorem Earned.mono (h : s.Earned b c i w) (hheld : s'.Held i → s.Held i)
    (hending : s'.idle.ending = some i → s.idle.ending = some i)
    (hdelay : s'.delayTicks i = s.delayTicks i)
    (hclock : c.msBegin b.ticksPerMs ≤ c'.msBegin b.ticksPerMs)
    (howed : s'.Held i → s'.owed b c'.cycles i * b.ticksPerMs + c.msBegin b.ticksPerMs ≤
      s.owed b c.cycles i * b.ticksPerMs + c'.msBegin b.ticksPerMs) :
    s'.Earned b c' i w := by
  refine ⟨fun hh hpos => ?_, fun he hpos => (h.ending (hending he) hpos).trans
    (Nat.add_le_add_right hclock _)⟩
  have hwas := h.held (hheld hh) hpos
  have hless := howed hh
  rw [hdelay]
  rw [Nat.add_mul] at hwas ⊢
  omega

/-- A step that leaves the tasks and the idle task alone. -/
theorem Earned.same (h : s.Earned b c i w) (htcb : s'.kernel.tcb = s.kernel.tcb)
    (hidle : s'.idle = s.idle)
    (hclock : c.msBegin b.ticksPerMs ≤ c'.msBegin b.ticksPerMs)
    (howed : s'.owed b c'.cycles i * b.ticksPerMs + c.msBegin b.ticksPerMs ≤
      s.owed b c.cycles i * b.ticksPerMs + c'.msBegin b.ticksPerMs) :
    s'.Earned b c' i w := by
  refine h.mono (fun hh => ?_) (fun he => hidle ▸ he) ?_ hclock fun _ => howed
  · simpa only [Held, Kernel.Waiting, kernel, htcb, hidle] using hh
  · simp only [delayTicks, htcb]

/-- What is to be charged to a task whose delay the idle task has found to be over. -/
theorem toCharge_of_ending (h : s.Counts b c.cycles) (he : s.idle.ending = some i) :
    0 < s.idle.toCharge b c.cycles i := by
  have hfound : ∃ n p, s.idle = .tick n p ∧ i ∈ p.index := by
    unfold IdleCtl.ending IdleCtl.expiring at he
    split at he
    · rename_i hc
      cases he
      exact ⟨_, _, hc, rfl⟩
    · split at he
      all_goals cases he
      all_goals
        rename_i hc
        exact ⟨_, _, hc, rfl⟩
  obtain ⟨n, p, hc, hmem⟩ := hfound
  simp only [Counts, hc] at h
  rw [hc, IdleCtl.toCharge, if_pos ⟨i, hmem, le_rfl⟩]
  exact h.1

theorem pending_of_interrupted (h : s.interrupted = true) : s.sysTick.pending = true := by
  have hboth : s.machine.depth = 0 ∧ s.sysTick.pending = true := by
    simpa [interrupted] using h
  exact hboth.2

theorem pending_of_not_interrupted (hdepth : s.machine.depth = 0)
    (hint : s.interrupted = false) : s.sysTick.pending = false := by
  simpa [interrupted, hdepth] using hint

theorem tickDue_of_pending (h : s.sysTick.pending = false) : s.tickDue = 0 := by
  simp [tickDue, h]

/-! ### The steps -/

/-- A step of a task or of a handler. -/
theorem Earned.machine {m' : Machine} {a' : Action} {o' : List Obs} {g : Watch}
    (h : s.Earned b g.clock i w) (hm : s.machine.IdleApart) (hcounts : s.Counts b g.clock.cycles)
    (hok : s.KeepsTime b g (.kernel a')) (hticks : a'.ticks = false)
    (hint : a'.executes = true → s.interrupted = false)
    (hs : s.machine.step a' = some (m', o')) :
    Earned b { s with machine := m' } g.clock i
      (s.waitEntry b { s with machine := m' } g.clock i w) := by
  have hno : ∀ n, a' ≠ .tick n := by
    rintro n rfl
    cases hticks
  unfold waitEntry
  split_ifs with hopen hsame
  · -- the task has blocked itself
    obtain ⟨hb, hnew⟩ := hopen
    rcases Machine.wait_of_step hm hs hno hb with hold | ⟨rfl, hact, -, hmem⟩
    · exact absurd hold hnew
    · obtain ⟨hdepth, -, hcur⟩ := Machine.active_thread hact
      have htick := tickDue_of_pending (pending_of_not_interrupted hdepth (hint rfl))
      simp only [KeepsTime, kernel, hcur] at hok
      have hcharged : 0 < (m'.kernel.tcb (.tcb i)).delayTicks →
          s.idle.toCharge b g.clock.cycles i = 0 := fun hpos =>
        (hok _ hmem).resolve_left hpos.ne'
      refine ⟨fun _ hpos => ?_, fun he hpos => ?_⟩
      · have howed : owed b { s with machine := m' } g.clock.cycles i = 0 := by
          show s.tickDue + s.idle.toCharge b g.clock.cycles i = 0
          rw [htick, hcharged hpos]
        rw [howed, Nat.add_assoc (_ * _), Clock.msBegin_add_phase]
        exact le_rfl
      · exact absurd (hcharged hpos) (toCharge_of_ending hcounts he).ne'
  · refine h.mono (fun hh => hh.imp_left fun ⟨hw, he⟩ => ⟨?_, he⟩) id hsame le_rfl fun _ => le_rfl
    have hold : s.Blocked i := by
      by_contra hno
      exact hopen ⟨hw.1, fun hb => hno hb.1⟩
    exact ⟨hold, hw.2.trans_eq hsame⟩
  · exact ⟨fun _ hpos => absurd hpos (by simp), fun _ hpos => absurd hpos (by simp)⟩

/-- The counter runs in a sleep, and the handler counts no tick, or it runs with the period of 1 ms, and
what is to be charged does not depend on it. -/
theorem Counts.of_enable {n : ℕ} (h : s.Counts b n) (henable : s.sysTick.enable = true) :
    (s.ticklessActive = true ∨ s.idle.measuring = true) ∧
        ((∀ m, s.idle.toCharge b m i = m / b.ticksPerMs) ∨
          ∀ m m', s.idle.toCharge b m i = s.idle.toCharge b m' i) ∨
      s.sysTick.Periodic b.ticksPerMs n ∧
        ∀ m m', s.idle.toCharge b m i = s.idle.toCharge b m' i := by
  have hne : ∀ {P : Prop}, s.sysTick.enable = false → P := fun hf =>
    absurd (henable.symm.trans hf) (by decide)
  unfold Counts at h
  split at h
  all_goals rename_i hc; rw [hc]
  · exact Or.inr ⟨h.2, fun _ _ => rfl⟩
  · exact hne h.2
  · exact hne h.2.1
  · exact hne h.2.1
  · exact hne h.2.1
  · exact Or.inl ⟨Or.inl h.2.2, Or.inl fun _ => rfl⟩
  · exact Or.inl ⟨Or.inl h.2.2, Or.inl fun _ => rfl⟩
  · exact Or.inl ⟨Or.inr rfl, Or.inl fun _ => rfl⟩
  · exact Or.inl ⟨Or.inr rfl, Or.inl fun _ => rfl⟩
  · exact Or.inl ⟨Or.inr rfl, Or.inr fun _ _ => rfl⟩
  · exact hne h.2
  · exact hne h.2.1
  · exact hne h.2.1
  · exact Or.inr ⟨h.2, fun _ _ => rfl⟩
  · exact Or.inr ⟨h.2, fun _ _ => rfl⟩
  · exact Or.inr ⟨h, fun _ _ => rfl⟩
  · exact Or.inr ⟨h, fun _ _ => rfl⟩
  · exact Or.inr ⟨h, fun _ _ => rfl⟩
  · exact Or.inr ⟨h, fun _ _ => rfl⟩
  · exact Or.inr ⟨h, fun _ _ => rfl⟩

/-- A cycle of the counter. When it ends a ms, this is one ms more to be charged, or the handler has
one tick more to count. -/
theorem Earned.cycle (h : s.Earned b c i w) (hcounts : s.Counts b c.cycles) :
    Earned b { s with sysTick := s.sysTick.cycle } (s.clock .cycle c) i w := by
  by_cases henable : s.sysTick.enable = true
  · have hclock : s.clock .cycle c = ⟨c.before, c.cycles + 1⟩ := by
      simp only [clock, henable, if_true]
    have hle : c.cycles / b.ticksPerMs * b.ticksPerMs ≤
        (c.cycles + 1) / b.ticksPerMs * b.ticksPerMs :=
      Nat.mul_le_mul_right _ (Nat.div_le_div_right (Nat.le_succ _))
    rw [hclock]
    refine h.same rfl rfl (Nat.add_le_add_left hle _) ?_
    simp only [owed, Clock.msBegin, Nat.add_mul]
    rcases hcounts.of_enable (i := i) henable with ⟨hquiet, hcharge⟩ | ⟨hperiodic, hcharge⟩
    · have hdue : tickDue { s with sysTick := s.sysTick.cycle } = 0 := by
        rcases hquiet with hq | hq <;> simp [tickDue, hq]
      rw [hdue]
      rcases hcharge with hcharge | hcharge
      · rw [hcharge, hcharge]
        omega
      · rw [hcharge (c.cycles + 1) c.cycles]
        omega
    · rw [hcharge (c.cycles + 1) c.cycles]
      obtain ⟨-, hpend⟩ := hperiodic.cycle
      by_cases hend : b.ticksPerMs ∣ c.cycles + 1
      · rw [Nat.succ_div_of_dvd hend, Nat.add_mul]
        have hdue : tickDue { s with sysTick := s.sysTick.cycle } ≤ 1 := by
          unfold tickDue
          split_ifs <;> omega
        have hmul := Nat.mul_le_mul_right b.ticksPerMs hdue
        omega
      · have hdue : tickDue { s with sysTick := s.sysTick.cycle } ≤ s.tickDue := by
          unfold tickDue
          split_ifs with hnew hold
          · exact le_rfl
          · exact absurd ⟨(hpend hnew.1).resolve_right hend, hnew.2⟩ hold
          · exact Nat.zero_le _
          · exact le_rfl
        have hmul := Nat.mul_le_mul_right b.ticksPerMs hdue
        omega
  · have hstop : s.sysTick.cycle = s.sysTick :=
      SysTick.cycle_of_not_enable (by simpa using henable)
    have hclock : s.clock .cycle c = c := by
      simp only [clock, if_neg henable]
    rw [hstop, hclock]
    exact h

/-- A tick of the handler takes one ms off the delays that run. -/
theorem delay_of_schedTickN {k k' : Kernel} (h : (k.advanceClock 1).schedTickN 1 = some k') (i : ℕ)
    (hin : k.Waiting i → i < k.taskCount) :
    (k'.tcb (.tcb i)).delayTicks =
      (if k.Waiting i then (k.tcb (.tcb i)).delayTicks - 1 else (k.tcb (.tcb i)).delayTicks) ∧
    (k'.Waiting i → k.Waiting i) := by
  obtain ⟨hdelay, hblocked⟩ := Kernel.delay_schedTickN h i
  have hticked : (k.advanceClock 1).ticked 1 (.tcb i) = k.ticked 1 (.tcb i) := rfl
  rw [hticked] at hdelay hblocked
  by_cases hw : k.Waiting i
  · refine ⟨?_, fun _ => hw⟩
    rw [if_pos hw, hdelay, if_pos (show i < (k.advanceClock 1).taskCount from hin hw)]
    simp only [Kernel.ticked, if_pos (show _ ∧ _ from hw)]
    split_ifs with hle
    · exact (Nat.sub_eq_zero_of_le hle).symm
    · rfl
  · have hsame : k.ticked 1 (.tcb i) =
        ((k.tcb (.tcb i)).state, (k.tcb (.tcb i)).delayTicks) := by
      simp only [Kernel.ticked, if_neg (show ¬(_ ∧ _) from hw)]
    rw [hsame] at hdelay hblocked
    have hkeep : (k'.tcb (.tcb i)).delayTicks = (k.tcb (.tcb i)).delayTicks := by
      rw [hdelay]
      split_ifs <;> rfl
    refine ⟨hkeep.trans (if_neg hw).symm, fun hw' => ?_⟩
    have hstate := hblocked.1 hw'.1
    refine ⟨?_, hw'.2.trans_eq hkeep⟩
    split_ifs at hstate <;> exact hstate

/-- The handler, when it counts a tick. -/
theorem Earned.handler {k' : Kernel} (h : s.Earned b c i w) (ht : s.Tabled) {g : Watch}
    (hok : s.KeepsTime b g .sysTick) (hint : s.interrupted = true) (hact : s.ticklessActive = false)
    (hs : (s.kernel.advanceClock 1).schedTickN 1 = some k') (hk : s'.kernel = k')
    (hidle : s'.idle = s.idle) (hpend : s'.sysTick.pending = false) : s'.Earned b c i w := by
  subst hk
  have hin : s.kernel.Waiting i → i < s.kernel.taskCount := by
    intro hw
    obtain ⟨j, hj, he⟩ := ht.blocked _ hw.1
    cases he
    exact hj
  obtain ⟨hdelay, hwait⟩ := delay_of_schedTickN hs i hin
  refine ⟨fun hh hpos => ?_, fun he hpos => h.ending (hidle ▸ he) hpos⟩
  have hheld : s.Held i := by
    rw [Held, hidle] at hh
    exact hh.imp_left fun ⟨hw, he⟩ => ⟨hwait hw, he⟩
  have hquiet : s.idle.measuring = false := by
    refine eq_false_of_ne_true fun hmeas => ?_
    rcases hheld with ⟨hw, -⟩ | hj
    · exact hok hact hmeas ⟨i, hin hw, hw⟩
    · revert hmeas hj
      cases s.idle with
      | sleep p => exact fun _ hj => by cases hj
      | loop | timerNow | timerScan | wfi | tick | service => exact fun hmeas => by cases hmeas
  have hdue : s.tickDue = 1 := if_pos ⟨pending_of_interrupted hint, hact, hquiet⟩
  have hwas := h.held hheld hpos
  rw [owed, hdue] at hwas
  rw [owed, tickDue_of_pending hpend, hidle]
  have hstep : (s.delayTicks i) * b.ticksPerMs ≤ s'.delayTicks i * b.ticksPerMs + b.ticksPerMs := by
    rw [← Nat.succ_mul]
    refine Nat.mul_le_mul_right _ ?_
    show (s.kernel.tcb (.tcb i)).delayTicks ≤ (s'.kernel.tcb (.tcb i)).delayTicks + 1
    rw [hdelay]
    split_ifs <;> omega
  simp only [Nat.add_mul] at hwas ⊢
  omega

/-! ### The idle task -/

/-- A statement outside `sched_tick_n`, after which not more is to be charged than before. -/
theorem Earned.outside (h : s.Earned b c i w) (hpend : s'.sysTick.pending = false)
    (htcb : s'.kernel.tcb = s.kernel.tcb) (hending : s.idle.ending = none)
    (hending' : s'.idle.ending = none) (hjudged' : s'.idle.judged = none)
    (hclock : c.msBegin b.ticksPerMs ≤ c'.msBegin b.ticksPerMs)
    (hcharge : s.kernel.Waiting i →
      s'.idle.toCharge b c'.cycles i ≤ s.idle.toCharge b c.cycles i) :
    s'.Earned b c' i w := by
  have hwait : s'.Held i → s.kernel.Waiting i := by
    rintro (⟨hw, -⟩ | hj)
    · simpa only [Kernel.Waiting, kernel, htcb] using hw
    · rw [hjudged'] at hj
      cases hj
  refine h.mono (fun hh => Or.inl ⟨hwait hh, by simp [hending]⟩)
    (fun he => absurd (hending'.symm.trans he) (by simp)) (by simp only [delayTicks, htcb]) hclock
    fun hh => ?_
  rw [owed, tickDue_of_pending hpend, Nat.zero_add, owed, Nat.add_mul]
  have hle := Nat.mul_le_mul_right b.ticksPerMs (hcharge (hwait hh))
  omega

/-- A statement of `systick_tickless_sleep`. -/
theorem Earned.sleep {p : SleepCtl} {g : Watch} (h : s.Earned b g.clock i w) (ht : s.Tabled)
    (hcounts : s.Counts b g.clock.cycles) (hok : s.KeepsTime b g .idle)
    (hpend : s.sysTick.pending = false) (hc : s.idle = .sleep p) :
    Earned b (s.sleepStep b p) (s.clock .idle g.clock) i w := by
  have hkeep : ∀ s' : Tickless, s'.sysTick.pending = false → s'.kernel.tcb = s.kernel.tcb →
      s'.idle.ending = none → s'.idle.judged = none → s.clock .idle g.clock = g.clock →
      (s.kernel.Waiting i →
        s'.idle.toCharge b g.clock.cycles i ≤ s.idle.toCharge b g.clock.cycles i) →
      s'.Earned b (s.clock .idle g.clock) i w := by
    intro s' hp htcb he hj hclock hcharge
    rw [hclock]
    exact h.outside hp htcb (by rw [hc]; rfl) he hj le_rfl hcharge
  have hrestart : ∀ s' : Tickless, s'.sysTick.pending = false → s'.kernel.tcb = s.kernel.tcb →
      s'.idle.ending = none → s'.idle.judged = none →
      s.clock .idle g.clock = g.clock.restart →
      s'.idle.toCharge b 0 i ≤ s.idle.toCharge b g.clock.cycles i →
      s'.Earned b (s.clock .idle g.clock) i w := by
    intro s' hp htcb he hj hclock hcharge
    rw [hclock]
    exact h.outside hp htcb (by rw [hc]; rfl) he hj (Clock.msBegin_le_restart ..)
      fun _ => hcharge
  simp only [Counts, hc] at hcounts
  simp only [KeepsTime, hc] at hok
  cases p with
  | enable maxMs =>
    refine hrestart _ hpend rfl rfl rfl (by simp only [clock, hc]) ?_
    rw [hc]
    exact (Nat.zero_div _).le
  | start e =>
    refine hrestart _ hpend rfl rfl rfl (by simp only [clock, hc]) ?_
    rw [hc]
    exact le_rfl
  | readFlag maxMs =>
    obtain ⟨hbudget, -, -, -, -, hflag⟩ := hcounts
    refine hkeep _ hpend rfl ?_ ?_ (by simp only [clock, hc]) fun _ => ?_
    · simp only [sleepStep]
      split_ifs <;> rfl
    · simp only [sleepStep]
      split_ifs <;> rfl
    · rw [hc]
      simp only [sleepStep]
      split_ifs with hset
      · -- the counter has expired, so the sleep has lasted as long as it has been programmed
        have hms := Board.ticksPerMs_le_ticklessReload (b := b) hbudget.1 hbudget.2
        exact Board.elapsedMs_le (hflag hset) (hms.trans (hflag hset))
      · exact le_rfl
  | readCounter maxMs =>
    refine hkeep _ hpend rfl rfl rfl (by simp only [clock, hc]) fun hw => ?_
    rw [hc]
    obtain ⟨j, hj, he⟩ := ht.blocked _ hw.1
    cases he
    have hms := hok ⟨i, hj, hw⟩
    exact Board.elapsedMs_le (hcounts.2.read_le (b.ticksPerMs_pos.trans_le hms)) hms
  | advance e =>
    refine hkeep _ hpend rfl rfl rfl (by simp only [clock, hc]) fun _ => ?_
    rw [hc]
    simp only [sleepStep, IdleCtl.toCharge]
    split_ifs <;> omega
  | disable | program | clear | activate | wfi | deactivate | stop | restore | restart =>
    refine hkeep _ hpend rfl rfl rfl (by simp only [clock, hc]) fun _ => ?_
    rw [hc]
    exact le_rfl

/-- The program point `q` comes after `p` in `sched_tick_n`, with the kernel in between. -/
structure NextTick (k : Kernel) (n i : ℕ) (p q : TickCtl) : Prop where
  index : q.index = p.index ∨ (∃ j, p.index = some j ∧ q.index = some (j + 1)) ∨ q.index = none
  ending : (IdleCtl.tick n q).ending = some i → (IdleCtl.tick n p).ending = some i ∨
    p = .compare i ∧ (k.tcb (.tcb i)).delayTicks ≤ n
  judged : (IdleCtl.tick n q).judged = some i → p = .compare i ∨ p = .test i ∧ k.Waiting i

theorem nextTick_of_tickStep {k k' : Kernel} {n : ℕ} {p q : TickCtl}
    (h : tickStep k n p = some (k', some q)) : NextTick k n i p q := by
  -- the removal of the task from its wait list
  have hremove : ∀ j, p.index = some j → q.index = some j →
      (IdleCtl.tick n p).ending = some j → (IdleCtl.tick n q).ending = some j →
      (IdleCtl.tick n q).judged = none → NextTick k n i p q := by
    intro j hp hq he he' hj
    refine ⟨Or.inl (hq.trans hp.symm), fun hi => Or.inl (he.trans (he'.symm.trans hi)), fun hi => ?_⟩
    rw [hj] at hi
    cases hi
  -- the loop goes on with the next task, or has ended
  have hnext : (∃ j, p.index = some j ∧ q.index = some (j + 1)) ∨ q.index = none →
      (IdleCtl.tick n q).ending = none → (IdleCtl.tick n q).judged = none →
      NextTick k n i p q := by
    intro hq he hj
    refine ⟨Or.inr hq, fun hi => ?_, fun hi => ?_⟩
    · rw [he] at hi
      cases hi
    · rw [hj] at hi
      cases hi
  cases p with
  | test j =>
    simp only [tickStep] at h
    split_ifs at h with hj hw
    · cases h
      refine ⟨Or.inl rfl, fun hi => (by cases hi), ?_⟩
      rintro ⟨⟩
      exact Or.inr ⟨rfl, hw⟩
    · cases h
      exact hnext (Or.inl ⟨j, rfl, rfl⟩) rfl rfl
    · cases h
      exact hnext (Or.inr rfl) rfl rfl
  | compare j =>
    simp only [tickStep] at h
    split_ifs at h with hle
    · cases h
      refine ⟨Or.inl rfl, ?_, fun hi => by cases hi⟩
      rintro ⟨⟩
      exact Or.inr ⟨rfl, hle⟩
    · cases h
      refine ⟨Or.inl rfl, fun hi => (by cases hi), ?_⟩
      rintro ⟨⟩
      exact Or.inl rfl
  | headTest j =>
    simp only [tickStep] at h
    split at h <;> cases h <;> exact hremove j rfl rfl rfl rfl rfl
  | remove j =>
    simp only [tickStep] at h
    split at h
    · split_ifs at h <;> cases h <;> exact hremove j rfl rfl rfl rfl rfl
    · cases h
  | removeTest j cur =>
    simp only [tickStep] at h
    split at h
    · split_ifs at h <;> cases h <;> exact hremove j rfl rfl rfl rfl rfl
    · cases h
      exact hremove j rfl rfl rfl rfl rfl
  | zero j | removeHead j | removeStart j | removeNext j | removeLink j | clearHead j | mark j =>
    cases h
    exact hremove j rfl rfl rfl rfl rfl
  | ready j | subtract j =>
    cases h
    exact hnext (Or.inl ⟨j, rfl, rfl⟩) rfl rfl
  | currentTest | nextTest =>
    simp only [tickStep] at h
    split at h
    · split_ifs at h <;> cases h <;> exact hnext (Or.inr rfl) rfl rfl
    · cases h
      exact hnext (Or.inr rfl) rfl rfl
  | currentReady | nextReady | run =>
    obtain ⟨t, -, he⟩ := Option.map_eq_some_iff.1 h
    cases he
    exact hnext (Or.inr rfl) rfl rfl
  | runTest =>
    obtain ⟨t, -, he⟩ := Option.map_eq_some_iff.1 h
    obtain ⟨-, he⟩ := Prod.mk.inj he
    split_ifs at he <;> cases he <;> exact hnext (Or.inr rfl) rfl rfl
  | switchTest =>
    obtain ⟨-, he⟩ := Prod.mk.inj (Option.some.inj h)
    split_ifs at he
    cases he
    exact hnext (Or.inr rfl) rfl rfl
  | select | install =>
    cases h
    exact hnext (Or.inr rfl) rfl rfl
  | switch => cases h

/-- Not more is to be charged after a statement of `sched_tick_n`. -/
theorem NextTick.toCharge_le {k : Kernel} {n m : ℕ} {p q : TickCtl} (h : NextTick k n i p q) :
    (IdleCtl.tick n q).toCharge b m i ≤ (IdleCtl.tick n p).toCharge b m i := by
  simp only [IdleCtl.toCharge]
  split_ifs with hq hp
  · exact le_rfl
  · obtain ⟨j, hj, hle⟩ := hq
    refine absurd ?_ hp
    rcases h.index with he | ⟨j', hp', hq'⟩ | hnone
    · exact ⟨j, he ▸ hj, hle⟩
    · rw [hq'] at hj
      cases hj
      exact ⟨j', hp', Nat.le_of_succ_le hle⟩
    · rw [hnone] at hj
      cases hj
  · exact Nat.zero_le _
  · exact le_rfl

/-- A statement of `sched_tick_n` in the idle task. -/
theorem Earned.tick {n : ℕ} {p : TickCtl} {p' : Option TickCtl} {k' : Kernel}
    (h : s.Earned b c i w) (hpend : s.sysTick.pending = false)
    (hpend' : s'.sysTick.pending = false) (hc : s.idle = .tick n p)
    (hs : tickStep s.kernel n p = some (k', p')) (hk : s'.kernel = k')
    (hc' : s'.idle = (p'.map (IdleCtl.tick n)).getD (.service .now)) : s'.Earned b c i w := by
  have hstmt := TickStmt.of_tickStep hs
  have hnext : ∀ q, p' = some q → NextTick s.kernel n i p q := by
    rintro q rfl
    exact nextTick_of_tickStep hs
  -- what the next program point says
  have hending : s'.idle.ending = some i → s.idle.ending = some i ∨
      p = .compare i ∧ s.delayTicks i ≤ n := by
    intro he
    rw [hc'] at he
    cases p' with
    | none => cases he
    | some q => exact hc ▸ (hnext q rfl).ending he
  have hjudged : s'.idle.judged = some i → p = .compare i ∨ p = .test i ∧ s.kernel.Waiting i := by
    intro hj
    rw [hc'] at hj
    cases p' with
    | none => cases hj
    | some q => exact (hnext q rfl).judged hj
  have hcharge : s'.idle.toCharge b c.cycles i ≤ s.idle.toCharge b c.cycles i := by
    rw [hc', hc]
    cases p' with
    | none => exact Nat.zero_le _
    | some q => exact (hnext q rfl).toCharge_le
  have howed : s'.owed b c.cycles i ≤ s.owed b c.cycles i := by
    rw [owed, owed, tickDue_of_pending hpend, tickDue_of_pending hpend']
    exact Nat.add_le_add_left hcharge 0
  have hend : s'.idle.ending = some i → 0 < w.length →
      w.length * b.ticksPerMs + w.begun ≤ c.msBegin b.ticksPerMs + w.phase := by
    intro he hpos
    rcases hending he with he | ⟨rfl, hle⟩
    · exact h.ending he hpos
    · -- the delay has been compared with what is charged
      have hwas := h.held (Or.inr (by rw [hc]; rfl)) hpos
      have hn : s.owed b c.cycles i = n := by
        rw [owed, tickDue_of_pending hpend, hc, IdleCtl.toCharge, if_pos ⟨i, rfl, le_rfl⟩,
          Nat.zero_add]
      rw [hn, Nat.add_mul] at hwas
      have hmul := Nat.mul_le_mul_right b.ticksPerMs hle
      omega
  refine ⟨fun hh hpos => ?_, hend⟩
  by_cases hcharges : p.charges = some i
  · cases p with
    | zero j =>
      cases hcharges
      cases hs
      -- the delay is over
      rw [Held, hc'] at hh
      rcases hh with ⟨-, he⟩ | hj
      · exact absurd rfl he
      · cases hj
    | subtract j =>
      cases hcharges
      cases hs
      have hwas := h.held (Or.inr (by rw [hc]; rfl)) hpos
      have hn : s.owed b c.cycles i = n := by
        rw [owed, tickDue_of_pending hpend, hc, IdleCtl.toCharge, if_pos ⟨i, rfl, le_rfl⟩,
          Nat.zero_add]
      have hnone : s'.owed b c.cycles i = 0 := by
        rw [owed, tickDue_of_pending hpend', hc', Nat.zero_add]
        refine if_neg ?_
        rintro ⟨j, hj, hle⟩
        cases hj
        exact Nat.not_succ_le_self i hle
      have hdelay : s'.delayTicks i = uint32Sub (s.delayTicks i) n := by
        simp only [delayTicks, hk, Kernel.modifyTask_self]
      -- what is subtracted is what has been charged, or the difference wraps
      have hle : s.delayTicks i ≤ s'.delayTicks i + n := by
        rw [hdelay, uint32Sub]
        split_ifs <;> omega
      have hmul := Nat.mul_le_mul_right b.ticksPerMs hle
      rw [hn] at hwas
      rw [hnone, Nat.add_zero]
      simp only [Nat.add_mul] at hwas hmul
      omega
    | _ => cases hcharges
  · have hdelay : s'.delayTicks i = s.delayTicks i := by
      simp only [delayTicks, hk]
      exact hstmt.delayTicks _ fun j hj he => hcharges (by cases he; exact hj)
    have hheld : s.Held i := by
      rcases hh with ⟨hw, he⟩ | hj
      · have hblocked : (k'.tcb (.tcb i)).state = .blocked := hk ▸ hw.1
        refine Or.inl ⟨⟨hstmt.blocked _ hblocked, hw.2.trans_eq hdelay⟩, fun hwas => ?_⟩
        rw [hc] at hwas
        have hexp : (IdleCtl.tick n p).expiring = some i := by
          cases p with
          | zero j =>
            cases hwas
            exact absurd rfl hcharges
          | _ => exact hwas
        rcases expiring_tickStep hs hexp with ⟨q, rfl, hq⟩ | hready
        · refine he ?_
          rw [hc']
          cases q with
          | zero j => cases hq
          | _ => exact hq
        · rw [hready] at hblocked
          cases hblocked
      · rcases hjudged hj with rfl | ⟨rfl, hw⟩
        · exact Or.inr (by rw [hc]; rfl)
        · exact Or.inl ⟨hw, by rw [hc]; exact fun he => by cases he⟩
    have hwas := h.held hheld hpos
    have hmul := Nat.mul_le_mul_right b.ticksPerMs howed
    rw [hdelay]
    rw [Nat.add_mul] at hwas ⊢
    omega

/-- A statement of the idle task. -/
theorem Earned.idle {g : Watch} (h : s.Earned b g.clock i w) (ht : s.Tabled)
    (hcounts : s.Counts b g.clock.cycles) (hok : s.KeepsTime b g .idle)
    (hpend : s.sysTick.pending = false) (hs : s.idleStep b = some (s', o)) :
    s'.Earned b (s.clock .idle g.clock) i w := by
  -- a statement outside the sleep and the tick
  have hquiet : ∀ s'' : Tickless, s''.sysTick = s.sysTick → s''.kernel = s.kernel →
      s.idle.ending = none → s''.idle.ending = none → s''.idle.judged = none →
      (∀ m, s''.idle.toCharge b m i = 0) → s.clock .idle g.clock = g.clock →
      s''.Earned b (s.clock .idle g.clock) i w := by
    intro s'' hsys hk he he' hj' hcharge hclock
    rw [hclock]
    exact h.outside (hsys ▸ hpend) (hk ▸ rfl) he he' hj' le_rfl
      fun _ => (hcharge _).trans_le (Nat.zero_le _)
  unfold idleStep at hs
  split at hs
  · rename_i hc
    cases hs
    exact hquiet _ rfl rfl (by rw [hc]; rfl) rfl rfl (fun _ => rfl) (by simp only [clock, hc])
  · rename_i hc
    cases hs
    exact hquiet _ rfl rfl (by rw [hc]; rfl) rfl rfl (fun _ => rfl) (by simp only [clock, hc])
  · rename_i hc
    cases hs
    refine hquiet _ rfl rfl (by rw [hc]; rfl) ?_ ?_ (fun _ => ?_) (by simp only [clock, hc])
    all_goals
      dsimp only
      split_ifs <;> rfl
  · rename_i hc
    cases hs
    exact hquiet _ rfl rfl (by rw [hc]; rfl) rfl rfl (fun _ => rfl) (by simp only [clock, hc])
  · rename_i hc
    cases hs
    exact h.sleep ht hcounts hok hpend hc
  · rename_i hc
    obtain ⟨⟨k', p'⟩, hr, he⟩ := Option.map_eq_some_iff.1 hs
    cases he
    have hclock : s.clock .idle g.clock = g.clock := by
      simp only [clock, hc]
    rw [hclock]
    exact h.tick hpend hpend hc hr rfl rfl
  · rename_i p hc
    cases hs
    refine hquiet _ rfl rfl (by rw [hc]; rfl) ?_ ?_ (fun _ => ?_) (by simp only [clock, hc])
    all_goals
      dsimp only
      cases (serviceStep s.timers s.kernel.ticks p).2.1 <;> rfl

/-- Every step that meets the condition keeps what is left of a delay enough. -/
theorem Earned.step {g : Watch} (h : s.Earned b g.clock i (g.wait i)) (hm : s.machine.IdleApart)
    (ht : s.Tabled) (hcounts : s.Counts b g.clock.cycles) (hok : s.KeepsTime b g a)
    (hs : s.step b a = some (s', o)) :
    s'.Earned b (s.watch b a o g).clock i ((s.watch b a o g).wait i) := by
  have hnext : ((s.step b a).map Prod.fst).getD s = s' := by
    rw [hs]
    rfl
  simp only [watch, hnext]
  rcases step_cases hs with ⟨a', m', o', rfl, hticks, hint, hst, rfl, -⟩ | ⟨op, rfl, rfl, -⟩ |
    ⟨rfl, hact, hint, hidle⟩ | ⟨rfl, rfl, -⟩ | ⟨rfl, hint, hh⟩
  · exact h.machine hm hcounts hok hticks hint hst
  · exact h.same rfl rfl le_rfl le_rfl
  · exact h.idle ht hcounts hok
      (pending_of_not_interrupted (Machine.active_thread hact).1 hint) hidle
  · exact h.cycle hcounts
  · rcases handlerStep_cases hh with ⟨hset, -, rfl⟩ | ⟨k', hclear, hk, rfl, -⟩
    · refine h.same rfl rfl le_rfl ?_
      have hdue : tickDue { s with sysTick := { s.sysTick with pending := false } } = 0 :=
        tickDue_of_pending rfl
      have hwas : s.tickDue = 0 := by simp [tickDue, hset]
      simp only [owed, hdue, hwas]
      exact le_rfl
    · exact h.handler ht hok hint hclear hk rfl rfl rfl

/-- Whatever `sched_tick_n` makes ready has waited, in whole ms of the counter. -/
theorem Earned.readies {g : Watch} (h : s.Earned b g.clock i (g.wait i)) (hok : s.KeepsTime b g a)
    (hs : (s.step b a).isSome = true) (hr : s.Readies a i) :
    (g.wait i).length * b.ticksPerMs ≤
      g.clock.now - (g.wait i).begun + ((g.wait i).phase - g.clock.phase b.ticksPerMs) := by
  by_cases hpos : 0 < (g.wait i).length
  · have hnow := g.clock.msBegin_add_phase b.ticksPerMs
    suffices hover : (g.wait i).length * b.ticksPerMs + (g.wait i).begun ≤
        g.clock.msBegin b.ticksPerMs + (g.wait i).phase by
      omega
    unfold Readies at hr
    split at hr
    · rename_i hc
      subst hr
      exact h.ending (by rw [hc]; rfl) hpos
    · obtain ⟨hact, hexp⟩ := hr
      obtain ⟨hi, hblocked, hdelay, hle⟩ := Kernel.expires_tcb.1 hexp
      by_cases hend : s.idle.ending = some i
      · exact h.ending hend hpos
      · -- the tick that ends the delay has been due
        have hwas := h.held (Or.inl ⟨⟨hblocked, hdelay⟩, hend⟩) hpos
        have hquiet : s.idle.measuring = false :=
          eq_false_of_ne_true fun hmeas => hok hact hmeas ⟨i, hi, hblocked, hdelay⟩
        have hint : s.interrupted = true := by
          simp only [Tickless.step] at hs
          split_ifs at hs with hint
          · exact hint
          · cases hs
        have hdue : s.tickDue = 1 := if_pos ⟨pending_of_interrupted hint, hact, hquiet⟩
        have howed : s.delayTicks i ≤ s.owed b g.clock.cycles i := by
          rw [owed, hdue]
          exact hle.trans (Nat.le_add_right ..)
        have hmul := Nat.mul_le_mul_right b.ticksPerMs howed
        rw [Nat.add_mul] at hwas
        omega
    · exact hr.elim
  · rw [Nat.eq_zero_of_not_pos hpos, Nat.zero_mul]
    exact Nat.zero_le _

theorem earned_of_reach {cfg : Config} {g : Watch}
    (h : Run.Reach (watched b) (fun p a => p.1.KeepsTime b p.2 a) (start b cfg, noWatch) (s, g) out) :
    s.Earned b g.clock i (g.wait i) := by
  have hinv : ((s, g).1.machine.IdleApart ∧ (s, g).1.Tabled ∧
      (s, g).1.Counts b (s, g).2.clock.cycles) ∧
        (s, g).1.Earned b (s, g).2.clock i ((s, g).2.wait i) := by
    refine h.invariant (I := fun p => (p.1.machine.IdleApart ∧ p.1.Tabled ∧
      p.1.Counts b p.2.clock.cycles) ∧ p.1.Earned b p.2.clock i (p.2.wait i)) ?_ ?_
    · exact ⟨⟨Machine.idleApart_start cfg, tabled_start b cfg, counts_start b cfg⟩,
        fun _ hpos => absurd hpos (lt_irrefl 0), fun _ hpos => absurd hpos (lt_irrefl 0)⟩
    · rintro ⟨s, g⟩ ⟨s', g'⟩ a o ⟨⟨hm, ht, hc⟩, hI⟩ hok hst
      obtain ⟨hs, rfl⟩ := Run.annotate_eq_some.1 hst
      exact ⟨⟨idleApart_step hm hs, ht.step hm hs, hc.step hs⟩, hI.step hm ht hc hok hs⟩
  exact hinv.2

end Tickless

/-! ### All runs -/

open Tickless in
/-- In every run whose steps meet the condition, a task that `sched_tick_n` makes ready no earlier in
the current ms than it has blocked in its own, such as a task that has blocked at the begin of a ms, has
waited for the ms of its delay. -/
theorem delay_not_early {b : Board} {cfg : Config} {s : Tickless} {g : Watch}
    {a : TicklessAction} {out : List TicklessObs} {i : ℕ}
    (h : Run.Reach (watched b) (fun p a => p.1.KeepsTime b p.2 a) (start b cfg, noWatch) (s, g) out)
    (hok : s.KeepsTime b g a) (hs : (s.step b a).isSome = true) (hr : s.Readies a i)
    (hphase : (g.wait i).phase ≤ g.clock.phase b.ticksPerMs) :
    (g.wait i).length * b.ticksPerMs ≤ g.clock.now - (g.wait i).begun := by
  have hwhole := (earned_of_reach h).readies hok hs hr
  rwa [Nat.sub_eq_zero_of_le hphase, Nat.add_zero] at hwhole

/-- Cycles of a counter that runs, in the record. -/
theorem Tickless.reach_watched_cycles {b : Board} {p₀ : Tickless × Watch} {s : Tickless} {g : Watch}
    {ok : Tickless × Watch → TicklessAction → Prop} {out : List TicklessObs}
    (h : Run.Reach (watched b) ok p₀ (s, g) out) (hok : ∀ p, ok p .cycle)
    (henable : s.sysTick.enable = true) (n : ℕ) :
    Run.Reach (watched b) ok p₀ ({ s with sysTick := s.sysTick.cycles n },
      { g with clock := ⟨g.clock.before, g.clock.cycles + n⟩ }) out := by
  induction n with
  | zero => exact h
  | succ n ih =>
    have hrun : (s.sysTick.cycles n).enable = true := by
      rw [SysTick.enable_cycles, henable]
    have hcycle : Tickless.watched b ({ s with sysTick := s.sysTick.cycles n },
          { g with clock := ⟨g.clock.before, g.clock.cycles + n⟩ }) .cycle =
        some (({ s with sysTick := s.sysTick.cycles (n + 1) },
          { g with clock := ⟨g.clock.before, g.clock.cycles + (n + 1)⟩ }), []) := by
      refine Run.annotate_eq_some.2 ⟨?_, ?_⟩
      · rw [SysTick.cycles_succ]
        rfl
      · simp only [watch, clock, hrun, if_true]
        rfl
    have hstep := ih.step (hok _) hcycle
    rwa [List.append_nil] at hstep

/-- The record after the run of a scenario. -/
def TicklessScenario.watched (s : TicklessScenario) : Tickless × Watch :=
  ((Run.exec (Tickless.watched s.board) (Tickless.start s.board s.config, Tickless.noWatch)
    s.actions).get ((Run.isSome_exec_annotate ..).trans s.possible)).1

/-- The counter has been started, and has made `n` cycles down to `cvr`. -/
def sleptTo (p : Tickless × Watch) (n cvr : ℕ) : Tickless × Watch :=
  ({ p.1 with sysTick := { p.1.sysTick with cvr := cvr } },
    { p.2 with clock := ⟨p.2.clock.before, p.2.clock.cycles + n⟩ })

theorem TicklessScenario.reach_sleptTo (s : TicklessScenario)
    (ok : Tickless × Watch → TicklessAction → Prop) (hok : ∀ p, ok p .cycle)
    (hpermitted : Run.Permitted (Tickless.watched s.board) ok
      (Tickless.start s.board s.config, Tickless.noWatch) s.actions)
    (henable : s.watched.1.sysTick.enable = true) (hzero : s.watched.1.sysTick.cvr = 0) {n cvr : ℕ}
    (hpos : 0 < cvr) (hn : cvr + n = s.watched.1.sysTick.rvr) :
    ∃ out, Run.Reach (Tickless.watched s.board) ok
      (Tickless.start s.board s.config, Tickless.noWatch) (sleptTo s.watched (n + 1) cvr) out := by
  have hreach : Run.Reach (Tickless.watched s.board) ok
      (Tickless.start s.board s.config, Tickless.noWatch) (s.watched.1, s.watched.2) _ :=
    .exec hpermitted ((Run.isSome_exec_annotate ..).trans s.possible)
  have hcycles := Tickless.reach_watched_cycles hreach hok henable (n + 1)
  rw [SysTick.cycles_of_zero henable hzero hpos hn] at hcycles
  exact ⟨_, hcycles⟩

/-- The sleep for a delay of 3 ms is about to expire. -/
def sleptDelay : Tickless × Watch := sleptTo sleepForDelay.watched 359999 1

/-- The idle task charges the sleep, up to the statement that makes the task ready. -/
def chargeDelay : List TicklessAction := [.cycle, .sysTick] ++ List.replicate 12 .idle

theorem chargeDelay_possible :
    (Run.exec (Tickless.watched .k64f) sleptDelay chargeDelay).isSome = true := by
  decide +kernel

def delayOver : Tickless × Watch :=
  ((Run.exec (Tickless.watched .k64f) sleptDelay chargeDelay).get chargeDelay_possible).1

theorem delayOver_not_early : (delayOver.2.wait 0).length = 3 ∧
    (delayOver.2.wait 0).length * Board.ticksPerMs .k64f ≤
      delayOver.2.clock.now - (delayOver.2.wait 0).begun := by
  obtain ⟨out, hslept⟩ := sleepForDelay.reach_sleptTo (fun p a => p.1.KeepsTime .k64f p.2 a)
    (fun _ => trivial) (by decide +kernel) (by decide +kernel) (by decide +kernel)
    (by decide : 0 < 1) (n := 359998) (by decide +kernel)
  have hover : Run.Reach (Tickless.watched .k64f) (fun p a => p.1.KeepsTime .k64f p.2 a)
      (Tickless.start .k64f { priorities := [1] }, Tickless.noWatch) (delayOver.1, delayOver.2) _ :=
    hslept.continue_exec (by decide +kernel) chargeDelay_possible
  exact ⟨by decide +kernel, delay_not_early (a := .idle) hover (by decide +kernel)
    (by decide +kernel) (by decide +kernel) (by decide +kernel)⟩

/-- A task waits for a semaphore, and the idle task waits for an interrupt. -/
def sleepForSem : TicklessScenario where
  board := .k64f
  config := { priorities := [1], sem := fun _ => ⟨0, 1⟩ }
  actions := [.kernel (.call (.semTake 0)), .kernel .exec, .kernel .pendSV] ++
    List.replicate 8 .idle
  possible := by decide +kernel

/-- 2 ms of the sleep have passed. -/
def sleptForSem : Tickless × Watch := sleptTo sleepForSem.watched 240001 16537214

theorem reach_sleptForSem : ∃ out, Run.Reach (Tickless.watched .k64f) (fun _ _ => True)
    (Tickless.start .k64f sleepForSem.config, Tickless.noWatch) sleptForSem out :=
  sleepForSem.reach_sleptTo (fun _ _ => True) (fun _ => trivial)
    (.of_forall _ fun _ _ _ => trivial) (by decide +kernel) (by decide +kernel) (by decide)
    (n := 240000) (by decide +kernel)

/-- A handler gives the semaphore, the task delays itself for 2 ms, and the idle task goes on. -/
def wakeAndDelay : List TicklessAction :=
  [.kernel (.irq (.semGive 0)), .kernel .exec, .kernel .pendSV, .kernel .exec, .kernel .exec,
    .kernel (.call (.schedDelayMs 2)), .kernel .exec, .kernel .exec, .kernel .pendSV] ++
    List.replicate 13 .idle

theorem wakeAndDelay_possible :
    (Run.exec (Tickless.watched .k64f) sleptForSem wakeAndDelay).isSome = true := by
  decide +kernel

def chargedWithSleep : Tickless × Watch :=
  ((Run.exec (Tickless.watched .k64f) sleptForSem wakeAndDelay).get wakeAndDelay_possible).1

theorem chargedWithSleep_early :
    (chargedWithSleep.1.step .k64f .idle).isSome = true ∧ chargedWithSleep.1.Readies .idle 0 ∧
    (chargedWithSleep.2.wait 0).length = 2 ∧
    chargedWithSleep.2.clock.now = (chargedWithSleep.2.wait 0).begun ∧
    ¬(chargedWithSleep.2.wait 0).length * Board.ticksPerMs .k64f ≤
      chargedWithSleep.2.clock.now - (chargedWithSleep.2.wait 0).begun := by
  decide +kernel

/-- The sleep that has ended before is charged to the delay: `sched_tick_n` makes the task ready in the
cycle in which it has blocked. -/
theorem delay_early : ∃ (cfg : Config) (s : Tickless) (g : Watch) (out : List TicklessObs),
    Run.Reach (Tickless.watched .k64f) (fun _ _ => True)
      (Tickless.start .k64f cfg, Tickless.noWatch) (s, g) out ∧
    (s.step .k64f .idle).isSome = true ∧ s.Readies .idle 0 ∧ (g.wait 0).length = 2 ∧
    g.clock.now = (g.wait 0).begun ∧
    ¬(g.wait 0).length * Board.ticksPerMs .k64f ≤ g.clock.now - (g.wait 0).begun := by
  obtain ⟨out, hslept⟩ := reach_sleptForSem
  have hcharged : Run.Reach (Tickless.watched .k64f) (fun _ _ => True)
      (Tickless.start .k64f sleepForSem.config, Tickless.noWatch) chargedWithSleep _ :=
    hslept.continue_exec (.of_forall _ fun _ _ _ => trivial) wakeAndDelay_possible
  have hearly := chargedWithSleep_early
  generalize chargedWithSleep = p at hcharged hearly
  obtain ⟨s, g⟩ := p
  exact ⟨_, s, g, _, hcharged, hearly⟩

end TamgaOs
