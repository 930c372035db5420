import TamgaOs.Machine.Tickless

/-!
# The counter and its time

The SysTick counter runs with a period of 1 ms, and during a sleep with the period that the idle task
has programmed. Beside the machine runs a clock that counts the cycles of the counter. The registers
agree with it at every program point of the idle task, so what a sleep measures is not more than the
time that it has lasted, once this is a whole ms.

## Main definitions

* `Clock`, `Tickless.clock`: the cycles of the counter, and how a step counts them.
* `SysTick.Periodic`: the registers of a counter that runs.
* `Tickless.Counts`: the registers at the program points of the idle task.

## Main results

* `SysTick.Periodic.cycle`: a cycle of a counter that runs.
* `Board.elapsedMs_le`: what a sleep measures.
* `Tickless.Counts.step`: the registers along a run.
-/

namespace TamgaOs

/-! ### The clock -/

/-- The cycles that the counter has made. -/
structure Clock where
  /-- Until it was last started. -/
  before : ℕ
  /-- Since it was last started. -/
  cycles : ℕ

namespace Clock

variable (c : Clock)

/-- All cycles. -/
def now : ℕ := c.before + c.cycles

/-- The counter is started anew. -/
def restart : Clock := ⟨c.now, 0⟩

/-- The cycles up to the begin of the current ms of the counter. -/
def msBegin (ticksPerMs : ℕ) : ℕ := c.before + c.cycles / ticksPerMs * ticksPerMs

/-- The cycles of the current ms. -/
def phase (ticksPerMs : ℕ) : ℕ := c.cycles % ticksPerMs

theorem msBegin_add_phase (ticksPerMs : ℕ) : c.msBegin ticksPerMs + c.phase ticksPerMs = c.now := by
  rw [msBegin, phase, now, Nat.add_assoc, Nat.div_add_mod']

theorem msBegin_le_now (ticksPerMs : ℕ) : c.msBegin ticksPerMs ≤ c.now :=
  Nat.le.intro (c.msBegin_add_phase ticksPerMs)

theorem msBegin_le_restart (ticksPerMs : ℕ) :
    c.msBegin ticksPerMs ≤ c.restart.msBegin ticksPerMs :=
  (c.msBegin_le_now ticksPerMs).trans (Nat.le_add_right ..)

end Clock

/-- The clock after a step. -/
def Tickless.clock (s : Tickless) (a : TicklessAction) (c : Clock) : Clock :=
  match a, s.idle with
  | .cycle, _ => if s.sysTick.enable then { c with cycles := c.cycles + 1 } else c
  | .idle, .sleep (.enable _) | .idle, .sleep (.start _) => c.restart
  | _, _ => c

/-! ### A counter that runs -/

/-- The counter has a period of `p` cycles, and has made `n` cycles since its start. -/
def SysTick.Periodic (p n : ℕ) (d : SysTick) : Prop :=
  d.enable = true ∧ d.rvr = p - 1 ∧ d.cvr < p ∧ p ∣ d.cvr + n ∧ (d.countFlag = true → p ≤ n)

namespace SysTick

variable {d : SysTick} {p n : ℕ}

theorem cycle_of_not_enable (h : d.enable = false) : d.cycle = d := by
  unfold cycle
  rw [if_neg (by simp [h])]

theorem cycles_succ (d : SysTick) (n : ℕ) : d.cycles (n + 1) = (d.cycles n).cycle :=
  Function.iterate_succ_apply' ..

theorem enable_cycles (d : SysTick) (n : ℕ) : (d.cycles n).enable = d.enable := by
  induction n with
  | zero => rfl
  | succ n ih =>
    rw [cycles_succ, ← ih]
    unfold cycle
    split_ifs with h <;> simp [h]

/-- A counter that has just been started. -/
theorem periodic_zero (hp : 0 < p) (henable : d.enable = true) (hrvr : d.rvr = p - 1)
    (hcvr : d.cvr = 0) (hflag : d.countFlag = false) : d.Periodic p 0 := by
  refine ⟨henable, hrvr, hcvr ▸ hp, ?_, fun h => absurd (hflag.symm.trans h) (by decide)⟩
  rw [hcvr]
  exact Nat.dvd_zero p

/-- A cycle ends a period when the exception becomes pending. -/
theorem Periodic.cycle (h : d.Periodic p n) :
    d.cycle.Periodic p (n + 1) ∧
      (d.cycle.pending = true → d.pending = true ∨ p ∣ n + 1) := by
  obtain ⟨henable, hrvr, hlt, hdvd, hflag⟩ := h
  unfold SysTick.cycle
  rw [if_pos henable]
  split_ifs with hzero hone
  · refine ⟨⟨henable, hrvr, ?_, ?_, fun hf => (hflag hf).trans (Nat.le_succ n)⟩, Or.inl⟩
    · simp only [hrvr]
      omega
    · have hload : d.rvr + (n + 1) = p + (d.cvr + n) := by omega
      simp only [hload]
      exact Nat.dvd_add (Nat.dvd_refl p) hdvd
  · have hend : p ∣ n + 1 := by
      rwa [hone, Nat.add_comm] at hdvd
    refine ⟨⟨henable, hrvr, Nat.zero_lt_of_lt hlt, ?_, fun _ => Nat.le_of_dvd n.succ_pos hend⟩,
      fun _ => Or.inr hend⟩
    simpa using hend
  · refine ⟨⟨henable, hrvr, ?_, ?_, fun hf => (hflag hf).trans (Nat.le_succ n)⟩, Or.inl⟩
    · simp only
      omega
    · have hsame : d.cvr - 1 + (n + 1) = d.cvr + n := by omega
      simp only [hsame]
      exact hdvd

/-- The cycles that have been read off the counter are not more than it has made. -/
theorem Periodic.read_le (h : d.Periodic p n) (hn : 0 < n) : uint32Sub (p - 1) d.cvr ≤ n := by
  obtain ⟨-, -, hlt, hdvd, -⟩ := h
  have hle : p ≤ d.cvr + n := Nat.le_of_dvd (Nat.add_pos_right _ hn) hdvd
  unfold uint32Sub
  rw [if_pos (Nat.le_sub_one_of_lt hlt)]
  omega

end SysTick

/-! ### The length of a sleep -/

namespace Board

variable {b : Board} {maxMs m n : ℕ}

/-- A sleep is at least one ms long when nothing interrupts it. -/
theorem ticksPerMs_le_ticklessReload (hpos : 0 < maxMs) (hle : maxMs ≤ ticklessMaxSleepMs) :
    b.ticksPerMs ≤ b.ticklessReload maxMs := by
  have hms : b.ticksPerMs ≤ maxMs * b.ticksPerMs := Nat.le_mul_of_pos_left _ hpos
  have hprod : maxMs * b.ticksPerMs ≤ 1000 * 120000 := Nat.mul_le_mul hle b.ticksPerMs_le
  have hmod : maxMs * b.ticksPerMs % 2 ^ 32 = maxMs * b.ticksPerMs := Nat.mod_eq_of_lt (by omega)
  have hmax : b.ticksPerMs ≤ ticklessMaxReload := b.ticksPerMs_le.trans (by decide)
  unfold ticklessReload
  dsimp only
  rw [hmod]
  split_ifs
  · exact hmax
  · exact hms

/-- What a sleep measures is not more than the whole ms that it has lasted, if this is at least
one. -/
theorem elapsedMs_le (hn : n ≤ m) (hm : b.ticksPerMs ≤ m) :
    b.elapsedMs n ≤ m / b.ticksPerMs := by
  unfold elapsedMs
  split_ifs
  · exact Nat.div_pos hm b.ticksPerMs_pos
  · exact Nat.div_le_div_right hn

end Board

/-! ### The registers along a run -/

namespace Tickless

variable (b : Board) (s : Tickless)

/-- The budget of a sleep. -/
def Budget (maxMs : ℕ) : Prop := 0 < maxMs ∧ maxMs ≤ ticklessMaxSleepMs

/-- The registers, `n` cycles after the counter has last been started. It has the period of the sleep
from the statement that starts it up to the one that stops it, and the period of 1 ms outside. What
the sleep has measured is not 0. -/
def Counts (n : ℕ) : Prop :=
  match s.idle with
  | .sleep (.disable maxMs) => Budget maxMs ∧ s.sysTick.Periodic b.ticksPerMs n
  | .sleep (.program maxMs) => Budget maxMs ∧ s.sysTick.enable = false
  | .sleep (.clear maxMs) =>
    Budget maxMs ∧ s.sysTick.enable = false ∧ s.sysTick.rvr = b.ticklessReload maxMs - 1
  | .sleep (.activate maxMs) =>
    Budget maxMs ∧ s.sysTick.enable = false ∧ s.sysTick.rvr = b.ticklessReload maxMs - 1 ∧
      s.sysTick.cvr = 0
  | .sleep (.enable maxMs) =>
    Budget maxMs ∧ s.sysTick.enable = false ∧ s.sysTick.rvr = b.ticklessReload maxMs - 1 ∧
      s.sysTick.cvr = 0 ∧ s.ticklessActive = true
  | .sleep (.wfi maxMs) | .sleep (.deactivate maxMs) =>
    Budget maxMs ∧ s.sysTick.Periodic (b.ticklessReload maxMs) n ∧ s.ticklessActive = true
  | .sleep (.readFlag maxMs) | .sleep (.readCounter maxMs) =>
    Budget maxMs ∧ s.sysTick.Periodic (b.ticklessReload maxMs) n
  | .sleep (.stop elapsedMs) => 0 < elapsedMs
  | .sleep (.restore elapsedMs) => 0 < elapsedMs ∧ s.sysTick.enable = false
  | .sleep (.restart elapsedMs) =>
    0 < elapsedMs ∧ s.sysTick.enable = false ∧ s.sysTick.rvr = b.ticksPerMs - 1
  | .sleep (.start elapsedMs) =>
    0 < elapsedMs ∧ s.sysTick.enable = false ∧ s.sysTick.rvr = b.ticksPerMs - 1 ∧
      s.sysTick.cvr = 0
  | .sleep (.advance elapsedMs) | .tick elapsedMs _ =>
    0 < elapsedMs ∧ s.sysTick.Periodic b.ticksPerMs n
  | .loop | .timerNow _ | .timerScan _ _ | .wfi | .service _ =>
    s.sysTick.Periodic b.ticksPerMs n

variable {b s} {s' : Tickless} {a : TicklessAction} {o : List TicklessObs} {c : Clock}

theorem budget_budgetOf {m n : ℕ} (h : budgetOf m n ≠ 0) : Budget (budgetOf m n) := by
  refine ⟨Nat.pos_of_ne_zero h, ?_⟩
  unfold budgetOf
  dsimp only
  split_ifs <;> omega

/-- A cycle. -/
theorem Counts.cycle (h : s.Counts b c.cycles) :
    Counts b { s with sysTick := s.sysTick.cycle } (s.clock .cycle c).cycles := by
  have hrun : ∀ {p : ℕ}, s.sysTick.Periodic p c.cycles →
      s.sysTick.cycle.Periodic p (s.clock .cycle c).cycles := by
    intro p hp
    simp only [clock, hp.1, if_true]
    exact hp.cycle.1
  have hstop : s.sysTick.enable = false → s.sysTick.cycle = s.sysTick :=
    SysTick.cycle_of_not_enable
  unfold Counts at h ⊢
  dsimp only
  split at h
  · exact ⟨h.1, hrun h.2⟩
  · rw [hstop h.2]
    exact h
  · rw [hstop h.2.1]
    exact h
  · rw [hstop h.2.1]
    exact h
  · rw [hstop h.2.1]
    exact h
  · exact ⟨h.1, hrun h.2.1, h.2.2⟩
  · exact ⟨h.1, hrun h.2.1, h.2.2⟩
  · exact ⟨h.1, hrun h.2⟩
  · exact ⟨h.1, hrun h.2⟩
  · exact h
  · rw [hstop h.2]
    exact h
  · rw [hstop h.2.1]
    exact h
  · rw [hstop h.2.1]
    exact h
  · exact ⟨h.1, hrun h.2⟩
  · exact ⟨h.1, hrun h.2⟩
  · exact hrun h
  · exact hrun h
  · exact hrun h
  · exact hrun h
  · exact hrun h

/-- A statement of `systick_tickless_sleep`. -/
theorem Counts.sleep {p : SleepCtl} (h : s.Counts b c.cycles) (hc : s.idle = .sleep p) :
    Counts b (s.sleepStep b p) (s.clock .idle c).cycles := by
  simp only [Counts, hc] at h
  simp only [clock, hc]
  cases p with
  | disable maxMs => exact ⟨h.1, rfl⟩
  | program maxMs => exact ⟨h.1, h.2, rfl⟩
  | clear maxMs => exact ⟨h.1, h.2.1, h.2.2, rfl⟩
  | activate maxMs => exact ⟨h.1, h.2.1, h.2.2.1, h.2.2.2, rfl⟩
  | enable maxMs =>
    obtain ⟨hbudget, -, hrvr, hcvr, hactive⟩ := h
    have hpos : 0 < b.ticklessReload maxMs :=
      b.ticksPerMs_pos.trans_le (Board.ticksPerMs_le_ticklessReload hbudget.1 hbudget.2)
    exact ⟨hbudget, SysTick.periodic_zero hpos rfl hrvr hcvr rfl, hactive⟩
  | wfi maxMs => exact h
  | deactivate maxMs => exact ⟨h.1, h.2.1⟩
  | readFlag maxMs =>
    simp only [sleepStep]
    split_ifs with hflag
    · exact b.elapsedMs_pos _
    · obtain ⟨hbudget, henable, hrvr, hlt, hdvd, -⟩ := h
      exact ⟨hbudget, henable, hrvr, hlt, hdvd, fun hf => by cases hf⟩
  | readCounter maxMs => exact b.elapsedMs_pos _
  | stop e => exact ⟨h, rfl⟩
  | restore e => exact ⟨h.1, h.2, rfl⟩
  | restart e => exact ⟨h.1, h.2.1, h.2.2, rfl⟩
  | start e =>
    obtain ⟨hpos, -, hrvr, hcvr⟩ := h
    exact ⟨hpos, SysTick.periodic_zero b.ticksPerMs_pos rfl hrvr hcvr rfl⟩
  | advance e => exact h

/-- A statement of the idle task. -/
theorem Counts.idle (h : s.Counts b c.cycles) (hs : s.idleStep b = some (s', o)) :
    s'.Counts b (s.clock .idle c).cycles := by
  unfold idleStep at hs
  split at hs
  · rename_i hc
    cases hs
    simp only [Counts, hc] at h
    simp only [clock, hc]
    exact h
  · rename_i hc
    cases hs
    simp only [Counts, hc] at h
    simp only [clock, hc]
    exact h
  · rename_i hc
    cases hs
    simp only [Counts, hc] at h
    simp only [clock, hc]
    split_ifs with hzero
    · exact h
    · exact ⟨budget_budgetOf hzero, h⟩
  · rename_i hc
    cases hs
    simp only [Counts, hc] at h
    simp only [clock, hc]
    exact h
  · rename_i hc
    cases hs
    exact h.sleep hc
  · rename_i hc
    obtain ⟨⟨k', c'⟩, -, he⟩ := Option.map_eq_some_iff.1 hs
    cases he
    simp only [Counts, hc] at h
    simp only [clock, hc]
    cases c' with
    | none => exact h.2
    | some c' => exact h
  · rename_i p hc
    cases hs
    simp only [Counts, hc] at h
    simp only [clock, hc]
    cases (serviceStep s.timers s.kernel.ticks p).2.1 with
    | none => exact h
    | some c' => exact h

/-- The registers agree with the clock along every run. -/
theorem Counts.step (h : s.Counts b c.cycles) (hs : s.step b a = some (s', o)) :
    s'.Counts b (s.clock a c).cycles := by
  rcases step_cases hs with ⟨a', m', o', rfl, -, -, -, rfl, -⟩ | ⟨op, rfl, rfl, -⟩ |
    ⟨rfl, -, -, hidle⟩ | ⟨rfl, rfl, -⟩ | ⟨rfl, -, hh⟩
  · exact h
  · exact h
  · exact h.idle hidle
  · exact h.cycle
  · rcases handlerStep_cases hh with ⟨-, -, rfl⟩ | ⟨k', -, -, rfl, -⟩
    · exact h
    · exact h

theorem counts_start (b : Board) (cfg : Config) : (start b cfg).Counts b 0 :=
  SysTick.periodic_zero b.ticksPerMs_pos rfl rfl rfl rfl

end Tickless

end TamgaOs
