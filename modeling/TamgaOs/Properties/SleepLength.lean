import TamgaOs.Properties.TicklessDrift

/-!
# The length of a tickless sleep

The product of the budget and the ticks of a ms may wrap, and is cut off at 24 bits. However the sleep
ends, and whatever is read from the counter then, the ms that it reports are at least one and not more
than the budget.

## Main definitions

* `Tickless.statement`, `Tickless.sleepsFor`: the statements of `systick_tickless_sleep`.

## Main results

* `Board.elapsedMs_le_maxMs`: what is reported.
* `ticklessSleep_inBudget`: the whole function.
-/

namespace TamgaOs

namespace Board

variable {b : Board} {maxMs n : ℕ}

theorem ticklessReload_le_max (b : Board) (maxMs : ℕ) : b.ticklessReload maxMs ≤ ticklessMaxReload := by
  unfold ticklessReload
  dsimp only
  split_ifs with h
  · exact le_rfl
  · exact not_lt.1 fun hlt => h (Or.inr hlt)

/-- The reload value is not more than the product, wrapped or not. -/
theorem ticklessReload_le_mul (hpos : 0 < maxMs) : b.ticklessReload maxMs ≤ maxMs * b.ticksPerMs := by
  have hprod : 0 < maxMs * b.ticksPerMs := Nat.mul_pos hpos b.ticksPerMs_pos
  have hmod : maxMs * b.ticksPerMs % 2 ^ 32 ≤ maxMs * b.ticksPerMs := Nat.mod_le ..
  unfold ticklessReload
  dsimp only
  split_ifs with h
  · rcases h with hzero | hlong
    · -- the product has wrapped to 0
      have hwrap : 2 ^ 32 ≤ maxMs * b.ticksPerMs :=
        Nat.le_of_dvd hprod (Nat.dvd_of_mod_eq_zero hzero)
      exact (show ticklessMaxReload ≤ 2 ^ 32 by decide).trans hwrap
    · exact hlong.le.trans hmod
  · exact hmod

/-- What is reported for not more ticks than the reload value. -/
theorem elapsedMs_le_maxMs (hpos : 0 < maxMs) (hn : n ≤ b.ticklessReload maxMs) :
    b.elapsedMs n ≤ maxMs := by
  unfold elapsedMs
  split_ifs
  · exact hpos
  · refine Nat.div_le_of_le_mul ?_
    rw [Nat.mul_comm]
    exact hn.trans (ticklessReload_le_mul hpos)

end Board

namespace Tickless

variable (b : Board) (s : Tickless)

/-- The next statement of `systick_tickless_sleep`, as long as there is one. -/
def statement : Tickless :=
  match s.idle with
  | .sleep c => s.sleepStep b c
  | _ => s

/-- `systick_tickless_sleep` up to `wfi`. -/
def fallsAsleep (maxMs : ℕ) : Tickless :=
  (statement b)^[5] { s with idle := .sleep (.disable maxMs) }

/-- `systick_tickless_sleep` behind `wfi`, when `SYST_CSR` and `SYST_CVR` read as in `d`. -/
def wakesUp (d : SysTick) : Tickless := (statement b)^[9] { s with sysTick := d }

/-- `systick_tickless_sleep`, with the counter at its end. -/
def sleepsFor (maxMs : ℕ) (d : SysTick) : Tickless := (s.fallsAsleep b maxMs).wakesUp b d

end Tickless

open Tickless in
/-- However the sleep ends: the reload value fits the register, no subtraction wraps, the ms that are
reported to `sched_tick_n` are at least one and at most the budget, and the clock advances by them. -/
theorem ticklessSleep_inBudget (b : Board) (s : Tickless) {maxMs : ℕ} (hpos : 0 < maxMs) (d : SysTick)
    (hd : d.cvr ≤ (s.fallsAsleep b maxMs).sysTick.rvr) :
    (s.fallsAsleep b maxMs).sysTick.rvr ≤ 0x00FFFFFE ∧
    (s.fallsAsleep b maxMs).sysTick.rvr + 1 = b.ticklessReload maxMs ∧
    (d.countFlag = false → b.elapsedTicks maxMs d + d.cvr + 1 = b.ticklessReload maxMs) ∧
    1 ≤ b.elapsedMs (b.elapsedTicks maxMs d) ∧ b.elapsedMs (b.elapsedTicks maxMs d) ≤ maxMs ∧
    (s.sleepsFor b maxMs d).idle = .tick (b.elapsedMs (b.elapsedTicks maxMs d)) (.test 0) ∧
    (s.sleepsFor b maxMs d).kernel.ticks =
      (s.kernel.ticks + b.elapsedMs (b.elapsedTicks maxMs d)) % 2 ^ 32 := by
  have htwo := b.two_le_ticklessReload maxMs
  have hmax := b.ticklessReload_le_max maxMs
  have hrvr : (s.fallsAsleep b maxMs).sysTick.rvr = b.ticklessReload maxMs - 1 := rfl
  rw [hrvr] at hd ⊢
  have hread : b.elapsedTicks maxMs d =
      if d.countFlag then b.ticklessReload maxMs else b.ticklessReload maxMs - 1 - d.cvr := by
    unfold Board.elapsedTicks uint32Sub
    rw [if_pos hd]
  have hwithin : b.elapsedTicks maxMs d ≤ b.ticklessReload maxMs := by
    rw [hread]
    split_ifs <;> omega
  have hwoken : (s.sleepsFor b maxMs d).idle = .tick (b.elapsedMs (b.elapsedTicks maxMs d)) (.test 0) ∧
      (s.sleepsFor b maxMs d).kernel.ticks =
        (s.kernel.ticks + b.elapsedMs (b.elapsedTicks maxMs d)) % 2 ^ 32 := by
    unfold Board.elapsedTicks
    cases hflag : d.countFlag <;>
      simp [sleepsFor, wakesUp, fallsAsleep, statement, sleepStep, hflag, withKernel,
        Kernel.advanceClock]
  refine ⟨?_, by omega, fun hflag => ?_, b.elapsedMs_pos _, Board.elapsedMs_le_maxMs hpos hwithin, hwoken⟩
  · unfold Board.ticklessMaxReload at hmax
    omega
  · rw [hread, hflag, if_neg Bool.false_ne_true]
    omega

/-- The product of the budget and the ticks of a ms wraps to 0. -/
theorem ticklessSleep_wrapped :
    (0 < 2 ^ 31 ∧ 2 ^ 31 * Board.k64f.ticksPerMs % 2 ^ 32 = 0) ∧
    1 ≤ Board.k64f.elapsedMs (Board.k64f.elapsedTicks (2 ^ 31) ⟨true, 0x00FFFFFE, 5, false, false⟩) ∧
    Board.k64f.elapsedMs (Board.k64f.elapsedTicks (2 ^ 31) ⟨true, 0x00FFFFFE, 5, false, false⟩) ≤
      2 ^ 31 := by
  have hsleep := ticklessSleep_inBudget .k64f (Tickless.start .k64f { priorities := [1] })
    (by decide : 0 < 2 ^ 31) ⟨true, 0x00FFFFFE, 5, false, false⟩ (by decide)
  exact ⟨by decide, hsleep.2.2.2.1, hsleep.2.2.2.2.1⟩

end TamgaOs
