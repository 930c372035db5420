import TamgaOs.Machine.Tickless
import Mathlib.Algebra.BigOperators.Group.List.Basic
import Mathlib.Algebra.Order.Ring.Int
import Mathlib.Algebra.Order.Ring.Abs

/-!
# The drift of the tickless clock

`systick_tickless_sleep` advances the tick by whole ms, at least one, and drops the rest of the
counter when it starts the next ms. Nothing carries the difference over to the next sleep. The counter
takes one cycle more than its reload value for a period, and this cycle is missing when the sleep is
interrupted.

## Main definitions

* `Board.ticklessSleep`: what a sleep returns, from the cycles of the counter.
* `Sleep`, `Sleep.Valid`: a sleep and the cycles it has lasted.
* `Board.DriftFree`: the ms that some sleeps have counted are their cycles, up to one ms.
* `Sleep.Whole`: the sleeps without a rest.

## Main results

* `Board.ticklessSleep_eq`: what a sleep returns. `Tickless.sleep_stop`: it is what the idle task has.
* `tickless_drift_iff`: the sleeps that may be repeated.
* `tickless_drifts`: two sleeps of one second.
-/

namespace TamgaOs

/-! ### One sleep -/

namespace Board

variable (b : Board) (maxMs ticks : ℕ)

/-- The counter when `systick_tickless_sleep` executes `wfi`. -/
def sleepCounter : SysTick where
  enable := true
  rvr := b.ticklessReload maxMs - 1
  cvr := 0
  countFlag := false
  pending := false

/-- `elapsed_ticks`, read from the counter. -/
def elapsedTicks (d : SysTick) : ℕ :=
  if d.countFlag then b.ticklessReload maxMs else uint32Sub (b.ticklessReload maxMs - 1) d.cvr

/-- What `systick_tickless_sleep` returns, and adds to `s_ticks`, when the sleep ends after `ticks`
cycles of the counter. -/
def ticklessSleep : ℕ :=
  if maxMs = 0 then 0
  else b.elapsedMs (b.elapsedTicks maxMs ((b.sleepCounter maxMs).cycles ticks))

variable {b maxMs ticks}

/-- The product is even. -/
theorem two_le_ticklessReload (b : Board) (maxMs : ℕ) : 2 ≤ b.ticklessReload maxMs := by
  have hticks : 2 ∣ b.ticksPerMs := by cases b <;> decide
  have heven : 2 ∣ maxMs * b.ticksPerMs % 2 ^ 32 :=
    (Nat.dvd_mod_iff (by decide)).2 (hticks.mul_left maxMs)
  unfold ticklessReload
  dsimp only
  split_ifs with hclamp
  · decide
  · obtain ⟨hne, -⟩ := not_or.1 hclamp
    exact Nat.le_of_dvd (Nat.pos_of_ne_zero hne) heven

/-- What the code reads from the counter. The cycle that loads the counter is counted when it has
expired only, and a counter that has not been loaded yet looks like one that has run down. -/
theorem elapsedTicks_cycles (h : ticks ≤ b.ticklessReload maxMs) :
    b.elapsedTicks maxMs ((b.sleepCounter maxMs).cycles ticks) =
      if ticks = b.ticklessReload maxMs then b.ticklessReload maxMs
      else if ticks = 0 then b.ticklessReload maxMs - 1 else ticks - 1 := by
  have htwo := b.two_le_ticklessReload maxMs
  have hrun : ∀ {n c : ℕ}, 0 < c → c + n = b.ticklessReload maxMs - 1 →
      (b.sleepCounter maxMs).cycles (n + 1) = { b.sleepCounter maxMs with cvr := c } :=
    fun hc hn => SysTick.cycles_of_zero rfl rfl hc hn
  split_ifs with hend hzero
  · -- the counter has reached 0 in the last cycle
    obtain ⟨n, hn⟩ := Nat.exists_eq_add_of_le' htwo
    have hlast := hrun (n := n) (c := 1) Nat.one_pos (by omega)
    rw [hend, hn, SysTick.cycles, Function.iterate_succ_apply']
    rw [SysTick.cycles] at hlast
    rw [hlast, elapsedTicks, ← hn]
    rfl
  · rw [hzero]
    rfl
  · obtain ⟨n, rfl⟩ := Nat.exists_eq_succ_of_ne_zero hzero
    have hcount := hrun (n := n) (c := b.ticklessReload maxMs - 1 - n) (by omega) (by omega)
    rw [hcount]
    show uint32Sub (b.ticklessReload maxMs - 1) (b.ticklessReload maxMs - 1 - n) = n + 1 - 1
    unfold uint32Sub
    split_ifs <;> omega

theorem ticklessSleep_eq (hpos : 0 < maxMs) (h : ticks ≤ b.ticklessReload maxMs) :
    b.ticklessSleep maxMs ticks = b.elapsedMs
      (if ticks = b.ticklessReload maxMs then b.ticklessReload maxMs
      else if ticks = 0 then b.ticklessReload maxMs - 1 else ticks - 1) := by
  rw [ticklessSleep, if_neg hpos.ne', elapsedTicks_cycles h]

end Board

namespace Tickless

variable {b : Board} {s : Tickless} {maxMs : ℕ}

/-- The idle task when it executes `wfi`. -/
def asleep (b : Board) (s : Tickless) (maxMs : ℕ) : Tickless :=
  [SleepCtl.disable maxMs, .program maxMs, .clear maxMs, .activate maxMs, .enable maxMs].foldl
    (sleepStep b) s

/-- The idle task after `wfi`, when it has read `SYST_CSR`. -/
def woken (b : Board) (s : Tickless) (maxMs : ℕ) : Tickless :=
  [SleepCtl.wfi maxMs, .deactivate maxMs, .readFlag maxMs].foldl (sleepStep b) s

/-- The idle task that sleeps for `ticks` cycles goes on with what the sleep returns. -/
theorem sleep_stop (hpos : 0 < maxMs) (hpending : s.sysTick.pending = false) (ticks : ℕ) :
    let s' := woken b { asleep b s maxMs with
      sysTick := (asleep b s maxMs).sysTick.cycles ticks } maxMs
    s'.idle = .sleep (.stop (b.ticklessSleep maxMs ticks)) ∨
      s'.idle = .sleep (.readCounter maxMs) ∧
        (s'.sleepStep b (.readCounter maxMs)).idle =
          .sleep (.stop (b.ticklessSleep maxMs ticks)) := by
  have hcounter : (asleep b s maxMs).sysTick = b.sleepCounter maxMs := by
    show SysTick.mk true _ 0 false s.sysTick.pending = _
    rw [hpending]
    rfl
  rw [hcounter, Board.ticklessSleep, if_neg hpos.ne', Board.elapsedTicks]
  intro s'
  have hidle : s'.idle = if ((b.sleepCounter maxMs).cycles ticks).countFlag then
      .sleep (.stop (b.elapsedMs (b.ticklessReload maxMs))) else .sleep (.readCounter maxMs) := rfl
  rw [hidle]
  split_ifs
  · exact Or.inl rfl
  · exact Or.inr ⟨rfl, rfl⟩

end Tickless

/-! ### The rest of a sleep -/

/-- A call of `systick_tickless_sleep`, and the cycles of the counter from `wfi` until it has been
woken up. -/
structure Sleep where
  maxMs : ℕ
  ticks : ℕ
  deriving DecidableEq

namespace Sleep

variable (b : Board) (x : Sleep)

/-- The sleep is over at once without a budget, and when the counter has expired at the latest. -/
def Valid : Prop := x.ticks ≤ if x.maxMs = 0 then 0 else b.ticklessReload x.maxMs

instance : Decidable (x.Valid b) := inferInstanceAs (Decidable (_ ≤ _))

/-- The cycles that a sleep counts beyond the ones it has lasted. A counter that has expired loses
what is left of the last ms; an interrupted one a cycle more; less than a ms is rounded up; a counter
that has not been loaded yet is taken for one that has run down. -/
def excess : ℤ :=
  if x.maxMs = 0 then 0
  else if x.ticks = b.ticklessReload x.maxMs then
    if x.ticks < b.ticksPerMs then b.ticksPerMs - x.ticks else -(x.ticks % b.ticksPerMs : ℕ)
  else if x.ticks = 0 then (b.elapsedMs (b.ticklessReload x.maxMs - 1) * b.ticksPerMs : ℕ)
  else if x.ticks ≤ b.ticksPerMs then b.ticksPerMs - x.ticks
  else -((x.ticks - 1) % b.ticksPerMs + 1 : ℕ)

/-- The sleep leaves no rest: the requested ticks, as the code computes them, are some whole ms that
fit into the reload register, and the counter expires; or the sleep is interrupted after one ms. -/
def Whole : Prop :=
  x.maxMs = 0 ∨ x.ticks = b.ticksPerMs ∨
    ∃ n, 0 < n ∧ x.ticks = n * b.ticksPerMs ∧ x.maxMs * b.ticksPerMs % 2 ^ 32 = n * b.ticksPerMs ∧
      n * b.ticksPerMs ≤ Board.ticklessMaxReload

variable {b x}

/-- `elapsed_ms` in cycles. -/
theorem elapsedMs_mul (b : Board) (n : ℕ) : (b.elapsedMs n * b.ticksPerMs : ℤ) =
    if n < b.ticksPerMs then (b.ticksPerMs : ℤ) else n - (n % b.ticksPerMs : ℕ) := by
  have hpos := b.ticksPerMs_pos
  unfold Board.elapsedMs
  by_cases hlt : n < b.ticksPerMs
  · rw [if_pos (Nat.div_eq_of_lt hlt), if_pos hlt, Nat.cast_one, one_mul]
  · have hdiv : 0 < n / b.ticksPerMs := Nat.div_pos (Nat.le_of_not_lt hlt) hpos
    have hsplit := Nat.div_add_mod' n b.ticksPerMs
    rw [if_neg hdiv.ne', if_neg hlt, ← Nat.cast_mul]
    omega

theorem excess_eq (h : x.Valid b) :
    (b.ticklessSleep x.maxMs x.ticks * b.ticksPerMs : ℤ) - x.ticks = x.excess b := by
  have hpos := b.ticksPerMs_pos
  unfold Valid at h
  unfold excess
  by_cases hmax : x.maxMs = 0
  · rw [if_pos hmax] at h ⊢
    rw [Board.ticklessSleep, if_pos hmax]
    omega
  · rw [if_neg hmax] at h ⊢
    rw [Board.ticklessSleep_eq (Nat.pos_of_ne_zero hmax) h]
    by_cases hend : x.ticks = b.ticklessReload x.maxMs
    · rw [if_pos hend, if_pos hend, ← hend, elapsedMs_mul]
      split_ifs <;> omega
    · rw [if_neg hend, if_neg hend]
      by_cases hzero : x.ticks = 0
      · rw [if_pos hzero, if_pos hzero, hzero]
        simp
      · rw [if_neg hzero, if_neg hzero, elapsedMs_mul]
        split_ifs <;> omega

/-- The clamped reload value is no whole number of ms. -/
theorem not_dvd_ticklessMaxReload (b : Board) : ¬b.ticksPerMs ∣ Board.ticklessMaxReload := by
  cases b <;> decide

theorem excess_eq_zero_iff (b : Board) (x : Sleep) : x.excess b = 0 ↔ x.Whole b := by
  have hpos := b.ticksPerMs_pos
  unfold excess Whole
  by_cases hmax : x.maxMs = 0
  · simp [hmax]
  rw [if_neg hmax]
  simp only [hmax, false_or]
  by_cases hend : x.ticks = b.ticklessReload x.maxMs
  · rw [if_pos hend]
    constructor
    · intro hzero
      split_ifs at hzero with hlt
      · exact Or.inl (by omega)
      · right
        obtain ⟨n, hn⟩ : b.ticksPerMs ∣ x.ticks := Nat.dvd_of_mod_eq_zero (by omega)
        have htwo := b.two_le_ticklessReload x.maxMs
        have hnpos : 0 < n := Nat.pos_of_ne_zero fun h0 => by
          rw [h0, Nat.mul_zero] at hn
          omega
        have hreload : b.ticklessReload x.maxMs = n * b.ticksPerMs := by
          rw [← hend, hn, Nat.mul_comm]
        refine ⟨n, hnpos, hend.trans hreload, ?_⟩
        unfold Board.ticklessReload at hreload
        dsimp only at hreload
        split_ifs at hreload with hclamp
        · exact absurd (Dvd.intro_left n hreload.symm) (not_dvd_ticklessMaxReload b)
        · obtain ⟨-, hle⟩ := not_or.1 hclamp
          exact ⟨hreload, by omega⟩
    · rintro (hone | ⟨n, hnpos, hn, -⟩)
      · rw [hone]
        simp
      · have hle : b.ticksPerMs ≤ n * b.ticksPerMs := Nat.le_mul_of_pos_left _ hnpos
        rw [hn, if_neg (by omega), Nat.mul_mod_left]
        rfl
  · rw [if_neg hend]
    have hwhole : ¬∃ n, 0 < n ∧ x.ticks = n * b.ticksPerMs ∧
        x.maxMs * b.ticksPerMs % 2 ^ 32 = n * b.ticksPerMs ∧
        n * b.ticksPerMs ≤ Board.ticklessMaxReload := by
      rintro ⟨n, hnpos, hn, hmod, hle⟩
      have hprod : 0 < n * b.ticksPerMs := Nat.mul_pos hnpos hpos
      refine hend ?_
      unfold Board.ticklessReload
      dsimp only
      rw [hmod, if_neg (by omega), hn]
    rw [or_iff_left hwhole]
    have helapsed := Nat.mul_pos (b.elapsedMs_pos (b.ticklessReload x.maxMs - 1)) hpos
    split_ifs with hzero <;> omega

end Sleep

/-! ### Many sleeps -/

namespace Board

variable (b : Board)

/-- The total increase of `s_ticks`. -/
def countedMs (l : List Sleep) : ℕ := (l.map fun x => b.ticklessSleep x.maxMs x.ticks).sum

/-- The cycles spent sleeping. -/
def sleptTicks (l : List Sleep) : ℕ := (l.map Sleep.ticks).sum

/-- The ms that have been counted are the cycles spent sleeping, up to one ms. -/
def DriftFree (l : List Sleep) : Prop :=
  |(b.countedMs l * b.ticksPerMs : ℤ) - sleptTicks l| < b.ticksPerMs

variable {b}

/-- The rests of the sleeps add up. -/
theorem drift_eq_sum : ∀ {l : List Sleep}, (∀ x ∈ l, x.Valid b) →
    (b.countedMs l * b.ticksPerMs : ℤ) - sleptTicks l = (l.map (Sleep.excess b)).sum
  | [], _ => by simp [countedMs, sleptTicks]
  | x :: l, h => by
    have ih := drift_eq_sum fun y hy => h y (List.mem_cons_of_mem x hy)
    have hone := Sleep.excess_eq (h x List.mem_cons_self)
    have hcounted : b.countedMs (x :: l) = b.ticklessSleep x.maxMs x.ticks + b.countedMs l :=
      List.sum_cons
    have hslept : sleptTicks (x :: l) = x.ticks + sleptTicks l := List.sum_cons
    rw [List.map_cons, List.sum_cons, ← ih, ← hone, hcounted, hslept, Nat.cast_add, Nat.cast_add,
      add_mul]
    omega

end Board

/-- A sum stays bounded however often its terms are repeated when and only when all terms are 0. -/
theorem sum_bounded_iff {α : Type*} {A : α → Prop} {f : α → ℤ} {bound : ℕ} (hpos : 0 < bound) :
    (∀ l : List α, (∀ x ∈ l, A x) → |(l.map f).sum| < bound) ↔ ∀ x, A x → f x = 0 := by
  constructor
  · intro h x hx
    have hmany := h (List.replicate bound x) fun y hy => List.eq_of_mem_replicate hy ▸ hx
    rw [List.map_replicate, List.sum_replicate, nsmul_eq_mul, abs_mul, Nat.abs_cast] at hmany
    by_contra hne
    have hone : 1 ≤ |f x| := Int.one_le_abs hne
    have hle : (bound : ℤ) * 1 ≤ bound * |f x| := mul_le_mul_of_nonneg_left hone (by omega)
    omega
  · intro h l hl
    have hzero : (l.map f).sum = 0 := List.sum_eq_zero fun y hy => by
      obtain ⟨x, hx, rfl⟩ := List.mem_map.1 hy
      exact h x (hl x hx)
    rw [hzero, abs_zero]
    exact_mod_cast hpos

/-- Sleeps drift by the sum of their rests. Sleeps that may come in any number and order do not drift
when and only when each of them leaves no rest. -/
theorem tickless_drift_iff (b : Board) :
    (∀ l : List Sleep, (∀ x ∈ l, x.Valid b) →
      (b.DriftFree l ↔ |(l.map (Sleep.excess b)).sum| < b.ticksPerMs)) ∧
    ∀ A : Sleep → Prop, (∀ x, A x → x.Valid b) →
      ((∀ l : List Sleep, (∀ x ∈ l, A x) → b.DriftFree l) ↔ ∀ x, A x → x.Whole b) := by
  have hsum : ∀ l : List Sleep, (∀ x ∈ l, x.Valid b) →
      (b.DriftFree l ↔ |(l.map (Sleep.excess b)).sum| < b.ticksPerMs) := by
    intro l hl
    rw [Board.DriftFree, Board.drift_eq_sum hl]
  refine ⟨hsum, fun A hA => ?_⟩
  have hfree : (∀ l : List Sleep, (∀ x ∈ l, A x) → b.DriftFree l) ↔
      ∀ l : List Sleep, (∀ x ∈ l, A x) → |(l.map (Sleep.excess b)).sum| < b.ticksPerMs :=
    forall_congr' fun l => forall_congr' fun hl => hsum l fun x hx => hA x (hl x hx)
  rw [hfree, sum_bounded_iff b.ticksPerMs_pos]
  exact forall_congr' fun x => forall_congr' fun _ => Sleep.excess_eq_zero_iff b x

/-- Sleeps of 200 ms that are never interrupted. -/
theorem sleep200_driftFree : ∀ n, Board.stm32h753zi.DriftFree (List.replicate n ⟨200, 12000000⟩) := by
  intro n
  refine ((tickless_drift_iff .stm32h753zi).2 (fun x => x = ⟨200, 12000000⟩) ?_).2 ?_ _
    fun x => List.eq_of_mem_replicate
  · rintro x rfl
    decide
  · rintro x rfl
    exact Or.inr (Or.inr ⟨200, by decide, by decide, by decide, by decide⟩)

/-- The sleep of a second is cut to the 24 bits of the counter, which are 279.62 ms. After two of them
the tick is more than one ms late. -/
theorem tickless_drifts : ∃ l : List Sleep, (∀ x ∈ l, x.Valid .stm32h753zi) ∧
    (∀ x ∈ l, x.maxMs = ticklessMaxSleepMs) ∧ ¬Board.stm32h753zi.DriftFree l := by
  have hvalid : ∀ x ∈ List.replicate 2 (⟨1000, 0x00FFFFFF⟩ : Sleep), x.Valid .stm32h753zi := by
    decide
  refine ⟨List.replicate 2 ⟨1000, 0x00FFFFFF⟩, hvalid, by decide, ?_⟩
  rw [Board.DriftFree, Board.drift_eq_sum hvalid]
  decide

end TamgaOs
