import TamgaOs.Drivers.Iwdg
import Mathlib.Order.Nat

/-!
# The period of the watchdog

`iwdg_init` multiplies the timeout in 32 bits for each prescaler. As long as no product wraps to a small
value, the period is the smallest one that the registers can express and that is long enough, and the
longest one of all from 32768 ms on.

## Main definitions

* `ArmedAsAsked`: the settings fit the timeout.
* `ProductsLarge`: no product has wrapped to a small value.

## Main results

* `iwdg_armed_iff`: the timeouts for which the settings fit.
* `iwdg_armed_short`: a timeout of nine minutes, and a period of a quarter of a millisecond.
-/

namespace TamgaOs

variable {t t' : ℕ}

/-- The settings for a timeout are in range, the period is long enough, and it is not longer than it has
to be. -/
structure ArmedAsAsked (timeoutMs : ℕ) : Prop where
  running : (iwdgArmed timeoutMs).running = true
  reload : 1 ≤ (iwdgArmed timeoutMs).rlr ∧ (iwdgArmed timeoutMs).rlr ≤ 4095
  prescaler : (iwdgArmed timeoutMs).prescaler ∈ prescalerTable
  long : 32 * min timeoutMs 32768 ≤ (iwdgArmed timeoutMs).period
  tight : timeoutMs < 32768 →
    (iwdgArmed timeoutMs).period ≤ 32 * timeoutMs + (iwdgArmed timeoutMs).prescaler
  smallest : timeoutMs < 32768 → ∀ p ∈ prescalerTable, 32 * timeoutMs / p ≤ 4095 →
    (iwdgArmed timeoutMs).prescaler ≤ p
  monotone : ∀ t, 1 ≤ t → t ≤ timeoutMs → (iwdgArmed t).period ≤ (iwdgArmed timeoutMs).period

/-- The product of the timeout and a prescaled frequency, in 32 bits, is too large for a reload value with
each prescaler but the last, and not below that of the largest reload value with the last one. -/
def ProductsLarge (timeoutMs : ℕ) : Prop :=
  (∀ p ∈ [4, 8, 16, 32, 64, 128], 4096000 ≤ timeoutMs * (32000 / p) % 2 ^ 32) ∧
    4095000 ≤ timeoutMs * 125 % 2 ^ 32

instance : Decidable (ProductsLarge t) := inferInstanceAs (Decidable (_ ∧ _))

/-! ### The registers -/

theorem iwdgArmed_eq : iwdgArmed t =
    ⟨false, (iwdgSettings t).1, (iwdgSettings t).2, 0xFFF, true⟩ := rfl

/-- The loop stops at the first reload value that fits, or leaves the largest settings. -/
theorem iwdgSearch_cases {table : List ℕ} : ∀ s i, table ≠ [] →
    (∃ k p, table[k]? = some p ∧ iwdgReload t p ≤ 4095 ∧
      (∀ j q, j < k → table[j]? = some q → 4095 < iwdgReload t q) ∧
      iwdgSearch t s i table = (i + k, iwdgReload t p)) ∨
    ((∀ q ∈ table, 4095 < iwdgReload t q) ∧ iwdgSearch t s i table = (6, 4095)) := by
  induction table with
  | nil => exact fun _ _ h => absurd rfl h
  | cons p table ih =>
    intro s i _
    by_cases hfits : iwdgReload t p ≤ 4095
    · exact Or.inl ⟨0, p, rfl, hfits, fun j q hj => absurd hj (Nat.not_lt_zero j), if_pos hfits⟩
    · have hstep : iwdgSearch t s i (p :: table) = iwdgSearch t (6, 4095) (i + 1) table :=
        if_neg hfits
      rw [hstep]
      by_cases htable : table = []
      · subst htable
        exact Or.inr ⟨by simpa using hfits, rfl⟩
      · rcases ih (6, 4095) (i + 1) htable with ⟨k, p', hk, hp', hbefore, hsearch⟩ | ⟨hall, hsearch⟩
        · refine Or.inl ⟨k + 1, p', hk, hp', fun j q hj hq => ?_, by rw [hsearch]; congr 1; omega⟩
          cases j with
          | zero =>
            obtain rfl : p = q := by simpa using hq
            omega
          | succ j => exact hbefore j q (by omega) hq
        · exact Or.inr ⟨List.forall_mem_cons.2 ⟨by omega, hall⟩, hsearch⟩

/-- The table holds the powers of two from 4 to 256. -/
theorem getElem?_prescalerTable {k p : ℕ} (h : prescalerTable[k]? = some p) : p = 4 * 2 ^ k := by
  have htable : prescalerTable = (List.range 7).map fun k => 4 * 2 ^ k := by decide
  rw [htable, List.getElem?_map, Option.map_eq_some_iff] at h
  obtain ⟨j, hj, rfl⟩ := h
  obtain ⟨hlt, hget⟩ := List.getElem?_eq_some_iff.1 hj
  rw [List.getElem_range] at hget
  rw [hget]

/-- The settings are those of the first reload value that fits, or the largest ones. -/
theorem iwdgArmed_cases :
    (∃ p ∈ prescalerTable, iwdgReload t p ≤ 4095 ∧
      (∀ q ∈ prescalerTable, q < p → 4095 < iwdgReload t q) ∧
      (iwdgArmed t).prescaler = p ∧ (iwdgArmed t).rlr = max 1 (iwdgReload t p)) ∨
    ((∀ q ∈ prescalerTable, 4095 < iwdgReload t q) ∧
      (iwdgArmed t).prescaler = 256 ∧ (iwdgArmed t).rlr = 4095) := by
  have hclamp (r : ℕ) : (if r = 0 then 1 else r) = max 1 r := by split_ifs <;> omega
  rcases @iwdgSearch_cases t prescalerTable (6, 0) 0 (by decide) with
    ⟨k, p, hk, hp, hbefore, hsearch⟩ | ⟨hall, hsearch⟩
  · refine Or.inl ⟨p, List.mem_of_getElem? hk, hp, fun q hq hlt => ?_, ?_, ?_⟩
    · obtain ⟨j, hj⟩ := List.getElem?_of_mem hq
      rw [getElem?_prescalerTable hj, getElem?_prescalerTable hk] at hlt
      exact hbefore j q ((Nat.pow_lt_pow_iff_right (by omega)).1 (Nat.lt_of_mul_lt_mul_left hlt)) hj
    · rw [iwdgArmed_eq, Iwdg.prescaler, iwdgSettings, hsearch, getElem?_prescalerTable hk,
        Nat.zero_add]
    · rw [iwdgArmed_eq, iwdgSettings, hsearch]
      exact hclamp _
  · refine Or.inr ⟨hall, ?_, ?_⟩
    · rw [iwdgArmed_eq, Iwdg.prescaler, iwdgSettings, hsearch]
      rfl
    · rw [iwdgArmed_eq, iwdgSettings, hsearch]
      rfl

theorem iwdgArmed_prescaler_mem : (iwdgArmed t).prescaler ∈ prescalerTable := by
  rcases @iwdgArmed_cases t with ⟨p, hp, -, -, hprescaler, -⟩ | ⟨-, hprescaler, -⟩
  · rwa [hprescaler]
  · rw [hprescaler]
    decide

theorem iwdgArmed_rlr : 1 ≤ (iwdgArmed t).rlr ∧ (iwdgArmed t).rlr ≤ 4095 := by
  rcases @iwdgArmed_cases t with ⟨p, -, hfits, -, -, hrlr⟩ | ⟨-, -, hrlr⟩ <;> omega

theorem prescalerTable_bounds {p : ℕ} (hp : p ∈ prescalerTable) : 4 ≤ p ∧ p ≤ 256 := by
  simp only [prescalerTable, List.mem_cons, List.not_mem_nil, or_false] at hp
  omega

/-- No period is longer than the largest one. -/
theorem iwdgArmed_period_le : (iwdgArmed t).period ≤ 4096 * 256 := by
  have hrlr := @iwdgArmed_rlr t
  have hp := prescalerTable_bounds (@iwdgArmed_prescaler_mem t)
  exact Nat.mul_le_mul (by omega) hp.2

/-! ### Timeouts below the clamp -/

/-- No product wraps. -/
theorem iwdgReload_of_lt (h : t < 32768) {p : ℕ} (hp : p ∈ prescalerTable) :
    iwdgReload t p = 32 * t / p := by
  simp only [prescalerTable, List.mem_cons, List.not_mem_nil, or_false] at hp
  rcases hp with rfl | rfl | rfl | rfl | rfl | rfl | rfl <;>
    simp only [iwdgReload, lsiFreqHz, Nat.reduceDiv] <;> omega

/-- The reload value is the timeout in prescaled cycles, and the next smaller prescaler is too small. -/
theorem iwdgArmed_of_lt (ht : 1 ≤ t) (h : t < 32768) :
    (iwdgArmed t).rlr = 32 * t / (iwdgArmed t).prescaler ∧
      32 * t < 4096 * (iwdgArmed t).prescaler ∧
      ∀ q ∈ prescalerTable, q < (iwdgArmed t).prescaler → 4096 * q ≤ 32 * t := by
  rcases @iwdgArmed_cases t with ⟨p, hp, hfits, hbefore, hprescaler, hrlr⟩ | ⟨hall, -, -⟩
  · rw [hprescaler, hrlr, iwdgReload_of_lt h hp]
    rw [iwdgReload_of_lt h hp] at hfits
    have hpos : 0 < p := by have := prescalerTable_bounds hp; omega
    have hbefore' : ∀ q ∈ prescalerTable, q < p → 4096 * q ≤ 32 * t := by
      intro q hq hlt
      have hq' := hbefore q hq hlt
      rw [iwdgReload_of_lt h hq] at hq'
      exact (Nat.le_div_iff_mul_le (by have := prescalerTable_bounds hq; omega)).1 hq'
    refine ⟨?_, ?_, hbefore'⟩
    · have hle : p ≤ 32 * t := by
        have hbounds := prescalerTable_bounds hp
        rcases Nat.lt_or_ge 4 p with hlt | hge
        · have hfour := hbefore' 4 (by decide) hlt
          omega
        · omega
      have hone : 1 ≤ 32 * t / p := Nat.div_pos hle hpos
      omega
    · rw [← Nat.div_lt_iff_lt_mul hpos]
      omega
  · have hlast := hall 256 (by decide)
    rw [iwdgReload_of_lt h (by decide)] at hlast
    omega

theorem iwdgArmed_period_bounds (ht : 1 ≤ t) (h : t < 32768) :
    32 * t < (iwdgArmed t).period ∧
      (iwdgArmed t).period ≤ 32 * t + (iwdgArmed t).prescaler := by
  have hpos : 0 < (iwdgArmed t).prescaler := by
    have := prescalerTable_bounds (@iwdgArmed_prescaler_mem t)
    omega
  rw [Iwdg.period, (iwdgArmed_of_lt ht h).1, Nat.add_mul, Nat.one_mul]
  have hdiv := Nat.div_add_mod (32 * t) (iwdgArmed t).prescaler
  have hmod := Nat.mod_lt (32 * t) hpos
  rw [Nat.mul_comm] at hdiv
  omega

/-- A longer timeout has the same prescaler and a larger reload value, or a larger prescaler. -/
theorem iwdgArmed_period_mono (ht' : 1 ≤ t') (hle : t' ≤ t) (h : t < 32768) :
    (iwdgArmed t').period ≤ (iwdgArmed t).period := by
  obtain ⟨hrlr, -, hsmall⟩ := iwdgArmed_of_lt (ht'.trans hle) h
  obtain ⟨hrlr', hfits', hsmall'⟩ := iwdgArmed_of_lt ht' (hle.trans_lt h)
  have hmem := @iwdgArmed_prescaler_mem t
  have hmem' := @iwdgArmed_prescaler_mem t'
  have hbounds := iwdgArmed_period_bounds (ht'.trans hle) h
  rcases Nat.lt_trichotomy (iwdgArmed t').prescaler (iwdgArmed t).prescaler with hlt | heq | hgt
  · -- The next smaller prescaler was too small for `t` with every reload value.
    calc (iwdgArmed t').period
        ≤ 4096 * (iwdgArmed t').prescaler :=
          Nat.mul_le_mul_right _ (by have := (@iwdgArmed_rlr t').2; omega)
      _ ≤ 32 * t := hsmall _ hmem' hlt
      _ ≤ (iwdgArmed t).period := hbounds.1.le
  · rw [Iwdg.period, Iwdg.period, hrlr, hrlr', heq]
    exact Nat.mul_le_mul_right _ (Nat.succ_le_succ (Nat.div_le_div_right (by omega)))
  · have hlarge := hsmall' _ hmem hgt
    have hfits := (iwdgArmed_of_lt (ht'.trans hle) h).2.1
    omega

/-! ### Timeouts from the clamp on -/

theorem productsLarge_iff : ProductsLarge t ↔
    (∀ q ∈ prescalerTable, q < 256 → 4095 < iwdgReload t q) ∧ 4095 ≤ iwdgReload t 256 := by
  simp only [ProductsLarge, prescalerTable, iwdgReload, lsiFreqHz, List.forall_mem_cons,
    List.not_mem_nil, false_imp_iff, implies_true, and_true, Nat.reduceDiv]
  omega

/-- The longest period of all has the largest settings. -/
theorem iwdgArmed_longest_iff : 4096 * 256 ≤ (iwdgArmed t).period ↔ ProductsLarge t := by
  have hrlr := (@iwdgArmed_rlr t).2
  have hbounds := prescalerTable_bounds (@iwdgArmed_prescaler_mem t)
  rw [productsLarge_iff, Iwdg.period]
  constructor
  · intro h
    have hprescaler : (iwdgArmed t).prescaler = 256 := by
      have hle : 4096 * 256 ≤ 4096 * (iwdgArmed t).prescaler :=
        h.trans (Nat.mul_le_mul_right _ (by omega))
      omega
    rw [hprescaler] at h
    rcases @iwdgArmed_cases t with ⟨p, -, -, hbefore, hp, hreload⟩ | ⟨hall, -, -⟩
    · obtain rfl : p = 256 := hp.symm.trans hprescaler
      exact ⟨hbefore, by omega⟩
    · exact ⟨fun q hq _ => hall q hq, (hall 256 (by decide)).le⟩
  · rintro ⟨hsmall, hlast⟩
    rcases @iwdgArmed_cases t with ⟨p, hmem, hfits, -, hp, hreload⟩ | ⟨-, hp, hreload⟩
    · have hp256 : p = 256 := by
        by_contra hne
        have hlarge := hsmall p hmem (by omega)
        omega
      subst hp256
      rw [hp, hreload]
      omega
    · rw [hp, hreload]

theorem armedAsAsked_iff (ht : 1 ≤ t) : ArmedAsAsked t ↔ t < 32768 ∨ ProductsLarge t := by
  constructor
  · intro h
    rcases Nat.lt_or_ge t 32768 with hlt | hge
    · exact Or.inl hlt
    · have hlong := h.long
      rw [Nat.min_eq_right hge] at hlong
      exact Or.inr (iwdgArmed_longest_iff.1 hlong)
  · intro h
    rcases Nat.lt_or_ge t 32768 with hlt | hge
    · have hbounds := iwdgArmed_period_bounds ht hlt
      refine ⟨rfl, iwdgArmed_rlr, iwdgArmed_prescaler_mem, ?_, fun _ => hbounds.2, fun _ p hp hfits => ?_,
        fun t' ht' hle => iwdgArmed_period_mono ht' hle hlt⟩
      · rw [Nat.min_eq_left hlt.le]
        exact hbounds.1.le
      · by_contra hsmaller
        have hlarge := (iwdgArmed_of_lt ht hlt).2.2 p hp (by omega)
        have hpos := prescalerTable_bounds hp
        have hdiv : 4096 ≤ 32 * t / p := (Nat.le_div_iff_mul_le (by omega)).2 hlarge
        omega
    · have hlarge : ProductsLarge t := h.resolve_left (by omega)
      have hlong := iwdgArmed_longest_iff.2 hlarge
      refine ⟨rfl, iwdgArmed_rlr, iwdgArmed_prescaler_mem, ?_, fun hlt => absurd hlt (by omega),
        fun hlt => absurd hlt (by omega), fun t' _ _ => iwdgArmed_period_le.trans hlong⟩
      rw [Nat.min_eq_right hge]
      exact hlong

theorem iwdg_armed_iff (timeoutMs : ℕ) (hpos : 1 ≤ timeoutMs) (_ : timeoutMs < 2 ^ 32) :
    ArmedAsAsked timeoutMs ↔ timeoutMs < 32768 ∨ ProductsLarge timeoutMs := armedAsAsked_iff hpos

theorem iwdg_armed_second : ArmedAsAsked 1000 :=
  (iwdg_armed_iff 1000 (by decide) (by decide)).2 (Or.inl (by decide))

/-- A timeout of about nine minutes is armed as eight cycles of the clock: the first product wraps to
704. -/
theorem iwdg_armed_short : (iwdgArmed 536871).period = 8 ∧ ¬ ArmedAsAsked 536871 := by
  have hperiod : (iwdgArmed 536871).period = 8 := by decide
  refine ⟨hperiod, fun h => ?_⟩
  have hlong := h.long
  rw [hperiod] at hlong
  exact absurd hlong (by decide)

end TamgaOs
