import TamgaOs.Drivers.Bmp280
import Mathlib.Tactic.Linarith

/-!
# The compensation of the pressure sensor

`bmp280_init` checks no coefficient, and a garbled one takes the products of `bmp280_read` out of their
types. Which products that can happen to follows from the bounds of the coefficients; all other results fit
whenever these do. For the coefficients and samples of a sensor they all fit.

## Main definitions

* `Bmp280Calib.pressureX256`: the formula over the integers.
* `Bmp280Exact`: no result leaves its type, and the stored pressure is exact.
* `Bmp280InRange`: the critical products fit.
* `Bmp280Plausible`: bounds on the coefficients and the samples.

## Main results

* `bmp280_exact`: plausible coefficients and samples are computed exactly, and of the others those whose
  critical products fit.
* `bmp280_garbled`: a calibration for which a product wraps.
-/

namespace TamgaOs

namespace Bmp280Calib

variable (c : Bmp280Calib) (adcP adcT : ℤ)

/-! ### The formula over the integers -/

/-- The raw temperature relative to `T1`, as it is scaled by `T2`. -/
def diff : ℤ := adcT / 2 ^ 3 - c.digT1.toNat * 2 ^ 1

/-- The raw temperature relative to `T1`, as it is squared. -/
def dev : ℤ := adcT / 2 ^ 4 - c.digT1.toNat

/-- `t_fine`. -/
def fine : ℤ := c.diff adcT * c.digT2.toInt / 2 ^ 11 +
  c.dev adcT * c.dev adcT / 2 ^ 12 * c.digT3.toInt / 2 ^ 14

/-- The temperature that the pressure is compensated for. -/
def centred : ℤ := c.fine adcT - 128000

/-- The offset of the raw pressure. -/
def offset : ℤ := c.centred adcT * c.centred adcT * c.digP6.toInt +
  c.centred adcT * c.digP5.toInt * 2 ^ 17 + c.digP4.toInt * 2 ^ 35

/-- The sensitivity before it is scaled down. -/
def sensitivity : ℤ := (1 * 2 ^ 47 + (c.centred adcT * c.centred adcT * c.digP3.toInt / 2 ^ 8 +
  c.centred adcT * c.digP2.toInt * 2 ^ 12)) * c.digP1.toNat

/-- The divisor. -/
def divisor : ℤ := c.sensitivity adcT / 2 ^ 33

/-- The dividend. -/
def dividend : ℤ := ((1048576 - adcP) * 2 ^ 31 - c.offset adcT) * 3125

/-- The quotient. -/
def quotient : ℤ := (c.dividend adcP adcT).tdiv (c.divisor adcT)

/-- The pressure that belongs to a quotient. -/
def scaled (p : ℤ) : ℤ :=
  (p + c.digP9.toInt * (p / 2 ^ 13) * (p / 2 ^ 13) / 2 ^ 25 + c.digP8.toInt * p / 2 ^ 19) / 2 ^ 8 +
    c.digP7.toInt * 2 ^ 4

/-- The pressure, in 256ths of a pascal. -/
def pressureX256 : ℤ := if c.divisor adcT = 0 then 0 else c.scaled (c.quotient adcP adcT)

end Bmp280Calib

/-- The products of the formula that may leave their types do not. -/
structure Bmp280InRange (c : Bmp280Calib) (adcP adcT : ℤ) : Prop where
  diff : int32.Fits (c.diff adcT * c.digT2.toInt)
  dev : |c.dev adcT| ≤ 46340
  square : int32.Fits (c.dev adcT * c.dev adcT / 2 ^ 12 * c.digT3.toInt)
  sensitivity : int64.Fits (c.sensitivity adcT)
  dividend : c.divisor adcT ≠ 0 → int64.Fits (c.dividend adcP adcT)
  quadratic : c.divisor adcT ≠ 0 → int64.Fits
    (c.digP9.toInt * (c.quotient adcP adcT / 2 ^ 13) * (c.quotient adcP adcT / 2 ^ 13))
  linear : c.divisor adcT ≠ 0 → int64.Fits (c.digP8.toInt * c.quotient adcP adcT)
  pressure : c.divisor adcT ≠ 0 →
    0 ≤ c.scaled (c.quotient adcP adcT) ∧ c.scaled (c.quotient adcP adcT) < 2 ^ 32

/-- The temperature reading is near `T1`, the pressure reading leaves room for the offset, and the
coefficients are of the size of those that a sensor has; `T2`, `P8` and `P9` may be anything. -/
structure Bmp280Plausible (c : Bmp280Calib) (adcP adcT : ℤ) : Prop where
  temperature : |adcT / 2 ^ 4 - c.digT1.toNat| ≤ 20000
  pressure : adcP + 16 * c.digP4.toInt ≤ 1000000
  digT3 : |c.digT3.toInt| ≤ 8192
  digP1 : 32768 ≤ c.digP1.toNat ∧ c.digP1.toNat ≤ 43690
  digP2 : |c.digP2.toInt| ≤ 16383
  digP3 : |c.digP3.toInt| ≤ 4096
  digP4 : |c.digP4.toInt| ≤ 16383
  digP5 : |c.digP5.toInt| ≤ 512
  digP6 : |c.digP6.toInt| ≤ 64
  digP7 : 0 < c.digP7.toInt

instance (c : Bmp280Calib) (adcP adcT : ℤ) : Decidable (Bmp280Plausible c adcP adcT) :=
  decidable_of_iff (|adcT / 2 ^ 4 - c.digT1.toNat| ≤ 20000 ∧
      adcP + 16 * c.digP4.toInt ≤ 1000000 ∧ |c.digT3.toInt| ≤ 8192 ∧
      (32768 ≤ c.digP1.toNat ∧ c.digP1.toNat ≤ 43690) ∧ |c.digP2.toInt| ≤ 16383 ∧
      |c.digP3.toInt| ≤ 4096 ∧ |c.digP4.toInt| ≤ 16383 ∧ |c.digP5.toInt| ≤ 512 ∧
      |c.digP6.toInt| ≤ 64 ∧ 0 < c.digP7.toInt)
    ⟨fun ⟨h₁, h₂, h₃, h₄, h₅, h₆, h₇, h₈, h₉, h⟩ => ⟨h₁, h₂, h₃, h₄, h₅, h₆, h₇, h₈, h₉, h⟩,
      fun h => ⟨h.temperature, h.pressure, h.digT3, h.digP1, h.digP2, h.digP3, h.digP4, h.digP5,
        h.digP6, h.digP7⟩⟩

/-- No result leaves its type, no divisor is 0, and the stored pressure is exact. -/
structure Bmp280Exact (c : Bmp280Calib) (buf : Fin 6 → UInt8) : Prop where
  temperature : (bmp280Temperature c (bmp280Adc (buf 3) (buf 4) (buf 5))).ok = true
  var1 : (bmp280Var1P c (bmp280Adc (buf 3) (buf 4) (buf 5))).ok = true
  var2 : (bmp280Var2P c (bmp280Adc (buf 3) (buf 4) (buf 5))).ok = true
  pressure : (bmp280Pressure c (bmp280Adc (buf 0) (buf 1) (buf 2))
    (bmp280Adc (buf 3) (buf 4) (buf 5))).ok = true
  stored : ∃ d, bmp280Read c (some buf) = (some d, 0) ∧ (d.pressurePaX256.toNat : ℤ) =
    c.pressureX256 (bmp280Adc (buf 0) (buf 1) (buf 2)) (bmp280Adc (buf 3) (buf 4) (buf 5))

section Bounds

variable {c : Bmp280Calib} {adcP adcT : ℤ}

theorem abs_toInt_le (x : Int16) : |x.toInt| ≤ 32768 := by
  have hlo := x.le_toInt
  have hhi := x.toInt_lt
  exact abs_le.2 ⟨by omega, by omega⟩

theorem toNat_le (x : UInt16) : (x.toNat : ℤ) ≤ 65535 := by
  have := x.toNat_lt
  omega

theorem bmp280Adc_lt (b0 b1 b2 : UInt8) : (bmp280Adc b0 b1 b2 : ℤ) < 2 ^ 20 := by
  have h0 := b0.toNat_lt
  have h1 := b1.toNat_lt
  have h2 := b2.toNat_lt
  have hlt : bmp280Adc b0 b1 b2 < 2 ^ 20 := by
    refine Nat.or_lt_two_pow (Nat.or_lt_two_pow ?_ ?_) ?_
    · rw [Nat.shiftLeft_eq]
      omega
    · rw [Nat.shiftLeft_eq]
      omega
    · rw [Nat.shiftRight_eq_div_pow]
      omega
  exact_mod_cast hlt

/-! ### The temperature -/

theorem fits32_iff {x : ℤ} : int32.Fits x ↔ -2 ^ 31 ≤ x ∧ x < 2 ^ 31 := Iff.rfl

theorem fits64_iff {x : ℤ} : int64.Fits x ↔ -2 ^ 63 ≤ x ∧ x < 2 ^ 63 := Iff.rfl

/-- The square fits as long as its root is at most 46340. -/
theorem fits_square_iff {x : ℤ} : int32.Fits (x * x) ↔ |x| ≤ 46340 := by
  rw [fits32_iff, ← abs_mul_abs_self x]
  have hpos := abs_nonneg x
  constructor
  · rintro ⟨-, hlt⟩
    by_contra hgt
    have hsq : 46341 * 46341 ≤ |x| * |x| := mul_le_mul (by omega) (by omega) (by omega) hpos
    omega
  · intro hle
    have hsq : |x| * |x| ≤ 46340 * 46340 := mul_le_mul hle hle hpos (by omega)
    have hnonneg : 0 ≤ |x| * |x| := mul_nonneg hpos hpos
    omega

theorem bmp280Var1T_ok_iff (h0 : 0 ≤ adcT) (hlt : adcT < 2 ^ 20) :
    (bmp280Var1T c adcT).ok = true ↔ int32.Fits (c.diff adcT * c.digT2.toInt) := by
  have hT1 := toNat_le c.digT1
  have hT1' : (0 : ℤ) ≤ c.digT1.toNat := Int.natCast_nonneg _
  have hadc : int32.Fits (adcT / 2 ^ 3) := fits32_iff.2 ⟨by omega, by omega⟩
  have hshl : int32.Fits (c.digT1.toNat * 2 ^ 1) := fits32_iff.2 ⟨by omega, by omega⟩
  have hsub : int32.Fits (adcT / 2 ^ 3 - c.digT1.toNat * 2 ^ 1) :=
    fits32_iff.2 ⟨by omega, by omega⟩
  have hdiff : (int32.sub (int32.shr (.const adcT) 3) (int32.shl (digU c.digT1) 1)).ok = true :=
    int32.ok_sub.2 ⟨int32.ok_shr.2 ⟨rfl, hadc⟩, int32.ok_shl.2 ⟨rfl, hshl⟩, hsub⟩
  constructor
  · intro h
    exact (int32.ok_mul.1 (int32.ok_shr.1 h).1).2.2
  · intro h
    exact int32.ok_shr.2 ⟨int32.ok_mul.2 ⟨hdiff, rfl, h⟩, h.ediv_pow 11⟩

theorem bmp280Var2T_ok_iff (h0 : 0 ≤ adcT) (hlt : adcT < 2 ^ 20) :
    (bmp280Var2T c adcT).ok = true ↔ |c.dev adcT| ≤ 46340 ∧
      int32.Fits (c.dev adcT * c.dev adcT / 2 ^ 12 * c.digT3.toInt) := by
  have hT1 := toNat_le c.digT1
  have hT1' : (0 : ℤ) ≤ c.digT1.toNat := Int.natCast_nonneg _
  have hadc : int32.Fits (adcT / 2 ^ 4) := fits32_iff.2 ⟨by omega, by omega⟩
  have hsub : int32.Fits (adcT / 2 ^ 4 - c.digT1.toNat) := fits32_iff.2 ⟨by omega, by omega⟩
  have hdev : (bmp280DevT c adcT).ok = true :=
    int32.ok_sub.2 ⟨int32.ok_shr.2 ⟨rfl, hadc⟩, rfl, hsub⟩
  constructor
  · intro h
    obtain ⟨hsquare, -, hfits⟩ := int32.ok_mul.1 (int32.ok_shr.1 h).1
    exact ⟨fits_square_iff.1 (int32.ok_mul.1 (int32.ok_shr.1 hsquare).1).2.2, hfits⟩
  · rintro ⟨hdev', hfits⟩
    have hsquare := fits_square_iff.2 hdev'
    exact int32.ok_shr.2 ⟨int32.ok_mul.2 ⟨int32.ok_shr.2 ⟨int32.ok_mul.2 ⟨hdev, hdev, hsquare⟩,
      hsquare.ediv_pow 12⟩, rfl, hfits⟩, hfits.ediv_pow 14⟩

/-- The critical products of the temperature fit. -/
def Bmp280InRange32 (c : Bmp280Calib) (adcT : ℤ) : Prop :=
  int32.Fits (c.diff adcT * c.digT2.toInt) ∧ |c.dev adcT| ≤ 46340 ∧
    int32.Fits (c.dev adcT * c.dev adcT / 2 ^ 12 * c.digT3.toInt)

theorem Bmp280InRange32.fine_bounds (h : Bmp280InRange32 c adcT) :
    -1179648 ≤ c.fine adcT ∧ c.fine adcT ≤ 1179646 := by
  obtain ⟨hdiff, -, hsquare⟩ := h
  rw [fits32_iff] at hdiff hsquare
  rw [Bmp280Calib.fine]
  omega

theorem bmp280TFine_ok_iff (h0 : 0 ≤ adcT) (hlt : adcT < 2 ^ 20) :
    (bmp280TFine c adcT).ok = true ↔ Bmp280InRange32 c adcT := by
  constructor
  · intro h
    obtain ⟨hvar1, hvar2, -⟩ := int32.ok_add.1 h
    exact ⟨(bmp280Var1T_ok_iff h0 hlt).1 hvar1, (bmp280Var2T_ok_iff h0 hlt).1 hvar2⟩
  · intro h
    have hbounds := h.fine_bounds
    refine int32.ok_add.2 ⟨(bmp280Var1T_ok_iff h0 hlt).2 h.1, (bmp280Var2T_ok_iff h0 hlt).2 h.2, ?_⟩
    have hfits : int32.Fits (c.fine adcT) := fits32_iff.2 ⟨by omega, by omega⟩
    exact hfits

theorem bmp280Temperature_ok_iff (h0 : 0 ≤ adcT) (hlt : adcT < 2 ^ 20) :
    (bmp280Temperature c adcT).ok = true ↔ Bmp280InRange32 c adcT := by
  constructor
  · intro h
    exact (bmp280TFine_ok_iff h0 hlt).1
      (int32.ok_mul.1 (int32.ok_add.1 (int32.ok_shr.1 h).1).1).1
  · intro h
    have hbounds := h.fine_bounds
    have hmul : int32.Fits (c.fine adcT * 5) := fits32_iff.2 ⟨by omega, by omega⟩
    have hadd : int32.Fits (c.fine adcT * 5 + 128) := fits32_iff.2 ⟨by omega, by omega⟩
    exact int32.ok_shr.2 ⟨int32.ok_add.2 ⟨int32.ok_mul.2 ⟨(bmp280TFine_ok_iff h0 hlt).2 h, rfl, hmul⟩,
      rfl, hadd⟩, hadd.ediv_pow 8⟩

/-! ### The pressure up to the division -/

theorem Bmp280InRange32.abs_centred_le (h : Bmp280InRange32 c adcT) : |c.centred adcT| ≤ 1307648 := by
  have hbounds := h.fine_bounds
  rw [Bmp280Calib.centred]
  exact abs_le.2 ⟨by omega, by omega⟩

theorem bmp280Centred_ok (h0 : 0 ≤ adcT) (hlt : adcT < 2 ^ 20) (h : Bmp280InRange32 c adcT) :
    (bmp280Centred c adcT).ok = true :=
  int64.ok_sub.2 ⟨(bmp280TFine_ok_iff h0 hlt).2 h, rfl, .of_abs h.abs_centred_le (by decide)⟩

theorem abs_pow_le (n : ℕ) : |(2 : ℤ) ^ n| ≤ 2 ^ n := (abs_of_nonneg (Int.pow_nonneg (by omega))).le

theorem Bmp280InRange32.abs_offset_le (h : Bmp280InRange32 c adcT) :
    |c.offset adcT| ≤ 1307648 * 1307648 * 32768 + 1307648 * 32768 * 2 ^ 17 + 32768 * 2 ^ 35 := by
  have hx := h.abs_centred_le
  exact abs_add_le' (abs_add_le' (abs_mul_le (abs_mul_le hx hx) (abs_toInt_le c.digP6))
    (abs_mul_le (abs_mul_le hx (abs_toInt_le c.digP5)) (abs_pow_le 17)))
    (abs_mul_le (abs_toInt_le c.digP4) (abs_pow_le 35))

theorem bmp280Var2P_ok (h0 : 0 ≤ adcT) (hlt : adcT < 2 ^ 20) (h : Bmp280InRange32 c adcT) :
    (bmp280Var2P c adcT).ok = true := by
  have hx := h.abs_centred_le
  have hok := bmp280Centred_ok h0 hlt h
  have hxx := abs_mul_le hx hx
  have hxxP6 := abs_mul_le hxx (abs_toInt_le c.digP6)
  have hxP5 := abs_mul_le hx (abs_toInt_le c.digP5)
  have hshl := abs_mul_le hxP5 (abs_pow_le 17)
  have hP4 := abs_mul_le (abs_toInt_le c.digP4) (abs_pow_le 35)
  have hsum := abs_add_le' hxxP6 hshl
  have hquadratic := int64.ok_mul.2 ⟨int64.ok_mul.2 ⟨hok, hok, .of_abs hxx (by decide)⟩,
    (rfl : (digS c.digP6).ok = true), .of_abs hxxP6 (by decide)⟩
  have hlinear := int64.ok_shl.2 ⟨int64.ok_mul.2 ⟨hok, (rfl : (digS c.digP5).ok = true),
    .of_abs hxP5 (by decide)⟩, .of_abs hshl (by decide)⟩
  have hconst := int64.ok_shl.2 ⟨(rfl : (digS c.digP4).ok = true), .of_abs hP4 (by decide)⟩
  exact int64.ok_add.2 ⟨int64.ok_add.2 ⟨hquadratic, hlinear, .of_abs hsum (by decide)⟩, hconst,
    .of_abs h.abs_offset_le (by decide)⟩

theorem bmp280Var1P_ok_iff (h0 : 0 ≤ adcT) (hlt : adcT < 2 ^ 20) :
    (bmp280Var1P c adcT).ok = true ↔
      Bmp280InRange32 c adcT ∧ int64.Fits (c.sensitivity adcT) := by
  constructor
  · intro h
    obtain ⟨hadd, -, hfits⟩ := int64.ok_mul.1 (int64.ok_shr.1 h).1
    have hcentred := (int64.ok_mul.1 (int64.ok_shl.1 (int64.ok_add.1
      (int64.ok_add.1 hadd).2.1).2.1).1).1
    exact ⟨(bmp280TFine_ok_iff h0 hlt).1 (int64.ok_sub.1 hcentred).1, hfits⟩
  · rintro ⟨h, hfits⟩
    have hx := h.abs_centred_le
    have hok := bmp280Centred_ok h0 hlt h
    have hxx := abs_mul_le hx hx
    have hxxP3 := abs_mul_le hxx (abs_toInt_le c.digP3)
    have hxP2 := abs_mul_le hx (abs_toInt_le c.digP2)
    have hshl := abs_mul_le hxP2 (abs_pow_le 12)
    have hshr : |c.centred adcT * c.centred adcT * c.digP3.toInt / 2 ^ 8| ≤
        1307648 * 1307648 * 32768 := by
      have hbounds := abs_le.1 hxxP3
      exact abs_le.2 ⟨by omega, by omega⟩
    have hone : |(1 : ℤ) * 2 ^ 47| ≤ 2 ^ 47 := by decide
    have hsum := abs_add_le' hshr hshl
    have hsum' := abs_add_le' hone hsum
    have hquadratic := int64.ok_shr.2 ⟨int64.ok_mul.2 ⟨int64.ok_mul.2 ⟨hok, hok,
      .of_abs hxx (by decide)⟩, (rfl : (digS c.digP3).ok = true), .of_abs hxxP3 (by decide)⟩,
      .of_abs hshr (by decide)⟩
    have hlinear := int64.ok_shl.2 ⟨int64.ok_mul.2 ⟨hok, (rfl : (digS c.digP2).ok = true),
      .of_abs hxP2 (by decide)⟩, .of_abs hshl (by decide)⟩
    have hconst := int64.ok_shl.2 ⟨(rfl : (Checked.const 1).ok = true), .of_abs hone (by decide)⟩
    exact int64.ok_shr.2 ⟨int64.ok_mul.2 ⟨int64.ok_add.2 ⟨hconst, int64.ok_add.2
      ⟨hquadratic, hlinear, .of_abs hsum (by decide)⟩, .of_abs hsum' (by decide)⟩, rfl, hfits⟩,
      hfits.ediv_pow 33⟩

/-- The quotient fits when the dividend does: the dividend is a multiple of 3125, and so not the one
number whose quotient by -1 does not fit. -/
theorem Bmp280Calib.fits_quotient (h : int64.Fits (c.dividend adcP adcT)) :
    int64.Fits (c.quotient adcP adcT) := by
  rw [fits64_iff, Bmp280Calib.dividend] at h
  have habs : |c.dividend adcP adcT| ≤ 2 ^ 63 - 1 := by
    rw [Bmp280Calib.dividend]
    exact abs_le.2 ⟨by omega, by omega⟩
  refine .of_abs (le_trans ?_ habs) (by decide)
  rw [Bmp280Calib.quotient, Int.abs_eq_natAbs, Int.abs_eq_natAbs, Int.natAbs_tdiv]
  exact_mod_cast Nat.div_le_self _ _

theorem bmp280Quotient_ok_iff (h0 : 0 ≤ adcT) (hlt : adcT < 2 ^ 20) (hp0 : 0 ≤ adcP)
    (hplt : adcP < 2 ^ 20) (h : Bmp280InRange32 c adcT) (hs : int64.Fits (c.sensitivity adcT)) :
    (bmp280Quotient c adcP adcT).ok = true ↔
      c.divisor adcT ≠ 0 ∧ int64.Fits (c.dividend adcP adcT) := by
  constructor
  · intro hok
    obtain ⟨hmul, -, hne, -⟩ := int64.ok_div.1 hok
    exact ⟨hne, (int64.ok_mul.1 hmul).2.2⟩
  · rintro ⟨hne, hfits⟩
    have hsub : int32.Fits (1048576 - adcP) := fits32_iff.2 ⟨by omega, by omega⟩
    have hshl : int64.Fits ((1048576 - adcP) * 2 ^ 31) := fits64_iff.2 ⟨by omega, by omega⟩
    have hdiff : int64.Fits ((1048576 - adcP) * 2 ^ 31 - c.offset adcT) := by
      have hoffset := abs_le.1 h.abs_offset_le
      exact fits64_iff.2 ⟨by omega, by omega⟩
    have hp : (int32.sub (.const 1048576) (.const adcP)).ok = true :=
      int32.ok_sub.2 ⟨rfl, rfl, hsub⟩
    exact int64.ok_div.2 ⟨int64.ok_mul.2 ⟨int64.ok_sub.2 ⟨int64.ok_shl.2 ⟨hp, hshl⟩,
      bmp280Var2P_ok h0 hlt h, hdiff⟩, rfl, hfits⟩, (bmp280Var1P_ok_iff h0 hlt).2 ⟨h, hs⟩, hne,
      Bmp280Calib.fits_quotient hfits⟩

/-! ### The pressure after the division -/

/-- A product fits when it does after another multiplication by the second factor. -/
theorem fits_of_fits_mul_self {a b : ℤ} (ha : |a| ≤ 32768) (h : int64.Fits (a * b * b)) :
    int64.Fits (a * b) := by
  by_cases hb : |b| ≤ 1
  · exact .of_abs (abs_mul_le ha hb) (by decide)
  · have habs : |a * b * b| ≤ 2 ^ 63 := by
      obtain ⟨hlo, hhi⟩ := fits64_iff.1 h
      exact abs_le.2 ⟨by omega, by omega⟩
    have htwo : |a * b| * 2 ≤ |a * b| * |b| := mul_le_mul_of_nonneg_left (by omega) (abs_nonneg _)
    rw [← abs_mul] at htwo
    exact .of_abs (A := 2 ^ 62) (by omega) (by decide)

theorem bmp280Scaled_ok_of {p : Checked} (hok : p.ok = true)
    (hquadratic : int64.Fits (c.digP9.toInt * (p.exact / 2 ^ 13) * (p.exact / 2 ^ 13)))
    (hlinear : int64.Fits (c.digP8.toInt * p.exact)) (hfits : int64.Fits p.exact)
    (hpressure : 0 ≤ c.scaled p.exact ∧ c.scaled p.exact < 2 ^ 32) :
    (bmp280Scaled c p).ok = true := by
  have hP7 := abs_mul_le (abs_toInt_le c.digP7) (abs_pow_le 4)
  have hshr := int64.ok_shr.2 ⟨hok, hfits.ediv_pow 13⟩
  have hvar1 := int64.ok_shr.2 ⟨int64.ok_mul.2 ⟨int64.ok_mul.2 ⟨(rfl : (digS c.digP9).ok = true),
    hshr, fits_of_fits_mul_self (abs_toInt_le c.digP9) hquadratic⟩, hshr, hquadratic⟩,
    hquadratic.ediv_pow 25⟩
  have hvar2 := int64.ok_shr.2 ⟨int64.ok_mul.2 ⟨(rfl : (digS c.digP8).ok = true), hok, hlinear⟩,
    hlinear.ediv_pow 19⟩
  have hP7' := int64.ok_shl.2 ⟨(rfl : (digS c.digP7).ok = true), .of_abs hP7 (by decide)⟩
  -- The sum is bounded by the pressure, and its last term by the product that is shifted down.
  rw [Bmp280Calib.scaled] at hpressure
  have hP7bounds := abs_le.1 hP7
  obtain ⟨hlo, hhi⟩ := fits64_iff.1 hlinear
  have hsum : int64.Fits (p.exact +
      c.digP9.toInt * (p.exact / 2 ^ 13) * (p.exact / 2 ^ 13) / 2 ^ 25) :=
    fits64_iff.2 ⟨by omega, by omega⟩
  have hsum' : int64.Fits (p.exact +
      c.digP9.toInt * (p.exact / 2 ^ 13) * (p.exact / 2 ^ 13) / 2 ^ 25 +
      c.digP8.toInt * p.exact / 2 ^ 19) := fits64_iff.2 ⟨by omega, by omega⟩
  have htotal : int64.Fits ((p.exact +
      c.digP9.toInt * (p.exact / 2 ^ 13) * (p.exact / 2 ^ 13) / 2 ^ 25 +
      c.digP8.toInt * p.exact / 2 ^ 19) / 2 ^ 8 + c.digP7.toInt * 2 ^ 4) :=
    fits64_iff.2 ⟨by omega, by omega⟩
  exact int64.ok_add.2 ⟨int64.ok_shr.2 ⟨int64.ok_add.2 ⟨int64.ok_add.2 ⟨hok, hvar1, hsum⟩, hvar2,
    hsum'⟩, hsum'.ediv_pow 8⟩, hP7', htotal⟩

theorem bmp280Scaled_ok {p : Checked} (h : (bmp280Scaled c p).ok = true) :
    p.ok = true ∧ int64.Fits (c.digP9.toInt * (p.exact / 2 ^ 13) * (p.exact / 2 ^ 13)) ∧
      int64.Fits (c.digP8.toInt * p.exact) := by
  obtain ⟨hsum, hvar2, -⟩ := int64.ok_add.1 (int64.ok_shr.1 (int64.ok_add.1 h).1).1
  obtain ⟨hp, hvar1, -⟩ := int64.ok_add.1 hsum
  exact ⟨hp, (int64.ok_mul.1 (int64.ok_shr.1 hvar1).1).2.2,
    (int64.ok_mul.1 (int64.ok_shr.1 hvar2).1).2.2⟩

theorem bmp280Pressure_eq (h0 : 0 ≤ adcT) (hlt : adcT < 2 ^ 20) (h : Bmp280InRange32 c adcT)
    (hs : int64.Fits (c.sensitivity adcT)) : bmp280Pressure c adcP adcT =
      if c.divisor adcT = 0 then .const 0 else bmp280Scaled c (bmp280Quotient c adcP adcT) := by
  have hvar1 : (bmp280Var1P c adcT).machine = c.divisor adcT :=
    (bmp280Var1P c adcT).sound ((bmp280Var1P_ok_iff h0 hlt).2 ⟨h, hs⟩)
  rw [bmp280Pressure, hvar1]

theorem bmp280Pressure_exact (h0 : 0 ≤ adcT) (hlt : adcT < 2 ^ 20) (h : Bmp280InRange32 c adcT)
    (hs : int64.Fits (c.sensitivity adcT)) :
    (bmp280Pressure c adcP adcT).exact = c.pressureX256 adcP adcT := by
  rw [bmp280Pressure_eq h0 hlt h hs, Bmp280Calib.pressureX256]
  split_ifs <;> rfl

/-- Everything behind the division fits when the quotient is small. -/
theorem scaled_bounds {q : ℤ} (hP7 : 0 < c.digP7.toInt) (hq : 0 ≤ q) (hlt : q < 2 ^ 35) :
    int64.Fits (c.digP9.toInt * (q / 2 ^ 13) * (q / 2 ^ 13)) ∧ int64.Fits (c.digP8.toInt * q) ∧
      0 ≤ c.scaled q ∧ c.scaled q < 2 ^ 32 := by
  have hk : 0 ≤ q / 2 ^ 13 ∧ q / 2 ^ 13 ≤ 2 ^ 22 := ⟨by omega, by omega⟩
  have hkk : |q / 2 ^ 13 * (q / 2 ^ 13)| ≤ 2 ^ 22 * (q / 2 ^ 13) := by
    rw [abs_of_nonneg (mul_nonneg hk.1 hk.1)]
    exact mul_le_mul_of_nonneg_right hk.2 hk.1
  have hquadratic : |c.digP9.toInt * (q / 2 ^ 13) * (q / 2 ^ 13)| ≤
      32768 * (2 ^ 22 * (q / 2 ^ 13)) := by
    rw [mul_assoc]
    exact abs_mul_le (abs_toInt_le c.digP9) hkk
  obtain ⟨hquadratic, hquadratic'⟩ := abs_le.1 hquadratic
  obtain ⟨hlinear, hlinear'⟩ := abs_le.1 (abs_mul_le (abs_toInt_le c.digP8) (abs_of_nonneg hq).le)
  have hP7' := (abs_le.1 (abs_toInt_le c.digP7)).2
  refine ⟨fits64_iff.2 ⟨by omega, by omega⟩, fits64_iff.2 ⟨by omega, by omega⟩, ?_⟩
  rw [Bmp280Calib.scaled]
  constructor <;> omega

/-! ### Plausible coefficients and samples -/

namespace Bmp280Plausible

theorem abs_diff_mul_le (h : Bmp280Plausible c adcP adcT) :
    |c.diff adcT * c.digT2.toInt| ≤ 40001 * 32768 := by
  have htemp := abs_le.1 h.temperature
  refine abs_mul_le ?_ (abs_toInt_le c.digT2)
  rw [Bmp280Calib.diff]
  exact abs_le.2 ⟨by omega, by omega⟩

theorem abs_square_mul_le (h : Bmp280Plausible c adcP adcT) :
    |c.dev adcT * c.dev adcT / 2 ^ 12 * c.digT3.toInt| ≤ 97656 * 8192 := by
  have hsquare : |c.dev adcT * c.dev adcT| ≤ 20000 * 20000 := abs_mul_le h.temperature h.temperature
  have hnonneg : 0 ≤ c.dev adcT * c.dev adcT := mul_self_nonneg _
  have hle := (abs_le.1 hsquare).2
  exact abs_mul_le (abs_le.2 ⟨by omega, by omega⟩) h.digT3

theorem abs_centred_le (h : Bmp280Plausible c adcP adcT) : |c.centred adcT| ≤ 816846 := by
  have hdiff := abs_le.1 h.abs_diff_mul_le
  have hsquare := abs_le.1 h.abs_square_mul_le
  rw [Bmp280Calib.centred, Bmp280Calib.fine]
  exact abs_le.2 ⟨by omega, by omega⟩

/-- The sensitivity is about `P1` times 2 ^ 47. -/
theorem sensitivity_bounds (h : Bmp280Plausible c adcP adcT) :
    2 ^ 61 ≤ c.sensitivity adcT ∧ c.sensitivity adcT < 2 ^ 63 := by
  have hx := h.abs_centred_le
  have hquadratic := abs_le.1 (abs_mul_le (abs_mul_le hx hx) h.digP3)
  have hlinear := abs_le.1 (abs_mul_le (abs_mul_le hx h.digP2) (abs_pow_le 12))
  have hsum : (2 : ℤ) ^ 46 ≤ 1 * 2 ^ 47 + (c.centred adcT * c.centred adcT * c.digP3.toInt / 2 ^ 8 +
      c.centred adcT * c.digP2.toInt * 2 ^ 12) ∧
      1 * 2 ^ 47 + (c.centred adcT * c.centred adcT * c.digP3.toInt / 2 ^ 8 +
      c.centred adcT * c.digP2.toInt * 2 ^ 12) ≤ 3 * 2 ^ 46 := ⟨by omega, by omega⟩
  obtain ⟨hlo, hhi⟩ := h.digP1
  have hP1 : (32768 : ℤ) ≤ c.digP1.toNat ∧ (c.digP1.toNat : ℤ) ≤ 43690 := ⟨by omega, by omega⟩
  rw [Bmp280Calib.sensitivity]
  constructor
  · calc (2 : ℤ) ^ 61 = 2 ^ 46 * 32768 := by norm_num
      _ ≤ _ := mul_le_mul hsum.1 hP1.1 (by norm_num) (by omega)
  · calc _ ≤ (3 * 2 ^ 46 * 43690 : ℤ) := mul_le_mul hsum.2 hP1.2 (by omega) (by norm_num)
      _ < 2 ^ 63 := by norm_num

theorem divisor_ge (h : Bmp280Plausible c adcP adcT) : 2 ^ 28 ≤ c.divisor adcT := by
  have hs := h.sensitivity_bounds.1
  rw [Bmp280Calib.divisor]
  omega

theorem dividend_bounds (h : Bmp280Plausible c adcP adcT) (hp : 0 ≤ adcP) :
    0 ≤ c.dividend adcP adcT ∧ c.dividend adcP adcT < 2 ^ 63 := by
  have hx := h.abs_centred_le
  have hquadratic := abs_le.1 (abs_mul_le (abs_mul_le hx hx) h.digP6)
  have hlinear := abs_le.1 (abs_mul_le (abs_mul_le hx h.digP5) (abs_pow_le 17))
  have hP4 := abs_le.1 h.digP4
  have hadc := h.pressure
  rw [Bmp280Calib.dividend, Bmp280Calib.offset]
  constructor <;> omega

/-- The quotient is a pressure. -/
theorem quotient_bounds (h : Bmp280Plausible c adcP adcT) (hp : 0 ≤ adcP) :
    0 ≤ c.quotient adcP adcT ∧ c.quotient adcP adcT < 2 ^ 35 := by
  obtain ⟨hnonneg, hlt⟩ := h.dividend_bounds hp
  have hdivisor := h.divisor_ge
  have hpos : 0 < c.divisor adcT := by omega
  rw [Bmp280Calib.quotient, Int.tdiv_eq_ediv_of_nonneg hnonneg]
  refine ⟨Int.ediv_nonneg hnonneg hpos.le, Int.ediv_lt_of_lt_mul hpos ?_⟩
  calc c.dividend adcP adcT < 2 ^ 35 * 2 ^ 28 := by omega
    _ ≤ 2 ^ 35 * c.divisor adcT := mul_le_mul_of_nonneg_left hdivisor (by norm_num)

theorem inRange (h : Bmp280Plausible c adcP adcT) (hp : 0 ≤ adcP) : Bmp280InRange c adcP adcT := by
  obtain ⟨hq, hqlt⟩ := h.quotient_bounds hp
  obtain ⟨hdlo, hdhi⟩ := h.dividend_bounds hp
  obtain ⟨hslo, hshi⟩ := h.sensitivity_bounds
  obtain ⟨hquadratic, hlinear, hpressure⟩ := scaled_bounds h.digP7 hq hqlt
  exact ⟨.of_abs h.abs_diff_mul_le (by decide), h.temperature.trans (by norm_num),
    .of_abs h.abs_square_mul_le (by decide), fits64_iff.2 ⟨by omega, by omega⟩,
    fun _ => fits64_iff.2 ⟨by omega, by omega⟩, fun _ => hquadratic, fun _ => hlinear,
    fun _ => hpressure⟩

end Bmp280Plausible

end Bounds

/-- The stored word is the pressure when that is not negative and not too large. -/
theorem toNat_ofInt_eq_iff {x : ℤ} :
    ((UInt32.ofInt x).toNat : ℤ) = x ↔ 0 ≤ x ∧ x < 2 ^ 32 := by
  rw [UInt32.ofInt, UInt32.toNat_ofNat']
  omega

/-- The coefficients and samples that are computed exactly. -/
theorem bmp280Exact_iff (cal : Fin 24 → UInt8) (buf : Fin 6 → UInt8) :
    Bmp280Exact (bmp280Calib cal) buf ↔ Bmp280InRange (bmp280Calib cal)
      (bmp280Adc (buf 0) (buf 1) (buf 2)) (bmp280Adc (buf 3) (buf 4) (buf 5)) := by
  have hplt := bmp280Adc_lt (buf 0) (buf 1) (buf 2)
  have htlt := bmp280Adc_lt (buf 3) (buf 4) (buf 5)
  have hp0 := Int.natCast_nonneg (bmp280Adc (buf 0) (buf 1) (buf 2))
  have ht0 := Int.natCast_nonneg (bmp280Adc (buf 3) (buf 4) (buf 5))
  generalize bmp280Calib cal = c
  constructor
  · intro h
    obtain ⟨h32, hs⟩ := (bmp280Var1P_ok_iff ht0 htlt).1 h.var1
    have hok := h.pressure
    have hexact := @bmp280Pressure_exact c (bmp280Adc (buf 0) (buf 1) (buf 2)) _ ht0 htlt h32 hs
    obtain ⟨d, hread, hstored⟩ := h.stored
    obtain rfl := Option.some.inj (congrArg Prod.fst hread)
    rw [← hexact] at hstored
    rw [(bmp280Pressure _ _ _).sound hok, toNat_ofInt_eq_iff, hexact,
      Bmp280Calib.pressureX256] at hstored
    rw [bmp280Pressure_eq ht0 htlt h32 hs] at hok
    have hcritical (hne : c.divisor (bmp280Adc (buf 3) (buf 4) (buf 5)) ≠ 0) := by
      rw [if_neg hne] at hok
      exact bmp280Scaled_ok hok
    refine ⟨h32.1, h32.2.1, h32.2.2, hs, fun hne => ?_, fun hne => (hcritical hne).2.1,
      fun hne => (hcritical hne).2.2, fun hne => ?_⟩
    · exact ((bmp280Quotient_ok_iff ht0 htlt hp0 hplt h32 hs).1 (hcritical hne).1).2
    · rwa [if_neg hne] at hstored
  · intro h
    have h32 : Bmp280InRange32 c _ := ⟨h.diff, h.dev, h.square⟩
    have hexact := @bmp280Pressure_exact c (bmp280Adc (buf 0) (buf 1) (buf 2)) _ ht0 htlt h32
      h.sensitivity
    have hok : (bmp280Pressure c (bmp280Adc (buf 0) (buf 1) (buf 2))
        (bmp280Adc (buf 3) (buf 4) (buf 5))).ok = true := by
      rw [bmp280Pressure_eq ht0 htlt h32 h.sensitivity]
      split_ifs with hzero
      · rfl
      · have hquotient := (bmp280Quotient_ok_iff ht0 htlt hp0 hplt h32 h.sensitivity).2
          ⟨hzero, h.dividend hzero⟩
        exact bmp280Scaled_ok_of hquotient (h.quadratic hzero) (h.linear hzero)
          (Bmp280Calib.fits_quotient (h.dividend hzero)) (h.pressure hzero)
    refine ⟨(bmp280Temperature_ok_iff ht0 htlt).2 h32,
      (bmp280Var1P_ok_iff ht0 htlt).2 ⟨h32, h.sensitivity⟩, bmp280Var2P_ok ht0 htlt h32, hok,
      _, rfl, ?_⟩
    change ((UInt32.ofInt (bmp280Pressure c _ _).machine).toNat : ℤ) = _
    rw [(bmp280Pressure _ _ _).sound hok, hexact, toNat_ofInt_eq_iff, Bmp280Calib.pressureX256]
    split_ifs with hzero
    · decide
    · exact h.pressure hzero

/-- Whatever the bytes of the calibration and of the sample are: nothing is divided by 0, since the stored
pressure is 0 where the divisor is; plausible coefficients and samples are computed exactly; and in general
no result leaves its type and the stored pressure is exact if and only if the critical products fit. -/
theorem bmp280_exact (cal : Fin 24 → UInt8) (buf : Fin 6 → UInt8) :
    ((bmp280Var1P (bmp280Calib cal) (bmp280Adc (buf 3) (buf 4) (buf 5))).machine = 0 →
      bmp280Pressure (bmp280Calib cal) (bmp280Adc (buf 0) (buf 1) (buf 2))
        (bmp280Adc (buf 3) (buf 4) (buf 5)) = .const 0) ∧
    (Bmp280Plausible (bmp280Calib cal) (bmp280Adc (buf 0) (buf 1) (buf 2))
        (bmp280Adc (buf 3) (buf 4) (buf 5)) → Bmp280Exact (bmp280Calib cal) buf) ∧
    (Bmp280Exact (bmp280Calib cal) buf ↔ Bmp280InRange (bmp280Calib cal)
      (bmp280Adc (buf 0) (buf 1) (buf 2)) (bmp280Adc (buf 3) (buf 4) (buf 5))) := by
  have hiff := bmp280Exact_iff cal buf
  exact ⟨fun hzero => if_pos hzero, fun h => hiff.2 (h.inRange (Int.natCast_nonneg _)), hiff⟩

/-- A calibration and a sample of the data sheet of the sensor. -/
def bmp280SensorCal : List UInt8 :=
  [0x70, 0x6B, 0x43, 0x67, 0x18, 0xFC, 0x7D, 0x8E, 0x43, 0xD6, 0xD0, 0x0B, 0x27, 0x0B, 0x8C, 0x00,
    0xF9, 0xFF, 0x8C, 0x3C, 0xF8, 0xC6, 0x70, 0x17]

def bmp280SensorData : List UInt8 := [0x65, 0x5A, 0xC0, 0x7E, 0xED, 0x00]

theorem bmp280Sensor_exact :
    Bmp280Exact (bmp280Calib fun i => bmp280SensorCal.get (i.cast rfl))
      (fun i => bmp280SensorData.get (i.cast rfl)) :=
  (bmp280_exact _ _).2.1 (by decide +kernel)

/-- `T2` reads -32768 and all other coefficients read 0, and the temperature is the largest one: the first
product is -4294934528. -/
theorem bmp280_garbled : ¬ Bmp280Exact (bmp280Calib fun i => if i = 3 then 0x80 else 0)
    (fun _ => 0xFF) :=
  fun h => absurd h.temperature (by decide)

example : (bmp280Temperature ⟨27504, 26435, -1000, 36477, -10685, 3024, 2855, 140, -7, 15500, -14600,
    6000⟩ 519888).machine = 2508 := by decide

end TamgaOs
