import Mathlib.Algebra.Order.Ring.Abs
import Mathlib.Algebra.Order.Ring.Int
import Mathlib.Data.Int.Notation
import Mathlib.Tactic.Common

/-!
# Signed arithmetic with its overflows

A checked number is an exact integer beside the word that a machine computes for it, and a flag that all
results on the way to it have fit their types. As long as the flag is set the two are the same.

## Main definitions

* `IntType`, `IntType.Fits`: a signed type, and the integers that fit it.
* `Checked`: a number that is computed in words.
* `IntType.add`, `sub`, `mul`, `shl`, `shr`, `div`: its operations.

## Main results

* `IntType.ok_add`, `ok_sub`, `ok_mul`, `ok_shl`, `ok_shr`, `ok_div`: when a result and everything before
  it fits.
* `IntType.Fits.of_abs`, `IntType.Fits.ediv_pow`, `abs_mul_le`: bounds.
-/

/-- A signed integer type in two's complement. -/
structure IntType where
  bits : ℕ
  pos : 0 < bits

/-- A number that is computed in words. -/
structure Checked where
  exact : ℤ
  machine : ℤ
  ok : Bool
  sound : ok = true → machine = exact

/-- A value that is given. -/
def Checked.const (x : ℤ) : Checked := ⟨x, x, true, fun _ => rfl⟩

namespace IntType

/-- The integer is a value of the type. -/
def Fits (τ : IntType) (x : ℤ) : Prop := -2 ^ (τ.bits - 1) ≤ x ∧ x < 2 ^ (τ.bits - 1)

instance (τ : IntType) (x : ℤ) : Decidable (τ.Fits x) := inferInstanceAs (Decidable (_ ∧ _))

/-- The value of the type that the machine computes for an integer. -/
def wrap (τ : IntType) (x : ℤ) : ℤ := x.bmod (2 ^ τ.bits)

variable {τ : IntType} {x A : ℤ}

theorem wrap_of_fits (h : τ.Fits x) : τ.wrap x = x := by
  have hhalf : ((2 ^ τ.bits : ℕ) : ℤ) = 2 ^ (τ.bits - 1) * 2 := by
    rw [← pow_succ, Nat.sub_add_cancel τ.pos, Nat.cast_pow, Nat.cast_ofNat]
  obtain ⟨hlo, hhi⟩ := h
  exact Int.bmod_eq_of_le (by omega) (by omega)

/-- A number of small magnitude. -/
theorem Fits.of_abs (h : |x| ≤ A) (hA : A < 2 ^ (τ.bits - 1)) : τ.Fits x := by
  have hx := abs_le.1 h
  exact ⟨by omega, by omega⟩

/-- A number that is shifted down fits when it did before. -/
theorem Fits.ediv_pow (h : τ.Fits x) (n : ℕ) : τ.Fits (x / 2 ^ n) := by
  have hpos : (0 : ℤ) < 2 ^ n := Int.pow_pos (by omega)
  have hhalf : (0 : ℤ) < 2 ^ (τ.bits - 1) := Int.pow_pos (by omega)
  obtain ⟨hlo, hhi⟩ := h
  have hone : (2 : ℤ) ^ (τ.bits - 1) * 1 ≤ 2 ^ (τ.bits - 1) * 2 ^ n :=
    mul_le_mul_of_nonneg_left hpos hhalf.le
  refine ⟨(Int.le_ediv_iff_mul_le hpos).2 ?_, (Int.ediv_lt_iff_lt_mul hpos).2 ?_⟩
  · rw [neg_mul]
    omega
  · omega

/-- The result of an operation that is exact on integers. -/
def map₂ (τ : IntType) (f : ℤ → ℤ → ℤ) (a b : Checked) : Checked where
  exact := f a.exact b.exact
  machine := τ.wrap (f a.machine b.machine)
  ok := a.ok && b.ok && decide (τ.Fits (f a.exact b.exact))
  sound h := by
    rw [Bool.and_eq_true, Bool.and_eq_true, decide_eq_true_eq] at h
    obtain ⟨⟨ha, hb⟩, hfits⟩ := h
    rw [a.sound ha, b.sound hb, wrap_of_fits hfits]

variable (τ) (a b : Checked) (n : ℕ)

def add : Checked := τ.map₂ (· + ·) a b

def sub : Checked := τ.map₂ (· - ·) a b

def mul : Checked := τ.map₂ (· * ·) a b

/-- `a << n`. -/
def shl : Checked := τ.map₂ (· * ·) a (.const (2 ^ n))

/-- `a >> n`. The result is rounded down. -/
def shr : Checked := τ.map₂ (· / ·) a (.const (2 ^ n))

/-- `a / b`. The result is rounded towards zero, and there is none for a divisor 0. -/
def div : Checked where
  exact := a.exact.tdiv b.exact
  machine := τ.wrap (a.machine.tdiv b.machine)
  ok := a.ok && b.ok && decide (b.exact ≠ 0) && decide (τ.Fits (a.exact.tdiv b.exact))
  sound h := by
    simp only [Bool.and_eq_true, decide_eq_true_eq] at h
    obtain ⟨⟨⟨ha, hb⟩, -⟩, hfits⟩ := h
    rw [a.sound ha, b.sound hb, wrap_of_fits hfits]

variable {a b n}

@[simp] theorem exact_const : (Checked.const x).exact = x := rfl
@[simp] theorem ok_const : (Checked.const x).ok = true := rfl
@[simp] theorem exact_add : (τ.add a b).exact = a.exact + b.exact := rfl
@[simp] theorem exact_sub : (τ.sub a b).exact = a.exact - b.exact := rfl
@[simp] theorem exact_mul : (τ.mul a b).exact = a.exact * b.exact := rfl
@[simp] theorem exact_shl : (τ.shl a n).exact = a.exact * 2 ^ n := rfl
@[simp] theorem exact_shr : (τ.shr a n).exact = a.exact / 2 ^ n := rfl
@[simp] theorem exact_div : (τ.div a b).exact = a.exact.tdiv b.exact := rfl

theorem ok_map₂ {f : ℤ → ℤ → ℤ} :
    (τ.map₂ f a b).ok = true ↔ a.ok = true ∧ b.ok = true ∧ τ.Fits (f a.exact b.exact) := by
  simp only [map₂, Bool.and_eq_true, decide_eq_true_eq, and_assoc]

theorem ok_add :
    (τ.add a b).ok = true ↔ a.ok = true ∧ b.ok = true ∧ τ.Fits (a.exact + b.exact) := ok_map₂ τ

theorem ok_sub :
    (τ.sub a b).ok = true ↔ a.ok = true ∧ b.ok = true ∧ τ.Fits (a.exact - b.exact) := ok_map₂ τ

theorem ok_mul :
    (τ.mul a b).ok = true ↔ a.ok = true ∧ b.ok = true ∧ τ.Fits (a.exact * b.exact) := ok_map₂ τ

theorem ok_shl : (τ.shl a n).ok = true ↔ a.ok = true ∧ τ.Fits (a.exact * 2 ^ n) :=
  (ok_map₂ τ).trans (by simp only [ok_const, exact_const, true_and])

theorem ok_shr : (τ.shr a n).ok = true ↔ a.ok = true ∧ τ.Fits (a.exact / 2 ^ n) :=
  (ok_map₂ τ).trans (by simp only [ok_const, exact_const, true_and])

theorem ok_div : (τ.div a b).ok = true ↔
    a.ok = true ∧ b.ok = true ∧ b.exact ≠ 0 ∧ τ.Fits (a.exact.tdiv b.exact) := by
  simp only [div, Bool.and_eq_true, decide_eq_true_eq, and_assoc]

end IntType

/-! ### Bounds -/

section Bounds

variable {a b A B : ℤ}

theorem abs_mul_le (ha : |a| ≤ A) (hb : |b| ≤ B) : |a * b| ≤ A * B := by
  rw [abs_mul]
  exact mul_le_mul ha hb (abs_nonneg b) ((abs_nonneg a).trans ha)

theorem abs_add_le' (ha : |a| ≤ A) (hb : |b| ≤ B) : |a + b| ≤ A + B :=
  (abs_add_le a b).trans (add_le_add ha hb)

end Bounds
