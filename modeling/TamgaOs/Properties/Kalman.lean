import TamgaOs.Controls.Kalman
import TamgaOs.Library.Gain
import Mathlib.Data.Rat.Star
import Mathlib.LinearAlgebra.Matrix.NonsingularInverse
import Mathlib.Tactic.Ring
import Mathlib.Tactic.Linarith
import Mathlib.Tactic.FinCases
import Mathlib.Tactic.NormNum

/-!
# The covariance of the filter

The unrolled arithmetic of `kalman.c` is compared with the formulas of the header, and the formulas
keep the covariance positive definite. The noise that the prediction adds to both angles is far above
the bound at which the code gives up.

## Main definitions

* `Kalman.F`, `Kalman.H`, `Kalman.Q`, `Kalman.R`: the matrices of the header.

## Main results

* `Kalman.predictP_eq`, `Kalman.newP_eq`: the code computes the formulas.
* `kalman_covariance`: after any calls, and in the next one.
-/

open Matrix

namespace TamgaOs

namespace Kalman

/-- The dynamics. -/
def F (dt : ℚ) : Matrix (Fin 4) (Fin 4) ℚ :=
  !![1, 0, -dt, 0; 0, 1, 0, -dt; 0, 0, 1, 0; 0, 0, 0, 1]

/-- The measurement. -/
def H : Matrix (Fin 2) (Fin 4) ℚ := !![1, 0, 0, 0; 0, 1, 0, 0]

/-- The noise of the process. -/
def Q : Matrix (Fin 4) (Fin 4) ℚ := diagonal ![qAngle, qAngle, qBias, qBias]

/-- The noise of the measurement. -/
def R : Matrix (Fin 2) (Fin 2) ℚ := diagonal ![rRoll, rPitch]

variable (P : Matrix (Fin 4) (Fin 4) ℚ) (dt : ℚ) (S : Matrix (Fin 2) (Fin 2) ℚ)
  (K : Matrix (Fin 4) (Fin 2) ℚ)

/-! ### The formulas of the header -/

theorem FP_eq : FP P dt = F dt * P := by
  ext i j
  fin_cases i <;> simp [FP, F, mul_apply, Fin.sum_univ_four] <;> ring

theorem FPFT_eq : FPFT P dt = F dt * P * (F dt)ᵀ := by
  rw [← FP_eq]
  ext i j
  fin_cases j <;> simp [FPFT, F, mul_apply, Fin.sum_univ_four] <;> ring

theorem predictP_eq : predictP P dt = F dt * P * (F dt)ᵀ + Q := by
  rw [← FPFT_eq]
  ext i j
  fin_cases i <;> fin_cases j <;> simp [predictP, Q]

theorem PH_eq : PH P = P * Hᴴ := by
  ext i j
  fin_cases j <;> simp [PH, H, mul_apply, Fin.sum_univ_four]

theorem innovation_eq : innovation P = Gain.innovation P H R := by
  rw [Gain.innovation, Matrix.mul_assoc, ← PH_eq]
  ext i j
  rw [Matrix.add_apply, mul_apply, Fin.sum_univ_four]
  fin_cases i <;> fin_cases j <;> simp [innovation, PH, H, R]

theorem det_eq : det S = S.det := (det_fin_two S).symm

theorem inverse_eq : inverse S = S⁻¹ := by
  rw [inv_def, ← det_eq, adjugate_fin_two, Ring.inverse_eq_inv']
  ext i j
  fin_cases i <;> fin_cases j <;> simp [inverse, mul_comm]

theorem gain_eq : gain P S = P * Hᴴ * S := by
  rw [← PH_eq]
  ext i j
  fin_cases j <;> simp [gain, mul_apply, Fin.sum_univ_two]

theorem KH_eq : KH K = K * H := by
  ext i j
  fin_cases j <;> simp [KH, H, mul_apply, Fin.sum_univ_two]

theorem IKH_eq : IKH K = 1 - K * H := by
  rw [← KH_eq]
  ext i j
  simp [IKH, one_apply]

theorem newP_eq : newP P K = (1 - K * H) * P := by
  rw [← IKH_eq]
  ext i j
  simp [newP, mul_apply, Fin.sum_univ_four, Fin.foldl_succ_last]

/-! ### Positive definiteness -/

variable {P dt}

theorem F_mul_F_neg (dt : ℚ) : F dt * F (-dt) = 1 := by
  ext i j
  fin_cases i <;> fin_cases j <;> simp [F, mul_apply, Fin.sum_univ_four]

theorem Q_posDef : Q.PosDef :=
  .diagonal fun i => by fin_cases i <;> norm_num [qAngle, qBias]

theorem R_posDef : R.PosDef :=
  .diagonal fun i => by fin_cases i <;> norm_num [rRoll, rPitch, scale]

/-- The dynamics are invertible. -/
theorem FPFT_posDef (hP : P.PosDef) (dt : ℚ) : (FPFT P dt).PosDef := by
  have hunit : IsUnit (F dt) := .of_mul_eq_one _ (F_mul_F_neg dt)
  rw [FPFT_eq, ← conjTranspose_eq_transpose_of_trivial]
  exact hP.mul_mul_conjTranspose_same (vecMul_injective_iff_isUnit.2 hunit)

theorem predictP_posDef (hP : P.PosDef) (dt : ℚ) : (predictP P dt).PosDef := by
  rw [predictP_eq, ← FPFT_eq]
  exact (FPFT_posDef hP dt).add Q_posDef

theorem det_pos_of_posDef {A : Matrix (Fin 2) (Fin 2) ℚ} (hA : A.PosDef) :
    0 < A 0 0 * A 1 1 - A 0 1 * A 1 0 := by
  have hcorner : 0 < A 0 0 := hA.diag_pos
  have hv : ![-A 0 1, A 0 0] ≠ 0 := fun h => hcorner.ne' (congrFun h 1)
  have hform := hA.dotProduct_mulVec_pos hv
  have hvalue : star ![-A 0 1, A 0 0] ⬝ᵥ A *ᵥ ![-A 0 1, A 0 0] =
      A 0 0 * (A 0 0 * A 1 1 - A 0 1 * A 1 0) := by
    simp [mulVec, dotProduct, Fin.sum_univ_two]
    ring
  rw [hvalue] at hform
  exact (mul_pos_iff_of_pos_left hcorner).1 hform

/-- The noise of the prediction keeps the determinant away from 0. -/
theorem detMin_lt_det (hP : P.PosDef) (dt : ℚ) : detMin < det (innovation (predictP P dt)) := by
  have hA := FPFT_posDef hP dt
  have h0 : 0 < FPFT P dt 0 0 := hA.diag_pos
  have h1 : 0 < FPFT P dt 1 1 := hA.diag_pos
  have hminor : 0 < FPFT P dt 0 0 * FPFT P dt 1 1 - FPFT P dt 0 1 * FPFT P dt 1 0 :=
    det_pos_of_posDef (hA.submatrix (e := ![0, 1]) (by decide))
  have hroll : 0 < rRoll := by norm_num [rRoll, scale]
  have hpitch : 0 < rPitch := by norm_num [rPitch, scale]
  have hdet : det (innovation (predictP P dt)) =
      (FPFT P dt 0 0 * FPFT P dt 1 1 - FPFT P dt 0 1 * FPFT P dt 1 0) +
        FPFT P dt 0 0 * (qAngle + rPitch) + FPFT P dt 1 1 * (qAngle + rRoll) +
        (qAngle + rRoll) * (qAngle + rPitch) := by
    simp [det, innovation, predictP]
    ring
  have hnoise : detMin < (qAngle + rRoll) * (qAngle + rPitch) := by
    norm_num [detMin, qAngle, rRoll, rPitch, scale]
  have hangle : 0 < qAngle := by norm_num [qAngle]
  have hcross0 := mul_pos h0 (add_pos hangle hpitch)
  have hcross1 := mul_pos h1 (add_pos hangle hroll)
  rw [hdet]
  linarith

/-! ### The calls -/

variable {atan2f : ℚ → ℚ → ℚ} {sqrtf : ℚ → ℚ} {k : Kalman}

/-- The early return is not taken. -/
theorem kalmanUpdate_eq (hP : k.P.PosDef) (z : ImuSample) :
    k.kalmanUpdate atan2f sqrtf z = (k.predict z).correct atan2f sqrtf z := by
  have hlt : detMin < det (innovation (k.predict z).P) := detMin_lt_det hP z.dt
  exact if_neg (not_lt.2 (hlt.le.trans (le_abs_self _)))

/-- The covariance after a call. -/
theorem kalmanUpdate_P (hP : k.P.PosDef) (z : ImuSample) :
    (k.kalmanUpdate atan2f sqrtf z).P =
      (1 - Gain.optimal (predictP k.P z.dt) H R * H) * predictP k.P z.dt := by
  rw [kalmanUpdate_eq hP]
  show newP (predictP k.P z.dt) (gain (predictP k.P z.dt) (inverse (innovation (predictP k.P z.dt)))) = _
  rw [newP_eq, gain_eq, inverse_eq, innovation_eq]
  rfl

theorem kalmanUpdate_posDef (hP : k.P.PosDef) (z : ImuSample) :
    (k.kalmanUpdate atan2f sqrtf z).P.PosDef := by
  rw [kalmanUpdate_P hP]
  exact Gain.optimal_posDef (predictP_posDef hP z.dt) R_posDef

theorem kalmanInit_posDef : kalmanInit.P.PosDef := by
  have hone : kalmanInit.P = 1 := by
    ext i j
    simp [kalmanInit, one_apply]
  rw [hone]
  exact .one

theorem posDef_foldl (zs : List ImuSample) (hP : k.P.PosDef) :
    (zs.foldl (kalmanUpdate atan2f sqrtf) k).P.PosDef := by
  induction zs generalizing k with
  | nil => exact hP
  | cons z zs ih => exact ih (kalmanUpdate_posDef hP z)

end Kalman

open Kalman in
/-- After any calls of `kalman_update` the covariance is symmetric and positive definite. The next
call does not return early, and leaves the covariance of the prediction corrected with the optimal
gain: with every other gain it is greater. -/
theorem kalman_covariance (atan2f : ℚ → ℚ → ℚ) (sqrtf : ℚ → ℚ) (zs : List ImuSample) :
    let k := zs.foldl (kalmanUpdate atan2f sqrtf) kalmanInit
    k.P.IsSymm ∧ k.P.PosDef ∧ ∀ z : ImuSample,
      let P := F z.dt * k.P * (F z.dt)ᵀ + Q
      detMin < Kalman.det (innovation (k.predict z).P) ∧
      k.kalmanUpdate atan2f sqrtf z = (k.predict z).correct atan2f sqrtf z ∧
      (k.kalmanUpdate atan2f sqrtf z).P = (1 - Gain.optimal P H R * H) * P ∧
      ∀ G, (Gain.corrected P H R G - (k.kalmanUpdate atan2f sqrtf z).P).PosSemidef := by
  intro k
  have hP : k.P.PosDef := posDef_foldl zs kalmanInit_posDef
  have hsymm : k.P.IsSymm := by
    rw [IsSymm, ← conjTranspose_eq_transpose_of_trivial]
    exact hP.isHermitian
  refine ⟨hsymm, hP, fun z => ?_⟩
  intro P
  have hpredict : predictP k.P z.dt = P := predictP_eq k.P z.dt
  have hafter : (k.kalmanUpdate atan2f sqrtf z).P = (1 - Gain.optimal P H R * H) * P := by
    rw [kalmanUpdate_P hP, hpredict]
  refine ⟨detMin_lt_det hP z.dt, kalmanUpdate_eq hP z, hafter, fun G => ?_⟩
  rw [hafter]
  exact Gain.corrected_sub_optimal (hpredict ▸ predictP_posDef hP z.dt) R_posDef G

end TamgaOs
