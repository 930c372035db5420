import Mathlib.LinearAlgebra.Matrix.PosDef
import Mathlib.Tactic.Abel

/-!
# The optimal gain of a linear estimate

An estimate with the covariance `P` is corrected by a measurement `H` with the covariance `R`. The
gain decides how much of the difference between the measurement and its prediction is added. The
covariance after the correction is a quadratic function of the gain, and the optimal gain completes
the square.

## Main definitions

* `Gain.innovation`, `Gain.optimal`: the covariance of the difference, and the optimal gain.
* `Gain.corrected`: the covariance after a correction with a gain.

## Main results

* `Gain.corrected_posDef`: it stays positive definite, whatever the gain is.
* `Gain.corrected_optimal`: with the optimal gain it is `(1 - K H) P`.
* `Gain.corrected_eq`, `Gain.corrected_sub_optimal`: with any other gain it is greater.
-/

open Matrix

namespace Gain

variable {n m F : Type*} [Fintype n] [DecidableEq n] [Fintype m] [DecidableEq m]
  [Field F] [PartialOrder F] [StarRing F]

/-- The covariance of the difference between the measurement and its prediction. -/
def innovation (P : Matrix n n F) (H : Matrix m n F) (R : Matrix m m F) : Matrix m m F :=
  H * P * Hᴴ + R

/-- The gain for which the covariance after the correction is the least. -/
noncomputable def optimal (P : Matrix n n F) (H : Matrix m n F) (R : Matrix m m F) :
    Matrix n m F :=
  P * Hᴴ * (innovation P H R)⁻¹

/-- The covariance of the estimate after a correction with the gain `G`. -/
def corrected (P : Matrix n n F) (H : Matrix m n F) (R : Matrix m m F) (G : Matrix n m F) :
    Matrix n n F :=
  (1 - G * H) * P * (1 - G * H)ᴴ + G * R * Gᴴ

variable {P : Matrix n n F} {H : Matrix m n F} {R : Matrix m m F}

/-! ### Positive definiteness -/

omit [DecidableEq n] [DecidableEq m] in
theorem innovation_posDef [AddLeftMono F] (hP : P.PosDef) (hR : R.PosDef) :
    (innovation P H R).PosDef :=
  .posSemidef_add (hP.posSemidef.mul_mul_conjTranspose_same H) hR

omit [DecidableEq n] [DecidableEq m] [PartialOrder F] in
/-- The quadratic form of a congruent matrix. -/
theorem dotProduct_congruent (A : Matrix n m F) (B : Matrix m m F) (v : n → F) :
    star v ⬝ᵥ (A * B * Aᴴ) *ᵥ v = star (Aᴴ *ᵥ v) ⬝ᵥ B *ᵥ (Aᴴ *ᵥ v) := by
  rw [star_mulVec, conjTranspose_conjTranspose, ← mulVec_mulVec, ← mulVec_mulVec, dotProduct_mulVec]

omit [DecidableEq m] in
/-- A correction leaves the covariance positive definite. A direction is certain afterwards only when
the noise of the measurement does not reach it; then the measurement has not changed it either. -/
theorem corrected_posDef [AddLeftMono F] (hP : P.PosDef) (hR : R.PosDef) (G : Matrix n m F) :
    (corrected P H R G).PosDef := by
  have hprior : ((1 - G * H) * P * (1 - G * H)ᴴ).PosSemidef :=
    hP.posSemidef.mul_mul_conjTranspose_same _
  have hnoise : (G * R * Gᴴ).PosSemidef := hR.posSemidef.mul_mul_conjTranspose_same G
  refine .of_dotProduct_mulVec_pos (hprior.add hnoise).isHermitian fun v hv => ?_
  rw [corrected, add_mulVec, dotProduct_add]
  by_cases hG : Gᴴ *ᵥ v = 0
  · have hsame : (1 - G * H)ᴴ *ᵥ v = v := by
      rw [conjTranspose_sub, conjTranspose_one, conjTranspose_mul, sub_mulVec, one_mulVec,
        ← mulVec_mulVec, hG, mulVec_zero, sub_zero]
    rw [dotProduct_congruent, hsame]
    exact add_pos_of_pos_of_nonneg (hP.dotProduct_mulVec_pos hv) (hnoise.dotProduct_mulVec_nonneg v)
  · rw [dotProduct_congruent G]
    exact add_pos_of_nonneg_of_pos (hprior.dotProduct_mulVec_nonneg v) (hR.dotProduct_mulVec_pos hG)

/-! ### The optimal gain -/

omit [DecidableEq m] [PartialOrder F] in
/-- The covariance is a quadratic function of the gain. -/
theorem corrected_expand (G : Matrix n m F) :
    corrected P H R G = P - G * (H * P) - P * Hᴴ * Gᴴ + G * innovation P H R * Gᴴ := by
  rw [corrected, innovation, conjTranspose_sub, conjTranspose_one, conjTranspose_mul]
  simp only [Matrix.sub_mul, Matrix.mul_sub, Matrix.mul_add, Matrix.add_mul, Matrix.one_mul,
    Matrix.mul_one, Matrix.mul_assoc]
  abel

variable [AddLeftMono F]

omit [DecidableEq n] in
theorem optimal_mul_innovation (hP : P.PosDef) (hR : R.PosDef) :
    optimal P H R * innovation P H R = P * Hᴴ := by
  have hdet : IsUnit (innovation P H R).det :=
    (isUnit_iff_isUnit_det _).1 (innovation_posDef hP hR).isUnit
  rw [optimal, nonsing_inv_mul_cancel_right _ _ hdet]

omit [DecidableEq n] in
theorem innovation_mul_optimal (hP : P.PosDef) (hR : R.PosDef) :
    innovation P H R * (optimal P H R)ᴴ = H * P := by
  have h := congrArg conjTranspose (optimal_mul_innovation (H := H) hP hR)
  rwa [conjTranspose_mul, (innovation_posDef hP hR).isHermitian, conjTranspose_mul,
    conjTranspose_conjTranspose, hP.isHermitian] at h

/-- With the optimal gain the covariance has a simpler form. -/
theorem corrected_optimal (hP : P.PosDef) (hR : R.PosDef) :
    corrected P H R (optimal P H R) = (1 - optimal P H R * H) * P := by
  rw [corrected_expand, optimal_mul_innovation hP hR, Matrix.sub_mul, Matrix.one_mul,
    Matrix.mul_assoc (optimal P H R), sub_add_cancel]

/-- Another gain leaves a greater covariance. -/
theorem corrected_eq (hP : P.PosDef) (hR : R.PosDef) (G : Matrix n m F) :
    corrected P H R G = corrected P H R (optimal P H R) +
      (G - optimal P H R) * innovation P H R * (G - optimal P H R)ᴴ := by
  have hcross : G * innovation P H R * (optimal P H R)ᴴ = G * (H * P) := by
    rw [Matrix.mul_assoc, innovation_mul_optimal hP hR]
  have hsquare : optimal P H R * innovation P H R * (optimal P H R)ᴴ = optimal P H R * (H * P) := by
    rw [Matrix.mul_assoc, innovation_mul_optimal hP hR]
  have hproduct : (G - optimal P H R) * innovation P H R * (G - optimal P H R)ᴴ =
      G * innovation P H R * Gᴴ - P * Hᴴ * Gᴴ - (G * (H * P) - optimal P H R * (H * P)) := by
    rw [conjTranspose_sub, Matrix.sub_mul, Matrix.mul_sub, Matrix.sub_mul, Matrix.sub_mul, hcross,
      hsquare, optimal_mul_innovation hP hR]
  rw [hproduct, corrected_optimal hP hR, corrected_expand, Matrix.sub_mul, Matrix.one_mul,
    Matrix.mul_assoc (optimal P H R)]
  abel

/-- The optimal gain is optimal: the difference of the covariances is positive semidefinite. -/
theorem corrected_sub_optimal (hP : P.PosDef) (hR : R.PosDef) (G : Matrix n m F) :
    (corrected P H R G - (1 - optimal P H R * H) * P).PosSemidef := by
  rw [corrected_eq hP hR G, corrected_optimal hP hR, add_sub_cancel_left]
  exact (innovation_posDef hP hR).posSemidef.mul_mul_conjTranspose_same _

theorem optimal_posDef (hP : P.PosDef) (hR : R.PosDef) :
    ((1 - optimal P H R * H) * P).PosDef :=
  corrected_optimal (H := H) hP hR ▸ corrected_posDef hP hR _

end Gain
