import Mathlib.Algebra.Order.Field.Rat
import Mathlib.Algebra.Order.Group.Unbundled.Abs
import Mathlib.LinearAlgebra.Matrix.Notation

/-!
# The Kalman filter

`kalman.c`: the filter for roll and pitch with the drifts of the two gyroscopes, over rational
numbers. `atan2f` and `sqrtf` are arbitrary functions.

## Main definitions

* `Kalman`, `kalmanInit`: `kalman_t` and its first value.
* `Kalman.predict`, `Kalman.correct`: the two halves of `kalman_update`.
* `Kalman.kalmanUpdate`: the function with its early return.
-/

namespace TamgaOs

/-- `kalman_t`. -/
structure Kalman where
  x : Fin 4 → ℚ
  P : Matrix (Fin 4) (Fin 4) ℚ

/-- What `kalman_update` is called with. -/
structure ImuSample where
  ax : ℚ
  ay : ℚ
  az : ℚ
  wx : ℚ
  wy : ℚ
  dt : ℚ

/-- `kalman_init`. -/
def kalmanInit : Kalman where
  x := fun _ => 0
  P := .of fun i j => if i = j then 1 else 0

namespace Kalman

/-! ### The constants -/

/-- `Q_ANGLE`. -/
def qAngle : ℚ := 1 / 1000

/-- `Q_BIAS`. -/
def qBias : ℚ := 1 / 10000

/-- `SCALE`. -/
def scale : ℚ := 1 / 16384

/-- `R_ROLL`. -/
def rRoll : ℚ := 70211 / 100 * scale * scale

/-- `R_PITCH`. -/
def rPitch : ℚ := 65155 / 100 * scale * scale

/-- The bound that `det` is compared with. -/
def detMin : ℚ := 1 / 10 ^ 10

/-! ### The prediction -/

variable (P : Matrix (Fin 4) (Fin 4) ℚ) (dt : ℚ)

/-- `FP`. -/
def FP : Matrix (Fin 4) (Fin 4) ℚ :=
  .of fun i j =>
    match i with
    | 0 => P 0 j - dt * P 2 j
    | 1 => P 1 j - dt * P 3 j
    | 2 => P 2 j
    | 3 => P 3 j

/-- `FPFT`. -/
def FPFT : Matrix (Fin 4) (Fin 4) ℚ :=
  let FP := FP P dt
  .of fun i j =>
    match j with
    | 0 => FP i 0 - dt * FP i 2
    | 1 => FP i 1 - dt * FP i 3
    | 2 => FP i 2
    | 3 => FP i 3

/-- The entries of `k->P` after the prediction. -/
def predictP : Matrix (Fin 4) (Fin 4) ℚ :=
  let FPFT := FPFT P dt
  .of fun i j =>
    match i, j with
    | 0, 0 => FPFT 0 0 + qAngle
    | 1, 1 => FPFT 1 1 + qAngle
    | 2, 2 => FPFT 2 2 + qBias
    | 3, 3 => FPFT 3 3 + qBias
    | i, j => FPFT i j

/-- The first half of `kalman_update`. -/
def predict (k : Kalman) (z : ImuSample) : Kalman where
  x := ![k.x 0 + (z.wx - k.x 2) * z.dt, k.x 1 + (z.wy - k.x 3) * z.dt, k.x 2, k.x 3]
  P := predictP k.P z.dt

/-! ### The correction -/

/-- `S00` to `S11`. -/
def innovation : Matrix (Fin 2) (Fin 2) ℚ := !![P 0 0 + rRoll, P 0 1; P 1 0, P 1 1 + rPitch]

variable (S Si : Matrix (Fin 2) (Fin 2) ℚ) (K : Matrix (Fin 4) (Fin 2) ℚ)

/-- `det`. -/
def det : ℚ := S 0 0 * S 1 1 - S 0 1 * S 1 0

/-- `Si00` to `Si11`. -/
def inverse : Matrix (Fin 2) (Fin 2) ℚ :=
  let invDet := 1 / det S
  !![S 1 1 * invDet, -S 0 1 * invDet; -S 1 0 * invDet, S 0 0 * invDet]

/-- `PH`. -/
def PH : Matrix (Fin 4) (Fin 2) ℚ :=
  .of fun i j =>
    match j with
    | 0 => P i 0
    | 1 => P i 1

/-- `K`. -/
def gain : Matrix (Fin 4) (Fin 2) ℚ :=
  let PH := PH P
  .of fun i j =>
    match j with
    | 0 => PH i 0 * Si 0 0 + PH i 1 * Si 1 0
    | 1 => PH i 0 * Si 0 1 + PH i 1 * Si 1 1

/-- `KH`. -/
def KH : Matrix (Fin 4) (Fin 4) ℚ :=
  .of fun i j =>
    match j with
    | 0 => K i 0
    | 1 => K i 1
    | 2 | 3 => 0

/-- `IKH`. -/
def IKH : Matrix (Fin 4) (Fin 4) ℚ := .of fun i j => (if i = j then 1 else 0) - KH K i j

/-- `newP`, with the loop that adds up an entry. -/
def newP : Matrix (Fin 4) (Fin 4) ℚ :=
  .of fun i j => Fin.foldl 4 (fun sum m => sum + IKH K i m * P m j) 0

variable (atan2f : ℚ → ℚ → ℚ) (sqrtf : ℚ → ℚ)

/-- `y0` and `y1`. -/
def residual (x : Fin 4 → ℚ) (z : ImuSample) : Fin 2 → ℚ :=
  ![atan2f z.ay (sqrtf (z.ax * z.ax + z.az * z.az)) - x 0,
    atan2f (-z.ax) (sqrtf (z.ay * z.ay + z.az * z.az)) - x 1]

/-- The second half of `kalman_update`, after the test of `det`. -/
def correct (k : Kalman) (z : ImuSample) : Kalman :=
  let y := residual atan2f sqrtf k.x z
  let K := gain k.P (inverse (innovation k.P))
  { x := fun i => k.x i + (K i 0 * y 0 + K i 1 * y 1)
    P := newP k.P K }

/-- `kalman_update`. -/
def kalmanUpdate (k : Kalman) (z : ImuSample) : Kalman :=
  let k := k.predict z
  if |det (innovation k.P)| < detMin then k else k.correct atan2f sqrtf z

end Kalman

end TamgaOs
