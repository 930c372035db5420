import Mathlib.Algebra.Group.Nat.Defs
import Mathlib.Data.Nat.Notation
import Mathlib.Tactic.Common

/-!
# The independent watchdog

`stm32h753zi/iwdg.c`: `iwdg_init`, with the registers of the watchdog that it writes. Its arithmetic is in
32 bits. The waits for `IWDG_SR` end when the registers have been updated and are left out.

## Main definitions

* `iwdgSearch`: the loop over `prescaler_table`.
* `iwdgInit`: the writes to the watchdog.
* `Iwdg.write`: what the watchdog does with them.
-/

namespace TamgaOs

/-- `prescaler_table`. -/
def prescalerTable : List ℕ := [4, 8, 16, 32, 64, 128, 256]

/-- `LSI_FREQ_HZ`. -/
def lsiFreqHz : ℕ := 32000

/-- `rl` in the loop of `iwdg_init`, for a prescaler. -/
def iwdgReload (timeoutMs prescaler : ℕ) : ℕ :=
  timeoutMs * (lsiFreqHz / prescaler) % 2 ^ 32 / 1000

/-- The loop of `iwdg_init` from index `i` on: `pr_code` and `reload` afterwards. -/
def iwdgSearch (timeoutMs : ℕ) : ℕ × ℕ → ℕ → List ℕ → ℕ × ℕ
  | p, _, [] => p
  | _, i, prescaler :: table =>
    let rl := iwdgReload timeoutMs prescaler
    if rl ≤ 4095 then (i, rl) else iwdgSearch timeoutMs (6, 4095) (i + 1) table

/-- `pr_code` and `reload` before the registers are written. -/
def iwdgSettings (timeoutMs : ℕ) : ℕ × ℕ :=
  let p := iwdgSearch timeoutMs (6, 0) 0 prescalerTable
  (p.1, if p.2 = 0 then 1 else p.2)

/-- A write to the watchdog. -/
inductive IwdgWrite
  | kr (key : ℕ)
  | pr (code : ℕ)
  | rlr (reload : ℕ)
  | winr (window : ℕ)
  deriving DecidableEq

/-- `IWDG_KEY_UNLOCK`. -/
def iwdgKeyUnlock : ℕ := 0x5555

/-- `IWDG_KEY_RELOAD`. -/
def iwdgKeyReload : ℕ := 0xAAAA

/-- `IWDG_KEY_ENABLE`. -/
def iwdgKeyEnable : ℕ := 0xCCCC

/-- `iwdg_init`. -/
def iwdgInit (timeoutMs : ℕ) : List IwdgWrite :=
  [.kr iwdgKeyUnlock, .pr (iwdgSettings timeoutMs).1, .rlr (iwdgSettings timeoutMs).2, .winr 0xFFF,
    .kr iwdgKeyReload, .kr iwdgKeyEnable]

/-- The watchdog. -/
structure Iwdg where
  unlocked : Bool
  /-- The code of the prescaler. -/
  pr : ℕ
  rlr : ℕ
  winr : ℕ
  running : Bool
  deriving DecidableEq

namespace Iwdg

/-- After a reset. -/
def reset : Iwdg := ⟨false, 0, 0xFFF, 0xFFF, false⟩

/-- What a write does: the three settings may be written as long as the watchdog is unlocked, and every
other key locks it. -/
def write (w : Iwdg) : IwdgWrite → Iwdg
  | .kr key =>
    { w with unlocked := key = iwdgKeyUnlock, running := w.running || key = iwdgKeyEnable }
  | .pr code => if w.unlocked then { w with pr := code } else w
  | .rlr reload => if w.unlocked then { w with rlr := reload } else w
  | .winr window => if w.unlocked then { w with winr := window } else w

/-- `P`: the prescaler that `IWDG_PR` stands for. -/
def prescaler (w : Iwdg) : ℕ := 4 * 2 ^ w.pr

/-- The nominal period in cycles of the LSI clock, 32 to the millisecond. -/
def period (w : Iwdg) : ℕ := (w.rlr + 1) * w.prescaler

end Iwdg

/-- The watchdog after `iwdg_init`. -/
def iwdgArmed (timeoutMs : ℕ) : Iwdg := (iwdgInit timeoutMs).foldl Iwdg.write .reset

end TamgaOs
