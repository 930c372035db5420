import TamgaOs.Drivers.I2c
import TamgaOs.Library.Poll
import Mathlib.Tactic.Common

/-!
# Polling the I2C controller

`i2c_write` of `stm32h753zi/i2c.c`, as a function of what it reads from `I2C1_ISR`: every reading may
show anything.

## Main definitions

* `i2cWait`: `i2c_wait`.
* `i2cPoll`: the loop that waits for `NACKF` or `TXIS`.
* `i2cSend`, `i2cWrite`: the writes to the controller, and the result.
-/

namespace TamgaOs

/-- The bits of `I2C1_ISR`. -/
def i2cIsrTxis : UInt32 := (1 : UInt32) <<< 1
def i2cIsrNackf : UInt32 := (1 : UInt32) <<< 4
def i2cIsrStopf : UInt32 := (1 : UInt32) <<< 5
def i2cIsrBusy : UInt32 := (1 : UInt32) <<< 15

/-- A write to the controller. -/
inductive I2cWrite
  | cr2 (v : I2cCr2)
  | icr (nackcf stopcf : Bool)
  | txdr (b : UInt8)
  deriving DecidableEq

/-- The byte that is written to `TXDR`. -/
def I2cWrite.sent : I2cWrite → Option UInt8
  | txdr b => some b
  | _ => none

/-- `*reg & flag`. -/
def i2cFlag (flag reg : UInt32) : Bool := (reg &&& flag) != 0

/-- `i2c_wait` from the reading `n` on: whether it returns 0, and the number of the next reading. -/
def i2cWait (isr : ℕ → UInt32) (flag : UInt32) (set : Bool) : ℕ → ℕ → Bool × ℕ
  | 0, n => (false, n)
  | t + 1, n =>
    if i2cFlag flag (isr n) = set then (true, n + 1) else i2cWait isr flag set t (n + 1)

/-- The loop that waits for `NACKF` or `TXIS`, from the reading `n` on: the counter afterwards, and the
number of the next reading. -/
def i2cPoll (isr : ℕ → UInt32) : ℕ → ℕ → ℕ × ℕ
  | 0, n => (2 ^ 32 - 1, n)
  | t + 1, n =>
    if i2cFlag i2cIsrNackf (isr n) then (t, n + 1)
    else if i2cFlag i2cIsrTxis (isr (n + 1)) then (t, n + 2)
    else i2cPoll isr t (n + 2)

/-- The loop of `i2c_write` from byte `i` on, with `k` bytes to go, and what follows it. -/
def i2cSend (isr : ℕ → UInt32) (data : ℕ → UInt8) : ℕ → ℕ → ℕ → List I2cWrite × ℤ
  | _, 0, n =>
    if (i2cWait isr i2cIsrStopf true i2cTimeout n).1 then ([.icr false true, .cr2 {}], 0)
    else ([.cr2 {}], -1)
  | i, k + 1, n =>
    let p := i2cPoll isr i2cTimeout n
    if p.1 = 0 then ([.cr2 {}], -1)
    else if i2cFlag i2cIsrNackf (isr p.2) then ([.icr true true, .cr2 {}], -1)
    else
      let r := i2cSend isr data (i + 1) k (p.2 + 1)
      (.txdr (data i) :: r.1, r.2)

/-- `i2c_write`. -/
def i2cWrite (isr : ℕ → UInt32) (addr : UInt8) (data : ℕ → UInt8) (len : UInt8) :
    List I2cWrite × ℤ :=
  let p := i2cWait isr i2cIsrBusy false i2cTimeout 0
  if p.1 then
    let r := i2cSend isr data 0 len.toNat p.2
    (.cr2 { sadd := addr.toNat, nbytes := len.toNat, autoend := true, start := true } :: r.1, r.2)
  else ([], -1)

end TamgaOs
