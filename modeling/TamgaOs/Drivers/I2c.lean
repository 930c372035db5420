import Mathlib.Algebra.Group.Nat.Defs
import Mathlib.Data.Int.Notation
import Mathlib.Data.Nat.Notation
import Mathlib.Logic.Function.Basic

/-!
# The I2C master

`stm32h753zi/i2c.c`: `i2c_write` and `i2c_read` with the controller I2C1 and a slave that
acknowledges, refuses or delays any byte. `NACKF` and `STOPF` are set by the controller and cleared
through `ICR` only.

## Main definitions

* `I2cCr2`, `I2cPhase`: the register `CR2`, and what the controller does on the bus.
* `I2cCtl`: the program points of both functions.
* `I2c`, `I2cAction`, `I2c.step`: the driver, the controller and the slave.
-/

namespace TamgaOs

/-- `I2C_TIMEOUT`. -/
def i2cTimeout : ℕ := 100000

/-- The fields of `I2C1_CR2`. The register is 0 when all of them are. -/
structure I2cCr2 where
  sadd : ℕ := 0
  nbytes : ℕ := 0
  rdWrn : Bool := false
  start : Bool := false
  autoend : Bool := false
  deriving DecidableEq

/-- What the controller does. -/
inductive I2cPhase
  | idle
  /-- It sends the address; `n` bytes follow. -/
  | address (read : Bool) (n : ℕ)
  /-- It waits for the next of `n` bytes in `TXDR`: `TXIS` is set. -/
  | send (n : ℕ)
  /-- It sends a byte; `n` bytes follow. -/
  | shift (n : ℕ)
  /-- It receives the next of `n` bytes. -/
  | receive (n : ℕ)
  /-- It is about to send a stop. -/
  | stop
  /-- It has finished without `AUTOEND`. -/
  | complete
  deriving DecidableEq

/-- The program points of `i2c_write` and `i2c_read`; `t` is the counter of a loop. -/
inductive I2cCtl
  /-- `i2c_wait(&I2C1_ISR, I2C_ISR_BUSY, 0)`. -/
  | waitBusy (t : ℕ)
  /-- `I2C1_CR2 = ... | I2C_CR2_START`. -/
  | start
  /-- The loop that waits for `NACKF` or `TXIS`. -/
  | waitTx (i t : ℕ)
  /-- `if (t == 0U)`. -/
  | testT (i t : ℕ)
  /-- `if (I2C1_ISR & I2C_ISR_NACKF)`. -/
  | checkNack (i : ℕ)
  /-- The wait for `STOPF` after a `NACK`. -/
  | nackStop (t : ℕ)
  /-- `I2C1_ICR = I2C_ICR_NACKCF | I2C_ICR_STOPCF`. -/
  | nackClear
  /-- `I2C1_CR2 = 0U` before `return -1`. -/
  | abort
  /-- `I2C1_TXDR = data[i]`. -/
  | store (i : ℕ)
  /-- The wait for `STOPF` after the last byte. -/
  | waitStop (t : ℕ)
  /-- `I2C1_ICR = I2C_ICR_STOPCF`. -/
  | clearStop
  /-- `I2C1_CR2 = 0U` before `return 0`. -/
  | finish
  | writeReturn (r : ℤ)
  /-- The same waits and stores in `i2c_read`. -/
  | readBusy (t : ℕ)
  | readStart
  /-- `i2c_wait(&I2C1_ISR, I2C_ISR_RXNE, 1)`. -/
  | waitRxne (i t : ℕ)
  /-- `buf[i] = I2C1_RXDR`. -/
  | load (i : ℕ)
  | readWaitStop (t : ℕ)
  | readClearStop
  | readFinish
  | readReturn (r : ℤ)
  deriving DecidableEq

/-- The functions of the driver. -/
inductive I2cFn
  | write
  | read
  deriving DecidableEq

/-- The controller and the call that is running. -/
structure I2c where
  cr2 : I2cCr2
  phase : I2cPhase
  /-- The byte in `TXDR` that has not been sent yet. -/
  txdr : Option UInt8
  rxdr : UInt8
  rxne : Bool
  nackf : Bool
  stopf : Bool
  busy : Bool
  /-- The bytes that the slave has acknowledged since the last start, the address included. -/
  acks : ℕ
  addr : UInt8
  data : ℕ → UInt8
  /-- `len` of `i2c_write`. -/
  len : UInt8
  /-- `len` of the call of `i2c_read` that is running. -/
  readLen : Option UInt8
  buf : ℕ → UInt8
  ctl : Option I2cCtl

/-- What can happen next. -/
inductive I2cAction
  | write (addr : UInt8) (data : ℕ → UInt8) (len : UInt8)
  | read (addr reg : UInt8) (len : UInt8)
  /-- The next statement of the call. -/
  | exec
  /-- The slave acknowledges the address or a byte. -/
  | ack
  /-- The slave does not acknowledge the address or a byte. -/
  | nack
  /-- The slave has sent a byte. -/
  | byte (b : UInt8)
  /-- The stop is on the bus. -/
  | stop
  /-- Another master takes or releases the bus. -/
  | line (busy : Bool)

/-- What a step reports. -/
inductive I2cObs
  | returned (fn : I2cFn) (r : ℤ)
  deriving DecidableEq

namespace I2c

variable (s : I2c)

/-- After `i2c_init`. -/
def init : I2c where
  cr2 := {}
  phase := .idle
  txdr := none
  rxdr := 0
  rxne := false
  nackf := false
  stopf := false
  busy := false
  acks := 0
  addr := 0
  data _ := 0
  len := 0
  readLen := none
  buf _ := 0
  ctl := none

/-- `TXIS`. -/
def txis : Bool :=
  match s.phase with
  | .send _ => true
  | _ => false

/-- The call goes on to another program point. -/
def goto (c : I2cCtl) : I2c := { s with ctl := some c }

/-- The test of the loop of `i2c_write`. -/
def nextByte (i : ℕ) : I2c :=
  s.goto (if i < s.len.toNat then .waitTx i i2cTimeout else .waitStop i2cTimeout)

/-- The test of the loop of `i2c_read`. -/
def nextRead (len : UInt8) (i : ℕ) : I2c :=
  s.goto (if i < len.toNat then .waitRxne i i2cTimeout else .readWaitStop i2cTimeout)

/-- The controller starts a transfer when `START` is written. -/
def begin (cr2 : I2cCr2) : I2c :=
  { s with cr2 := cr2, phase := .address cr2.rdWrn cr2.nbytes, busy := true, acks := 0 }

/-- A byte is written to `TXDR`: the controller takes it when it waits for it. -/
def writeTxdr (b : UInt8) : I2c :=
  match s.phase with
  | .send (n + 1) => { s with phase := .shift n }
  | _ => { s with txdr := some b }

/-- The next statement of the call. -/
def execStep : I2cCtl → I2c × List I2cObs
  | .waitBusy t =>
    (s.goto (if t = 0 then .writeReturn (-1) else if s.busy then .waitBusy (t - 1) else .start), [])
  | .start =>
    ((s.begin { sadd := s.addr.toNat, nbytes := s.len.toNat, autoend := true, start := true }).nextByte
      0, [])
  | .waitTx i t =>
    (s.goto (if t = 0 then .testT i (2 ^ 32 - 1)
      else if s.nackf || s.txis then .testT i (t - 1) else .waitTx i (t - 1)), [])
  | .testT i t => (s.goto (if t = 0 then .abort else .checkNack i), [])
  | .checkNack i => (s.goto (if s.nackf then .nackStop i2cTimeout else .store i), [])
  | .nackStop t =>
    (s.goto (if t = 0 || s.stopf then .nackClear else .nackStop (t - 1)), [])
  | .nackClear => ({ s with nackf := false, stopf := false }.goto .abort, [])
  | .abort => ({ s with cr2 := {} }.goto (.writeReturn (-1)), [])
  | .store i => ((s.writeTxdr (s.data i)).nextByte (i + 1), [])
  | .waitStop t =>
    (s.goto (if t = 0 then .abort else if s.stopf then .clearStop else .waitStop (t - 1)), [])
  | .clearStop => ({ s with stopf := false }.goto .finish, [])
  | .finish => ({ s with cr2 := {} }.goto (.writeReturn 0), [])
  | .writeReturn r =>
    ({ s with ctl := s.readLen.map fun _ => if r < 0 then .readReturn (-1) else .readBusy i2cTimeout },
      [.returned .write r])
  | .readBusy t =>
    (s.goto (if t = 0 then .readReturn (-1) else if s.busy then .readBusy (t - 1) else .readStart),
      [])
  | .readStart =>
    ((s.begin { sadd := s.addr.toNat, nbytes := (s.readLen.getD 0).toNat, autoend := true
                rdWrn := true, start := true }).nextRead (s.readLen.getD 0) 0, [])
  | .waitRxne i t =>
    (s.goto (if t = 0 then .readReturn (-1) else if s.rxne then .load i else .waitRxne i (t - 1)), [])
  | .load i =>
    ({ s with buf := Function.update s.buf i s.rxdr, rxne := false }.nextRead (s.readLen.getD 0)
      (i + 1), [])
  | .readWaitStop t =>
    (s.goto (if t = 0 then .readReturn (-1)
      else if s.stopf then .readClearStop else .readWaitStop (t - 1)), [])
  | .readClearStop => ({ s with stopf := false }.goto .readFinish, [])
  | .readFinish => ({ s with cr2 := {} }.goto (.readReturn 0), [])
  | .readReturn r => ({ s with ctl := none, readLen := none }, [.returned .read r])

/-- What the controller does when all bytes have been transferred. -/
def lastPhase : I2cPhase := if s.cr2.autoend then .stop else .complete

/-- The controller goes on with `n` bytes to send. -/
def sendNext : ℕ → I2c
  | 0 => { s with phase := s.lastPhase }
  | n + 1 =>
    if s.txdr.isSome then { s with phase := .shift n, txdr := none } else { s with phase := .send (n + 1) }

/-- The address has been sent. -/
def clearStart : I2c := { s with cr2 := { s.cr2 with start := false } }

/-- An acknowledgement. -/
def ackStep : Option I2c :=
  let s' := { s with acks := s.acks + 1 }
  match s.phase with
  | .address false n => some (s'.clearStart.sendNext n)
  | .address true n =>
    some { s'.clearStart with phase := if n = 0 then s.lastPhase else .receive n }
  | .shift n => some (s'.sendNext n)
  | _ => none

/-- A missing acknowledgement. The controller sends a stop. -/
def nackStep : Option I2c :=
  match s.phase with
  | .address _ _ => some { s.clearStart with nackf := true, phase := .stop }
  | .shift _ => some { s with nackf := true, phase := .stop }
  | _ => none

/-- A byte has been received. The controller waits as long as the last one has not been read. -/
def byteStep (b : UInt8) : Option I2c :=
  match s.phase with
  | .receive (n + 1) =>
    if s.rxne then none
    else some { s with rxdr := b, rxne := true, phase := if n = 0 then s.lastPhase else .receive n }
  | _ => none

/-- A step. -/
def step (s : I2c) : I2cAction → Option (I2c × List I2cObs)
  | .write addr data len =>
    match s.ctl with
    | none =>
      some ({ s with addr, data, len, readLen := none, ctl := some (.waitBusy i2cTimeout) }, [])
    | some _ => none
  | .read addr reg len =>
    match s.ctl with
    | none =>
      some ({ s with addr, data := fun _ => reg, len := 1, readLen := some len
                     ctl := some (.waitBusy i2cTimeout) }, [])
    | some _ => none
  | .exec =>
    match s.ctl with
    | none => none
    | some c => some (s.execStep c)
  | .ack => s.ackStep.map fun s => (s, [])
  | .nack => s.nackStep.map fun s => (s, [])
  | .byte b => (s.byteStep b).map fun s => (s, [])
  | .stop =>
    if s.phase = .stop then some ({ s with phase := .idle, stopf := true, busy := false }, [])
    else none
  | .line busy => if s.phase = .idle then some ({ s with busy }, []) else none

end I2c

end TamgaOs
