import TamgaOs.Drivers.I2c

/-!
# The MPU6050

`mpu6050.c` on top of the I2C master. A call of the sensor driver starts calls of `i2c_read` and
`i2c_write` and goes on with what they return; in between the controller and the slave take their
steps.

## Main definitions

* `Mpu6050Data`, `Mpu6050Data.ofBuf`: what is read, and how it is put together from bytes.
* `Mpu6050Ctl`: the program points of `mpu6050_init` and `mpu6050_read`.
* `Mpu6050`, `Mpu6050.step`: the sensor driver with the I2C master.
-/

namespace TamgaOs

/-- `MPU6050_ADDR`. -/
def mpu6050Addr : UInt8 := 0x68

/-- `mpu6050_data_t`. -/
structure Mpu6050Data where
  accelX : Int16
  accelY : Int16
  accelZ : Int16
  tempRaw : Int16
  gyroX : Int16
  gyroY : Int16
  gyroZ : Int16
  deriving DecidableEq

/-- `(int16_t)((hi << 8) | lo)`. -/
def joinBytes (hi lo : UInt8) : Int16 := (hi.toUInt16 <<< 8 ||| lo.toUInt16).toInt16

/-- The assignments to the fields. -/
def Mpu6050Data.ofBuf (buf : ℕ → UInt8) : Mpu6050Data where
  accelX := joinBytes (buf 0) (buf 1)
  accelY := joinBytes (buf 2) (buf 3)
  accelZ := joinBytes (buf 4) (buf 5)
  tempRaw := joinBytes (buf 6) (buf 7)
  gyroX := joinBytes (buf 8) (buf 9)
  gyroY := joinBytes (buf 10) (buf 11)
  gyroZ := joinBytes (buf 12) (buf 13)

/-- The registers that `mpu6050_init` writes, in this order, and their values. -/
def mpu6050Config : List (UInt8 × UInt8) := [(0x6B, 0x00), (0x1A, 0x03), (0x1B, 0x00), (0x1C, 0x00)]

/-- The program points of `mpu6050_init` and `mpu6050_read`. -/
inductive Mpu6050Ctl
  /-- `i2c_read(MPU6050_ADDR, MPU6050_REG_WHO_AM_I, &who, 1U)`. -/
  | who
  | whoWait
  /-- `if (who != 0x68U)`. -/
  | checkWho
  /-- `mpu6050_write_reg` for the register with number `k`. -/
  | write (k : ℕ)
  | writeWait (k : ℕ)
  | initReturn (r : ℤ)
  /-- `i2c_read(MPU6050_ADDR, MPU6050_REG_ACCEL_XOUT_H, buf, 14U)`. -/
  | read
  | readWait
  /-- The assignments to `*data`. -/
  | decode
  | readReturn (r : ℤ)
  deriving DecidableEq

/-- The I2C master, and the call of the sensor driver that is running. -/
structure Mpu6050 where
  i2c : I2c
  data : Mpu6050Data
  ctl : Option Mpu6050Ctl

/-- What can happen next. -/
inductive Mpu6050Action
  | init
  | read
  /-- The next statement, of the sensor driver or of the I2C master. -/
  | exec
  /-- A step of the controller or of the slave. -/
  | bus (a : I2cAction)

/-- What a step reports. -/
inductive Mpu6050Obs
  | initReturned (r : ℤ)
  | readReturned (r : ℤ)
  deriving DecidableEq

/-- The actions that are not the driver's. -/
def I2cAction.onBus : I2cAction → Bool
  | .ack | .nack | .byte _ | .stop | .line _ => true
  | _ => false

namespace Mpu6050

variable (s : Mpu6050)

/-- The call goes on to another program point. -/
def goto (c : Mpu6050Ctl) : Mpu6050 := { s with ctl := some c }

/-- A call of the I2C master is started. -/
def call (a : I2cAction) (c : Mpu6050Ctl) : Option (Mpu6050 × List Mpu6050Obs) :=
  (s.i2c.step a).map fun r => ({ s with i2c := r.1, ctl := some c }, [])

/-- The next statement of the I2C master. When `fn` returns, the call goes on. -/
def await (fn : I2cFn) (next : ℤ → Mpu6050Ctl) : Option (Mpu6050 × List Mpu6050Obs) :=
  (s.i2c.step .exec).map fun r =>
    ({ s with
        i2c := r.1
        ctl := r.2.foldl (fun c o => match o with
          | .returned f v => if f = fn then some (next v) else c) s.ctl }, [])

/-- The next statement. -/
def execStep : Mpu6050Ctl → Option (Mpu6050 × List Mpu6050Obs)
  | .who => s.call (.read mpu6050Addr 0x75 1) .whoWait
  | .whoWait => s.await .read fun r => if r < 0 then .initReturn (-1) else .checkWho
  | .checkWho => some (s.goto (if s.i2c.buf 0 ≠ 0x68 then .initReturn (-2) else .write 0), [])
  | .write k =>
    match mpu6050Config[k]? with
    | none => some (s.goto (.initReturn 0), [])
    | some (reg, val) =>
      s.call (.write mpu6050Addr (fun i => if i = 0 then reg else val) 2) (.writeWait k)
  | .writeWait k => s.await .write fun r => if r < 0 then .initReturn (-1) else .write (k + 1)
  | .initReturn r => some ({ s with ctl := none }, [.initReturned r])
  | .read => s.call (.read mpu6050Addr 0x3B 14) .readWait
  | .readWait => s.await .read fun r => if r < 0 then .readReturn (-1) else .decode
  | .decode => some ({ s with data := .ofBuf s.i2c.buf }.goto (.readReturn 0), [])
  | .readReturn r => some ({ s with ctl := none }, [.readReturned r])

/-- A step. -/
def step (s : Mpu6050) : Mpu6050Action → Option (Mpu6050 × List Mpu6050Obs)
  | .init => if s.ctl = none then some (s.goto .who, []) else none
  | .read => if s.ctl = none then some (s.goto .read, []) else none
  | .exec => s.ctl.bind s.execStep
  | .bus a =>
    if a.onBus then (s.i2c.step a).map fun r => ({ s with i2c := r.1 }, []) else none

end Mpu6050

end TamgaOs
