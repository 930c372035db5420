import TamgaOs.Library.Checked

/-!
# The pressure sensor

`sensors/bmp280.c`: the calibration that `bmp280_init` reads and the compensation in `bmp280_read`. Every
intermediate result is a checked number of its C type. The altitude, a floating-point number, is left out.

## Main definitions

* `Bmp280Calib`, `bmp280Calib`: the coefficients, and the 24 bytes they are read from.
* `bmp280Temperature`, `bmp280Pressure`: the two formulas.
* `bmp280Read`: what is stored.
-/

namespace TamgaOs

/-- `int32_t`. -/
def int32 : IntType := ⟨32, by decide⟩

/-- `int64_t`. -/
def int64 : IntType := ⟨64, by decide⟩

/-- `s_dig_T1` to `s_dig_P9`. -/
structure Bmp280Calib where
  digT1 : UInt16
  digT2 : Int16
  digT3 : Int16
  digP1 : UInt16
  digP2 : Int16
  digP3 : Int16
  digP4 : Int16
  digP5 : Int16
  digP6 : Int16
  digP7 : Int16
  digP8 : Int16
  digP9 : Int16
  deriving DecidableEq

/-- `le16_unsigned`. -/
def le16Unsigned (p0 p1 : UInt8) : UInt16 := p0.toUInt16 ||| p1.toUInt16 <<< 8

/-- `le16_signed`. -/
def le16Signed (p0 p1 : UInt8) : Int16 := (le16Unsigned p0 p1).toInt16

/-- The coefficients that `bmp280_init` reads. -/
def bmp280Calib (cal : Fin 24 → UInt8) : Bmp280Calib where
  digT1 := le16Unsigned (cal 0) (cal 1)
  digT2 := le16Signed (cal 2) (cal 3)
  digT3 := le16Signed (cal 4) (cal 5)
  digP1 := le16Unsigned (cal 6) (cal 7)
  digP2 := le16Signed (cal 8) (cal 9)
  digP3 := le16Signed (cal 10) (cal 11)
  digP4 := le16Signed (cal 12) (cal 13)
  digP5 := le16Signed (cal 14) (cal 15)
  digP6 := le16Signed (cal 16) (cal 17)
  digP7 := le16Signed (cal 18) (cal 19)
  digP8 := le16Signed (cal 20) (cal 21)
  digP9 := le16Signed (cal 22) (cal 23)

/-- `(b0 << 12) | (b1 << 4) | (b2 >> 4)`: a reading of 20 bits. -/
def bmp280Adc (b0 b1 b2 : UInt8) : ℕ := b0.toNat <<< 12 ||| b1.toNat <<< 4 ||| b2.toNat >>> 4

/-- A coefficient without a sign. -/
def digU (x : UInt16) : Checked := .const x.toNat

/-- A coefficient with a sign. -/
def digS (x : Int16) : Checked := .const x.toInt

section Compensation

variable (c : Bmp280Calib) (adcP adcT : ℤ)

/-- `var1_t`. -/
def bmp280Var1T : Checked :=
  int32.shr (int32.mul (int32.sub (int32.shr (.const adcT) 3) (int32.shl (digU c.digT1) 1))
    (digS c.digT2)) 11

/-- `(adc_t >> 4) - s_dig_T1`, which is computed twice. -/
def bmp280DevT : Checked := int32.sub (int32.shr (.const adcT) 4) (digU c.digT1)

/-- `var2_t`. -/
def bmp280Var2T : Checked :=
  int32.shr (int32.mul (int32.shr (int32.mul (bmp280DevT c adcT) (bmp280DevT c adcT)) 12)
    (digS c.digT3)) 14

/-- `t_fine`. -/
def bmp280TFine : Checked := int32.add (bmp280Var1T c adcT) (bmp280Var2T c adcT)

/-- `temperature`. -/
def bmp280Temperature : Checked :=
  int32.shr (int32.add (int32.mul (bmp280TFine c adcT) (.const 5)) (.const 128)) 8

/-- `var1_p` at first. -/
def bmp280Centred : Checked := int64.sub (bmp280TFine c adcT) (.const 128000)

/-- `var2_p` before the division. -/
def bmp280Var2P : Checked :=
  let var1 := bmp280Centred c adcT
  let var2 := int64.mul (int64.mul var1 var1) (digS c.digP6)
  let var2 := int64.add var2 (int64.shl (int64.mul var1 (digS c.digP5)) 17)
  int64.add var2 (int64.shl (digS c.digP4) 35)

/-- `var1_p` before the division. -/
def bmp280Var1P : Checked :=
  let var1 := bmp280Centred c adcT
  let var1 := int64.add (int64.shr (int64.mul (int64.mul var1 var1) (digS c.digP3)) 8)
    (int64.shl (int64.mul var1 (digS c.digP2)) 12)
  int64.shr (int64.mul (int64.add (int64.shl (.const 1) 47) var1) (digU c.digP1)) 33

/-- The quotient `p`. -/
def bmp280Quotient : Checked :=
  let p := int32.sub (.const 1048576) (.const adcP)
  int64.div (int64.mul (int64.sub (int64.shl p 31) (bmp280Var2P c adcT)) (.const 3125))
    (bmp280Var1P c adcT)

/-- What follows the division. -/
def bmp280Scaled (p : Checked) : Checked :=
  let var1 := int64.shr (int64.mul (int64.mul (digS c.digP9) (int64.shr p 13)) (int64.shr p 13)) 25
  let var2 := int64.shr (int64.mul (digS c.digP8) p) 19
  int64.add (int64.shr (int64.add (int64.add p var1) var2) 8) (int64.shl (digS c.digP7) 4)

/-- `pressure_x256`. -/
def bmp280Pressure : Checked :=
  if (bmp280Var1P c adcT).machine = 0 then .const 0 else bmp280Scaled c (bmp280Quotient c adcP adcT)

end Compensation

/-- `bmp280_data_t`, without the altitude. -/
structure Bmp280Data where
  temperatureX100 : ℤ
  pressurePaX256 : UInt32
  deriving DecidableEq

/-- `bmp280_read`, with the bytes that `i2c_read` returns, if any. -/
def bmp280Read (c : Bmp280Calib) (buf : Option (Fin 6 → UInt8)) : Option Bmp280Data × ℤ :=
  match buf with
  | none => (none, -1)
  | some buf =>
    let adcP := bmp280Adc (buf 0) (buf 1) (buf 2)
    let adcT := bmp280Adc (buf 3) (buf 4) (buf 5)
    (some {
      temperatureX100 := (bmp280Temperature c adcT).machine
      pressurePaX256 := UInt32.ofInt (bmp280Pressure c adcP adcT).machine }, 0)

end TamgaOs
