import Mathlib.Algebra.Group.Nat.Defs
import Mathlib.Data.Int.Notation
import Mathlib.Data.Nat.Notation
import Mathlib.Tactic.Common

/-!
# Printing integers

The digit loops of `stm32h753zi/uart.c` and `k64f/uart.c`. A function returns the characters that it
sends, or `none` when it has written outside of its buffer. Signed integers wrap around.

## Main definitions

* `DigitBuffer`: a buffer that is filled with digits.
* `printUintPadded`, `printUint`, `printInt`, `uartPrintNum`: STM32.
* `uartPutUint`, `uartPutInt`: K64F.
-/

namespace TamgaOs

/-- The digits that have been written to a buffer with room for `size` of them, the last one first. -/
structure DigitBuffer (size : ℕ) where
  chars : List UInt8
  length_le : chars.length ≤ size

namespace DigitBuffer

variable {size : ℕ}

def empty : DigitBuffer size := ⟨[], Nat.zero_le size⟩

/-- `buf[--i] = c` or `buf[i++] = c`. -/
def push (b : DigitBuffer size) (c : UInt8) : Option (DigitBuffer size) :=
  if h : b.chars.length < size then some ⟨c :: b.chars, h⟩ else none

end DigitBuffer

/-- The character of a digit. -/
def digitChar (upper : Bool) (d : ℕ) : UInt8 :=
  if d < 10 then 0x30 + UInt8.ofNat d else (if upper then 0x41 else 0x61) + UInt8.ofNat (d - 10)

/-! ### STM32 -/

/-- `while (n > 0 && i > 0)`: the digits of `n` from the last one on. -/
def printDigits {size : ℕ} (base : ℕ) (upper : Bool) :
    ℕ → ℕ → DigitBuffer size → Option (DigitBuffer size)
  | 0, _, b => some b
  | i + 1, n, b =>
    if n = 0 then some b
    else (b.push (digitChar upper (n % base))).bind (printDigits base upper i (n / base))

/-- `print_uint_padded`. There are 31 places before the terminator. -/
def printUintPadded (n : UInt32) (base : ℕ) (width : ℤ) (padZero upper : Bool) :
    Option (List UInt8) :=
  let buf : Option (DigitBuffer 31) :=
    if n = 0 then DigitBuffer.empty.push 0x30 else printDigits base upper 31 n.toNat .empty
  buf.map fun b =>
    List.replicate (width - b.chars.length).toNat (if padZero then 0x30 else 0x20) ++ b.chars

/-- `print_uint`. -/
def printUint (n : UInt32) (base : ℕ) : Option (List UInt8) := printUintPadded n base 0 false false

/-- The sign that is sent first, and the integer whose digits follow. -/
def splitSign (n : Int32) : List UInt8 × Int32 := if n < 0 then ([0x2D], -n) else ([], n)

/-- `print_int`. -/
def printInt (n : Int32) : Option (List UInt8) :=
  (printUint (splitSign n).2.toUInt32 10).map ((splitSign n).1 ++ ·)

/-- The conversion `%d` of `uart_printf`. -/
def printIntPadded (n : Int32) (width : ℤ) (padZero : Bool) : Option (List UInt8) :=
  (printUintPadded (splitSign n).2.toUInt32 10 width padZero false).map ((splitSign n).1 ++ ·)

/-- `uart_print_num`. There are 11 places before the terminator, and the loop compares signed integers. -/
def uartPrintNum (n : Int32) : Option (List UInt8) :=
  let p := splitSign n
  if p.2 = 0 then some (p.1 ++ [0x30])
  else
    let buf : Option (DigitBuffer 11) := printDigits 10 false 11 p.2.toInt.toNat .empty
    buf.map fun b => p.1 ++ b.chars

/-! ### K64F -/

/-- `while (val > 0U)`: the digits of `val` from the last one on. The first argument is the room that is
left. -/
def putDigits {size : ℕ} (base : ℕ) (upper : Bool) :
    ℕ → ℕ → DigitBuffer size → Option (DigitBuffer size)
  | 0, n, b => if n = 0 then some b else none
  | room + 1, n, b =>
    if n = 0 then some b
    else (b.push (digitChar upper (n % base))).bind (putDigits base upper room (n / base))

/-- `uart_put_uint`. -/
def uartPutUint (val : UInt32) (base : ℕ) (uppercase : Bool) : Option (List UInt8) :=
  if val = 0 then some [0x30]
  else
    let buf : Option (DigitBuffer 12) := putDigits base uppercase 12 val.toNat .empty
    buf.map DigitBuffer.chars

/-- `uart_put_int`. -/
def uartPutInt (val : Int32) : Option (List UInt8) :=
  if val < 0 then (uartPutUint (-val).toUInt32 10 false).map (0x2D :: ·)
  else uartPutUint val.toUInt32 10 false

end TamgaOs
