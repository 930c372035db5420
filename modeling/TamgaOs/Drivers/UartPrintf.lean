import TamgaOs.Drivers.UartPrint
import Mathlib.Tactic.TypeStar

/-!
# Formatted output

`uart_printf` of `stm32h753zi/uart.c` and `k64f/uart.c`, statement by statement. The format is an address in
a memory of characters, and a statement reads the character that `fmt` points to.

## Main definitions

* `PrintfArg`: what `va_arg` returns. What is printed for a `double` is a parameter.
* `Stm32Printf`, `Stm32Printf.step`: STM32.
* `K64fPrintf`, `K64fPrintf.step`: K64F.
-/

namespace TamgaOs

/-- An argument: a word, a string, or a `double`. -/
inductive PrintfArg (δ : Type*)
  | word (w : UInt32)
  | str (s : List UInt8)
  | double (x : δ)

namespace PrintfArg

variable {δ : Type*}

/-- The next argument as a word. -/
def nextWord : List (PrintfArg δ) → UInt32
  | .word w :: _ => w
  | _ => 0

/-- The next argument as a string. -/
def nextStr : List (PrintfArg δ) → List UInt8
  | .str s :: _ => s
  | _ => []

/-- The next argument as a `double`, printed with a number of decimals. -/
def nextDouble (printFloat : δ → ℤ → List UInt8) (decimals : ℤ) : List (PrintfArg δ) → List UInt8
  | .double x :: _ => printFloat x decimals
  | _ => []

end PrintfArg

/-- `*fmt >= '0' && *fmt <= '9'`. -/
def isDigit (c : UInt8) : Bool := 0x30 ≤ c && c ≤ 0x39

/-- `n * 10 + (c - '0')` for an `int`. -/
def appendDigit (n : ℤ) (c : UInt8) : ℤ := (n * 10 + (c.toNat - 0x30)).bmod (2 ^ 32)

/-! ### STM32 -/

/-- The program points of `uart_printf`. -/
inductive Stm32PrintfCtl
  /-- `while (*fmt)`, and what follows for a character that is not `%`. -/
  | loop
  /-- `if (*fmt == '0')`. -/
  | flag
  /-- The loop over the digits of the width. -/
  | width
  /-- `if (*fmt == '.')`. -/
  | point
  /-- The loop over the digits of the precision. -/
  | decimals
  /-- `switch (*fmt)`, and the `fmt++` after it. -/
  | convert
  | done
  deriving DecidableEq

/-- A call of `uart_printf`. -/
structure Stm32Printf (δ : Type*) where
  ctl : Stm32PrintfCtl := .loop
  /-- `fmt`. -/
  fmt : ℕ := 0
  padZero : Bool := false
  width : ℤ := 0
  decimals : ℤ := 3
  args : List (PrintfArg δ)
  /-- What has been sent. -/
  out : List UInt8 := []

namespace Stm32Printf

variable {δ : Type*} (printFloat : δ → ℤ → List UInt8) (s : Stm32Printf δ)

/-- The call sends characters. -/
def send (cs : List UInt8) : Stm32Printf δ := { s with out := s.out ++ cs }

/-- The call goes on to another program point. -/
def goto (c : Stm32PrintfCtl) : Stm32Printf δ := { s with ctl := c }

/-- `fmt++`. -/
def next : Stm32Printf δ := { s with fmt := s.fmt + 1 }

/-- A conversion that takes an argument. -/
def convertArg (cs : List UInt8) : Stm32Printf δ := { s.send cs with args := s.args.tail }

/-- The cases of the `switch`. -/
def convert (c : UInt8) : Stm32Printf δ :=
  let word := PrintfArg.nextWord s.args
  if c = 0x64 then s.convertArg ((printIntPadded word.toInt32 s.width s.padZero).getD [])
  else if c = 0x75 then s.convertArg ((printUintPadded word 10 s.width s.padZero false).getD [])
  else if c = 0x78 then s.convertArg ((printUintPadded word 16 s.width s.padZero false).getD [])
  else if c = 0x58 then s.convertArg ((printUintPadded word 16 s.width s.padZero true).getD [])
  else if c = 0x73 then s.convertArg (PrintfArg.nextStr s.args)
  else if c = 0x63 then s.convertArg [word.toUInt8]
  else if c = 0x66 then s.convertArg (PrintfArg.nextDouble printFloat s.decimals s.args)
  else if c = 0x25 then s.send [0x25]
  else s.send [0x25, c]

/-- The next statement; `mem` is the memory that the format is in. -/
def step (mem : ℕ → UInt8) (s : Stm32Printf δ) : Stm32Printf δ :=
  let c := mem s.fmt
  match s.ctl with
  | .loop =>
    if c = 0 then s.goto .done
    else if c ≠ 0x25 then (s.send [c]).next
    else { s.next with ctl := .flag, padZero := false, width := 0, decimals := 3 }
  | .flag => if c = 0x30 then { s.next with ctl := .width, padZero := true } else s.goto .width
  | .width => if isDigit c then { s.next with width := appendDigit s.width c } else s.goto .point
  | .point => if c = 0x2E then { s.next with ctl := .decimals, decimals := 0 } else s.goto .convert
  | .decimals =>
    if isDigit c then { s.next with decimals := appendDigit s.decimals c } else s.goto .convert
  | .convert => (s.convert printFloat c).next.goto .loop
  | .done => s

end Stm32Printf

/-! ### K64F -/

/-- `uart_puts`: a line feed is sent after a carriage return. -/
def k64fPuts (s : List UInt8) : List UInt8 :=
  s.flatMap fun c => if c = 0x0A then [0x0D, c] else [c]

/-- The program points of `uart_printf`. -/
inductive K64fPrintfCtl
  /-- `while (*fmt != '\0')`, and what follows for a character that is not `%`. -/
  | loop
  /-- `switch (*fmt)`, and the `fmt++` after it. -/
  | convert
  | done
  deriving DecidableEq

/-- A call of `uart_printf`. -/
structure K64fPrintf (δ : Type*) where
  ctl : K64fPrintfCtl := .loop
  /-- `fmt`. -/
  fmt : ℕ := 0
  args : List (PrintfArg δ)
  /-- What has been sent. -/
  out : List UInt8 := []

namespace K64fPrintf

variable {δ : Type*} (s : K64fPrintf δ)

/-- The call sends characters. -/
def send (cs : List UInt8) : K64fPrintf δ := { s with out := s.out ++ cs }

/-- A conversion that takes an argument. -/
def convertArg (cs : List UInt8) : K64fPrintf δ := { s.send cs with args := s.args.tail }

/-- The cases of the `switch`. -/
def convert (c : UInt8) : K64fPrintf δ :=
  let word := PrintfArg.nextWord s.args
  if c = 0x75 then s.convertArg ((uartPutUint word 10 false).getD [])
  else if c = 0x64 then s.convertArg ((uartPutInt word.toInt32).getD [])
  else if c = 0x78 then s.convertArg ((uartPutUint word 16 false).getD [])
  else if c = 0x58 then s.convertArg ((uartPutUint word 16 true).getD [])
  else if c = 0x73 then s.convertArg (k64fPuts (PrintfArg.nextStr s.args))
  else if c = 0x63 then s.convertArg [word.toUInt8]
  else if c = 0x25 then s.send [0x25]
  else s.send [0x25, c]

/-- The next statement; `mem` is the memory that the format is in. -/
def step (mem : ℕ → UInt8) (s : K64fPrintf δ) : K64fPrintf δ :=
  let c := mem s.fmt
  match s.ctl with
  | .loop =>
    if c = 0 then { s with ctl := .done }
    else if c ≠ 0x25 then { s.send (k64fPuts [c]) with fmt := s.fmt + 1 }
    else { s with ctl := .convert, fmt := s.fmt + 1 }
  | .convert => { s.convert c with ctl := .loop, fmt := s.fmt + 1 }
  | .done => s

end K64fPrintf

end TamgaOs
