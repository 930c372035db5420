import TamgaOs.Drivers.UartPrintf
import TamgaOs.Kernel.FaultLog
import TamgaOs.Library.Reads

/-!
# From a fault to the report at the next boot

`hardfault_c`, the common body of the fault handlers, and `report_boot_diagnostics` of the STM32
`main`. The first one sends what it has found to the UART and writes the crash record; the second one
sends the record of the run before.

## Main definitions

* `FaultState`: what `hardfault_c` reads.
* `hardfaultText`, `faultEntry`, `hardfaultC`: the text and the record.
* `BootCall`, `reportBootDiagnostics`: the calls of the UART driver at the next boot.
-/

namespace TamgaOs

/-- The loop of `hf_print_hex`, with `i = 4 * k - 4` at first. -/
def hfPrintNibbles (val : BitVec 32) : ℕ → List UInt8
  | 0 => []
  | k + 1 => digitChar true (val >>> (4 * k) &&& 0xF).toNat :: hfPrintNibbles val k

/-- `hf_print_hex`. -/
def hfPrintHex (val : BitVec 32) : List UInt8 := bytesOf "0x" ++ hfPrintNibbles val 8

/-- `hf_print_reg`. -/
def hfPrintReg (name : String) (val : BitVec 32) : List UInt8 :=
  bytesOf name ++ hfPrintHex val ++ bytesOf "\r\n"

/-- The arguments of `hardfault_c`, the exception frame at `sp`, and the registers of the System
Control Block. -/
structure FaultState where
  sp : BitVec 32
  excReturn : BitVec 32
  /-- `sp[0]` to `sp[7]`. -/
  r0 : BitVec 32
  r1 : BitVec 32
  r2 : BitVec 32
  r3 : BitVec 32
  r12 : BitVec 32
  lr : BitVec 32
  pc : BitVec 32
  psr : BitVec 32
  cfsr : BitVec 32
  hfsr : BitVec 32
  dfsr : BitVec 32
  mmfar : BitVec 32
  bfar : BitVec 32
  afsr : BitVec 32
  deriving DecidableEq

namespace FaultState

/-- The registers that are shown, in this order, and their names. -/
def shown : List (String × (FaultState → BitVec 32)) :=
  [("PC   = ", pc), ("LR   = ", lr), ("xPSR = ", psr), ("R0   = ", r0), ("R1   = ", r1),
    ("R2   = ", r2), ("R3   = ", r3), ("R12  = ", r12), ("SP   = ", sp), ("CFSR = ", cfsr),
    ("HFSR = ", hfsr), ("DFSR = ", dfsr), ("BFAR = ", bfar), ("MMFAR= ", mmfar), ("AFSR = ", afsr)]

variable (x : FaultState)

/-- `exc_return & 0x4U`: the frame is on the process stack. -/
def onPsp : Bool := x.excReturn &&& 4 != 0

/-- `hf_cfsr & (1UL << 7U)`. -/
def mmarValid : Bool := x.cfsr.getLsbD 7

/-- `hf_cfsr & (1UL << 15U)`. -/
def bfarValid : Bool := x.cfsr.getLsbD 15

end FaultState

/-- The bits of CFSR that are explained, in this order. -/
def cfsrTexts : List (ℕ × String) :=
  [(25, "  DIVBYZERO\r\n"), (24, "  UNALIGNED\r\n"), (19, "  NOCP (no coprocessor)\r\n"),
    (18, "  INVPC\r\n"), (17, "  INVSTATE\r\n"), (16, "  UNDEFINSTR\r\n"), (15, "  BFARVALID\r\n"),
    (12, "  STKERR\r\n"), (11, "  UNSTKERR\r\n"), (10, "  IMPRECISERR\r\n"), (9, "  PRECISERR\r\n"),
    (8, "  IBUSERR\r\n"), (7, "  MMARVALID\r\n"), (4, "  MSTKERR\r\n"), (3, "  MUNSTKERR\r\n"),
    (1, "  DACCVIOL\r\n"), (0, "  IACCVIOL\r\n")]

/-- What is sent before the record is written. -/
def hardfaultText (x : FaultState) : List UInt8 :=
  bytesOf "\r\n\r\n*** FAULT ***\r\n" ++
    (if x.onPsp then bytesOf "Stack = PSP\r\n" else bytesOf "Stack = MSP\r\n") ++
    (FaultState.shown.flatMap fun r => hfPrintReg r.1 (r.2 x)) ++
    bytesOf "--- CFSR decode ---\r\n" ++
    cfsrTexts.flatMap fun b => if x.cfsr.getLsbD b.1 then bytesOf b.2 else []

/-- `entry`. -/
def faultEntry (x : FaultState) : FaultLog
  | .excReturn => x.excReturn
  | .pc => x.pc
  | .lr => x.lr
  | .xpsr => x.psr
  | .r0 => x.r0
  | .r1 => x.r1
  | .r2 => x.r2
  | .r3 => x.r3
  | .r12 => x.r12
  | .cfsr => x.cfsr
  | .hfsr => x.hfsr
  | .mmfar => x.mmfar
  | .bfar => x.bfar
  | .mmfarValid => if x.mmarValid then 1 else 0
  | .bfarValid => if x.bfarValid then 1 else 0

/-- What `hardfault_c` leaves. -/
structure FaultOutcome where
  text : List UInt8
  sram : BackupSram
  /-- CFSR, whose bits are cleared by writing them. -/
  cfsr : BitVec 32

/-- `hardfault_c`, up to its endless loop. -/
def hardfaultC (m : BackupSram) (x : FaultState) : FaultOutcome :=
  let m := m.run dcacheLine (faultLogWrite (faultEntry x))
  { text := hardfaultText x ++
      (if m.load dcacheLine bkpsramBase = faultLogMagic then bytesOf "Backup SRAM write: OK\r\n"
      else bytesOf
        "Backup SRAM write: FAILED (check PWR_CR1.DBP / RCC_AHB4ENR.BKPRAMEN)\r\n") ++
      bytesOf "*** HALTED ***\r\n"
    sram := m
    cfsr := x.cfsr &&& ~~~x.cfsr }

/-! ### The next boot -/

/-- A call of `uart_puts` or `uart_printf`. -/
inductive BootCall
  | puts (s : String)
  | printf (fmt : String) (args : List (BitVec 32))

/-- What `report_boot_diagnostics` sends for a record. -/
def faultReport (f : FaultLog) : List BootCall :=
  [.puts "=== Previous boot ended in a fault ===\r\n",
    .printf "EXC_RETURN=0x%x PC=0x%x LR=0x%x xPSR=0x%x\r\n" [f .excReturn, f .pc, f .lr, f .xpsr],
    .printf "CFSR=0x%x HFSR=0x%x\r\n" [f .cfsr, f .hfsr]] ++
  (if f .mmfarValid ≠ 0 then [.printf "MMFAR=0x%x\r\n" [f .mmfar]] else []) ++
  (if f .bfarValid ≠ 0 then [.printf "BFAR=0x%x\r\n" [f .bfar]] else []) ++
  [.puts "=======================================\r\n"]

/-- `report_boot_diagnostics`; `watchdog` is what `iwdg_reset_was_watchdog` returns. -/
def reportBootDiagnostics (m : BackupSram) (watchdog : Bool) : BackupSram × List BootCall :=
  let first := if watchdog then
    [BootCall.puts ">>> Previous reset cause: IWDG (watchdog timeout) <<<\r\n"] else []
  let (m, f) := faultLogCheckAndClear m
  (m, first ++ f.elim [] faultReport)

end TamgaOs
