import TamgaOs.X86.Cpu
import TamgaOs.Library.Reads
import Mathlib.Logic.Function.Basic

/-!
# The tables and the exception stubs of the x86 kernel

The kernel exists in C and in Zig. Both set up the same tables: in C the GDT is filled in by
`gdt_init`, the Zig kernel loads the one that `gdt.asm` spells out. The stubs of `isr.asm` belong to
both, and each has its own `isr_handler`.

## Main definitions

* `GdtEntry`, `gdtC`, `gdtAsm`; `IdtEntry`, `idtC`, `idtZig`.
* `X86.gdtInit`, `X86.idtInit`: the tables are loaded.
* `Fault.stub`, `commonStub`, `commonReturn`: the stubs up to the call of `isr_handler`, and what
  follows it.
* `isrHandlerC`, `isrHandlerZig`: the text that is sent.
-/

namespace TamgaOs

open ByteMemory

/-! ### The GDT -/

/-- `struct gdt_entry`. -/
structure GdtEntry where
  limitLow : BitVec 16
  baseLow : BitVec 16
  baseMid : BitVec 8
  access : BitVec 8
  granularity : BitVec 8
  baseHigh : BitVec 8

/-- The structure is packed. -/
def GdtEntry.bytes (d : GdtEntry) : List (BitVec 8) :=
  le16 d.limitLow ++ le16 d.baseLow ++ [d.baseMid, d.access, d.granularity, d.baseHigh]

/-- `make_entry`. -/
def makeEntry (base limit : BitVec 32) (access gran : BitVec 8) : GdtEntry where
  baseLow := (base &&& 0xFFFF).setWidth 16
  baseMid := ((base >>> 16) &&& 0xFF).setWidth 8
  baseHigh := ((base >>> 24) &&& 0xFF).setWidth 8
  limitLow := (limit &&& 0xFFFF).setWidth 16
  granularity := ((limit >>> 16) &&& 0x0F).setWidth 8 ||| (gran &&& 0xF0)
  access := access

/-- The bytes of the GDT of `gdt.c`. -/
def gdtC : List (BitVec 8) :=
  (makeEntry 0 0 0 0).bytes ++ (makeEntry 0 0xFFFFF 0x9A 0xCF).bytes ++
    (makeEntry 0 0xFFFFF 0x92 0xCF).bytes

/-- The bytes from `gdt_start` to `gdt_end` in `gdt.asm`. -/
def gdtAsm : List (BitVec 8) :=
  [0, 0, 0, 0, 0, 0, 0, 0] ++
    (le16 0xFFFF ++ le16 0x0000 ++ [0x00, 0b10011010, 0b11001111, 0x00]) ++
    (le16 0xFFFF ++ le16 0x0000 ++ [0x00, 0b10010010, 0b11001111, 0x00])

/-! ### The IDT -/

/-- `struct idt_entry`. -/
structure IdtEntry where
  offsetLow : BitVec 16
  selector : BitVec 16
  zero : BitVec 8
  typeAttr : BitVec 8
  offsetHigh : BitVec 16

def IdtEntry.bytes (d : IdtEntry) : List (BitVec 8) :=
  le16 d.offsetLow ++ le16 d.selector ++ [d.zero, d.typeAttr] ++ le16 d.offsetHigh

/-- `setEntry` of `idt.c`. -/
def setEntryC (idt : ℕ → IdtEntry) (n : ℕ) (handler : BitVec 32) : ℕ → IdtEntry :=
  Function.update idt n
    { offsetLow := (handler &&& 0xFFFF).setWidth 16
      selector := 0x08
      zero := 0
      typeAttr := 0x8E
      offsetHigh := ((handler >>> 16) &&& 0xFFFF).setWidth 16 }

/-- `SetEntry` of `idt.zig`. -/
def setEntryZig (idt : ℕ → IdtEntry) (n : ℕ) (handler : BitVec 32) : ℕ → IdtEntry :=
  Function.update idt n
    { offsetLow := handler.setWidth 16
      selector := 0x08
      zero := 0
      typeAttr := 0x8E
      offsetHigh := (handler >>> 16).setWidth 16 }

/-- The exceptions that have a stub. -/
inductive Fault
  | divideError
  | invalidOpcode
  | doubleFault
  | generalProtection
  | pageFault
  deriving DecidableEq

namespace Fault

def number : Fault → ℕ
  | divideError => 0
  | invalidOpcode => 6
  | doubleFault => 8
  | generalProtection => 13
  | pageFault => 14

/-- The processor pushes an error code. -/
def hasError : Fault → Bool
  | divideError | invalidOpcode => false
  | doubleFault | generalProtection | pageFault => true

end Fault

/-- `idt_init`: all entries are cleared, then those of the stubs are set; `isr f` is the address of
a stub. -/
def idtInit (setEntry : (ℕ → IdtEntry) → ℕ → BitVec 32 → ℕ → IdtEntry)
    (isr : Fault → BitVec 32) (idt : ℕ → IdtEntry) : ℕ → IdtEntry :=
  let idt := (List.range 256).foldl (fun idt i => setEntry idt i 0) idt
  let idt := setEntry idt 0 (isr .divideError)
  let idt := setEntry idt 6 (isr .invalidOpcode)
  let idt := setEntry idt 8 (isr .doubleFault)
  let idt := setEntry idt 13 (isr .generalProtection)
  setEntry idt 14 (isr .pageFault)

/-- `idt_init` of `idt.c`, and `init` of `idt.zig`. -/
def idtC := idtInit setEntryC

def idtZig := idtInit setEntryZig

/-- The bytes of an IDT. -/
def idtBytes (idt : ℕ → IdtEntry) : List (BitVec 8) :=
  (List.range 256).flatMap fun v => (idt v).bytes

/-! ### Loading the tables -/

/-- `gdt_init` up to the jump, with the table at the address `gdt`. -/
def X86.lgdt (x : X86) (gdt : BitVec 32) : X86 :=
  { x with
    mem := write x.mem gdt gdtC, gdtr := ⟨gdt, 8 * 3 - 1⟩, eflags := x.eflags &&& ~~~0x200 }

/-- `gdt_init`: the jump loads the code segment, and the moves behind it load the others. -/
def X86.gdtInit (x : X86) (gdt : BitVec 32) : X86 :=
  { ((x.lgdt gdt).touch 0x08).touch 0x10 with
    cs := 0x08, eax := x.eax.extractLsb' 16 16 ++ (0x10 : BitVec 16)
    ds := 0x10, es := 0x10, fs := 0x10, gs := 0x10, ss := 0x10 }

/-- `idt_init`, with the table at the address `table`. -/
def X86.idtInit (x : X86) (isr : Fault → BitVec 32) (idt : ℕ → IdtEntry) (table : BitVec 32) :
    X86 :=
  { x with mem := write x.mem table (idtBytes (idtC isr idt)), idtr := ⟨table, 8 * 256 - 1⟩ }

/-! ### The stubs -/

/-- From the label of a stub to the jump to `isr_common_stub`. -/
def Fault.stub : Fault → List Instr
  | divideError => [.pushImm 0, .pushImm 0]
  | invalidOpcode => [.pushImm 0, .pushImm 6]
  | doubleFault => [.pushImm 8]
  | generalProtection => [.pushImm 13]
  | pageFault => [.pushImm 14]

/-- `isr_common_stub` up to the call of `isr_handler`, which is at the address `handler`. -/
def commonStub (handler next : BitVec 32) : List Instr :=
  [.pusha, .pushSeg .ds, .pushSeg .es, .pushSeg .fs, .pushSeg .gs, .movAx 0x10, .movSegAx .ds,
    .movSegAx .es, .movSegAx .fs, .movSegAx .gs, .pushEsp, .call handler next]

/-- What follows the call. -/
def commonReturn : List Instr :=
  [.addEsp 4, .popSeg .gs, .popSeg .fs, .popSeg .es, .popSeg .ds, .popa, .addEsp 8, .iret]

/-! ### The handlers -/

/-- `r->int_no`: twelve words precede it in `register_t`. -/
def intNo (m : Mem) (r : BitVec 32) : BitVec 32 := ofLe 32 (read m (up r 12) 4)

/-- What `isr_handler` of `isr.c` sends on the serial line before it halts. -/
def isrHandlerC (m : Mem) (r : BitVec 32) : List UInt8 :=
  bytesOf "EXCEPTION:" ++
    match (intNo m r).toNat with
    | 0 => bytesOf "#DE Divide Error\n"
    | 6 => bytesOf "#UD Invalid Opcode\n"
    | 8 => bytesOf "#DF Double Fault\n"
    | 13 => bytesOf "#GP General Protection\n"
    | 14 => bytesOf "#PF Page Fault\n"
    | _ => bytesOf "Unknown Exception\n"

/-- `hxDigit`. -/
def hxDigit (v : BitVec 4) : UInt8 :=
  if v < 10 then 0x30 + UInt8.ofNat v.toNat else 0x41 + (UInt8.ofNat v.toNat - 10)

/-- The loop of `writeHex32`, with `shift = 4 * k - 4` at first. -/
def writeHexFrom (value : BitVec 32) : ℕ → List UInt8
  | 0 => []
  | k + 1 => hxDigit ((value >>> (4 * k)).setWidth 4) :: writeHexFrom value k

/-- `writeHex32`. -/
def writeHex32 (value : BitVec 32) : List UInt8 := bytesOf "0x" ++ writeHexFrom value 8

/-- What `isr_handler` of `isr.zig` sends on the serial line before it halts. -/
def isrHandlerZig (m : Mem) (r : BitVec 32) : List UInt8 :=
  bytesOf "EXCEPTION: " ++ bytesOf "ISR CAUGHT\n" ++ bytesOf "int_no=" ++ writeHex32 (intNo m r) ++
    bytesOf "\n" ++
    match (intNo m r).toNat with
    | 0 => bytesOf "#DE Divide Error\n"
    | 6 => bytesOf "#UD Invalid Opcode\n"
    | 8 => bytesOf "#GP General Protection\n"
    | 13 => bytesOf "#GP General Protection\n"
    | 14 => bytesOf "#PF Page Fault\n"
    | _ => bytesOf "Unknown\n"

end TamgaOs
