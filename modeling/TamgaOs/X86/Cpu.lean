import TamgaOs.Library.ByteMemory

/-!
# The processor of the x86 kernel

What an exception does on a 32-bit x86 in ring 0 of protected mode, and the instructions of
`isr.asm`. All segments of the kernel are flat, so an offset is an address, and there is no LDT.
When a segment register is pushed, some processors extend it by zeros and others leave the upper
half of the cell alone.

## Main definitions

* `Descriptor`, `Gate`: the entries of the GDT and of the IDT, as the processor reads them.
* `X86`, `X86.interrupt`: the registers and the memory, and how an exception is taken.
* `X86.touch`: the mark in the descriptor of a segment that has been loaded.
* `Instr`, `X86.exec`: the instructions.
-/

namespace TamgaOs

open ByteMemory

/-- A segment descriptor. -/
structure Descriptor where
  base : BitVec 32
  limit : BitVec 20
  access : BitVec 8
  flags : BitVec 4
  deriving DecidableEq

/-- The descriptor that eight bytes hold. -/
def Descriptor.decode (bs : List (BitVec 8)) : Descriptor where
  base := bs.getD 7 0 ++ bs.getD 4 0 ++ bs.getD 3 0 ++ bs.getD 2 0
  limit := (bs.getD 6 0).extractLsb' 0 4 ++ bs.getD 1 0 ++ bs.getD 0 0
  access := bs.getD 5 0
  flags := (bs.getD 6 0).extractLsb' 4 4

namespace Descriptor

variable (d : Descriptor)

/-- The last offset in the segment. -/
def lastOffset : ℕ := if d.flags.getLsbD 3 then d.limit.toNat * 4096 + 4095 else d.limit.toNat

/-- A code segment of ring 0 that is present. -/
def IsKernelCode : Prop := d.access &&& 0xF8 = 0x98

instance : Decidable d.IsKernelCode := inferInstanceAs (Decidable (_ = _))

/-- A segment that is present and can be read: of data, or of code with the read bit. -/
def IsReadable : Prop := d.access &&& 0x98 = 0x90 ∨ d.access &&& 0x9A = 0x9A

instance : Decidable d.IsReadable := inferInstanceAs (Decidable (_ ∨ _))

/-- Code that runs with the privilege of its caller. -/
def IsConforming : Prop := d.access &&& 0x1C = 0x1C

instance : Decidable d.IsConforming := inferInstanceAs (Decidable (_ = _))

/-- The privilege level. -/
def level : BitVec 2 := d.access.extractLsb' 5 2

end Descriptor

/-- A gate. -/
structure Gate where
  offset : BitVec 32
  selector : BitVec 16
  typeAttr : BitVec 8
  deriving DecidableEq

/-- The gate that eight bytes hold. -/
def Gate.decode (bs : List (BitVec 8)) : Gate where
  offset := bs.getD 7 0 ++ bs.getD 6 0 ++ bs.getD 1 0 ++ bs.getD 0 0
  selector := bs.getD 3 0 ++ bs.getD 2 0
  typeAttr := bs.getD 5 0

/-- A 32-bit interrupt gate that is present. -/
def Gate.IsInterrupt (g : Gate) : Prop := g.typeAttr &&& 0x9F = 0x8E

instance (g : Gate) : Decidable g.IsInterrupt := inferInstanceAs (Decidable (_ = _))

/-- The base and the limit of a descriptor table. -/
structure TableReg where
  base : BitVec 32
  limit : BitVec 16
  deriving DecidableEq

/-- The state of the processor, and the memory. -/
structure X86 where
  eax : BitVec 32
  ecx : BitVec 32
  edx : BitVec 32
  ebx : BitVec 32
  esp : BitVec 32
  ebp : BitVec 32
  esi : BitVec 32
  edi : BitVec 32
  cs : BitVec 16
  ds : BitVec 16
  es : BitVec 16
  fs : BitVec 16
  gs : BitVec 16
  ss : BitVec 16
  eip : BitVec 32
  eflags : BitVec 32
  gdtr : TableReg
  idtr : TableReg
  mem : Mem

/-- The segment registers that the stubs move. -/
inductive Seg
  | ds
  | es
  | fs
  | gs
  deriving DecidableEq

/-- The bytes of a segment register on the stack. -/
def segBytes (wide : Bool) (s : BitVec 16) : List (BitVec 8) :=
  if wide then le32 (s.setWidth 32) else le16 s

namespace X86

variable (x : X86)

def push (c : List (BitVec 8)) : X86 :=
  { x with
    mem := (ByteMemory.push (x.mem, x.esp) c).1
    esp := (ByteMemory.push (x.mem, x.esp) c).2 }

/-- The word that lies `n` cells above the stack pointer. -/
def word (n : ℕ) : BitVec 32 := ofLe 32 (read x.mem (up x.esp n) 4)

def half (n : ℕ) : BitVec 16 := ofLe 16 (read x.mem (up x.esp n) 2)

def seg : Seg → BitVec 16
  | .ds => x.ds
  | .es => x.es
  | .fs => x.fs
  | .gs => x.gs

def setSeg (s : BitVec 16) : Seg → X86
  | .ds => { x with ds := s }
  | .es => { x with es := s }
  | .fs => { x with fs := s }
  | .gs => { x with gs := s }

/-- The gate of an exception. -/
def gate (v : ℕ) : Gate :=
  Gate.decode (read x.mem (x.idtr.base + BitVec.ofNat 32 (8 * v)) 8)

/-- The descriptor that a selector stands for. -/
def descriptor (s : BitVec 16) : Descriptor :=
  Descriptor.decode (read x.mem (x.gdtr.base + BitVec.ofNat 32 (8 * (s.toNat / 8))) 8)

/-- The selector stands for an entry of the GDT. -/
def InGdt (s : BitVec 16) : Prop :=
  s.getLsbD 2 = false ∧ 0 < s.toNat / 8 ∧ 8 * (s.toNat / 8) + 7 ≤ x.gdtr.limit.toNat

instance (s : BitVec 16) : Decidable (x.InGdt s) := inferInstanceAs (Decidable (_ ∧ _ ∧ _))

/-- Control may pass to the code at a selector and an offset. -/
def CanEnter (s : BitVec 16) (offset : BitVec 32) : Prop :=
  x.InGdt s ∧ (x.descriptor s).IsKernelCode ∧ offset.toNat ≤ (x.descriptor s).lastOffset

instance (s : BitVec 16) (offset : BitVec 32) : Decidable (x.CanEnter s offset) :=
  inferInstanceAs (Decidable (_ ∧ _ ∧ _))

/-- The selector may be loaded into `ds`, `es`, `fs` or `gs`. -/
def CanLoad (s : BitVec 16) : Prop :=
  s.toNat < 4 ∨ x.InGdt s ∧ (x.descriptor s).IsReadable ∧
    ((x.descriptor s).IsConforming ∨ s.extractLsb' 0 2 ≤ (x.descriptor s).level)

instance (s : BitVec 16) : Decidable (x.CanLoad s) :=
  inferInstanceAs (Decidable (_ ∨ _ ∧ _ ∧ (_ ∨ _)))

/-- A segment is loaded, and the processor marks its descriptor as accessed if it is not marked. The
null selector has no descriptor. -/
def touch (s : BitVec 16) : X86 :=
  { x with
    mem := if s.toNat < 4 ∨ (x.descriptor s).access.getLsbD 0 then x.mem
      else write x.mem (x.gdtr.base + BitVec.ofNat 32 (8 * (s.toNat / 8) + 5))
        [(x.descriptor s).access ||| 1] }

/-- The flags TF, IF, NT, RF and VM, which an interrupt gate clears. -/
def clearedFlags : BitVec 32 := 0x34300

/-- The flags that are saved: the resume flag is set for a fault. -/
def savedFlags (resume : Bool) (flags : BitVec 32) : BitVec 32 :=
  if resume then flags ||| 0x10000 else flags

/-- The exception `v` is taken, with the error code `e` if it has one. There is no result when the
processor refuses the gate or its segment. -/
def interrupt (wide resume : Bool) (v : ℕ) (e : Option (BitVec 32)) : Option X86 :=
  let g := x.gate v
  if 8 * v + 7 ≤ x.idtr.limit.toNat ∧ g.IsInterrupt ∧ x.CanEnter g.selector g.offset ∧
      x.cs.extractLsb' 0 2 = 0 then
    let y := (x.touch g.selector).push (le32 (savedFlags resume x.eflags))
    let y := (y.push (segBytes wide x.cs)).push (le32 x.eip)
    let y := match e with
      | some e => y.push (le32 e)
      | none => y
    some { y with cs := g.selector, eip := g.offset, eflags := x.eflags &&& ~~~clearedFlags }
  else none

end X86

/-- The instructions of the stubs. -/
inductive Instr
  | pushImm (n : BitVec 32)
  | pushSeg (s : Seg)
  | popSeg (s : Seg)
  | pusha
  | popa
  | movAx (n : BitVec 16)
  | movSegAx (s : Seg)
  | pushEsp
  /-- `next` is the address of the next instruction. -/
  | call (target next : BitVec 32)
  /-- The status flags that it sets are left out. -/
  | addEsp (n : BitVec 32)
  | iret

namespace X86

/-- Cells are left behind. -/
def drop (x : X86) (n : ℕ) : X86 := { x with esp := up x.esp n }

/-- A segment register is loaded. -/
def load (x : X86) (s : BitVec 16) (r : Seg) : Option X86 :=
  if x.CanLoad s then some ((x.touch s).setSeg s r) else none

/-- `iret` within ring 0: it refuses a nested task and a return to virtual 8086 mode. -/
def iret (x : X86) : Option X86 :=
  if x.eflags.getLsbD 14 = false ∧ (x.word 2).getLsbD 17 = false ∧
      x.CanEnter (x.half 1) (x.word 0) ∧ (x.half 1).extractLsb' 0 2 = 0 then
    some ({ x.touch (x.half 1) with
      eip := x.word 0, cs := x.half 1, eflags := x.word 2 }.drop 3)
  else none

/-- What an instruction does; there is no result when it raises an exception itself. -/
def execute (wide : Bool) (x : X86) : Instr → Option X86
  | .pushImm n => some (x.push (le32 n))
  | .pushSeg s => some (x.push (segBytes wide (x.seg s)))
  | .popSeg s => (x.load (x.half 0) s).map (drop · 1)
  | .pusha =>
    some ((((((((x.push (le32 x.eax)).push (le32 x.ecx)).push (le32 x.edx)).push (le32 x.ebx)).push
      (le32 x.esp)).push (le32 x.ebp)).push (le32 x.esi)).push (le32 x.edi))
  | .popa =>
    some ({ x with
      edi := x.word 0, esi := x.word 1, ebp := x.word 2, ebx := x.word 4, edx := x.word 5
      ecx := x.word 6, eax := x.word 7 }.drop 8)
  | .movAx n => some { x with eax := x.eax.extractLsb' 16 16 ++ n }
  | .movSegAx s => x.load (x.eax.extractLsb' 0 16) s
  | .pushEsp => some (x.push (le32 x.esp))
  | .call target next => some { x.push (le32 next) with eip := target }
  | .addEsp n => some { x with esp := x.esp + n }
  | .iret => x.iret

/-- The processor after an instruction. When the trap flag is set, the instruction is followed by a
debug exception. -/
def exec (wide : Bool) (x : X86) (i : Instr) : Option X86 :=
  if x.eflags.getLsbD 8 then none else x.execute wide i

/-- The instructions are executed one after the other. -/
def run (wide : Bool) (x : X86) (is : List Instr) : Option X86 := is.foldlM (exec wide) x

end X86

end TamgaOs
