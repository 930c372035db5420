import TamgaOs.Library.Words
import Mathlib.Data.List.OfFn

/-!
# The context switch

`pendsv_handler.s` and `sched_start.s` of both ports, and `task_stack_init`, on the registers and
the memory that they read and write. Addresses count words of 32 bits. The exception frame that
the hardware pushes and pops is part of the stack of the task: `psp` points to it whenever one of
these handlers runs.

## Main definitions

* `Context`: the registers that a switch saves and restores, with `EXC_RETURN` in `lr`.
* `Cpu`: the registers, the memory, the field `sp` of the tasks, and the two task pointers.
* `Cpu.pendSVHandler`, `Cpu.schedStartAsm`, `taskStackInit`.
-/

namespace TamgaOs

/-- The registers r4-r11, `EXC_RETURN` (in lr while a handler runs), s16-s31 and PSP. -/
structure Context where
  r : Fin 8 → BitVec 32
  lr : BitVec 32
  s : Fin 16 → BitVec 32
  psp : ℕ

/-- `tst lr, #0x10` gives zero: the task is using the FPU. -/
def usesFpu (lr : BitVec 32) : Bool := lr &&& 0x10 == 0

/-- The number of words that are saved for a task. -/
def frameWords (lr : BitVec 32) : ℕ := if usesFpu lr then 25 else 9

/-- What a switch reads and writes; `τ` is the type of the tasks. -/
structure Cpu (τ : Type*) where
  regs : Context
  mem : ℕ → BitVec 32
  /-- The field `sp` of each task. -/
  sp : τ → ℕ
  /-- `g_current_task`. -/
  current : Option τ
  /-- `g_next_task`. -/
  next : τ

/-- The processor that the code is built for. -/
inductive Port
  | cortexM7
  | cortexM4
  deriving DecidableEq

namespace Cpu

variable {τ : Type*} [DecidableEq τ] (x : Cpu τ)

/-- `PendSV_Handler` up to `PendSV_restore`. A store of several registers puts the one with the
smallest number at the smallest address. -/
def save : Cpu τ :=
  match x.current with
  | none => x
  | some t =>
    let p := (x.mem, x.regs.psp)
    let p := if usesFpu x.regs.lr then Words.pushAll p (List.ofFn x.regs.s).reverse else p
    let (mem, r0) := Words.pushAll p (x.regs.lr :: (List.ofFn x.regs.r).reverse)
    { x with mem := mem, sp := Function.update x.sp t r0 }

/-- From the load of `r4-r11` and `lr` on: the context of the task `t` is loaded. -/
def load (t : τ) : Cpu τ :=
  let r0 := x.sp t
  let lr := x.mem (r0 + 8)
  { x with
    regs :=
      { r := fun i => x.mem (r0 + i)
        lr := lr
        s := if usesFpu lr then fun i => x.mem (r0 + 9 + i) else x.regs.s
        psp := r0 + frameWords lr } }

/-- `PendSV_Handler`. -/
def pendSVHandler : Cpu τ :=
  let x := x.save
  { x with current := some x.next }.load x.next

/-- `sched_start`: `g_current_task` and `g_next_task` are set, and the first task is entered. The
Cortex-M7 does this in `SVC_Handler`, the Cortex-M4 without an exception and without a look at
`EXC_RETURN`. -/
def schedStartAsm (port : Port) (t : τ) : Cpu τ :=
  let x := { x with current := some t, next := t }
  match port with
  | .cortexM7 => x.load t
  | .cortexM4 =>
    let r0 := x.sp t
    { x with
      regs :=
        { r := fun i => x.mem (r0 + i), lr := x.mem (r0 + 8), s := x.regs.s, psp := r0 + 9 } }

end Cpu

/-- `EXC_RETURN` of a task that does not use the FPU. -/
def excReturn : BitVec 32 := 0xFFFFFFFD

/-- The words that `task_stack_init` pushes, in this order: the frame of the hardware from xPSR
down to R0, then `EXC_RETURN` and R11 down to R4. -/
def initialFrame (func : BitVec 32) : List (BitVec 32) :=
  [0x01000000, func ||| 1, 0xFFFFFFFD, 0, 0, 0, 0, 0, excReturn, 0, 0, 0, 0, 0, 0, 0, 0]

/-- `task_stack_init`: the memory and the stack pointer returned. The address `sp` is rounded down
to 8 bytes first. -/
def taskStackInit (mem : ℕ → BitVec 32) (sp : ℕ) (func : BitVec 32) : (ℕ → BitVec 32) × ℕ :=
  Words.pushAll (mem, sp - sp % 2) (initialFrame func)

end TamgaOs
