import TamgaOs.Kernel.ContextSwitch
import TamgaOs.Kernel.State
import TamgaOs.Library.Scan

/-!
# The stacks of the tasks

How `sched_init` and `sched_task_create` prepare a stack, what `stack_monitor.c` and
`sched_check_stack_canaries` read from it later, and the region that the MPU guards. Addresses count
words of 32 bits, as in the context switch. The lowest eight words of a stack are the guard, and the
word above them is the canary.

## Main definitions

* `StackLayout`: where the stacks are.
* `stackMonitorFill`, `schedTaskCreateStack`: what the stacks hold at first.
* `stackMonitorGetUsedBytes`, `stackMonitorGetUsedPercent`, `schedCheckStackCanaries`.
* `TaskStacks`, `TaskStacks.step`: the tasks use their stacks.
-/

namespace TamgaOs

/-- `TASK_STACK_SIZE`. -/
def taskStackSize : ℕ := 640

/-- `STACK_SCAN_START_INDEX`. -/
def stackScanStartIndex : ℕ := 9

/-- `TASK_STACK_CANARY_INDEX`. -/
def taskStackCanaryIndex : ℕ := 8

/-- `TASK_STACK_CANARY_VALUE`. -/
def taskStackCanaryValue : BitVec 32 := 0xDEADBEEF

/-- `TASK_STACK_CANARY_ALL_OK`. -/
def taskStackCanaryAllOk : ℕ := 0xFF

/-- `STACK_GUARD_SIZE_WORDS`. -/
def stackGuardSizeWords : ℕ := 8

/-- `STACK_FILL_BYTE`. -/
def stackFillByte : BitVec 8 := 0xA5

/-- Four bytes `STACK_FILL_BYTE`. -/
def stackFillWord : BitVec 32 := 0xA5A5A5A5

/-- The address of `stack[0]` of every task. The stacks are disjoint and aligned for the MPU. -/
structure StackLayout where
  base : TaskPtr → ℕ
  aligned : ∀ t, base t % stackGuardSizeWords = 0
  disjoint : ∀ t u, t ≠ u → base t + taskStackSize ≤ base u ∨ base u + taskStackSize ≤ base t

/-- A byte of a word in memory, which is little-endian. -/
def byteOf (w : BitVec 32) (i : ℕ) : BitVec 8 := w.extractLsb' (8 * i) 8

section Monitor

variable (mem : ℕ → BitVec 32) (base sp : ℕ)

/-- `stack_monitor_fill` for a stack at `base`. -/
def stackMonitorFill : ℕ → BitVec 32 :=
  let spIndex := sp - base
  if spIndex ≤ stackScanStartIndex then mem
  else fun a => if base + stackScanStartIndex ≤ a ∧ a < base + spIndex then stackFillWord else mem a

/-- What `sched_init` and `sched_task_create` do with the stack of a task: the memory and `sp`
afterwards. -/
def schedTaskCreateStack (func : BitVec 32) : (ℕ → BitVec 32) × ℕ :=
  let (mem, sp) := taskStackInit mem (base + taskStackSize) func
  let mem := Function.update mem (base + taskStackCanaryIndex) taskStackCanaryValue
  (stackMonitorFill mem base sp, sp)

/-- `region_words`. -/
def stackRegionWords : ℕ := taskStackSize - stackScanStartIndex

/-- `bytes[i] == STACK_FILL_BYTE`. -/
def stackByteUntouched (i : ℕ) : Bool :=
  byteOf (mem (base + stackScanStartIndex + i / 4)) (i % 4) == stackFillByte

/-- `stack_monitor_get_used_bytes`. -/
def stackMonitorGetUsedBytes : ℕ :=
  let regionBytes := 4 * stackRegionWords
  let untouched := scan (stackByteUntouched mem base) regionBytes 0
  regionBytes - untouched

/-- `stack_monitor_get_used_percent`. -/
def stackMonitorGetUsedPercent : UInt8 :=
  let totalBytes := taskStackSize * 4
  UInt8.ofNat (stackMonitorGetUsedBytes mem base * 100 / totalBytes)

end Monitor

/-- `sched_check_stack_canaries`, when `n` tasks have been created. -/
def schedCheckStackCanaries (L : StackLayout) (n : ℕ) (mem : ℕ → BitVec 32) : ℕ :=
  ((List.range n).find? fun i =>
    mem (L.base (.tcb i) + taskStackCanaryIndex) != taskStackCanaryValue).getD taskStackCanaryAllOk

/-- The memory, the stack pointers, and the MPU. -/
structure TaskStacks where
  mem : ℕ → BitVec 32
  sp : TaskPtr → ℕ
  current : TaskPtr
  /-- The task whose guard region is in the MPU. -/
  guarded : TaskPtr
  /-- A store has been refused by the MPU: the system has halted in the fault handler. -/
  faulted : Bool

namespace TaskStacks

/-- One task has been created. -/
def create (L : StackLayout) (func : TaskPtr → BitVec 32) (p : (ℕ → BitVec 32) × (TaskPtr → ℕ))
    (t : TaskPtr) : (ℕ → BitVec 32) × (TaskPtr → ℕ) :=
  let (mem, sp) := schedTaskCreateStack p.1 (L.base t) (func t)
  (mem, Function.update p.2 t sp)

/-- The idle task and the tasks of `s_tasks[0]` to `s_tasks[n - 1]`, in the order of their creation. -/
def tasks (n : ℕ) : List TaskPtr := .idle :: (List.range n).map .tcb

/-- After the creation of `n` tasks and `sched_start`, which enters the task `t`. -/
def start (L : StackLayout) (func : TaskPtr → BitVec 32) (n : ℕ)
    (p : (ℕ → BitVec 32) × (TaskPtr → ℕ)) (t : TaskPtr) : TaskStacks :=
  let (mem, sp) := (tasks n).foldl (create L func) p
  ⟨mem, sp, t, t, false⟩

end TaskStacks

/-- What can happen next. -/
inductive StackAction
  /-- The running task, or the handler that switches it out, pushes a word on its stack. -/
  | push (w : BitVec 32)
  /-- A word is popped. -/
  | pop
  /-- The running task stores to `sp + i`, a word of its stack that is in use. -/
  | poke (i : ℕ) (w : BitVec 32)
  /-- `sched_commit_next` has chosen the task: `mpu_set_stack_guard`. -/
  | commit (t : TaskPtr)
  /-- The context of the chosen task is loaded. -/
  | switch

namespace TaskStacks

/-- The MPU refuses a store to this address. -/
def InGuard (L : StackLayout) (s : TaskStacks) (a : ℕ) : Prop :=
  L.base s.guarded ≤ a ∧ a < L.base s.guarded + stackGuardSizeWords

instance (L : StackLayout) (s : TaskStacks) (a : ℕ) : Decidable (s.InGuard L a) :=
  inferInstanceAs (Decidable (_ ∧ _))

/-- A step; nothing happens after a fault. -/
def step (L : StackLayout) (s : TaskStacks) (act : StackAction) :
    Option (TaskStacks × List Empty) :=
  if s.faulted then none
  else
    match act with
    | .push w =>
      let a := s.sp s.current - 1
      if s.InGuard L a then some ({ s with faulted := true }, [])
      else
        some ({ s with
          mem := Function.update s.mem a w, sp := Function.update s.sp s.current a }, [])
    | .pop =>
      if s.sp s.current < L.base s.current + taskStackSize then
        some ({ s with sp := Function.update s.sp s.current (s.sp s.current + 1) }, [])
      else none
    | .poke i w =>
      if s.sp s.current + i < L.base s.current + taskStackSize then
        some ({ s with mem := Function.update s.mem (s.sp s.current + i) w }, [])
      else none
    | .commit t => some ({ s with guarded := t }, [])
    | .switch => some ({ s with current := s.guarded }, [])

end TaskStacks

end TamgaOs
