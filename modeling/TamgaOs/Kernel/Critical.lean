import TamgaOs.Library.Bracketing
import TamgaOs.Library.Run
import Mathlib.Logic.Function.Basic

/-!
# The critical sections

`include/sched_critical.h`, instruction by instruction. The contexts `κ` are the tasks and the
interrupt handlers, which share the register PRIMASK and the variables `σ`. Every context keeps the
values that `sched_critical_enter` has returned to it in local variables, and hands the innermost
one to `sched_critical_exit`. What the contexts do otherwise is arbitrary.

## Main definitions

* `CriticalOp`, `CriticalOp.bracket`: the instructions, and those that begin and end a section.
* `Critical`, `Critical.step`: the processor, and what can happen next.
-/

namespace TamgaOs

/-- An instruction. -/
inductive CriticalOp (σ : Type*)
  /-- `mrs %0, primask` in `sched_critical_enter`. -/
  | mrs
  /-- `cpsid i` in `sched_critical_enter`. -/
  | cpsid
  /-- `msr primask, %0` in `sched_critical_exit`. -/
  | msr
  /-- Any other access to the shared variables. -/
  | store (f : σ → σ)

/-- A section is what lies between `cpsid` and `msr`. -/
def CriticalOp.bracket {σ : Type*} : CriticalOp σ → Bracketing
  | mrs | store _ => .plain
  | cpsid => .opens
  | msr => .closes

/-- The effect of an instruction on the shared variables. -/
def CriticalOp.apply {σ : Type*} : CriticalOp σ → σ → σ
  | mrs | cpsid | msr => id
  | store f => f

/-- The processor. -/
structure Critical (κ σ : Type*) where
  primask : Bool
  /-- The value that `mrs` has read and `cpsid` has not followed yet. -/
  read : κ → Option Bool
  /-- The values of `primask` in the calls of `sched_critical_enter` that have no exit yet, the
  innermost one first. -/
  saved : κ → List Bool
  running : κ
  shared : σ

/-- What can happen next. -/
inductive CriticalAction (κ σ : Type*)
  /-- The running context executes an instruction. -/
  | exec (op : CriticalOp σ)
  /-- An interrupt is taken, a handler returns, or PendSV switches: another context runs. -/
  | switch (c : κ)

namespace Critical

variable {κ σ : Type*}

/-- Interrupts are enabled and nobody is in a section. -/
def init (c : κ) (x : σ) : Critical κ σ := ⟨false, fun _ => none, fun _ => [], c, x⟩

variable [DecidableEq κ] (s : Critical κ σ)

/-- The running context executes an instruction. Inside of `sched_critical_enter` nothing lies
between `mrs` and `cpsid`, and `sched_critical_exit` has been preceded by an enter. -/
def execStep : CriticalOp σ → Option (Critical κ σ)
  | .mrs =>
    match s.read s.running with
    | none => some { s with read := Function.update s.read s.running (some s.primask) }
    | some _ => none
  | .cpsid =>
    match s.read s.running with
    | none => none
    | some p =>
      some { s with
        primask := true
        read := Function.update s.read s.running none
        saved := Function.update s.saved s.running (p :: s.saved s.running) }
  | .msr =>
    match s.read s.running, s.saved s.running with
    | none, p :: ps =>
      some { s with primask := p, saved := Function.update s.saved s.running ps }
    | _, _ => none
  | .store f =>
    match s.read s.running with
    | none => some { s with shared := f s.shared }
    | some _ => none

/-- A step and the instruction executed in it. An interrupt or a context switch needs PRIMASK to be
clear; a handler that is outside of every section may return in any case. -/
def step (s : Critical κ σ) : CriticalAction κ σ → Option (Critical κ σ × List (κ × CriticalOp σ))
  | .exec op => (s.execStep op).map fun s' => (s', [(s.running, op)])
  | .switch c =>
    match s.primask, s.read s.running, s.saved s.running with
    | false, _, _ | true, none, [] => some ({ s with running := c }, [])
    | _, _, _ => none

end Critical

end TamgaOs
