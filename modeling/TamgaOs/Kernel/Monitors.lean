import Mathlib.Algebra.Group.Nat.Defs
import Mathlib.Data.Fintype.Basic
import Mathlib.Data.Int.Notation
import Mathlib.Data.List.FinRange
import Mathlib.Logic.Function.Basic

/-!
# The timing monitors

`deadline_monitor.c` and `jitter_monitor.c`: eight monitors each, with statistics in 32-bit counters. The
value of `systick_get_ms` is an argument of the calls that read it.

## Main definitions

* `DeadlineMonitor`, `DeadlineMonitors`: `monitor_t` and its table.
* `JitterMonitor`, `JitterMonitors`: `jitter_t` and its table.
* `DeadlineCall`, `DeadlineMonitors.step`, `JitterCall`, `JitterMonitors.step`: the calls.
-/

namespace TamgaOs

/-- The entry of a handle, for a table of eight monitors. -/
def monitorSlot (handle : ℤ) : Option (Fin 8) :=
  if h : 0 ≤ handle ∧ handle < 8 then some ⟨handle.toNat, by omega⟩ else none

/-! ### `deadline_monitor.c` -/

/-- `monitor_t`. -/
structure DeadlineMonitor where
  inUse : Bool
  active : Bool
  name : String
  budgetMs : UInt32
  startMs : UInt32
  minMs : UInt32
  maxMs : UInt32
  sumMs : UInt32
  cycleCount : UInt32
  overrunCount : UInt32
  deriving DecidableEq

/-- What `deadline_monitor_report` prints. -/
structure DeadlineReport where
  name : String
  minMs : UInt32
  avgMs : UInt32
  maxMs : UInt32
  budgetMs : UInt32
  overrunCount : UInt32
  cycleCount : UInt32
  deriving DecidableEq

/-- `s_monitors` of `deadline_monitor.c`. -/
abbrev DeadlineMonitors := Fin 8 → DeadlineMonitor

/-- The calls of the deadline monitor, with what they read from the clock. -/
inductive DeadlineCall
  | create (name : String) (budgetMs : UInt32)
  | begin (handle : ℤ) (now : UInt32)
  | end (handle : ℤ) (now : UInt32)
  | report (handle : ℤ)
  deriving DecidableEq

/-- What the calls print and return. -/
inductive DeadlineObs
  | created (handle : ℤ)
  /-- `begin() called while already active`. -/
  | alreadyActive (name : String)
  /-- `end() called without begin()`. -/
  | notActive (name : String)
  | ended (overran : UInt8)
  | reported (r : DeadlineReport)
  deriving DecidableEq

namespace DeadlineMonitor

variable (m : DeadlineMonitor)

/-- A monitor after `deadline_monitor_create`. -/
def created (name : String) (budgetMs : UInt32) : DeadlineMonitor where
  inUse := true
  active := false
  name := name
  budgetMs := budgetMs
  startMs := 0
  minMs := 0xFFFFFFFF
  maxMs := 0
  sumMs := 0
  cycleCount := 0
  overrunCount := 0

/-- The statistics after a cycle. -/
def record (elapsed : UInt32) : DeadlineMonitor :=
  { m with
    active := false
    minMs := if elapsed < m.minMs then elapsed else m.minMs
    maxMs := if m.maxMs < elapsed then elapsed else m.maxMs
    sumMs := m.sumMs + elapsed
    cycleCount := m.cycleCount + 1
    overrunCount := if m.budgetMs < elapsed then m.overrunCount + 1 else m.overrunCount }

/-- `deadline_monitor_report`. -/
def report : Option DeadlineReport :=
  if !m.inUse || m.cycleCount == 0 then none
  else some ⟨m.name, m.minMs, m.sumMs / m.cycleCount, m.maxMs, m.budgetMs, m.overrunCount, m.cycleCount⟩

end DeadlineMonitor

namespace DeadlineMonitors

variable (s : DeadlineMonitors)

/-- Before any call. -/
def init : DeadlineMonitors := fun _ => ⟨false, false, "", 0, 0, 0, 0, 0, 0, 0⟩

/-- The first entry that is not in use. -/
def freeSlot : Option (Fin 8) := (List.finRange 8).find? fun i => !(s i).inUse

/-- `deadline_monitor_begin` for an entry. -/
def beginSlot (i : Fin 8) (now : UInt32) : DeadlineMonitors × List DeadlineObs :=
  if !(s i).inUse then (s, [])
  else if (s i).active then (s, [.alreadyActive (s i).name])
  else (Function.update s i { s i with active := true, startMs := now }, [])

/-- `deadline_monitor_end` for an entry. -/
def endSlot (i : Fin 8) (now : UInt32) : DeadlineMonitors × List DeadlineObs :=
  if !(s i).inUse then (s, [.ended 0])
  else if !(s i).active then (s, [.notActive (s i).name, .ended 0])
  else
    let elapsed := now - (s i).startMs
    (Function.update s i ((s i).record elapsed),
      [.ended (if (s i).budgetMs < elapsed then 1 else 0)])

/-- A call. -/
def step (s : DeadlineMonitors) : DeadlineCall → Option (DeadlineMonitors × List DeadlineObs)
  | .create name budgetMs =>
    match s.freeSlot with
    | none => some (s, [.created (-1)])
    | some i => some (Function.update s i (.created name budgetMs), [.created i.val])
  | .begin handle now =>
    match monitorSlot handle with
    | none => some (s, [])
    | some i => some (s.beginSlot i now)
  | .end handle now =>
    match monitorSlot handle with
    | none => some (s, [.ended 0])
    | some i => some (s.endSlot i now)
  | .report handle =>
    match monitorSlot handle with
    | none => some (s, [])
    | some i => some (s, (s i).report.toList.map .reported)

end DeadlineMonitors

/-! ### `jitter_monitor.c` -/

/-- `jitter_t`. -/
structure JitterMonitor where
  inUse : Bool
  name : String
  periodMs : UInt32
  expectedMs : UInt32
  baselineSet : Bool
  minJitterMs : UInt32
  maxJitterMs : UInt32
  sumJitterMs : UInt32
  sampleCount : UInt32
  deriving DecidableEq

/-- What `jitter_monitor_report` prints. -/
structure JitterReport where
  name : String
  periodMs : UInt32
  minJitterMs : UInt32
  avgJitterMs : UInt32
  maxJitterMs : UInt32
  sampleCount : UInt32
  deriving DecidableEq

/-- `s_monitors` of `jitter_monitor.c`. -/
abbrev JitterMonitors := Fin 8 → JitterMonitor

/-- The calls of the jitter monitor, with what they read from the clock. -/
inductive JitterCall
  | create (name : String) (periodMs : UInt32)
  | mark (handle : ℤ) (now : UInt32)
  | report (handle : ℤ)
  deriving DecidableEq

/-- What the calls print and return. -/
inductive JitterObs
  | created (handle : ℤ)
  | reported (r : JitterReport)
  deriving DecidableEq

/-- `(diff < 0) ? (uint32_t)(-diff) : (uint32_t)diff`; the difference is in two's complement. -/
def jitterOf (diff : UInt32) : UInt32 := if 2 ^ 31 ≤ diff.toNat then -diff else diff

namespace JitterMonitor

variable (m : JitterMonitor)

/-- A monitor after `jitter_monitor_create`. -/
def created (name : String) (periodMs : UInt32) : JitterMonitor where
  inUse := true
  name := name
  periodMs := periodMs
  expectedMs := 0
  baselineSet := false
  minJitterMs := 0xFFFFFFFF
  maxJitterMs := 0
  sumJitterMs := 0
  sampleCount := 0

/-- `jitter_monitor_mark` for a monitor in use. -/
def mark (now : UInt32) : JitterMonitor :=
  if !m.baselineSet then { m with expectedMs := now + m.periodMs, baselineSet := true }
  else
    let jitter := jitterOf (now - m.expectedMs)
    { m with
      minJitterMs := if jitter < m.minJitterMs then jitter else m.minJitterMs
      maxJitterMs := if m.maxJitterMs < jitter then jitter else m.maxJitterMs
      sumJitterMs := m.sumJitterMs + jitter
      sampleCount := m.sampleCount + 1
      expectedMs := m.expectedMs + m.periodMs }

/-- `jitter_monitor_report`. -/
def report : Option JitterReport :=
  if !m.inUse || m.sampleCount == 0 then none
  else some ⟨m.name, m.periodMs, m.minJitterMs, m.sumJitterMs / m.sampleCount, m.maxJitterMs,
    m.sampleCount⟩

end JitterMonitor

namespace JitterMonitors

variable (s : JitterMonitors)

/-- Before any call. -/
def init : JitterMonitors := fun _ => ⟨false, "", 0, 0, false, 0, 0, 0, 0⟩

/-- The first entry that is not in use. -/
def freeSlot : Option (Fin 8) := (List.finRange 8).find? fun i => !(s i).inUse

/-- A call. -/
def step (s : JitterMonitors) : JitterCall → Option (JitterMonitors × List JitterObs)
  | .create name periodMs =>
    match s.freeSlot with
    | none => some (s, [.created (-1)])
    | some i => some (Function.update s i (.created name periodMs), [.created i.val])
  | .mark handle now =>
    match monitorSlot handle with
    | none => some (s, [])
    | some i => some (if !(s i).inUse then s else Function.update s i ((s i).mark now), [])
  | .report handle =>
    match monitorSlot handle with
    | none => some (s, [])
    | some i => some (s, (s i).report.toList.map .reported)

end JitterMonitors

end TamgaOs
