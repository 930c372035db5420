import TamgaOs.Kernel.Calls
import TamgaOs.Library.Run

/-!
# Tasks, interrupts and context switches

The machine runs the kernel on one processor. Its contexts are the threads of the tasks and the
active interrupt handlers; handlers nest, and the innermost one runs. When none is active, a
pended PendSV is taken before the current task executes anything, and otherwise `g_current_task`
runs. The application code of a task, and what interrupts arrive, are arbitrary.

## Main definitions

* `Machine`, `Machine.active`: the state, and the context that runs.
* `Action`, `Machine.step`: an application call, an atomic step of a call, an interrupt, a context
  switch, the clock, or a tick.
* `Config`, `Machine.start`: the state after `sched_start`.
* `Action.Within`: the actions that make calls of a given kind only.
* `Scenario`: a run given by its actions.

## Main results

* `Machine.step_cases`: what an action can do.
-/

namespace TamgaOs

/-- A context of execution: the thread of a task, or the `i`-th of the nested handlers. -/
inductive Ctx
  | thread (t : TaskPtr)
  | isr (i : ℕ)
  deriving DecidableEq

/-- The state of the machine. The active handlers are `isr 0`, …, `isr (depth - 1)`. -/
structure Machine where
  kernel : Kernel
  ctl : Ctx → Ctl
  depth : ℕ

/-- What can happen next. -/
inductive Action
  /-- The running task makes a kernel call. -/
  | call (c : Call)
  /-- The running context executes the next atomic step of its call. -/
  | exec
  /-- An interrupt arrives whose handler makes a kernel call. -/
  | irq (c : Call)
  /-- The pended context switch is taken. -/
  | pendSV
  /-- The millisecond counter advances by `n`. -/
  | clock (n : ℕ)
  /-- `sched_tick_n n` runs from its first to its last statement, in the SysTick handler or after a sleep of
  the idle task. -/
  | tick (n : ℕ)
  deriving DecidableEq

/-- The action makes no call outside `P`. -/
def Action.Within (P : Call → Prop) : Action → Prop
  | call c | irq c => P c
  | exec | pendSV | clock _ | tick _ => True

instance (P : Call → Prop) [DecidablePred P] : DecidablePred (Action.Within P)
  | .call c | .irq c => inferInstanceAs (Decidable (P c))
  | .exec | .pendSV | .clock _ | .tick _ => inferInstanceAs (Decidable True)

theorem Action.Within.mono {P Q : Call → Prop} (hPQ : ∀ c, P c → Q c) {a : Action}
    (ha : a.Within P) : a.Within Q := by
  cases a <;> first | exact hPQ _ ha | trivial

/-- `s_ticks += n`. -/
def Kernel.advanceClock (k : Kernel) (n : ℕ) : Kernel :=
  { k with ticks := (k.ticks + n) % 2 ^ 32 }

namespace Machine

variable (m : Machine)

/-- The context that runs, or `none` when the pended context switch comes first. -/
def active : Option Ctx :=
  match m.depth with
  | d + 1 => some (.isr d)
  | 0 => if m.kernel.pendsv then none else m.kernel.currentTask.map .thread

/-- The machine after a step of the context `x` that leads to `k` and `c`. A handler that has
finished is left. -/
def resume (x : Ctx) (k : Kernel) (c : Ctl) : Machine where
  kernel := k
  ctl := Function.update m.ctl x c
  depth :=
    match x with
    | .isr d => if c.atRest then d else m.depth
    | .thread _ => m.depth

/-- The machine after an action, and what the action has reported. -/
def step (m : Machine) : Action → Option (Machine × List Obs)
  | .call c =>
    match m.active with
    | some (.thread (.tcb i)) =>
      if (m.ctl (.thread (.tcb i))).atRest then
        some ({ m with ctl := Function.update m.ctl (.thread (.tcb i)) c.entry }, [])
      else none
    | _ => none
  | .exec =>
    match m.active, m.kernel.currentTask with
    | some x, some t =>
      match ctlStep m.kernel t (m.ctl x) with
      | some (k', c', o) => some (m.resume x k' c', o)
      | none => none
    | _, _ => none
  | .irq c =>
    if c.isrSafe then
      some ({ m with ctl := Function.update m.ctl (.isr m.depth) c.entry, depth := m.depth + 1 },
        [])
    else none
  | .pendSV =>
    if m.depth = 0 ∧ m.kernel.pendsv then some ({ m with kernel := m.kernel.pendSV }, [])
    else none
  | .clock n => some ({ m with kernel := m.kernel.advanceClock n }, [])
  | .tick n => (m.kernel.schedTickN n).map fun k' => ({ m with kernel := k' }, [])

end Machine

/-! ### The start -/

/-- What is created before the scheduler starts: the tasks with their priorities, in the order of
their creation, and the kernel objects. -/
structure Config where
  priorities : List ℕ
  sem : ℕ → Sem := fun _ => ⟨0, 0⟩
  /-- The item size and the capacity of every queue. -/
  queue : ℕ → UInt16 × UInt16 := fun _ => (0, 0)
  ticks : ℕ := 0

namespace Config

variable (cfg : Config)

/-- The state after `sched_init` and the initialisation of the objects. -/
def schedInit : Kernel where
  tcb t :=
    match t with
    | .idle => { priority := Kernel.taskPriorityIdle }
    | .tcb _ => {}
  taskCount := 0
  currentTask := none
  nextTask := none
  pendsv := false
  head _ := none
  sem := cfg.sem
  queue q := { itemSize := (cfg.queue q).1, capacity := (cfg.queue q).2 }
  mutex _ := {}
  group _ := {}
  pending _ := {}
  ticks := cfg.ticks

/-- The state before `sched_start`: every task has been created. -/
def created : Kernel := cfg.priorities.foldl Kernel.createSection cfg.schedInit

/-- What the creation of a task keeps holds after the creation of all of them. -/
theorem created_induct {I : Kernel → Prop} (h₀ : I cfg.schedInit)
    (hstep : ∀ k p, I k → I (k.createSection p)) : I cfg.created := by
  have hfold : ∀ (ps : List ℕ) (k : Kernel), I k → I (ps.foldl Kernel.createSection k) := by
    intro ps
    induction ps with
    | nil => exact fun k hk => hk
    | cons p ps ih => exact fun k hk => ih _ (hstep k p hk)
  exact hfold cfg.priorities cfg.schedInit h₀

end Config

/-- `sched_start`. -/
def Kernel.schedStart (k : Kernel) : Kernel :=
  { k with
    currentTask := some k.schedSelectNext
    nextTask := some k.schedSelectNext }.setState k.schedSelectNext .running

/-- The machine that starts to run the first task. -/
def Machine.start (cfg : Config) : Machine where
  kernel := cfg.created.schedStart
  ctl _ := .app
  depth := 0

namespace Machine

/-! ### What an action can do -/

variable {m m' : Machine} {a : Action} {o : List Obs}

@[simp] theorem kernel_resume (m : Machine) (x : Ctx) (k' : Kernel) (c' : Ctl) :
    (m.resume x k' c').kernel = k' :=
  rfl

@[simp] theorem ctl_resume (m : Machine) (x : Ctx) (k' : Kernel) (c' : Ctl) :
    (m.resume x k' c').ctl = Function.update m.ctl x c' :=
  rfl

/-- A handler is no thread. -/
theorem update_isr (f : Ctx → Ctl) (i : ℕ) (c : Ctl) (t : TaskPtr) :
    Function.update f (.isr i) c (.thread t) = f (.thread t) :=
  Function.update_of_ne (by simp) ..

theorem active_thread {t : TaskPtr} (h : m.active = some (.thread t)) :
    m.depth = 0 ∧ m.kernel.pendsv = false ∧ m.kernel.currentTask = some t := by
  unfold active at h
  split at h
  · cases h
  · rename_i hd
    split_ifs at h with hp
    obtain ⟨u, hu, he⟩ := Option.map_eq_some_iff.1 h
    cases he
    exact ⟨hd, by simpa using hp, hu⟩

theorem active_isr {d : ℕ} (h : m.active = some (.isr d)) : m.depth = d + 1 := by
  unfold active at h
  split at h
  · rename_i e hd
    cases h
    exact hd
  · split_ifs at h
    obtain ⟨u, -, he⟩ := Option.map_eq_some_iff.1 h
    cases he

/-- The inversion of `step`: the kinds of action. -/
theorem step_cases (h : m.step a = some (m', o)) :
    (∃ c i, a = .call c ∧ m.active = some (.thread (.tcb i)) ∧
      (m.ctl (.thread (.tcb i))).atRest ∧
      m' = { m with ctl := Function.update m.ctl (.thread (.tcb i)) c.entry } ∧ o = []) ∨
    (∃ x t k' c', a = .exec ∧ m.active = some x ∧ m.kernel.currentTask = some t ∧
      ctlStep m.kernel t (m.ctl x) = some (k', c', o) ∧ m' = m.resume x k' c') ∨
    (∃ c, a = .irq c ∧ c.isrSafe ∧
      m' = { m with
        ctl := Function.update m.ctl (.isr m.depth) c.entry, depth := m.depth + 1 } ∧ o = []) ∨
    (a = .pendSV ∧ m.depth = 0 ∧ m.kernel.pendsv = true ∧
      m' = { m with kernel := m.kernel.pendSV } ∧ o = []) ∨
    (∃ n, a = .clock n ∧ m' = { m with kernel := m.kernel.advanceClock n } ∧ o = []) ∨
    (∃ n k', a = .tick n ∧ m.kernel.schedTickN n = some k' ∧ m' = { m with kernel := k' } ∧
      o = []) := by
  cases a with
  | call c =>
    left
    simp only [step] at h
    split at h
    · rename_i i hact
      split_ifs at h with hrest
      obtain ⟨rfl, rfl⟩ : _ = m' ∧ [] = o := by simpa using h
      exact ⟨c, i, rfl, hact, hrest, rfl, rfl⟩
    · cases h
  | exec =>
    right; left
    simp only [step] at h
    split at h
    · rename_i x t hact hcur
      split at h
      · rename_i k' c' o' hstep
        obtain ⟨rfl, rfl⟩ : m.resume x k' c' = m' ∧ o' = o := by simpa using h
        exact ⟨x, t, k', c', rfl, hact, hcur, hstep, rfl⟩
      · cases h
    · cases h
  | irq c =>
    right; right; left
    simp only [step] at h
    split_ifs at h with hsafe
    obtain ⟨rfl, rfl⟩ : _ = m' ∧ [] = o := by simpa using h
    exact ⟨c, rfl, hsafe, rfl, rfl⟩
  | pendSV =>
    right; right; right; left
    simp only [step] at h
    split_ifs at h with hp
    obtain ⟨rfl, rfl⟩ : _ = m' ∧ [] = o := by simpa using h
    exact ⟨rfl, hp.1, hp.2, rfl, rfl⟩
  | clock n =>
    right; right; right; right; left
    obtain ⟨rfl, rfl⟩ : _ = m' ∧ [] = o := by simpa [step] using h
    exact ⟨n, rfl, rfl, rfl⟩
  | tick n =>
    right; right; right; right; right
    obtain ⟨k', hk, he⟩ := Option.map_eq_some_iff.1 h
    obtain ⟨rfl, rfl⟩ : _ = m' ∧ [] = o := by simpa using he
    exact ⟨n, k', rfl, hk, rfl, rfl⟩

theorem step_pendSV (h : m.step .pendSV = some (m', o)) :
    m' = { m with kernel := m.kernel.pendSV } := by
  simp only [step] at h
  split_ifs at h
  exact (congrArg Prod.fst (Option.some.inj h)).symm

end Machine

/-! ### Runs given by their actions -/

/-- A run along actions that are all possible. -/
structure Scenario where
  config : Config
  actions : List Action
  possible : (Run.exec Machine.step (Machine.start config) actions).isSome = true

namespace Scenario

variable (s : Scenario)

/-- The machine after the run. -/
def final : Machine :=
  ((Run.exec Machine.step (Machine.start s.config) s.actions).get s.possible).1

/-- What the run has reported. -/
def reports : List Obs :=
  ((Run.exec Machine.step (Machine.start s.config) s.actions).get s.possible).2

theorem reach {ok : Machine → Action → Prop}
    (h : Run.Permitted Machine.step ok (Machine.start s.config) s.actions) :
    Run.Reach Machine.step ok (Machine.start s.config) s.final s.reports :=
  Run.Reach.exec h s.possible

variable {γ : Type*} (note : Machine → Action → List Obs → γ → γ) (g : γ)

/-- The machine and the record of its history after the run. -/
def noted : Machine × γ :=
  ((Run.exec (Run.annotate Machine.step note) (Machine.start s.config, g) s.actions).get
    (by rw [Run.isSome_exec_annotate]; exact s.possible)).1

theorem reach_noted {ok : Machine × γ → Action → Prop}
    (h : Run.Permitted (Run.annotate Machine.step note) ok (Machine.start s.config, g) s.actions) :
    ∃ out, Run.Reach (Run.annotate Machine.step note) ok (Machine.start s.config, g)
      ((s.noted note g).1, (s.noted note g).2) out :=
  ⟨_, Run.Reach.exec h _⟩

end Scenario

end TamgaOs
