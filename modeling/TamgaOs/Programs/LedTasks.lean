import TamgaOs.Machine.Orderly

/-!
# The LED tasks of the K64F

`main.c` of the K64F starts two tasks that blink one LED each and pass the turn to each other through
two semaphores. They run on the machine together with the other tasks and the interrupt handlers,
whose code is arbitrary. An LED is lit while its bit in the output register of port B is clear.

## Main definitions

* `Led`, `Led.body`: the two tasks, and the loop that each of them runs.
* `Leds`, `Leds.step`: the machine, the output register and the place of both tasks in their loops.
* `k64fMain`, `Leds.start`: what `main` sets up.
-/

namespace TamgaOs

/-- The two tasks, after the colour of their LED. -/
inductive Led
  | red
  | blue
  deriving DecidableEq

/-- A statement of their loops. -/
inductive LedStmt
  /-- `GPIOB->PCOR = pin`. -/
  | pcor
  /-- `GPIOB->PSOR = pin`. -/
  | psor
  | delay (ms : ℕ)
  | give
  | take
  | puts (text : String)
  deriving DecidableEq

namespace Led

/-- The bit of `LED_RED_PIN` and of `LED_BLUE_PIN`. -/
def pin : Led → ℕ
  | red => 22
  | blue => 21

/-- `main` creates the tasks in this order. -/
def index : Led → ℕ
  | red => 0
  | blue => 1

def task (l : Led) : TaskPtr := .tcb l.index

/-- The semaphore that the task gives: 0 is `g_sem_red_to_blue`, and 1 is `g_sem_blue_to_red`. -/
def gives : Led → ℕ
  | red => 0
  | blue => 1

/-- The semaphore that the task takes. -/
def takes : Led → ℕ
  | red => 1
  | blue => 0

def other : Led → Led
  | red => blue
  | blue => red

/-- The body of the loop of `task_led_red` and `task_led_blue`. -/
def body : Led → List LedStmt
  | red =>
    [.pcor, .delay 500, .psor, .puts "[RED] before give\r\n", .give,
      .puts "[RED] after give, before take\r\n", .take, .puts "[RED] after take\r\n"]
  | blue =>
    [.take, .puts "[BLUE] got sem\r\n", .pcor, .delay 500, .psor, .give,
      .puts "[BLUE] gave sem\r\n"]

/-- The mask of the pin. -/
def mask (l : Led) : BitVec 32 := 1#32 <<< l.pin

end Led

/-- What can be seen from outside. -/
inductive LedObs
  | lit (l : Led)
  | sent (text : String)
  | kernel (o : Obs)
  deriving DecidableEq

/-- The state of the board. -/
structure Leds where
  machine : Machine
  /-- The output register of port B. -/
  pdor : BitVec 32
  /-- What is left of the pass through the loop. -/
  todo : Led → List LedStmt

/-- What can happen next. -/
inductive LedAction
  /-- The running LED task executes its next statement. -/
  | statement
  | machine (a : Action)
  deriving DecidableEq

namespace Leds

variable (s : Leds)

/-- The LED is lit. -/
def IsLit (l : Led) : Prop := s.pdor.getLsbD l.pin = false

instance (l : Led) : Decidable (s.IsLit l) := inferInstanceAs (Decidable (_ = _))

/-- The LED task that runs. -/
def running : Option Led :=
  if s.machine.active = some (.thread Led.red.task) then some .red
  else if s.machine.active = some (.thread Led.blue.task) then some .blue
  else none

/-- An action of the machine. -/
def act (a : Action) : Option (Leds × List LedObs) :=
  (s.machine.step a).map fun r => ({ s with machine := r.1 }, r.2.map .kernel)

/-- The task goes on to what is left. -/
def goto (l : Led) (rest : List LedStmt) : Leds := { s with todo := Function.update s.todo l rest }

/-- The next statement of a task. -/
def execStmt (l : Led) : Option (Leds × List LedObs) :=
  match s.todo l with
  | [] => some (s.goto l l.body, [])
  | .pcor :: rest => some ({ s.goto l rest with pdor := s.pdor &&& ~~~l.mask }, [.lit l])
  | .psor :: rest => some ({ s.goto l rest with pdor := s.pdor ||| l.mask }, [])
  | .puts text :: rest => some (s.goto l rest, [.sent text])
  | .delay ms :: rest => (s.goto l rest).act (.call (.schedDelayMs ms))
  | .give :: rest => (s.goto l rest).act (.call (.semGive l.gives))
  | .take :: rest => (s.goto l rest).act (.call (.semTake l.takes))

/-- The board after an action. The LED tasks make no calls but those of their loops. -/
def step (s : Leds) : LedAction → Option (Leds × List LedObs)
  | .statement =>
    match s.running with
    | some l => if (s.machine.ctl (.thread l.task)).atRest then s.execStmt l else none
    | none => none
  | .machine (.call c) =>
    match s.running with
    | some _ => none
    | none => s.act (.call c)
  | .machine a => s.act a

end Leds

/-- What `main` creates: the priorities are 0 for high, 1 for normal and 2 for low. -/
def k64fMain : Config where
  priorities := [1, 1, 0, 2, 1, 2, 1, 1]
  sem _ := ⟨0, 1⟩

/-- The state after `sched_start`. `board_init` has set both pins. -/
def Leds.start : Leds where
  machine := .start k64fMain
  pdor := (0 ||| Led.red.mask) ||| Led.blue.mask
  todo _ := []

/-- The call is about one of the semaphores of the LED tasks. -/
def Call.usesLedSem : Call → Bool
  | .semTake s | .semGive s | .semTrytake s => decide (s = 0 ∨ s = 1)
  | _ => false

/-- The other tasks and the handlers leave the two semaphores alone, and make none of the calls that
wake or resume a task outside the critical section that has unlinked it. -/
def LedAction.Apart : LedAction → Prop
  | .statement => True
  | .machine a => a.Within fun c => c.Steady ∧ c.usesLedSem = false

instance : DecidablePred LedAction.Apart
  | .statement => .isTrue trivial
  | .machine a => inferInstanceAs (Decidable (a.Within _))

end TamgaOs
