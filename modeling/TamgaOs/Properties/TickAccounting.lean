import TamgaOs.Machine.Tickless

/-!
# The accounting of ticks

The tick is counted by `SysTick_Handler` and, after a sleep, by the idle task, which executes
`sched_tick_n` and `timer_service_tick` statement by statement. Beside the machine runs an account of
every delay and every timer: what both have counted, and how often a callback has been called.

## Main definitions

* `TaskAccount`, `TimerAccount`, `Accounts`, `Tickless.account`: the accounts, and how a step is
  entered.
* `Tickless.Accounted`: the delays and the timers agree with the accounts.
* `Tickless.TestHolds`: what the idle task has tested is still true when it acts on it.

## Main results

* `ticks_accounted`: from every state, along the runs whose steps meet the condition.
* `ticks_unaccounted`: the handler comes between a comparison and the subtraction.
-/

namespace TamgaOs

/-- The account of a delay: its length when it began, and the ms that have been counted since. -/
structure TaskAccount where
  start : ℕ
  counted : ℕ

/-- The account of a timer. -/
structure TimerAccount where
  /-- The deadline when the timer was started, or its period was set. -/
  base : ℕ
  /-- The expiries since then. -/
  periods : ℕ
  /-- The expiries since the timer was started. -/
  shots : ℕ
  /-- The expiries with a callback. -/
  expired : ℕ
  /-- The calls of the callback. -/
  called : ℕ

/-- An expiry of the timer. -/
def TimerAccount.expire (r : TimerAccount) (callback : Option ℕ) : TimerAccount :=
  { r with
    periods := r.periods + 1, shots := r.shots + 1
    expired := r.expired + callback.isSome.toNat }

structure Accounts where
  task : ℕ → TaskAccount
  timer : ℕ → TimerAccount

/-- The index of the task that the idle task is about to make ready. -/
def IdleCtl.expiring : IdleCtl → Option ℕ
  | .tick _ (.headTest i) | .tick _ (.remove i) | .tick _ (.removeHead i _)
  | .tick _ (.removeStart i _) | .tick _ (.removeTest i _) | .tick _ (.removeNext i _)
  | .tick _ (.removeLink i _) | .tick _ (.clearHead i) | .tick _ (.mark i)
  | .tick _ (.ready i) => some i
  | _ => none

/-- The idle task is about to call the callback of the timer at the index `j`. -/
def IdleCtl.calling (j : ℕ) : IdleCtl → Bool
  | .service (.call _ i (some _) _) => decide (i = j)
  | _ => false

/-- The report is a call for the timer at the index `j`. -/
def TicklessObs.callsOf (j : ℕ) : TicklessObs → Bool
  | called c => decide (c.index = j)
  | kernel _ => false

namespace Tickless

variable (b : Board) (s : Tickless)

/-- The task at the index `i` is blocked. -/
def Blocked (i : ℕ) : Prop := (s.kernel.tcb (.tcb i)).state = .blocked

instance (i : ℕ) : Decidable (s.Blocked i) := inferInstanceAs (Decidable (_ = _))

/-- `delay_ticks`. -/
abbrev delayTicks (i : ℕ) : ℕ := (s.kernel.tcb (.tcb i)).delayTicks

/-- The ms that a step counts for the task at the index `i`. -/
def charge (a : TicklessAction) (i : ℕ) : ℕ :=
  match a, s.idle with
  | .sysTick, _ =>
    if s.ticklessActive = false ∧ i < s.kernel.taskCount ∧ s.kernel.Waiting i then 1 else 0
  | .idle, .tick n c => if c.charges = some i then n else 0
  | _, _ => 0

/-- The account of a task after a step that leads to `s'`. It is opened anew when the step of a task
or of a handler changes the delay, blocks the task or makes it ready. -/
def taskAccount (s' : Tickless) (a : TicklessAction) (i : ℕ) (r : TaskAccount) : TaskAccount :=
  match a with
  | .kernel _ =>
    if (s'.Blocked i ↔ s.Blocked i) ∧ s'.delayTicks i = s.delayTicks i then r
    else ⟨s'.delayTicks i, 0⟩
  | _ => { r with counted := r.counted + s.charge a i }

/-- The account of a timer after a step that leads to `s'`, before its calls are entered. -/
def timerAccount (s' : Tickless) (a : TicklessAction) (j : ℕ) (r : TimerAccount) : TimerAccount :=
  match a, s.idle with
  | .timer op, _ =>
    if op.starts s.timers = some j then
      { r with base := (s'.timers j).deadlineMs, periods := 0, shots := 0 }
    else if op.paces s.timers = some j then
      { r with base := (s'.timers j).deadlineMs, periods := 0 }
    else r
  | .sysTick, _ =>
    if s.ticklessActive = false ∧ j < timerMaxCount ∧ (s.timers j).running = true ∧
        (s.timers j).due ((s.kernel.ticks + 1) % 2 ^ 32) = true then
      r.expire (s.timers j).callback
    else r
  | .idle, .service (.advance _ i cb _) | .idle, .service (.deactivate _ i cb _) =>
    if i = j then r.expire cb else r
  | _, _ => r

/-- The account of a timer after a step with the reports `o`. -/
def timerEntry (s' : Tickless) (a : TicklessAction) (o : List TicklessObs) (j : ℕ)
    (r : TimerAccount) : TimerAccount :=
  { s.timerAccount s' a j r with
    called := (s.timerAccount s' a j r).called + o.countP (TicklessObs.callsOf j) }

/-- The accounts after a step. -/
def account (s : Tickless) (a : TicklessAction) (o : List TicklessObs) (g : Accounts) : Accounts :=
  let s' := ((s.step b a).map Prod.fst).getD s
  { task := fun i => s.taskAccount s' a i (g.task i)
    timer := fun j => s.timerEntry s' a o j (g.timer j) }

/-- The machine with its accounts. -/
def accounted : Tickless × Accounts → TicklessAction →
    Option ((Tickless × Accounts) × List TicklessObs) :=
  Run.annotate (step b) (account b)

/-- The accounts are opened. -/
def openAccounts : Accounts where
  task i := ⟨s.delayTicks i, 0⟩
  timer j := ⟨(s.timers j).deadlineMs, 0, 0, (s.idle.calling j).toNat, 0⟩

/-- The state agrees with the accounts: a delay is what both have left of it, and no delay is more
than it was; a blocked task whose delay is over is about to be made ready; every expiry is followed
by one call; a one-shot timer has expired once at most since its start, and an auto-reload timer once
for each period that its deadline has advanced. -/
structure Accounted (g : Accounts) : Prop where
  exact : ∀ i, s.Blocked i → s.delayTicks i = (g.task i).start - (g.task i).counted
  noWrap : ∀ i, s.delayTicks i ≤ (g.task i).start
  noLost : ∀ i, s.Blocked i → s.delayTicks i = 0 →
    (g.task i).start = 0 ∨ s.idle.expiring = some i
  calls : ∀ j, (g.timer j).called + (s.idle.calling j).toNat = (g.timer j).expired
  oneShot : ∀ j, (s.timers j).autoReload = false → (g.timer j).shots ≤ 1 ∧
    ((s.timers j).active = true → (g.timer j).shots = 0)
  autoReload : ∀ j, (s.timers j).autoReload = true → (s.timers j).deadlineMs % 2 ^ 32 =
    ((g.timer j).base + (g.timer j).periods * (s.timers j).periodMs) % 2 ^ 32

/-- The condition on a statement of the idle task: when it ends or shortens the delay of a blocked
task, the comparison that has led there is still true, and a delay that it shortens does not end;
when it serves a timer, the timer still runs, is due and is of the kind that has been tested. -/
def TestHolds : TicklessAction → Prop
  | .idle =>
    match s.idle with
    | .tick n (.zero i) => s.Blocked i → 0 < s.delayTicks i ∧ s.delayTicks i ≤ n
    | .tick n (.subtract i) => n ≤ s.delayTicks i ∧ (s.Blocked i → n ≠ s.delayTicks i)
    | .service (.advance now j _ _) =>
      (s.timers j).running = true ∧ (s.timers j).due now = true ∧ (s.timers j).autoReload = true
    | .service (.deactivate now j _ _) =>
      (s.timers j).running = true ∧ (s.timers j).due now = true ∧ (s.timers j).autoReload = false
    | _ => True
  | _ => True

instance (a : TicklessAction) : Decidable (s.TestHolds a) := by
  unfold TestHolds
  split
  · induction s.idle using IdleCtl.casesOn with
    | tick n c => cases c <;> dsimp only <;> infer_instance
    | service c => cases c <;> dsimp only <;> infer_instance
    | _ => exact inferInstanceAs (Decidable True)
  · infer_instance

variable {b s} {s' : Tickless} {a : TicklessAction} {o : List TicklessObs} {g : Accounts}

/-! ### Delays -/

/-- The part of `Accounted` about one task. -/
structure TaskAccounted (s : Tickless) (i : ℕ) (r : TaskAccount) : Prop where
  exact : s.Blocked i → s.delayTicks i = r.start - r.counted
  noWrap : s.delayTicks i ≤ r.start
  noLost : s.Blocked i → s.delayTicks i = 0 → r.start = 0 ∨ s.idle.expiring = some i

/-- The program points at which the idle task makes a task ready. -/
theorem expiring_tickStep {k k' : Kernel} {n i : ℕ} {c : TickCtl} {c' : Option TickCtl}
    (h : tickStep k n c = some (k', c')) (he : (IdleCtl.tick n c).expiring = some i) :
    (∃ c'', c' = some c'' ∧ (IdleCtl.tick n c'').expiring = some i) ∨
      (k'.tcb (.tcb i)).state = .ready := by
  cases c with
  | headTest j =>
    cases he
    simp only [tickStep] at h
    split at h <;> cases h <;> exact Or.inl ⟨_, rfl, rfl⟩
  | remove j =>
    cases he
    simp only [tickStep] at h
    split at h
    · split_ifs at h <;> cases h <;> exact Or.inl ⟨_, rfl, rfl⟩
    · cases h
  | removeTest j cur =>
    cases he
    simp only [tickStep] at h
    split at h
    · split_ifs at h <;> cases h <;> exact Or.inl ⟨_, rfl, rfl⟩
    · cases h
      exact Or.inl ⟨_, rfl, rfl⟩
  | removeHead | removeStart | removeNext | removeLink | clearHead | mark =>
    cases he
    cases h
    exact Or.inl ⟨_, rfl, rfl⟩
  | ready j =>
    cases he
    cases h
    exact Or.inr (by rw [Kernel.setState, Kernel.modifyTask_self])
  | test | compare | zero | subtract | currentTest | currentReady | nextTest | nextReady | select
  | install | runTest | run | switchTest | switch => cases he

/-- The delays are as before, and nothing has been counted. -/
theorem TaskAccounted.same {i : ℕ} {r : TaskAccount} (h : s.TaskAccounted i r)
    (hkernel : s'.kernel.tcb = s.kernel.tcb)
    (hidle : s.idle.expiring = some i → s'.idle.expiring = some i) : s'.TaskAccounted i r := by
  have hblocked : s'.Blocked i ↔ s.Blocked i := by
    unfold Blocked
    rw [hkernel]
  have hdelay : s'.delayTicks i = s.delayTicks i := by
    unfold delayTicks
    rw [hkernel]
  exact ⟨fun hb => hdelay ▸ h.exact (hblocked.1 hb), hdelay ▸ h.noWrap,
    fun hb hz => (h.noLost (hblocked.1 hb) (hdelay ▸ hz)).imp_right hidle⟩

/-- A statement of `sched_tick_n` in the idle task. -/
theorem TaskAccounted.tickStep {i n : ℕ} {c : TickCtl} {c' : Option TickCtl} {k' : Kernel}
    {r : TaskAccount} (h : s.TaskAccounted i r) (hc : s.idle = .tick n c) (hok : s.TestHolds .idle)
    (hs : tickStep s.kernel n c = some (k', c')) (hk : s'.kernel = k')
    (hc' : s'.idle = (c'.map (IdleCtl.tick n)).getD (.service .now)) :
    s'.TaskAccounted i { r with counted := r.counted + s.charge .idle i } := by
  have hstmt := TickStmt.of_tickStep hs
  have hblocked : s'.Blocked i → s.Blocked i := fun hb => hstmt.blocked _ (hk ▸ hb)
  simp only [TestHolds, hc] at hok
  simp only [charge, hc]
  by_cases hcharge : c.charges = some i
  · rw [if_pos hcharge]
    have hexact := h.exact
    have hle := h.noWrap
    cases c with
    | zero j =>
      obtain rfl : j = i := Option.some.inj hcharge
      have hdelay : s'.delayTicks j = 0 := by
        cases hs
        simp [delayTicks, hk]
      refine ⟨fun hb => ?_, hdelay.trans_le (Nat.zero_le _), fun _ _ => Or.inr ?_⟩
      · have hrun := hok (hblocked hb)
        have hwas := hexact (hblocked hb)
        show s'.delayTicks j = r.start - (r.counted + n)
        rw [hdelay]
        omega
      · cases hs
        rw [hc']
        rfl
    | subtract j =>
      obtain rfl : j = i := Option.some.inj hcharge
      have hdelay : s'.delayTicks j = s.delayTicks j - n := by
        cases hs
        simp only [delayTicks, hk, Kernel.modifyTask_self]
        exact if_pos hok.1
      refine ⟨fun hb => ?_, ?_, fun hb hz => ?_⟩
      · have hwas := hexact (hblocked hb)
        show s'.delayTicks j = r.start - (r.counted + n)
        rw [hdelay]
        omega
      · rw [hdelay]
        exact (Nat.sub_le ..).trans hle
      · have hne := hok.2 (hblocked hb)
        have hn := hok.1
        rw [hdelay] at hz
        omega
    | _ => cases hcharge
  · rw [if_neg hcharge]
    have hdelay : s'.delayTicks i = s.delayTicks i := by
      unfold delayTicks
      rw [hk]
      exact hstmt.delayTicks _ fun j hj he => hcharge (by cases he; exact hj)
    refine ⟨fun hb => hdelay ▸ h.exact (hblocked hb), hdelay ▸ h.noWrap, fun hb hz => ?_⟩
    refine (h.noLost (hblocked hb) (hdelay ▸ hz)).imp_right fun he => ?_
    rw [hc] at he
    rcases expiring_tickStep hs he with ⟨c'', rfl, hnext⟩ | hready
    · rw [hc']
      exact hnext
    · rw [Blocked, hk, hready] at hb
      cases hb

/-- The tick of the handler. -/
theorem TaskAccounted.schedTickN {i : ℕ} {k' : Kernel} {r : TaskAccount}
    (h : s.TaskAccounted i r) (hs : (s.kernel.advanceClock 1).schedTickN 1 = some k')
    (hact : s.ticklessActive = false) (hk : s'.kernel = k') (hidle : s'.idle = s.idle) :
    s'.TaskAccounted i { r with counted := r.counted + s.charge .sysTick i } := by
  subst hk
  have htick := Kernel.delay_schedTickN hs i
  have hticked : (s.kernel.advanceClock 1).ticked 1 (.tcb i) = s.kernel.ticked 1 (.tcb i) := rfl
  rw [hticked] at htick
  have hcharge : s.charge .sysTick i =
      if i < s.kernel.taskCount ∧ s.kernel.Waiting i then 1 else 0 := by
    simp [charge, hact]
  by_cases hwait : i < s.kernel.taskCount ∧ s.kernel.Waiting i
  · rw [if_pos (show i < (s.kernel.advanceClock 1).taskCount from hwait.1),
      if_pos (show i < (s.kernel.advanceClock 1).taskCount from hwait.1)] at htick
    rw [hcharge, if_pos hwait]
    obtain ⟨hi, hblocked, hpos⟩ := hwait
    have hwas : s.delayTicks i = r.start - r.counted := h.exact hblocked
    have hpos' : 0 < s.delayTicks i := hpos
    simp only [Kernel.ticked, if_pos (show _ ∧ _ from ⟨hblocked, hpos⟩)] at htick
    split_ifs at htick with hle
    · -- the delay ends, and the task is ready
      have hnot : ¬s'.Blocked i := fun hb => by cases htick.2.1 hb
      exact ⟨fun hb => absurd hb hnot, htick.1.trans_le (Nat.zero_le _),
        fun hb => absurd hb hnot⟩
    · have hdelay : s'.delayTicks i = s.delayTicks i - 1 := htick.1
      have hlong : 1 < s.delayTicks i := Nat.lt_of_not_le hle
      refine ⟨fun _ => ?_, ?_, fun _ hz => ?_⟩
      · show s'.delayTicks i = r.start - (r.counted + 1)
        rw [hdelay]
        omega
      · have hnoWrap := h.noWrap
        rw [hdelay]
        show s.delayTicks i - 1 ≤ r.start
        omega
      · rw [hdelay] at hz
        omega
  · rw [hcharge, if_neg hwait]
    have hsame : s'.delayTicks i = s.delayTicks i ∧ (s'.Blocked i ↔ s.Blocked i) := by
      by_cases hi : i < s.kernel.taskCount
      · rw [if_pos (show i < (s.kernel.advanceClock 1).taskCount from hi),
          if_pos (show i < (s.kernel.advanceClock 1).taskCount from hi)] at htick
        simp only [Kernel.ticked,
          if_neg (show ¬(_ ∧ _) from fun hw => hwait ⟨hi, hw⟩)] at htick
        exact htick
      · rw [if_neg (show ¬i < (s.kernel.advanceClock 1).taskCount from hi),
          if_neg (show ¬i < (s.kernel.advanceClock 1).taskCount from hi)] at htick
        exact htick
    obtain ⟨hdelay, hblocked⟩ := hsame
    exact ⟨fun hb => hdelay ▸ h.exact (hblocked.1 hb), hdelay ▸ h.noWrap,
      fun hb hz => hidle ▸ h.noLost (hblocked.1 hb) (hdelay ▸ hz)⟩

theorem TaskAccounted.step {i : ℕ} {r : TaskAccount} (h : s.TaskAccounted i r)
    (hok : s.TestHolds a) (hs : s.step b a = some (s', o)) :
    s'.TaskAccounted i (s.taskAccount s' a i r) := by
  rcases step_cases hs with ⟨a', m', o', rfl, -, -, -, rfl, -⟩ | ⟨op, rfl, rfl, -⟩ |
    ⟨rfl, -, -, hidle⟩ | ⟨rfl, rfl, -⟩ | ⟨rfl, -, hh⟩
  · simp only [taskAccount]
    split_ifs with hsame
    · obtain ⟨hblocked, hdelay⟩ := hsame
      exact ⟨fun hb => hdelay.trans (h.exact (hblocked.1 hb)), hdelay.trans_le h.noWrap,
        fun hb hz => h.noLost (hblocked.1 hb) (hdelay.symm.trans hz)⟩
    · exact ⟨fun _ => rfl, le_rfl, fun _ hz => Or.inl hz⟩
  · exact h.same rfl id
  · have hnone : ∀ s'' : Tickless, s.charge .idle i = 0 → s''.kernel.tcb = s.kernel.tcb →
        s.idle.expiring = none → s''.TaskAccounted i (s.taskAccount s'' .idle i r) := by
      intro s'' hcharge hkernel hexp
      have hsame : s''.TaskAccounted i r := h.same hkernel (by rw [hexp]; simp)
      simp only [taskAccount, hcharge]
      exact hsame
    unfold idleStep at hidle
    split at hidle
    · rename_i hc
      cases hidle
      exact hnone _ (by simp [charge, hc]) rfl (by simp [IdleCtl.expiring, hc])
    · rename_i hc
      cases hidle
      exact hnone _ (by simp [charge, hc]) rfl (by simp [IdleCtl.expiring, hc])
    · rename_i hc
      cases hidle
      exact hnone _ (by simp [charge, hc]) rfl (by simp [IdleCtl.expiring, hc])
    · rename_i hc
      cases hidle
      exact hnone _ (by simp [charge, hc]) rfl (by simp [IdleCtl.expiring, hc])
    · rename_i c hc
      cases hidle
      refine hnone _ (by simp [charge, hc]) ?_ (by simp [IdleCtl.expiring, hc])
      cases c <;> rfl
    · rename_i n c hc
      obtain ⟨⟨k', c'⟩, hr, he⟩ := Option.map_eq_some_iff.1 hidle
      cases he
      exact h.tickStep hc hok hr rfl rfl
    · rename_i hc
      cases hidle
      exact hnone _ (by simp [charge, hc]) rfl (by simp [IdleCtl.expiring, hc])
  · exact h.same rfl id
  · rcases handlerStep_cases hh with ⟨hact, -, rfl⟩ | ⟨k', hact, hk, rfl, -⟩
    · have hcharge : s.charge .sysTick i = 0 := by simp [charge, hact]
      simp only [taskAccount, hcharge]
      exact h.same rfl id
    · exact h.schedTickN hk hact rfl rfl

/-! ### Timers -/

/-- The part of `Accounted` about one timer. -/
structure TimerAccounted (s : Tickless) (j : ℕ) (r : TimerAccount) : Prop where
  calls : r.called + (s.idle.calling j).toNat = r.expired
  oneShot : (s.timers j).autoReload = false →
    r.shots ≤ 1 ∧ ((s.timers j).active = true → r.shots = 0)
  autoReload : (s.timers j).autoReload = true → (s.timers j).deadlineMs % 2 ^ 32 =
    (r.base + r.periods * (s.timers j).periodMs) % 2 ^ 32

variable {j : ℕ} {r : TimerAccount}

/-- The timer is as before, and no call is made or due. -/
theorem TimerAccounted.same (h : s.TimerAccounted j r) (htimer : s'.timers j = s.timers j)
    (hidle : s'.idle.calling j = s.idle.calling j) : s'.TimerAccounted j r := by
  refine ⟨hidle ▸ h.calls, fun ha => ?_, fun ha => ?_⟩
  · rw [htimer] at ha ⊢
    exact h.oneShot ha
  · rw [htimer] at ha ⊢
    exact h.autoReload ha

/-- An expiry that reloads or stops the timer. -/
theorem TimerAccounted.expire (h : s.TimerAccounted j r) (hrun : (s.timers j).running = true)
    {cb : Option ℕ} {n : ℕ} (htimer : s'.timers j = (s.timers j).reload)
    (hcalls : n + (s'.idle.calling j).toNat = cb.isSome.toNat + (s.idle.calling j).toNat) :
    s'.TimerAccounted j { r.expire cb with called := (r.expire cb).called + n } := by
  have hactive : (s.timers j).active = true := by
    unfold Timer.running at hrun
    exact ((Bool.and_eq_true _ _).mp hrun).2
  refine ⟨?_, fun ha => ?_, fun ha => ?_⟩
  · have hwas := h.calls
    show r.called + n + (s'.idle.calling j).toNat = r.expired + cb.isSome.toNat
    omega
  · rw [htimer] at ha ⊢
    unfold Timer.reload at ha ⊢
    split_ifs at ha ⊢ with hauto
    · exact absurd hauto (by simp only at ha; simp [ha])
    · have hzero := (h.oneShot (by simpa using hauto)).2 hactive
      refine ⟨?_, fun he => by cases he⟩
      show r.shots + 1 ≤ 1
      omega
  · rw [htimer] at ha ⊢
    unfold Timer.reload at ha ⊢
    split_ifs at ha ⊢ with hauto
    · have hwas := h.autoReload hauto
      show ((s.timers j).deadlineMs + (s.timers j).periodMs) % 2 ^ 32 % 2 ^ 32 =
        (r.base + (r.periods + 1) * (s.timers j).periodMs) % 2 ^ 32
      rw [Nat.mod_mod, Nat.add_mod, hwas, ← Nat.add_mod, Nat.add_mul, Nat.one_mul, Nat.add_assoc]
    · exact absurd ha hauto

/-- A call of `timer.c`. -/
theorem TimerAccounted.call (h : s.TimerAccounted j r) (op : TimerOp)
    (htimers : s'.timers = s.timers.call s.kernel.ticks op) (hidle : s'.idle = s.idle) :
    s'.TimerAccounted j (s.timerEntry s' (.timer op) [] j r) := by
  have hcalls : r.called + (s'.idle.calling j).toNat = r.expired := hidle ▸ h.calls
  simp only [timerEntry, timerAccount, List.countP_nil, Nat.add_zero]
  split_ifs with hstart hpace
  · exact ⟨hcalls, fun _ => ⟨Nat.zero_le 1, fun _ => rfl⟩, fun _ => by simp⟩
  · have hsame : (s.timers j).Unstarted (s'.timers j) := by
      rw [htimers]
      exact (Timers.unstarted_call hstart).1
    refine ⟨hcalls, fun ha => ?_, fun _ => by simp⟩
    obtain ⟨hone, hactive⟩ := h.oneShot (hsame.autoReload.symm.trans ha)
    exact ⟨hone, fun hact => hactive (hsame.active hact)⟩
  · have hsame : (s.timers j).Unstarted (s'.timers j) := by
      rw [htimers]
      exact (Timers.unstarted_call hstart).1
    have hp : (s'.timers j).periodMs = (s.timers j).periodMs := by
      rw [htimers]
      exact (Timers.unstarted_call hstart).2 hpace
    refine ⟨hcalls, fun ha => ?_, fun ha => ?_⟩
    · obtain ⟨hone, hactive⟩ := h.oneShot (hsame.autoReload.symm.trans ha)
      exact ⟨hone, fun hact => hactive (hsame.active hact)⟩
    · rw [hsame.deadlineMs, hp]
      exact h.autoReload (hsame.autoReload.symm.trans ha)

/-- The calls among the reports of a tick. -/
theorem countP_called (cs : List TimerCall) : (cs.map TicklessObs.called).countP
    (TicklessObs.callsOf j) = cs.countP fun c => decide (c.index = j) := by
  rw [List.countP_map]
  rfl

/-- A statement of `timer_service_tick` in the idle task. -/
theorem TimerAccounted.serviceStep {c : ServiceCtl} (h : s.TimerAccounted j r)
    (hc : s.idle = .service c) (hok : s.TestHolds .idle)
    (htimers : s'.timers = (serviceStep s.timers s.kernel.ticks c).1)
    (hc' : s'.idle =
      ((serviceStep s.timers s.kernel.ticks c).2.1.map IdleCtl.service).getD .loop) :
    s'.TimerAccounted j (s.timerEntry s' .idle
      ((serviceStep s.timers s.kernel.ticks c).2.2.map .called) j r) := by
  simp only [TestHolds, hc] at hok
  -- a statement that serves no timer
  have hquiet : ∀ c', (TamgaOs.serviceStep s.timers s.kernel.ticks c) = (s.timers, c', []) →
      (s.idle.calling j = false) → (∀ c'', c' = some c'' → (IdleCtl.service c'').calling j = false) →
      s.timerAccount s' .idle j r = r → s'.TimerAccounted j (s.timerEntry s' .idle
        ((TamgaOs.serviceStep s.timers s.kernel.ticks c).2.2.map .called) j r) := by
    intro c' he hno hno' hacc
    rw [he] at htimers hc' ⊢
    have hcalling : s'.idle.calling j = s.idle.calling j := by
      rw [hc', hno]
      cases c' with
      | none => rfl
      | some c'' => exact hno' c'' rfl
    simp only [timerEntry, hacc]
    exact h.same (congrFun htimers j) hcalling
  -- a statement that serves the timer at the index `i`
  have hserve : ∀ (f : Timer → Timer) now i cb arg,
      TamgaOs.serviceStep s.timers s.kernel.ticks c =
        (s.timers.modify i f, some (.call now i cb arg), []) →
      s.idle.calling j = false → (s.timers i).running = true → f (s.timers i) = (s.timers i).reload →
      s.timerAccount s' .idle j r = (if i = j then r.expire cb else r) →
      s'.TimerAccounted j (s.timerEntry s' .idle
        ((TamgaOs.serviceStep s.timers s.kernel.ticks c).2.2.map .called) j r) := by
    intro f now i cb arg he hno hrun hf hacc
    rw [he] at htimers hc' ⊢
    simp only [timerEntry, hacc]
    by_cases hij : i = j
    · subst hij
      rw [if_pos rfl]
      refine h.expire hrun ?_ ?_
      · rw [htimers, ← hf]
        exact Function.update_self ..
      · rw [hc', hno]
        cases cb <;> simp [IdleCtl.calling]
    · rw [if_neg hij]
      refine h.same ?_ ?_
      · rw [htimers]
        exact Function.update_of_ne (Ne.symm hij) ..
      · rw [hc', hno]
        cases cb <;> simp [IdleCtl.calling, hij]
  cases c with
  | now => exact hquiet _ rfl (by rw [hc]; rfl) (by rintro c'' ⟨⟩; rfl) (by simp [timerAccount, hc])
  | test now i =>
    by_cases hi : i < timerMaxCount
    · by_cases hrun : (s.timers i).running = true
      · refine hquiet (some (.due now i)) ?_ (by rw [hc]; rfl) (by rintro c'' ⟨⟩; rfl)
          (by simp [timerAccount, hc])
        simp [TamgaOs.serviceStep, hi, hrun]
      · refine hquiet (some (.test now (i + 1))) ?_ (by rw [hc]; rfl) (by rintro c'' ⟨⟩; rfl)
          (by simp [timerAccount, hc])
        simp [TamgaOs.serviceStep, hi, hrun]
    · refine hquiet none ?_ (by rw [hc]; rfl) (by rintro c'' ⟨⟩) (by simp [timerAccount, hc])
      simp [TamgaOs.serviceStep, hi]
  | due now i =>
    by_cases hdue : (s.timers i).due now = true
    · refine hquiet (some (.loadCallback now i)) ?_ (by rw [hc]; rfl) (by rintro c'' ⟨⟩; rfl)
        (by simp [timerAccount, hc])
      simp [TamgaOs.serviceStep, hdue]
    · refine hquiet (some (.test now (i + 1))) ?_ (by rw [hc]; rfl) (by rintro c'' ⟨⟩; rfl)
        (by simp [timerAccount, hc])
      simp [TamgaOs.serviceStep, hdue]
  | loadCallback now i =>
    exact hquiet _ rfl (by rw [hc]; rfl) (by rintro c'' ⟨⟩; rfl) (by simp [timerAccount, hc])
  | loadArg now i cb =>
    exact hquiet _ rfl (by rw [hc]; rfl) (by rintro c'' ⟨⟩; rfl) (by simp [timerAccount, hc])
  | reloadTest now i cb arg =>
    refine hquiet _ rfl (by rw [hc]; rfl) ?_ (by simp [timerAccount, hc])
    rintro c'' ⟨⟩
    split_ifs <;> rfl
  | advance now i cb arg =>
    refine hserve _ now i cb arg rfl (by rw [hc]; rfl) hok.1 ?_ (by simp [timerAccount, hc])
    rw [Timer.reload, if_pos hok.2.2]
  | deactivate now i cb arg =>
    refine hserve _ now i cb arg rfl (by rw [hc]; rfl) hok.1 ?_ (by simp [timerAccount, hc])
    rw [Timer.reload, if_neg (by simp [hok.2.2])]
  | call now i cb arg =>
    have hwas := h.calls
    rw [hc] at hwas
    have hnow : s'.idle.calling j = false := by
      rw [hc']
      rfl
    have hacc : s.timerAccount s' .idle j r = r := by simp [timerAccount, hc]
    refine ⟨?_, fun ha => ?_, fun ha => ?_⟩
    · simp only [timerEntry, hacc]
      rw [hnow, countP_called]
      have hone : (cb.map fun f => (⟨i, f, arg, s.kernel.ticks⟩ : TimerCall)).toList.countP
          (fun c => decide (c.index = j)) = ((IdleCtl.service (.call now i cb arg)).calling j).toNat := by
        cases cb with
        | none => rfl
        | some f => simp [IdleCtl.calling, Bool.toNat]
      rw [← hwas]
      show r.called + (cb.map fun f => (⟨i, f, arg, s.kernel.ticks⟩ : TimerCall)).toList.countP
        (fun c => decide (c.index = j)) + 0 = _
      rw [hone, Nat.add_zero]
    · simp only [timerEntry, hacc]
      rw [htimers] at ha ⊢
      exact h.oneShot ha
    · simp only [timerEntry, hacc]
      rw [htimers] at ha ⊢
      exact h.autoReload ha

theorem TimerAccounted.step (h : s.TimerAccounted j r) (hok : s.TestHolds a)
    (hs : s.step b a = some (s', o)) : s'.TimerAccounted j (s.timerEntry s' a o j r) := by
  have hquiet : s.timerAccount s' a j r = r → s'.timers j = s.timers j →
      s'.idle.calling j = s.idle.calling j → o.countP (TicklessObs.callsOf j) = 0 →
      s'.TimerAccounted j (s.timerEntry s' a o j r) := by
    intro hacc htimer hidle hcount
    simp only [timerEntry, hacc, hcount]
    exact h.same htimer hidle
  rcases step_cases hs with ⟨a', m', o', rfl, -, -, -, rfl, rfl⟩ | ⟨op, rfl, rfl, rfl⟩ |
    ⟨rfl, -, -, hidle⟩ | ⟨rfl, rfl, rfl⟩ | ⟨rfl, -, hh⟩
  · refine hquiet rfl rfl rfl ?_
    rw [List.countP_eq_zero]
    intro x hx
    obtain ⟨y, -, rfl⟩ := List.mem_map.1 hx
    simp [TicklessObs.callsOf]
  · exact h.call op rfl rfl
  · unfold idleStep at hidle
    split at hidle
    · rename_i hc
      cases hidle
      exact hquiet (by simp [timerAccount, hc]) rfl (by rw [hc]; rfl) rfl
    · rename_i hc
      cases hidle
      exact hquiet (by simp [timerAccount, hc]) rfl (by rw [hc]; rfl) rfl
    · rename_i hc
      cases hidle
      refine hquiet (by simp [timerAccount, hc]) rfl ?_ rfl
      rw [hc]
      dsimp only
      split_ifs <;> rfl
    · rename_i hc
      cases hidle
      exact hquiet (by simp [timerAccount, hc]) rfl (by rw [hc]; rfl) rfl
    · rename_i c hc
      cases hidle
      refine hquiet (by simp [timerAccount, hc]) ?_ ?_ rfl
      · cases c <;> rfl
      · rw [hc]
        cases c with
        | readFlag maxMs =>
          simp only [sleepStep]
          split_ifs <;> rfl
        | _ => rfl
    · rename_i n c hc
      obtain ⟨⟨k', c'⟩, -, he⟩ := Option.map_eq_some_iff.1 hidle
      cases he
      refine hquiet (by simp [timerAccount, hc]) rfl ?_ rfl
      rw [hc]
      cases c' <;> rfl
    · rename_i c hc
      cases hidle
      exact h.serviceStep hc hok rfl rfl
  · exact hquiet rfl rfl rfl rfl
  · rcases handlerStep_cases hh with ⟨hact, rfl, rfl⟩ | ⟨k', hact, hk, rfl, rfl⟩
    · exact hquiet (by simp [timerAccount, hact]) rfl rfl rfl
    · have hclock : k'.ticks = (s.kernel.ticks + 1) % 2 ^ 32 := (SameObjects.schedTickN hk).ticks
      rw [hclock]
      simp only [timerEntry, timerAccount, hact, true_and, countP_called, Timers.serviceTick_calls,
        Timers.countP_dueCalls List.nodup_range, List.mem_range]
      have htimer : (s.timers.serviceTick ((s.kernel.ticks + 1) % 2 ^ 32)).1 j = _ :=
        Timers.serviceTick_timer
      split_ifs at htimer ⊢ with hexp
      · exact h.expire hexp.2.1 htimer rfl
      · exact h.same htimer rfl

/-- Every step that meets the condition keeps the accounts right. -/
theorem Accounted.step (h : s.Accounted g) (hok : s.TestHolds a) (hs : s.step b a = some (s', o)) :
    s'.Accounted (s.account b a o g) := by
  have haccount : s.account b a o g =
      { task := fun i => s.taskAccount s' a i (g.task i)
        timer := fun j => s.timerEntry s' a o j (g.timer j) } := by
    simp only [account, hs, Option.map_some, Option.getD_some]
  have htask : ∀ i, s'.TaskAccounted i (s.taskAccount s' a i (g.task i)) := fun i =>
    TaskAccounted.step ⟨h.exact i, h.noWrap i, h.noLost i⟩ hok hs
  have htimer : ∀ j, s'.TimerAccounted j (s.timerEntry s' a o j (g.timer j)) := fun j =>
    TimerAccounted.step ⟨h.calls j, h.oneShot j, h.autoReload j⟩ hok hs
  rw [haccount]
  exact ⟨fun i => (htask i).exact, fun i => (htask i).noWrap, fun i => (htask i).noLost,
    fun j => (htimer j).calls, fun j => (htimer j).oneShot, fun j => (htimer j).autoReload⟩

end Tickless

/-! ### All runs -/

open Tickless in
/-- From every state, and wherever the handler comes between the statements of the idle task: as long
as what the idle task has tested still holds when it acts on it, the accounts are right. -/
theorem ticks_accounted (b : Board) (s₀ : Tickless) {s : Tickless} {g : Accounts}
    {out : List TicklessObs} (h : Run.Reach (accounted b) (fun p a => p.1.TestHolds a)
      (s₀, s₀.openAccounts) (s, g) out) : s.Accounted g := by
  have hinv : (s, g).1.Accounted (s, g).2 := by
    refine h.invariant (I := fun p => p.1.Accounted p.2) ?_ ?_
    · exact ⟨fun _ _ => rfl, fun _ => le_rfl, fun _ _ hz => Or.inl hz, fun j => Nat.zero_add _,
        fun _ _ => ⟨Nat.zero_le 1, fun _ => rfl⟩, fun _ _ => by simp [openAccounts]⟩
    · rintro ⟨s, g⟩ ⟨s', g'⟩ a o hI hok hst
      obtain ⟨hs, rfl⟩ := Run.annotate_eq_some.1 hst
      exact hI.step hok hs
  exact hinv

/-- A task has called `sched_delay_ms(3)`, and the idle task has started to sleep. -/
def sleepForDelay : TicklessScenario where
  board := .k64f
  config := { priorities := [1] }
  actions := [.kernel (.call (.schedDelayMs 3)), .kernel .exec, .kernel .exec, .kernel .pendSV] ++
    List.replicate 8 .idle
  possible := by decide +kernel

/-- After 2 ms an interrupt ends the sleep, and the idle task starts the counter again and calls
`sched_tick_n(2)`. -/
def endSleep : List TicklessAction :=
  [.kernel (.irq (.semGive 0)), .kernel .exec] ++ List.replicate 9 .idle

/-- 2 ms of the sleep have passed. -/
def sleptTwoMs : Tickless :=
  { sleepForDelay.final with
    sysTick :=
      { enable := true, rvr := 359999, cvr := 119999, countFlag := false, pending := false } }

theorem endSleep_possible :
    (Run.exec (Tickless.step .k64f) sleptTwoMs endSleep).isSome = true := by
  decide +kernel

/-- The idle task has called `sched_tick_n(2)`. -/
def tickCalled : Tickless :=
  ((Run.exec (Tickless.step .k64f) sleptTwoMs endSleep).get endSleep_possible).1

/-- The next cycle ends the first ms since the counter has been started again. -/
def endOfMs : Tickless :=
  { tickCalled with
    sysTick := { enable := true, rvr := 119999, cvr := 1, countFlag := false, pending := false } }

theorem reach_sleptTwoMs : ∃ out, Run.Reach (Tickless.step .k64f) (fun _ _ => True)
    (Tickless.start .k64f { priorities := [1] }) sleptTwoMs out := by
  have hsleep : Run.Reach (Tickless.step .k64f) (fun _ _ => True)
      (Tickless.start .k64f { priorities := [1] }) sleepForDelay.final sleepForDelay.reports :=
    sleepForDelay.reach (.of_forall _ fun _ _ _ => trivial)
  have hslept : SysTick.cycles (240000 + 1) sleepForDelay.final.sysTick = sleptTwoMs.sysTick := by
    have hstart : sleepForDelay.final.sysTick =
        { enable := true, rvr := 359999, cvr := 0, countFlag := false, pending := false } := by
      decide +kernel
    rw [hstart]
    exact SysTick.cycles_of_zero rfl rfl (by decide : 0 < 119999) (by decide)
  have hcycles := Tickless.reach_cycles hsleep (fun _ => trivial) (240000 + 1)
  rw [hslept] at hcycles
  exact ⟨_, hcycles⟩

theorem reach_tickCalled : ∃ out, Run.Reach (Tickless.step .k64f) (fun _ _ => True)
    (Tickless.start .k64f { priorities := [1] }) tickCalled out := by
  obtain ⟨out, hslept⟩ := reach_sleptTwoMs
  exact ⟨_, hslept.continue_exec (.of_forall _ fun _ _ _ => trivial) endSleep_possible⟩

theorem reach_endOfMs : ∃ out, Run.Reach (Tickless.step .k64f) (fun _ _ => True)
    (Tickless.start .k64f { priorities := [1] }) endOfMs out := by
  obtain ⟨out, htick⟩ := reach_tickCalled
  have hend : SysTick.cycles (119998 + 1) tickCalled.sysTick = endOfMs.sysTick := by
    have hstart : tickCalled.sysTick =
        { enable := true, rvr := 119999, cvr := 0, countFlag := false, pending := false } := by
      decide +kernel
    rw [hstart]
    exact SysTick.cycles_of_zero rfl rfl (by decide : 0 < 1) (by decide)
  have hlast := Tickless.reach_cycles htick (fun _ => trivial) (119998 + 1)
  rw [hend] at hlast
  exact ⟨out, hlast⟩

/-- The handler comes after the subtraction. -/
def subtractInTime : List TicklessAction := [.idle, .idle, .idle, .cycle, .sysTick]

theorem subtractInTime_possible : (Run.exec (Tickless.accounted .k64f)
    (endOfMs, endOfMs.openAccounts) subtractInTime).isSome = true := by
  decide +kernel

theorem subtractInTime_permitted : Run.Permitted (Tickless.accounted .k64f)
    (fun p a => p.1.TestHolds a) (endOfMs, endOfMs.openAccounts) subtractInTime := by
  decide +kernel

/-- The delay of 3 ms is over after the 2 ms of the sleep and the tick. -/
theorem subtractInTime_accounted :
    let r := (Run.exec (Tickless.accounted .k64f) (endOfMs, endOfMs.openAccounts)
      subtractInTime).get subtractInTime_possible
    r.1.1.Accounted r.1.2 ∧ (r.1.2.task 0).counted = 3 ∧ ¬r.1.1.Blocked 0 :=
  ⟨ticks_accounted .k64f endOfMs (Run.Reach.exec subtractInTime_permitted
    subtractInTime_possible), by decide +kernel, by decide +kernel⟩

/-- The handler comes between the comparison and the subtraction. -/
def subtractTooLate : List TicklessAction := [.idle, .idle, .cycle, .sysTick, .idle]

theorem subtractTooLate_possible : (Run.exec (Tickless.accounted .k64f)
    (endOfMs, endOfMs.openAccounts) subtractTooLate).isSome = true := by
  decide +kernel

/-- The task is blocked without a delay. -/
theorem subtractTooLate_lost :
    let r := (Run.exec (Tickless.accounted .k64f) (endOfMs, endOfMs.openAccounts)
      subtractTooLate).get subtractTooLate_possible
    r.1.1.Blocked 0 ∧ r.1.1.delayTicks 0 = 0 ∧ (r.1.2.task 0).start = 3 ∧
      r.1.1.idle.expiring = none := by
  decide +kernel

/-- A delay of 3 ms has been compared with 2 ms when the handler counts another one. The subtraction
leaves the task blocked without a delay. -/
theorem ticks_unaccounted : ∃ (cfg : Config) (s₀ : Tickless) (out₀ : List TicklessObs),
    Run.Reach (Tickless.step .k64f) (fun _ _ => True) (Tickless.start .k64f cfg) s₀ out₀ ∧
      ∃ s g out, Run.Reach (Tickless.accounted .k64f) (fun _ _ => True)
        (s₀, s₀.openAccounts) (s, g) out ∧ ¬s.Accounted g := by
  obtain ⟨out₀, hreach⟩ := reach_endOfMs
  have hrun : Run.Reach (Tickless.accounted .k64f) (fun _ _ => True)
      (endOfMs, endOfMs.openAccounts) _ _ :=
    .exec (.of_forall _ fun _ _ _ => trivial) subtractTooLate_possible
  have hlost := subtractTooLate_lost
  generalize (Run.exec (Tickless.accounted .k64f) (endOfMs, endOfMs.openAccounts)
    subtractTooLate).get subtractTooLate_possible = r at hrun hlost
  obtain ⟨⟨s, g⟩, out⟩ := r
  obtain ⟨hblocked, hzero, hstart, hidle⟩ := hlost
  refine ⟨_, endOfMs, out₀, hreach, s, g, out, hrun, fun hacc => ?_⟩
  rcases hacc.noLost 0 hblocked hzero with he | he
  · exact absurd (hstart.symm.trans he) (by decide)
  · rw [hidle] at he
    cases he

end TamgaOs
