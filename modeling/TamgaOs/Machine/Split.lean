import TamgaOs.Library.Splitting
import TamgaOs.Machine.TickStatements
import TamgaOs.Machine.Tickless

/-!
# The machine with the statements of the tick

`sched_tick_n` has no critical section. `SysTick_Handler` has the lowest priority, so that every
other handler may come between the statements of the tick that it runs; and in the thread of the idle
task, after a tickless sleep, the tasks may come between them as well, and `SysTick_Handler` with a
tick of its own. The machine of this file executes every statement as a step of its own, and
everything else like `Machine`.

## Main definitions

* `Split`, `SplitAction`, `Split.step`: the machine.
* `Split.splitting`: its actions as operations of `Machine`, a tick as one operation.
* `Split.Whole`: nothing comes between the statements of a tick.
* `SplitScenario`: a run given by its actions.

## Main results

* `Split.reach_machine`, `Split.reach_noted`: a run of whole ticks is a run of `Machine`.
* `Split.exists_of_noted`, `Split.exists_of_machine`: a run of `Machine` is a run of whole ticks.
-/

namespace TamgaOs

/-- The machine in which `sched_tick_n` may be under way. -/
structure Split where
  machine : Machine
  /-- The next statement of `sched_tick_n(1)` in `SysTick_Handler`. -/
  handler : Option TickCtl
  /-- The next statement of `sched_tick_n` in the idle task, with its argument. -/
  idle : Option (ℕ × TickCtl)

/-- What can happen next. -/
inductive SplitAction
  /-- An action of the tasks and of the other handlers, or of the clock. -/
  | kernel (a : Action)
  /-- `SysTick_Handler` calls `sched_tick`. -/
  | sysTick
  /-- The idle task calls `sched_tick_n`. -/
  | idleTick (n : ℕ)
  /-- The next statement of the `sched_tick_n` that runs. -/
  | statement
  deriving DecidableEq

/-- The action is executed in a thread, or is the context switch. -/
def Action.inThread : Action → Bool
  | call _ | exec | pendSV => true
  | irq _ | clock _ | tick _ => false

/-- The action of the machine with whole ticks that an action is or begins. -/
def SplitAction.op : SplitAction → Option Action
  | kernel a => some a
  | sysTick => some (.tick 1)
  | idleTick n => some (.tick n)
  | statement => none

namespace Split

variable (s : Split)

abbrev kernel : Kernel := s.machine.kernel

/-- A tick has begun and has not come to its end. -/
def ticking : Bool := s.handler.isSome || s.idle.isSome

/-- `SysTick_Handler` runs, or is about to go on when the other handlers have returned. -/
def inHandler : Bool := s.handler.isSome && decide (s.machine.depth = 0)

/-- The machine after a statement of `sched_tick_n`. -/
def ran (k : Kernel) : Split := { s with machine := { s.machine with kernel := k } }

/-- The machine after an action, and what the action has reported. -/
def step (s : Split) : SplitAction → Option (Split × List Obs)
  | .kernel a =>
    match a with
    | .tick _ => none
    | a =>
      if a.inThread && s.inHandler then none
      else (s.machine.step a).map fun r => ({ s with machine := r.1 }, r.2)
  | .sysTick =>
    if s.machine.depth = 0 ∧ s.handler = none then
      some ({ s with handler := some (.test 0) }, [])
    else none
  | .idleTick n =>
    if s.machine.active = some (.thread .idle) ∧ s.handler = none ∧ s.idle = none then
      some ({ s with idle := some (n, .test 0) }, [])
    else none
  | .statement =>
    match s.handler with
    | some c =>
      if s.machine.depth = 0 then
        (tickStep s.kernel 1 c).map fun r => ({ s.ran r.1 with handler := r.2 }, [])
      else none
    | none =>
      match s.idle with
      | some (n, c) =>
        if s.machine.active = some (.thread .idle) then
          (tickStep s.kernel n c).map fun r =>
            ({ s.ran r.1 with idle := r.2.map fun c' => (n, c') }, [])
        else none
      | none => none

/-- The machine that starts to run the first task. -/
def start (cfg : Config) : Split := ⟨Machine.start cfg, none, none⟩

/-! ### What an action can do -/

variable {s} {s' : Split} {a : SplitAction} {o : List Obs}

/-- The inversion of `step`: the kinds of action. -/
theorem step_cases (h : s.step a = some (s', o)) :
    (∃ a' m', a = .kernel a' ∧ (∀ n, a' ≠ .tick n) ∧ (a'.inThread = true → s.inHandler = false) ∧
      s.machine.step a' = some (m', o) ∧ s' = { s with machine := m' }) ∨
    (a = .sysTick ∧ s.machine.depth = 0 ∧ s.handler = none ∧
      s' = { s with handler := some (.test 0) } ∧ o = []) ∨
    (∃ n, a = .idleTick n ∧ s.machine.active = some (.thread .idle) ∧ s.handler = none ∧
      s.idle = none ∧ s' = { s with idle := some (n, .test 0) } ∧ o = []) ∨
    (∃ c k' c', a = .statement ∧ s.handler = some c ∧ s.machine.depth = 0 ∧
      tickStep s.kernel 1 c = some (k', c') ∧ s' = { s.ran k' with handler := c' } ∧ o = []) ∨
    (∃ n c k' c', a = .statement ∧ s.handler = none ∧ s.idle = some (n, c) ∧
      s.machine.active = some (.thread .idle) ∧ tickStep s.kernel n c = some (k', c') ∧
      s' = { s.ran k' with idle := c'.map fun c => (n, c) } ∧ o = []) := by
  cases a with
  | kernel a' =>
    left
    simp only [step] at h
    split at h
    · cases h
    · rename_i hne
      split_ifs at h with hin
      obtain ⟨r, hr, he⟩ := Option.map_eq_some_iff.1 h
      cases he
      exact ⟨a', r.1, rfl, hne, fun ha => by simpa [ha] using hin, hr, rfl⟩
  | sysTick =>
    right; left
    simp only [step] at h
    split_ifs at h with hs
    cases h
    exact ⟨rfl, hs.1, hs.2, rfl, rfl⟩
  | idleTick n =>
    right; right; left
    simp only [step] at h
    split_ifs at h with hs
    cases h
    exact ⟨n, rfl, hs.1, hs.2.1, hs.2.2, rfl, rfl⟩
  | statement =>
    simp only [step] at h
    split at h
    · rename_i c hc
      split_ifs at h with hd
      obtain ⟨r, hr, he⟩ := Option.map_eq_some_iff.1 h
      cases he
      exact .inr (.inr (.inr (.inl ⟨c, r.1, r.2, rfl, hc, hd, hr, rfl, rfl⟩)))
    · rename_i hc
      split at h
      · rename_i n c hi
        split_ifs at h with hact
        obtain ⟨r, hr, he⟩ := Option.map_eq_some_iff.1 h
        cases he
        exact .inr (.inr (.inr (.inr ⟨n, c, r.1, r.2, rfl, hc, hi, hact, hr, rfl, rfl⟩)))
      · cases h

/-- The steps that are no statements of a tick are the steps of `Machine`. -/
theorem kernel_step {a : Action} (h : s.step (.kernel a) = some (s', o)) :
    s.machine.step a = some (s'.machine, o) ∧ s'.handler = s.handler ∧ s'.idle = s.idle := by
  rcases step_cases h with ⟨a', m', he, -, -, hm, rfl⟩ | ⟨he, -⟩ | ⟨n, he, -⟩ | ⟨c, k', c', he, -⟩ |
    ⟨n, c, k', c', he, -⟩
  · cases he
    exact ⟨hm, rfl, rfl⟩
  · cases he
  · cases he
  · cases he
  · cases he

/-- A step of `Machine` where no tick is under way. -/
theorem step_kernel {m' : Machine} {a : Action} (hs : s.ticking = false) (ha : ∀ n, a ≠ .tick n)
    (h : s.machine.step a = some (m', o)) :
    s.step (.kernel a) = some ({ s with machine := m' }, o) := by
  have hidle : s.inHandler = false := by
    simp only [ticking, Bool.or_eq_false_iff] at hs
    simp [inHandler, hs.1]
  cases a with
  | tick n => exact absurd rfl (ha n)
  | call | exec | irq | pendSV | clock =>
    simp only [step, hidle, Bool.and_false, h]
    rfl

/-! ### Whole ticks -/

/-- The tick of `n` that began in the machine `m` has got to `s`. -/
structure MidTick (m : Machine) (n : ℕ) (s : Split) : Prop where
  machine : s.machine = { m with kernel := s.kernel }
  /-- The statements that are left are the last ones of a whole tick. -/
  rest : ∃ c, (s.handler = some c ∧ n = 1 ∧ s.idle = none ∨ s.handler = none ∧ s.idle = some (n, c)) ∧
    ∀ k', TickRuns n s.kernel c k' → TickRuns n m.kernel (.test 0) k'

theorem step_of_tickRuns {m : Machine} {n : ℕ} {k' : Kernel} (hm : m.kernel.ListsTabled)
    (h : TickRuns n m.kernel (.test 0) k') :
    m.step (.tick n) = some ({ m with kernel := k' }, []) := by
  simp only [Machine.step, (tickRuns_iff hm).1 h, Option.map_some]

/-- The ticks as single operations of `Machine`. -/
def splitting : Run.Splitting Machine.step step fun m => m.kernel.ListsTabled where
  state := machine
  op := SplitAction.op
  underWay := ticking
  Mid m a s := ∃ n, a = .tick n ∧ MidTick m n s
  enter := by
    intro s b a s' o hidle hop hst
    have hhandler : s.handler = none := by
      cases h : s.handler with
      | none => rfl
      | some c => simp [ticking, h] at hidle
    have hquiet : s.idle = none := by
      cases h : s.idle with
      | none => rfl
      | some c => simp [ticking, h] at hidle
    rcases step_cases hst with ⟨a', m', rfl, -, -, hm, rfl⟩ | ⟨rfl, -, -, rfl, rfl⟩ |
      ⟨n, rfl, -, -, -, rfl, rfl⟩ | ⟨c, k', c', rfl, -⟩ | ⟨n, c, k', c', rfl, -⟩
    · cases hop
      exact .inl ⟨hidle, hm⟩
    · cases hop
      exact .inr ⟨rfl, ⟨1, rfl, rfl, .test 0, .inl ⟨rfl, rfl, hquiet⟩, fun _ => id⟩, rfl⟩
    · cases hop
      refine .inr ⟨by simp [ticking], ⟨n, rfl, rfl, .test 0, .inr ⟨hhandler, rfl⟩, fun _ => id⟩, rfl⟩
    · cases hop
    · cases hop
  none_of_idle := by
    intro s b hidle hop
    cases b with
    | statement =>
      cases hh : s.handler with
      | some c => simp [ticking, hh] at hidle
      | none =>
        cases hi : s.idle with
        | some c => simp [ticking, hi] at hidle
        | none => simp only [step, hh, hi]
    | kernel | sysTick | idleTick => cases hop
  go_on := by
    rintro m a s b s' o hm ⟨n, rfl, hmach, c, hwhere, hrest⟩ hop hst
    rcases step_cases hst with ⟨a', m', rfl, -⟩ | ⟨rfl, -⟩ | ⟨e, rfl, -⟩ |
      ⟨d, k', d', -, hd, -, htick, rfl, rfl⟩ | ⟨e, d, k', d', -, hh, hd, -, htick, rfl, rfl⟩
    · cases hop
    · cases hop
    · cases hop
    · obtain ⟨hc, rfl, hi⟩ | ⟨hc, -⟩ := hwhere
      · cases hc.symm.trans hd
        refine ⟨rfl, ?_⟩
        have hmach' : (s.ran k').machine = { m with kernel := k' } := by
          unfold ran
          rw [hmach]
        cases d' with
        | some d' =>
          exact .inl ⟨rfl, 1, rfl, hmach', d', .inl ⟨rfl, rfl, hi⟩,
            fun k hk => hrest k (.next htick hk)⟩
        | none =>
          refine .inr ⟨by simp [ticking, ran, hi], ?_⟩
          rw [step_of_tickRuns hm (hrest k' (.last htick))]
          exact congrArg (fun x => some (x, [])) hmach'.symm
      · cases hc.symm.trans hd
    · obtain ⟨hc, -⟩ | ⟨-, hi⟩ := hwhere
      · cases hc.symm.trans hh
      · cases hi.symm.trans hd
        refine ⟨rfl, ?_⟩
        have hmach' : (s.ran k').machine = { m with kernel := k' } := by
          unfold ran
          rw [hmach]
        cases d' with
        | some d' =>
          exact .inl ⟨by simp [ticking], n, rfl, hmach', d', .inr ⟨hh, rfl⟩,
            fun k hk => hrest k (.next htick hk)⟩
        | none =>
          refine .inr ⟨by simp [ticking, ran, hh], ?_⟩
          rw [step_of_tickRuns hm (hrest k' (.last htick))]
          exact congrArg (fun x => some (x, [])) hmach'.symm

/-- Nothing comes between the statements of a tick: no call of a task or of a handler, no context
switch and no other tick. Every action, and every tick where it begins, meets the condition `ok`. -/
abbrev Whole (ok : Machine → Action → Prop) : Split → SplitAction → Prop := splitting.Whole ok

/-- A run of whole ticks is a run of `Machine`. -/
theorem reach_machine {cfg : Config} {ok : Machine → Action → Prop} {out : List Obs}
    (h : Run.Reach step (Whole ok) (start cfg) s out) (hs : s.ticking = false) :
    Run.Reach Machine.step ok (Machine.start cfg) s.machine out :=
  splitting.reach (fun _ _ => Machine.listsTabled_of_reach) rfl h hs

section Noted

variable {γ : Type*} (f : Machine → Action → List Obs → γ → γ)

/-- The machine beside which `f` keeps a record, of every tick where it begins. -/
abbrev noted : Split × γ → SplitAction → Option ((Split × γ) × List Obs) :=
  Run.annotate step (splitting.note f)

/-- `Whole` for a condition on the record. -/
abbrev WholeNoted (ok : Machine × γ → Action → Prop) : Split × γ → SplitAction → Prop :=
  (splitting.annotate f).Whole ok

variable {f}

/-- A run of whole ticks that goes on from a reachable state, with a record. -/
theorem continue_noted {cfg : Config} {s₀ : Split} {ok₀ : Machine → Action → Prop}
    {ok : Machine × γ → Action → Prop} {g₀ g : γ} {out₀ out : List Obs}
    (h₀ : Run.Reach Machine.step ok₀ (Machine.start cfg) s₀.machine out₀)
    (hs₀ : s₀.ticking = false)
    (h : Run.Reach (noted f) (WholeNoted f ok) (s₀, g₀) (s, g) out) (hs : s.ticking = false) :
    Run.Reach (Run.annotate Machine.step f) ok (s₀.machine, g₀) (s.machine, g) out := by
  have hidle : (splitting.annotate f).underWay (s₀, g₀) = false := hs₀
  have hlists : ∀ p out, Run.Reach (Run.annotate Machine.step f) ok
      ((splitting.annotate f).state (s₀, g₀)) p out → p.1.kernel.ListsTabled := by
    rintro ⟨m, g⟩ out hm
    have hrun : Run.Reach Machine.step (fun _ _ => True) s₀.machine m out :=
      hm.of_annotate fun _ _ _ _ => trivial
    exact Machine.listsTabled_of_continued h₀ hrun
  exact (splitting.annotate f).reach hlists hidle h hs

/-- A run of whole ticks with a record is a run of `Machine` with this record. -/
theorem reach_noted {cfg : Config} {ok : Machine × γ → Action → Prop} {g₀ g : γ} {out : List Obs}
    (h : Run.Reach (noted f) (WholeNoted f ok) (start cfg, g₀) (s, g) out)
    (hs : s.ticking = false) :
    Run.Reach (Run.annotate Machine.step f) ok (Machine.start cfg, g₀) (s.machine, g) out := by
  have hstart : Run.Reach Machine.step (fun _ _ => True) (Machine.start cfg) (start cfg).machine [] :=
    .init
  exact continue_noted hstart rfl h hs

end Noted

/-! ### The runs of the machine with whole ticks -/

/-- Only `.switch`, the last statement, pends a switch. -/
theorem pendsv_tickStep {k k' : Kernel} {n : ℕ} {c c' : TickCtl}
    (h : tickStep k n c = some (k', some c')) : k'.pendsv = k.pendsv := by
  cases c with
  | test i | compare i =>
    simp only [tickStep] at h
    split_ifs at h <;> cases h <;> rfl
  | headTest i | currentTest | nextTest | remove i | removeTest i cur =>
    simp only [tickStep] at h
    split at h
    · first
      | cases h
        rfl
      | split_ifs at h <;> cases h <;> rfl
    · cases h
      try rfl
  | currentReady | nextReady | run =>
    obtain ⟨t, -, he⟩ := Option.map_eq_some_iff.1 h
    cases he
    rfl
  | runTest =>
    obtain ⟨t, -, he⟩ := Option.map_eq_some_iff.1 h
    obtain ⟨rfl, -⟩ := Prod.mk.inj he
    rfl
  | switchTest =>
    obtain ⟨rfl, -⟩ := Prod.mk.inj (Option.some.inj h)
    rfl
  | zero | removeHead | removeStart | removeNext | removeLink | clearHead | mark | ready | subtract
  | select | install =>
    cases h
    rfl
  | switch => cases h

section Rest

variable {γ : Type*} {f : Machine → Action → List Obs → γ → γ} {ok : Machine × γ → Action → Prop}
  {p₀ : Split × γ} {n : ℕ} {k k' : Kernel} {c : TickCtl} {g : γ} {out : List Obs}

theorem whole_statement (p : Split × γ) : WholeNoted f ok p .statement :=
  ⟨fun _ => rfl, fun _ ha => by cases ha⟩

theorem noted_statement {s₁ : Split} (hst : s.step .statement = some (s₁, [])) :
    noted f (s, g) .statement = some ((s₁, g), []) :=
  Run.annotate_eq_some.2 ⟨hst, rfl⟩

/-- The rest of the tick of `SysTick_Handler`. -/
theorem reach_handler (hruns : TickRuns n k c k') (hn : n = 1) :
    ∀ {s : Split}, s.kernel = k → s.handler = some c → s.machine.depth = 0 →
      Run.Reach (noted f) (WholeNoted f ok) p₀ (s, g) out →
      Run.Reach (noted f) (WholeNoted f ok) p₀ ({ s.ran k' with handler := none }, g) out := by
  subst hn
  induction hruns with
  | @last k k' c h =>
    rintro s rfl hc hd hs
    have hst : s.step .statement = some ({ s.ran k' with handler := none }, []) := by
      simp only [step, hc, if_pos hd, h, Option.map_some]
    simpa using hs.step (whole_statement _) (noted_statement hst)
  | @next k k₁ k' c c₁ h _ ih =>
    rintro s rfl hc hd hs
    have hst : s.step .statement = some ({ s.ran k₁ with handler := some c₁ }, []) := by
      simp only [step, hc, if_pos hd, h, Option.map_some]
    have hnext := hs.step (whole_statement _) (noted_statement hst)
    rw [List.append_nil] at hnext
    exact ih (s := { s.ran k₁ with handler := some c₁ }) rfl rfl hd hnext

/-- The rest of the tick of the idle task. -/
theorem reach_idle (hruns : TickRuns n k c k') :
    ∀ {s : Split}, s.kernel = k → s.handler = none → s.idle = some (n, c) →
      s.machine.active = some (.thread .idle) →
      Run.Reach (noted f) (WholeNoted f ok) p₀ (s, g) out →
      Run.Reach (noted f) (WholeNoted f ok) p₀ ({ s.ran k' with idle := none }, g) out := by
  induction hruns with
  | @last k k' c h =>
    rintro s rfl hh hc hact hs
    have hst : s.step .statement = some ({ s.ran k' with idle := none }, []) := by
      simp only [step, hh, hc, if_pos hact, h, Option.map_some, Option.map_none]
    simpa using hs.step (whole_statement _) (noted_statement hst)
  | @next k k₁ k' c c₁ h _ ih =>
    rintro s rfl hh hc hact hs
    have hst : s.step .statement = some ({ s.ran k₁ with idle := some (n, c₁) }, []) := by
      simp only [step, hh, hc, if_pos hact, h, Option.map_some]
    have hnext := hs.step (whole_statement _) (noted_statement hst)
    rw [List.append_nil] at hnext
    obtain ⟨hd, hp, hcur⟩ := Machine.active_thread hact
    have hact' : ({ s.ran k₁ with idle := some (n, c₁) } : Split).machine.active =
        some (.thread .idle) := by
      unfold Machine.active
      simp only [ran, hd, pendsv_tickStep h, hp, (TickStmt.of_tickStep h).currentTask, hcur]
      rfl
    exact ih (s := { s.ran k₁ with idle := some (n, c₁) }) rfl hh rfl hact' hnext

end Rest

end Split

/-- Ticks come from `SysTick_Handler`, 1 ms each, or from the idle task. -/
def Machine.Timely (m : Machine) : Action → Prop
  | .tick n => (n = 1 ∧ m.depth = 0) ∨ m.active = some (.thread .idle)
  | .call _ | .exec | .irq _ | .pendSV | .clock _ => True

instance (m : Machine) : DecidablePred m.Timely
  | .tick n => inferInstanceAs (Decidable ((n = 1 ∧ m.depth = 0) ∨ _))
  | .call _ | .exec | .irq _ | .pendSV | .clock _ => inferInstanceAs (Decidable True)

theorem Machine.timely_of_ne_tick (m : Machine) {a : Action} (h : ∀ n, a ≠ .tick n) :
    m.Timely a := by
  cases a with
  | tick n => exact absurd rfl (h n)
  | call | exec | irq | pendSV | clock => trivial

namespace Split

section Whole

variable {γ : Type*} {f : Machine → Action → List Obs → γ → γ} {cfg : Config} {m : Machine}
  {out₀ out : List Obs}

theorem eq_of_not_ticking {s : Split} (hs : s.ticking = false) : s = ⟨s.machine, none, none⟩ := by
  obtain ⟨m, h, i⟩ := s
  cases h <;> cases i <;> first | rfl | cases hs

/-- A run of `Machine` that goes on from a reachable state, with a record. -/
theorem exists_of_continued {s₀ : Split} {ok₀ : Machine → Action → Prop}
    {ok : Machine × γ → Action → Prop} {g₀ g : γ}
    (h₀ : Run.Reach Machine.step ok₀ (Machine.start cfg) s₀.machine out₀)
    (hs₀ : s₀.ticking = false)
    (h : Run.Reach (Run.annotate Machine.step f) (fun p a => ok p a ∧ p.1.Timely a)
      (s₀.machine, g₀) (m, g) out) :
    ∃ s : Split, s.ticking = false ∧ s.machine = m ∧
      Run.Reach (noted f) (WholeNoted f ok) (s₀, g₀) (s, g) out := by
  refine ⟨⟨m, none, none⟩, rfl, rfl, ?_⟩
  rw [eq_of_not_ticking hs₀]
  refine h.induct (I := fun p out => Run.Reach (noted f) (WholeNoted f ok)
    (⟨s₀.machine, none, none⟩, g₀) (⟨p.1, none, none⟩, p.2) out) .init ?_
  rintro ⟨m, g⟩ ⟨m', g'⟩ a out o hm ih hok hst
  obtain ⟨hs, rfl⟩ := Run.annotate_eq_some.1 hst
  have hrun : Run.Reach Machine.step (fun _ _ => True) s₀.machine m out :=
    hm.of_annotate fun _ _ _ _ => trivial
  have hop : ∀ b, b.op = some a → WholeNoted f ok (⟨m, none, none⟩, g) b := by
    refine fun b hb => ⟨fun hunder => (by cases hunder), fun a' ha' => ?_⟩
    cases hb.symm.trans ha'
    exact hok.1
  cases a with
  | tick n =>
    obtain ⟨k', hk, he⟩ := Option.map_eq_some_iff.1 hs
    cases he
    rw [List.append_nil]
    have hruns := (tickRuns_iff (Machine.listsTabled_of_continued h₀ hrun)).2 hk
    rcases hok.2 with ⟨rfl, hd⟩ | hact
    · have hbegin : step ⟨m, none, none⟩ .sysTick = some (⟨m, some (.test 0), none⟩, []) :=
        if_pos ⟨hd, rfl⟩
      have hnext := ih.step (hop .sysTick rfl) (Run.annotate_eq_some.2 ⟨hbegin, rfl⟩)
      rw [List.append_nil] at hnext
      exact reach_handler hruns rfl rfl rfl hd hnext
    · have hbegin : step ⟨m, none, none⟩ (.idleTick n) =
          some (⟨m, none, some (n, .test 0)⟩, []) := if_pos ⟨hact, rfl, rfl⟩
      have hnext := ih.step (hop (.idleTick n) rfl) (Run.annotate_eq_some.2 ⟨hbegin, rfl⟩)
      rw [List.append_nil] at hnext
      exact reach_idle hruns rfl rfl rfl hact hnext
  | call c | exec | irq c | pendSV | clock e =>
    refine ih.step (hop (.kernel _) rfl) (Run.annotate_eq_some.2 ⟨?_, rfl⟩)
    simp only [step, inHandler, Option.isSome_none, Bool.false_and, Bool.and_false, hs]
    rfl

/-- A run of `Machine` with a record is a run of whole ticks with this record. -/
theorem exists_of_noted {ok : Machine × γ → Action → Prop} {g₀ g : γ}
    (h : Run.Reach (Run.annotate Machine.step f) (fun p a => ok p a ∧ p.1.Timely a)
      (Machine.start cfg, g₀) (m, g) out) :
    ∃ s : Split, s.ticking = false ∧ s.machine = m ∧
      Run.Reach (noted f) (WholeNoted f ok) (start cfg, g₀) (s, g) out := by
  have hstart : Run.Reach Machine.step (fun _ _ => True) (Machine.start cfg) (start cfg).machine [] :=
    .init
  exact exists_of_continued hstart rfl h

/-- A run of `Machine` is a run of whole ticks. -/
theorem exists_of_machine {ok : Machine → Action → Prop}
    (h : Run.Reach Machine.step (fun m a => ok m a ∧ m.Timely a) (Machine.start cfg) m out) :
    ∃ s : Split, s.ticking = false ∧ s.machine = m ∧
      Run.Reach step (Whole ok) (start cfg) s out := by
  let note : Machine → Action → List Obs → Unit → Unit := fun _ _ _ _ => ()
  obtain ⟨g, hg⟩ : ∃ g, Run.Reach (Run.annotate Machine.step note)
      (fun p a => ok p.1 a ∧ p.1.Timely a) (Machine.start cfg, ()) (m, g) out := h.annotate ()
  obtain ⟨s, hs, hm, hreach⟩ := exists_of_noted hg
  exact ⟨s, hs, hm, hreach.of_annotate fun _ _ _ hok => hok⟩

end Whole

end Split

/-- A run of the machine with statements, along actions that are all possible. -/
structure SplitScenario where
  config : Config
  actions : List SplitAction
  possible : (Run.exec Split.step (Split.start config) actions).isSome = true

namespace SplitScenario

variable (s : SplitScenario)

/-- The machine after the run. -/
def final : Split := ((Run.exec Split.step (Split.start s.config) s.actions).get s.possible).1

/-- What the run has reported. -/
def reports : List Obs :=
  ((Run.exec Split.step (Split.start s.config) s.actions).get s.possible).2

theorem reach {ok : Split → SplitAction → Prop}
    (h : Run.Permitted Split.step ok (Split.start s.config) s.actions) :
    Run.Reach Split.step ok (Split.start s.config) s.final s.reports :=
  Run.Reach.exec h s.possible

end SplitScenario

end TamgaOs
