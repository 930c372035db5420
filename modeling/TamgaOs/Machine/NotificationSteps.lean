import TamgaOs.Machine.Orderly

/-!
# Orderly runs with notifications

To the wait lists `task_notify_wait` is another `sched_delay_ms`, and `task_notify_give` is a call that
changes nothing, as long as it does not wake a task behind the back of the list that it waits in. Muting
a machine puts such calls of `scheduler.c` in the place of the notification calls; the muted machine
makes the same steps and keeps the invariant of the orderly runs.

## Main definitions

* `Ctl.muted`, `Call.muted`, `Machine.muted`.
* `Machine.NotifySafe`, `Machine.Undisturbed`: the condition on a step.

## Main results

* `Machine.step_muted`: the other steps are steps of the muted machine.
* `notifyStep_spec`: the steps of the notification calls leave the lists alone.
* `Sound.muted_step`: an undisturbed step keeps the invariant of the muted machine.
* `Machine.undisturbed_of_within`: runs without queues, notifications and resumed tasks.
-/

namespace TamgaOs

/-! ### The muted machine -/

/-- The program point without notifications. -/
def Ctl.muted : Ctl → Ctl
  | notify (.wait ms) => sched (.delay ms)
  | notify .blocked => sched .delayWait
  | notify (.give _ _) | notify (.wake _) | notify .trigger => sched (.pause 0)
  | notify .given | notify (.returned _) => sched .returned
  | c => c

/-- The call without notifications. -/
def Call.muted : Call → Call
  | taskNotifyWait ms => schedDelayMs ms
  | taskNotifyGive _ _ => schedTaskPause 0
  | c => c

def Action.muted : Action → Action
  | call c => call c.muted
  | irq c => irq c.muted
  | a => a

/-- The machine without notifications. -/
def Machine.muted (m : Machine) : Machine := { m with ctl := fun x => (m.ctl x).muted }

namespace Ctl

variable {c : Ctl} {t : TaskPtr}

theorem muted_of_family (h : c.family ≠ some .notify) : c.muted = c := by
  cases c <;> first | rfl | exact absurd rfl h

theorem family_muted (c : Ctl) : c.muted.family ≠ some .notify := by
  cases c with
  | notify c => cases c <;> simp [muted, family]
  | app | sem c | mutex c | queue c | event c | sched c => simp [muted, family]

@[simp] theorem atRest_muted (c : Ctl) : c.muted.atRest = c.atRest := by
  cases c with
  | notify c => cases c <;> rfl
  | app | sem c | mutex c | queue c | event c | sched c => rfl

@[simp] theorem wakes_muted (c : Ctl) : c.muted.wakes = c.wakes := by
  cases c with
  | notify c => cases c <;> rfl
  | app | sem c | mutex c | queue c | event c | sched c => rfl

@[simp] theorem waitsOn_muted (c : Ctl) : c.muted.waitsOn = c.waitsOn := by
  cases c with
  | notify c => cases c <;> rfl
  | app | sem c | mutex c | queue c | event c | sched c => rfl

@[simp] theorem timed_muted (c : Ctl) : c.muted.timed = c.timed := by
  cases c with
  | notify c => cases c <;> rfl
  | app | sem c | mutex c | queue c | event c | sched c => rfl

theorem timed_of_isrSafe (h : c.isrSafe = true) : c.timed = false := by
  unfold isrSafe at h
  split at h <;> first | rfl | cases h

/-- Muting leaves the beginning of `sched_task_resume` alone. -/
theorem muted_eq_resume {index : ℕ} (h : c.muted = .sched (.resume index)) :
    c = .sched (.resume index) := by
  cases c with
  | notify c => cases c <;> cases h
  | app | sem c | mutex c | queue c | event c | sched c => exact h

end Ctl

theorem Call.entry_muted (c : Call) : c.muted.entry = c.entry.muted := by cases c <;> rfl

theorem Call.isrSafe_muted {c : Call} (h : c.isrSafe = true) : c.muted.isrSafe = true := by
  cases c <;> first | rfl | cases h

theorem Call.family_muted (c : Call) : c.muted.family ≠ some .notify := by
  unfold Call.family
  rw [c.entry_muted]
  exact c.entry.family_muted

namespace Machine

variable {m m' : Machine} {a : Action} {o : List Obs} {x : Ctx} {n : ℕ}

@[simp] theorem kernel_muted (m : Machine) : m.muted.kernel = m.kernel := rfl

@[simp] theorem ctl_muted (m : Machine) (x : Ctx) : m.muted.ctl x = (m.ctl x).muted := rfl

@[simp] theorem active_muted (m : Machine) : m.muted.active = m.active := rfl

theorem muted_update (m : Machine) (k : Kernel) (x : Ctx) (c : Ctl) (d : ℕ) :
    Machine.muted ⟨k, Function.update m.ctl x c, d⟩ = ⟨k, Function.update m.muted.ctl x c.muted, d⟩ := by
  unfold muted
  congr 1
  funext y
  dsimp only
  rw [Function.update_apply, Function.update_apply]
  split_ifs <;> rfl

theorem muted_resume (m : Machine) (x : Ctx) (k : Kernel) (c : Ctl) :
    (m.resume x k c).muted = m.muted.resume x k c.muted := by
  unfold resume
  rw [muted_update]
  cases x with
  | thread t => rfl
  | isr i =>
    dsimp only
    rw [Ctl.atRest_muted]
    rfl

/-- The steps outside the notification calls are steps of the muted machine. -/
theorem step_muted (hs : m.step a = some (m', o))
    (hno : a = .exec → ∀ x, m.active = some x → (m.ctl x).family ≠ some .notify) :
    m.muted.step a.muted = some (m'.muted, o) := by
  rcases step_cases hs with ⟨c, i, rfl, hact, hrest, rfl, rfl⟩ |
    ⟨x, t, k', c', rfl, hact, hcur, hst, rfl⟩ | ⟨c, rfl, hsafe, rfl, rfl⟩ | ⟨rfl, hd, hp, rfl, rfl⟩ |
    ⟨n, rfl, rfl, rfl⟩ | ⟨n, k', rfl, hk, rfl, rfl⟩
  · have hrest' : (m.muted.ctl (.thread (.tcb i))).atRest = true := by rwa [ctl_muted, Ctl.atRest_muted]
    rw [muted_update]
    simp only [Action.muted, step, active_muted, hact, hrest', if_true, Call.entry_muted]
    rfl
  · have hF := hno rfl x hact
    have hctl : m.muted.ctl x = m.ctl x := Ctl.muted_of_family hF
    have hc' : c'.muted = c' := Ctl.muted_of_family (by rwa [Ctl.family_ctlStep hst])
    rw [muted_resume, hc']
    simp only [Action.muted, step, active_muted, kernel_muted, hact, hcur, hctl, hst]
  · rw [muted_update]
    simp only [Action.muted, step, Call.isrSafe_muted hsafe, if_true, Call.entry_muted]
    rfl
  · simp only [Action.muted, step, kernel_muted, hp, and_true]
    exact if_pos hd
  · rfl
  · simp only [Action.muted, step, kernel_muted, hk, Option.map_some]
    rfl

/-! ### The condition on the steps -/

/-- A notification call does not wake a task that is linked or still to be woken, and
`task_notify_wait` does not return while its delay is still running. -/
def NotifySafe (m : Machine) : Prop :=
  ∀ x c, m.active = some x → m.ctl x = .notify c →
    (∀ t, c = .wake t → ¬ m.kernel.Linked t ∧ ∀ y, (m.ctl y).wakes ≠ some t) ∧
    ∀ t, c = .blocked → x = .thread t → (m.kernel.tcb t).delayTicks = 0

/-- The step makes no task ready behind the back of a list. -/
def Undisturbed (m : Machine) : Action → Prop
  | .exec => m.ResumeSafe ∧ m.NotifySafe
  | .tick n => m.TickSafe n
  | .call _ | .irq _ | .pendSV | .clock _ => True

theorem ResumeSafe.muted (h : m.ResumeSafe) : m.muted.ResumeSafe := by
  intro x index hact hc hi hp
  obtain ⟨hnot, hwake⟩ := h x index hact (Ctl.muted_eq_resume hc) hi hp
  exact ⟨hnot, fun y => by rw [ctl_muted, Ctl.wakes_muted]; exact hwake y⟩

theorem TickSafe.muted (h : m.TickSafe n) : m.muted.TickSafe n := by
  intro x t hw
  rw [ctl_muted, Ctl.wakes_muted] at hw
  exact h x t hw

theorem Undisturbed.orderly (h : m.Undisturbed a) : m.muted.Orderly a.muted := by
  cases a with
  | call c | irq c => exact c.family_muted
  | exec => exact h.1.muted
  | pendSV | clock => trivial
  | tick n => exact TickSafe.muted h

end Machine

/-! ### The steps of the notification calls -/

section Steps

variable {k k' : Kernel} {ctl : Ctx → Ctl} {W : Ctx → Option TaskPtr} {L L' : WaitList → List TaskPtr}
  {m m' : Machine} {a : Action} {t : TaskPtr} {x : Ctx} {o : List Obs}

/-- A task that is in no list and that nobody is about to wake is made ready. -/
theorem Coherent.wakeFree (h : Coherent k ctl W L) (ht : Free L W t) :
    Coherent (k.wakeSection t) ctl W L :=
  (h.modifyFree ht (f := fun x => { x with waitNext := none, delayTicks := 0, state := .ready })
    fun hpos => absurd hpos (lt_irrefl 0)).schedPickAndMark

theorem Kernel.sameSched_notifyGiveSection (k : Kernel) (t : TaskPtr) (value : ℕ) :
    SameSched k (k.notifyGiveSection t value).1 := by
  have htcb : ∀ u, (k.notifyGiveSection t value).1.tcb u = { k.tcb u with
      notifyValue := if u = t then value else (k.tcb u).notifyValue
      notifyPending := if u = t then true else (k.tcb u).notifyPending } := by
    intro u
    unfold notifyGiveSection
    rw [modifyTask_tcb]
    split_ifs with hu
    · rw [hu]
    · rfl
  refine ⟨rfl, rfl, rfl, rfl, rfl, fun u => by rw [htcb], ?_, fun u hu => ?_, fun u => by rw [htcb]⟩
  · funext u
    unfold waitNext
    rw [htcb]
  · rwa [htcb] at hu

/-- The notification calls leave the lists, the objects and the marks alone. -/
theorem notifyStep_spec {c c' : NotifyCtl} (h : Coherent k ctl W L) (hx : Runs k x t)
    (hc : ctl x = (Ctl.notify c).muted) (hwake : ∀ u, c = .wake u → Free L W u)
    (hdelay : c = .blocked → (k.tcb t).delayTicks = 0) (hs : notifyStep k t c = some (k', c', o)) :
    Coherent k' (Function.update ctl x (Ctl.notify c').muted) W L ∧ Quiet k k' ∅ := by
  have happ : ctl x ≠ .app := by
    rw [hc]
    cases c <;> exact Ctl.noConfusion
  have hthread : (Ctl.notify c).muted.isrSafe = false → x = .thread t := by
    rw [← hc]
    exact h.thread_of_not_isrSafe hx
  have hgo : ∀ c', (Ctl.notify c).muted.isrSafe = true → c'.isrSafe = true →
      Coherent k (Function.update ctl x c') W L := fun c' hold hnew =>
    h.advance hx hc (by rwa [hc] at happ) (by cases c <;> first | rfl | cases hold) fun _ => hnew
  cases c with
  | give u value =>
    have hco := hgo (.sched (.pause 0)) rfl rfl
    have hdone := hgo (.sched .returned) rfl rfl
    cases u with
    | none =>
      cases hs
      exact ⟨hdone, .refl k ∅⟩
    | some u =>
      have hsame := k.sameSched_notifyGiveSection u value
      have hstore : Quiet k (k.modifyTask u fun x =>
          { x with notifyValue := value, notifyPending := true }) ∅ := .modifyTask u rfl fun _ => rfl
      have hquiet : Quiet k (k.notifyGiveSection u value).1 ∅ := hstore
      simp only [notifyStep] at hs
      split at hs <;> rename_i k₁ he <;> cases hs <;> rw [he] at hsame hquiet
      · exact ⟨hco.congr hsame, hquiet⟩
      · exact ⟨hdone.congr hsame, hquiet⟩
  | wake u =>
    cases hs
    exact ⟨(hgo (.sched (.pause 0)) rfl rfl).wakeFree (hwake u rfl), .wakeSection k u⟩
  | trigger =>
    cases hs
    exact ⟨(hgo (.sched .returned) rfl rfl).triggerIfSwitch, .triggerIfSwitch k⟩
  | wait ms =>
    obtain rfl := hthread rfl
    have hf := (h.free_of_runs hx happ).1
    have hzero := h.delay_eq_zero hf (by rw [hc]; rfl)
    have hdone := h.advanceThread hx happ (c := .sched .returned) fun hpos => absurd hpos (by omega)
    simp only [notifyStep] at hs
    split_ifs at hs
    · cases hs
      refine ⟨hdone.modifyFree hf fun hpos => ?_, .modifyTask t rfl fun _ => rfl⟩
      exact absurd (hzero ▸ hpos : 0 < 0) (lt_irrefl 0)
    · cases hs
      exact ⟨hdone, .refl k ∅⟩
    · cases hs
      have hsleep := (h.advanceThread hx happ (c := .sched .delayWait) fun _ => rfl).modifyFree hf
        (f := fun x => { x with state := .blocked, delayTicks := ms, waitListHead := none }) fun _ => by
          rw [Function.update_self]
          rfl
      refine ⟨hsleep.schedPickAndMark.triggerPendsv, ?_⟩
      exact ((Quiet.modifyTask t rfl fun _ => rfl).trans
        Kernel.rescheduled_schedPickAndMark.quiet).trans (.triggerPendsv _)
  | blocked =>
    obtain rfl := hthread rfl
    have hf := (h.free_of_runs hx happ).1
    have hzero := hdelay rfl
    have hdone := h.advanceThread hx happ (c := .sched .returned) fun hpos => absurd hpos (by omega)
    simp only [notifyStep] at hs
    split_ifs at hs <;> cases hs
    · refine ⟨hdone.modifyFree hf fun hpos => ?_, .modifyTask t rfl fun _ => rfl⟩
      exact absurd (hzero ▸ hpos : 0 < 0) (lt_irrefl 0)
    · exact ⟨hdone, .refl k ∅⟩
  | given | returned v => cases hs

namespace Sound

/-- The step of a notification call keeps the invariant. -/
theorem notify (h : Sound m.muted L) (hact : m.active = some x) (hcur : m.kernel.currentTask = some t)
    (hsafe : m.NotifySafe) (hF : (m.ctl x).family = some .notify) {c' : Ctl}
    (hs : ctlStep m.kernel t (m.ctl x) = some (k', c', o)) : Sound (m.resume x k' c').muted L := by
  have hx := Machine.runs hact hcur
  cases hc : m.ctl x with
  | app | sem c | mutex c | queue c | event c | sched c =>
    rw [hc] at hF
    cases hF
  | notify c =>
    have hmuted : m.muted.ctl x = (Ctl.notify c).muted := by rw [Machine.ctl_muted, hc]
    rw [hc] at hs
    obtain ⟨⟨k₁, c₁, o₁⟩, hstep, he⟩ := Option.map_eq_some_iff.1 hs
    cases he
    obtain ⟨hwake, hdelay⟩ := hsafe x c hact hc
    have hfree : ∀ u, c = .wake u → Free L m.muted.owed u := by
      intro u hu
      obtain ⟨hnot, hnobody⟩ := hwake u hu
      refine ⟨fun l hl => hnot (h.linked_iff.2 ⟨l, hl⟩), fun y hy => hnobody y ?_⟩
      rwa [Machine.owed, Machine.ctl_muted, Ctl.wakes_muted] at hy
    have hzero : c = .blocked → (m.kernel.tcb t).delayTicks = 0 := by
      rintro rfl
      refine hdelay t rfl (h.coherent.thread_of_not_isrSafe hx ?_)
      rw [hmuted]
      rfl
    obtain ⟨hco, hquiet⟩ := notifyStep_spec h.coherent hx hmuted hfree hzero hstep
    have hun : Untouched .sched x m.kernel k' L L := hquiet.untouched_self
    have hsched : (m.muted.ctl x).family = some .sched := by
      rw [hmuted]
      cases c <;> rfl
    have hno : ∀ (c : NotifyCtl) w d i, (Ctl.notify c).muted ≠ .event (.blocked w d i) := by
      intro c w d i
      cases c <;> simp [Ctl.muted]
    have howed : Function.update m.muted.owed x (Ctl.notify c₁).muted.wakes = m.muted.owed := by
      have hnone : m.muted.owed x = none := by
        rw [Machine.owed, hmuted, Ctl.wakes_muted]
        rfl
      rw [Ctl.wakes_muted, show (Ctl.notify c₁).wakes = none from rfl, ← hnone, Function.update_eq_self]
    rw [Machine.muted_resume]
    refine h.resume hact hx (fun happ => ?_) (by rwa [howed]) hun (fun l u hu => .inl hu)
      (h.slotted.setCtl (fun i => ?_) (fun w d i => ?_) (hno c₁)) (fun l => ?_) (Ctl.family_muted _)
    · rw [happ] at hsched
      cases hsched
    · rw [hquiet.pending]
      exact ⟨rfl, rfl⟩
    · rw [hmuted]
      exact hno c w d i
    · refine (h.covered l).untouched h.coherent hun hsched ?_
      cases l <;> simp [WaitList.family]

/-- An undisturbed step keeps the invariant, and a task leaves a list only by a tick that expires it or
by a call of the list's module. -/
theorem muted_step (h : Sound m.muted L) (hok : m.Undisturbed a) (hs : m.step a = some (m', o)) :
    ∃ L', Sound m'.muted L' ∧ ∀ l u, u ∈ L l → u ∉ L' l →
      (∃ n, a = .tick n ∧ m.kernel.expires n u = true) ∨
        ∃ x, a = .exec ∧ m.active = some x ∧ (m.ctl x).family = some l.family := by
  -- the lists of a state are determined by its heap
  have hsame : ∀ {L'}, Sound m'.muted L' → (∀ l xs, m.kernel.Waiters l xs → m'.kernel.Waiters l xs) →
      L' = L := fun hs' hw => funext fun l =>
    (hs'.coherent.waiters l).unique (hw l _ (h.coherent.waiters l))
  rcases Machine.step_cases hs with ⟨c, i, rfl, -, -, rfl, -⟩ |
    ⟨x, t, k', c', rfl, hact, hcur, hst, rfl⟩ | ⟨c, rfl, -, rfl, -⟩ | ⟨rfl, -, -, rfl, -⟩ |
    ⟨n, rfl, rfl, -⟩ | ⟨n, k', rfl, hk, rfl, -⟩
  · obtain ⟨L', -, hs'⟩ := h.step hok.orderly (Machine.step_muted hs (by simp))
    rw [hsame hs' fun _ _ => id] at hs'
    exact ⟨L, hs', fun l u hin hout => absurd hin hout⟩
  · by_cases hF : (m.ctl x).family = some .notify
    · exact ⟨L, h.notify hact hcur hok.2 hF hst, fun l u hin hout => absurd hin hout⟩
    · have hctl : m.muted.ctl x = m.ctl x := Ctl.muted_of_family hF
      have hc' : c'.muted = c' := Ctl.muted_of_family (by rwa [Ctl.family_ctlStep hst])
      obtain ⟨L', -, hs', hframe⟩ := h.exec hact hcur hok.1.muted (by rwa [hctl])
      rw [Machine.muted_resume, hc']
      refine ⟨L', hs', fun l u hin hout => .inr ⟨x, rfl, hact, ?_⟩⟩
      by_contra hne
      rw [hframe l (by rw [hctl]; exact Ne.symm hne)] at hout
      exact hout hin
  · obtain ⟨L', -, hs'⟩ := h.step hok.orderly (Machine.step_muted hs (by simp))
    rw [hsame hs' fun _ _ => id] at hs'
    exact ⟨L, hs', fun l u hin hout => absurd hin hout⟩
  · exact ⟨L, h.pendSV, fun l u hin hout => absurd hin hout⟩
  · exact ⟨L, h.clock n, fun l u hin hout => absurd hin hout⟩
  · obtain ⟨k₁, L', hk₁, he, hs'⟩ := h.tick (n := n) (Machine.TickSafe.muted hok)
    cases hk.symm.trans hk₁
    refine ⟨L', hs', fun l u hin hout => .inl ⟨n, rfl, ?_⟩⟩
    rw [he.lists, List.mem_filter] at hout
    simpa [hin] using hout

end Sound

end Steps

/-- In a run of steady calls every action that makes no other call is undisturbed. -/
theorem Machine.undisturbed_of_within {cfg : Config} {ok : Machine → Action → Prop}
    (hok : ∀ m a, ok m a → a.Within Call.Steady) {m : Machine} {out : List Obs}
    (h : Run.Reach Machine.step ok (Machine.start cfg) m out) {a : Action}
    (hwithin : a.Within Call.Steady) : m.Undisturbed a := by
  have horderly := Machine.orderly_of_within hok h hwithin
  cases a with
  | call | irq | pendSV | clock => trivial
  | tick n => exact horderly
  | exec =>
    obtain ⟨L, hs⟩ := Machine.sound_of_reach (fun m a ha => ha.2) (Machine.orderly_of_steady hok h)
    refine ⟨horderly, fun x c _ hc => absurd ?_ (hs.calm x)⟩
    rw [hc]
    rfl

end TamgaOs
