import TamgaOs.Machine.Objects
import TamgaOs.Machine.Tick
import TamgaOs.Machine.SemaphoreSteps
import TamgaOs.Machine.MutexSteps
import TamgaOs.Machine.QueueSteps
import TamgaOs.Machine.EventSteps
import TamgaOs.Machine.SchedulerSteps

/-!
# Orderly runs

A run is orderly when it makes no notification call and none of its steps makes a task ready
behind the back of the wait list it belongs to: no tick expires a task that has been popped and not
been woken yet, and no `sched_task_resume` hits a paused task that is linked or still to be woken.
Along an orderly run the wait lists are coherent with what the tasks do, and no wake-up is lost.

## Main definitions

* `Machine.Orderly m a`: the condition on a step.
* `Sound m L`: the invariant of orderly runs, for the wait lists `L`.
* `StepEffect m L a m' L' o`: what an orderly step does.

## Main results

* `Sound.step`: an orderly step has an effect and keeps the invariant.
* `Machine.orderly_induct`: the invariant rule of orderly runs.
* `Machine.sound_of_reach`: the invariant holds along every orderly run.
-/

namespace TamgaOs

/-! ### Program points outside the calls -/

namespace Ctl

variable {c : Ctl}

theorem wakes_of_atRest (h : c.atRest = true) : c.wakes = none := by
  unfold wakes
  split
  · cases h
  · rfl

theorem retries_of_atRest (h : c.atRest = true) : c.retries = none := by
  unfold retries
  split <;> first | rfl | cases h

theorem waitsOn_of_atRest (h : c.atRest = true) : c.waitsOn = none := by
  unfold waitsOn
  split <;> first | rfl | cases h

theorem delaying_of_atRest (h : c.atRest = true) : c.delaying = false := by
  unfold delaying
  split <;> first | rfl | cases h

theorem delaying_of_waitsOn {l : WaitList} (h : c.waitsOn = some l) : c.delaying = false := by
  unfold waitsOn at h
  split at h <;> first | rfl | cases h

theorem delaying_of_retries {l : WaitList} (h : c.retries = some l) : c.delaying = false := by
  unfold retries at h
  split at h <;> first | rfl | cases h

theorem not_eventBlocked_of_atRest (h : c.atRest = true) (w : EventWait) (d : Option ℕ) (i : ℕ) :
    c ≠ .event (.blocked w d i) := by
  rintro rfl
  cases h

end Ctl

namespace Call

theorem wakes_entry (c : Call) : c.entry.wakes = none := by cases c <;> rfl

theorem isrSafe_entry {c : Call} (h : c.isrSafe = true) : c.entry.isrSafe = true := by
  cases c <;> first | rfl | cases h

theorem not_eventBlocked_entry (c : Call) (w : EventWait) (d : Option ℕ) (i : ℕ) :
    c.entry ≠ .event (.blocked w d i) := by
  cases c <;> simp [entry]

end Call

/-! ### The condition on the steps -/

/-- The task is in some wait list of the heap. -/
def Kernel.Linked (k : Kernel) (t : TaskPtr) : Prop := ∃ l xs, k.Waiters l xs ∧ t ∈ xs

namespace Machine

/-- A tick of `n` expires no task that a context has popped and still has to wake. -/
def TickSafe (m : Machine) (n : ℕ) : Prop :=
  ∀ x t, (m.ctl x).wakes = some t → m.kernel.expires n t = false

/-- The executing context is not about to resume a paused task that is linked or still to be
woken. -/
def ResumeSafe (m : Machine) : Prop :=
  ∀ x index, m.active = some x → m.ctl x = .sched (.resume index) → index < m.kernel.taskCount →
    (m.kernel.tcb (.tcb index)).state = .paused →
    ¬ m.kernel.Linked (.tcb index) ∧ ∀ y, (m.ctl y).wakes ≠ some (.tcb index)

/-- The step makes no notification call and makes no task ready behind the back of a list. -/
def Orderly (m : Machine) : Action → Prop
  | .call c | .irq c => c.family ≠ some .notify
  | .exec => m.ResumeSafe
  | .pendSV | .clock _ => True
  | .tick n => m.TickSafe n

/-- The wake-ups that the contexts owe. -/
def owed (m : Machine) (x : Ctx) : Option TaskPtr := (m.ctl x).wakes

end Machine

/-- The invariant of orderly runs: `L` are the wait lists of the heap, they are coherent with what
the contexts do, the mark of a linked task is clear if it waits with a timeout, the slots of
`s_pending` are coherent, no wake-up is lost, and the handlers that are not active have finished. -/
structure Sound (m : Machine) (L : WaitList → List TaskPtr) : Prop where
  coherent : Coherent m.kernel m.ctl m.owed L
  fresh : ∀ l t, t ∈ L l → (m.ctl (.thread t)).timed = true → (m.kernel.tcb t).timedOut = false
  slotted : Slotted m.kernel m.ctl
  covered : ∀ l, Covered m.kernel m.ctl L l
  finished : ∀ i, m.depth ≤ i → (m.ctl (.isr i)).atRest = true
  calm : ∀ x, (m.ctl x).family ≠ some .notify

/-- The wait lists are determined by the heap. -/
theorem Sound.unique {m : Machine} {L L' : WaitList → List TaskPtr} (h : Sound m L)
    (h' : Sound m L') : L = L' :=
  funext fun l => (h.coherent.waiters l).unique (h'.coherent.waiters l)

theorem Sound.linked_iff {m : Machine} {L : WaitList → List TaskPtr} (h : Sound m L)
    {t : TaskPtr} : m.kernel.Linked t ↔ ∃ l, t ∈ L l := by
  constructor
  · rintro ⟨l, xs, hw, ht⟩
    exact ⟨l, hw.unique (h.coherent.waiters l) ▸ ht⟩
  · rintro ⟨l, ht⟩
    exact ⟨l, L l, h.coherent.waiters l, ht⟩

/-- What an orderly step does. -/
inductive StepEffect (m : Machine) (L : WaitList → List TaskPtr) :
    Action → Machine → (WaitList → List TaskPtr) → List Obs → Prop
  | call {c : Call} {i : ℕ} (hact : m.active = some (.thread (.tcb i)))
      (hrest : (m.ctl (.thread (.tcb i))).atRest = true) :
      StepEffect m L (.call c)
        { m with ctl := Function.update m.ctl (.thread (.tcb i)) c.entry } L []
  | irq {c : Call} (hsafe : c.isrSafe = true) :
      StepEffect m L (.irq c)
        { m with ctl := Function.update m.ctl (.isr m.depth) c.entry, depth := m.depth + 1 } L []
  | pendSV : StepEffect m L .pendSV { m with kernel := m.kernel.pendSV } L []
  | clock {n : ℕ} :
      StepEffect m L (.clock n) { m with kernel := m.kernel.advanceClock n } L []
  | tick {n : ℕ} {k' : Kernel} {L' : WaitList → List TaskPtr}
      (he : TickEffect n m.kernel k' L L') :
      StepEffect m L (.tick n) { m with kernel := k' } L' []
  | sem {x : Ctx} {t : TaskPtr} {c c' : SemCtl} {k' : Kernel} {L' : WaitList → List TaskPtr}
      {o : List Obs} (hx : Runs m.kernel x t) (hc : m.ctl x = .sem c)
      (he : SemEffect m.kernel L t c k' c' L') (hu : Untouched .sem x m.kernel k' L L')
      (ho : ∀ b ∈ o, b.family = .sem) :
      StepEffect m L .exec (m.resume x k' (.sem c')) L' o
  | mutex {t : TaskPtr} {c c' : MutexCtl} {k' : Kernel} {L' : WaitList → List TaskPtr}
      {o : List Obs} (hx : Runs m.kernel (.thread t) t) (hc : m.ctl (.thread t) = .mutex c)
      (he : MutexEffect m.kernel L t c k' c' L' o)
      (hu : Untouched .mutex (.thread t) m.kernel k' L L')
      (hact : m.active = some (.thread t)) :
      StepEffect m L .exec (m.resume (.thread t) k' (.mutex c')) L' o
  | queue {x : Ctx} {t : TaskPtr} {c c' : QueueCtl} {k' : Kernel} {L' : WaitList → List TaskPtr}
      {o : List Obs} (hx : Runs m.kernel x t) (hc : m.ctl x = .queue c)
      (he : QueueEffect m.kernel L t c k' c' L' o) (hu : Untouched .queue x m.kernel k' L L') :
      StepEffect m L .exec (m.resume x k' (.queue c')) L' o
  | event {x : Ctx} {t : TaskPtr} {c c' : EventCtl} {k' : Kernel} {L' : WaitList → List TaskPtr}
      {o : List Obs} (hx : Runs m.kernel x t) (hc : m.ctl x = .event c)
      (he : EventEffect m.kernel m.ctl L t c k' c' L' o)
      (hu : Untouched .event x m.kernel k' L L') :
      StepEffect m L .exec (m.resume x k' (.event c')) L' o
  | sched {x : Ctx} {t : TaskPtr} {c c' : SchedCtl} {k' : Kernel} (hx : Runs m.kernel x t)
      (hc : m.ctl x = .sched c) (hu : Untouched .sched x m.kernel k' L L)
      (hs : schedStep m.kernel t c = some (k', c', [])) :
      StepEffect m L .exec (m.resume x k' (.sched c')) L []

variable {m m' : Machine} {L L' : WaitList → List TaskPtr} {a : Action} {o : List Obs} {x : Ctx}
  {t : TaskPtr} {k' : Kernel} {c' : Ctl}

/-! ### The invariant and the steps -/

theorem Machine.owed_resume (m : Machine) (x : Ctx) (k' : Kernel) (c' : Ctl) :
    (m.resume x k' c').owed = Function.update m.owed x c'.wakes := by
  funext y
  by_cases hy : y = x
  · subst hy
    simp [Machine.owed, Machine.resume]
  · simp [Machine.owed, Machine.resume, Function.update_of_ne hy]

namespace Sound

/-- The step of an executing context keeps the invariant, given what its effect keeps. -/
theorem resume {F : Family} (h : Sound m L) (hact : m.active = some x)
    (hx : Runs m.kernel x t) (happ : m.ctl x ≠ .app)
    (hco : Coherent k' (Function.update m.ctl x c') (Function.update m.owed x c'.wakes) L')
    (hu : Untouched F x m.kernel k' L L')
    (hnew : ∀ l u, u ∈ L' l → u ∈ L l ∨ Newly k' t (m.ctl x) c' u)
    (hsl : Slotted k' (Function.update m.ctl x c'))
    (hcov : ∀ l, Covered k' (Function.update m.ctl x c') L' l)
    (hcalm : c'.family ≠ some .notify) : Sound (m.resume x k' c') L' := by
  refine ⟨?_, fun l u hin htimed => ?_, hsl, hcov, fun i hi => ?_, fun y => ?_⟩
  · rw [Machine.owed_resume]
    exact hco
  · change (Function.update m.ctl x c' (.thread u)).timed = true at htimed
    rcases hnew l u hin with hold | ⟨rfl, hsafe, hmark⟩
    · have hxu : x ≠ .thread u := by
        rintro rfl
        have hut : u = t := by
          rcases hx.ctx with ⟨he, -⟩ | ⟨i, he⟩ <;> cases he
          rfl
        subst hut
        exact (h.coherent.free_of_runs hx happ).1.1 l hold
      rw [Function.update_of_ne (Ne.symm hxu)] at htimed
      change (k'.tcb u).timedOut = false
      rw [hu.timedOut u (h.coherent.inTable_of_mem hold) hxu]
      exact h.fresh l u hold htimed
    · obtain rfl := h.coherent.thread_of_not_isrSafe hx hsafe
      rw [Function.update_self] at htimed
      exact hmark htimed
  · change (Function.update m.ctl x c' (.isr i)).atRest = true
    cases x with
    | thread u =>
      rw [Function.update_of_ne (by simp)]
      exact h.finished i hi
    | isr d =>
      have hdepth := Machine.active_isr hact
      change (if c'.atRest = true then d else m.depth) ≤ i at hi
      by_cases hid : i = d
      · subst hid
        rw [Function.update_self]
        by_contra hrest
        rw [if_neg hrest] at hi
        omega
      · rw [Function.update_of_ne (by simpa using hid)]
        refine h.finished i ?_
        split_ifs at hi <;> omega
  · change (Function.update m.ctl x c' y).family ≠ _
    by_cases hy : y = x
    · subst hy
      rw [Function.update_self]
      exact hcalm
    · rw [Function.update_of_ne hy]
      exact h.calm y

/-- A context at rest, or about to be entered, starts a call. -/
theorem start (h : Sound m L) (hrest : (m.ctl x).atRest = true) {c : Call}
    (hfree : ∀ u, x = .thread u → Free L m.owed u ∧ InTable m.kernel u)
    (hisr : ∀ i, x = .isr i → i = m.depth ∧ c.isrSafe = true) (hc : c.family ≠ some .notify)
    {d : ℕ} (hd : m.depth ≤ d) (hdx : x = .isr m.depth → m.depth < d) :
    Sound { m with ctl := Function.update m.ctl x c.entry, depth := d } L := by
  have hlinked : ∀ l u, u ∈ L l → Function.update m.ctl x c.entry (.thread u) = m.ctl (.thread u) :=
    fun l u hu => Function.update_of_ne (fun he => (hfree u he.symm).1.1 l hu) ..
  refine ⟨?_, fun l u hu htimed => ?_, ?_, fun l => ?_, fun i hi => ?_, fun y => ?_⟩
  · have howed : Machine.owed { m with ctl := Function.update m.ctl x c.entry, depth := d } =
        m.owed := by
      funext y
      by_cases hy : y = x
      · subst hy
        simp [Machine.owed, c.wakes_entry, Ctl.wakes_of_atRest hrest]
      · simp [Machine.owed, Function.update_of_ne hy]
    rw [howed]
    refine h.coherent.setCtl (fun u hu => ?_) fun i hi => ?_
    · obtain ⟨hf, htab⟩ := hfree u hu
      refine ⟨hf, htab, fun hpos => ?_⟩
      rw [h.coherent.delay_eq_zero hf (Ctl.delaying_of_atRest (hu ▸ hrest))] at hpos
      exact absurd hpos (lt_irrefl 0)
    · exact Call.isrSafe_entry (hisr i hi).2
  · change (Function.update m.ctl x c.entry (.thread u)).timed = true at htimed
    rw [hlinked l u hu] at htimed
    exact h.fresh l u hu htimed
  · exact h.slotted.setCtl (fun _ => ⟨rfl, rfl⟩) (Ctl.not_eventBlocked_of_atRest hrest)
      c.not_eventBlocked_entry
  · refine (h.covered l).elsewhere ?_ (fun _ _ _ => rfl) le_rfl rfl
    rintro u rfl
    refine not_stillToRetry ?_ ?_
    · rw [Ctl.retries_of_atRest hrest]
      exact (Option.some_ne_none l).symm
    · rw [Ctl.waitsOn_of_atRest hrest]
      exact (Option.some_ne_none l).symm
  · change d ≤ i at hi
    have hix : Ctx.isr i ≠ x := by
      rintro rfl
      have hid := (hisr i rfl).1
      subst hid
      exact absurd (hdx rfl) (not_lt.2 hi)
    change (Function.update m.ctl x c.entry (.isr i)).atRest = true
    rw [Function.update_of_ne hix]
    exact h.finished i (hd.trans hi)
  · change (Function.update m.ctl x c.entry y).family ≠ _
    by_cases hy : y = x
    · subst hy
      rw [Function.update_self]
      exact hc
    · rw [Function.update_of_ne hy]
      exact h.calm y

/-- The context switch keeps the invariant. -/
theorem pendSV (h : Sound m L) : Sound { m with kernel := m.kernel.pendSV } L := by
  refine ⟨h.coherent.pendSV, h.fresh, ⟨h.slotted.slot, h.slotted.owner⟩, fun l => ?_, h.finished,
    h.calm⟩
  refine Handoff.Covered.mono (h.covered l) id (le_of_eq ?_) fun u hu => hu
  cases l <;> rfl

/-- The clock keeps the invariant. -/
theorem clock (h : Sound m L) (n : ℕ) :
    Sound { m with kernel := m.kernel.advanceClock n } L := by
  refine ⟨h.coherent.congr ⟨rfl, rfl, rfl, rfl, rfl, fun _ => rfl, rfl, fun _ h => h, fun _ => rfl⟩,
    h.fresh, ⟨h.slotted.slot, h.slotted.owner⟩, fun l => ?_, h.finished, h.calm⟩
  refine Handoff.Covered.mono (h.covered l) id (le_of_eq ?_) fun u hu => hu
  cases l <;> rfl

/-- A safe tick ends no delay but those of sleeping tasks and of linked waiters. -/
theorem not_expires (h : Sound m L) {n : ℕ} (hsafe : m.TickSafe n) {u : TaskPtr}
    (hdel : (m.ctl (.thread u)).delaying = false) (hnot : ∀ l, u ∉ L l) :
    m.kernel.expires n u = false := by
  by_contra hexp
  rw [Bool.not_eq_false] at hexp
  have hpos := Kernel.delayTicks_pos_of_expires hexp
  rcases h.coherent.delay_cases hpos with ⟨-, hd⟩ | ⟨l, hl, -⟩ | ⟨y, hy⟩
  · rw [hdel] at hd
    cases hd
  · exact hnot l hl
  · rw [hsafe y u hy] at hexp
    cases hexp

/-- A popped task that has still to test again is in no list and does not sleep. -/
theorem idle_of_stillToRetry (h : Sound m L) {l : WaitList} {u : TaskPtr}
    (hu : StillToRetry m.kernel m.ctl L l u) :
    (m.ctl (.thread u)).delaying = false ∧ ∀ l', u ∉ L l' := by
  rcases hu with hr | ⟨hw, hnot, -⟩
  · refine ⟨Ctl.delaying_of_retries hr, fun l' hl' => ?_⟩
    rw [Ctl.retries_eq_none_of_waitsOn (h.coherent.linked l' u hl').2] at hr
    cases hr
  · refine ⟨Ctl.delaying_of_waitsOn hw, fun l' hl' => ?_⟩
    rw [(h.coherent.linked l' u hl').2] at hw
    cases hw
    exact hnot hl'

/-- A safe tick keeps the invariant. -/
theorem tick (h : Sound m L) {n : ℕ} (hsafe : m.TickSafe n) :
    ∃ k' L', m.kernel.schedTickN n = some k' ∧ TickEffect n m.kernel k' L L' ∧
      Sound { m with kernel := k' } L' := by
  have hw : ∀ u, m.kernel.expires n u = true → ∀ y, m.owed y ≠ some u := by
    intro u hu y hy
    rw [hsafe y u hy] at hu
    cases hu
  obtain ⟨k', L', hrun, hco, he⟩ := h.coherent.schedTickN hw
  refine ⟨k', L', hrun, he, hco, fun l u hu htimed => ?_, ?_, fun l => ?_, h.finished, h.calm⟩
  · rw [he.lists, List.mem_filter] at hu
    have hno : u ∉ {u | m.kernel.expires n u = true} := by
      change ¬ m.kernel.expires n u = true
      simpa using hu.2
    change (k'.tcb u).timedOut = false
    rw [he.quiet.timedOut u hno]
    exact h.fresh l u hu.1 htimed
  · exact ⟨fun u w d i hu => by rw [he.quiet.pending]; exact h.slotted.slot u w d i hu,
      fun i u hi => h.slotted.owner i u (by rw [he.quiet.pending] at hi; exact hi)⟩
  · refine Handoff.Covered.mono (h.covered l) (fun hne hnil => hne ?_)
      (avail_congr he.quiet l).le fun u hu => ?_
    · rw [he.lists, hnil]
      rfl
    · refine hu.keep rfl ?_ fun hin => ?_
      · have hno : u ∉ {u | m.kernel.expires n u = true} := by
          obtain ⟨hdel, hnot⟩ := h.idle_of_stillToRetry hu
          change ¬ m.kernel.expires n u = true
          rw [h.not_expires hsafe hdel hnot]
          exact Bool.false_ne_true
        exact he.quiet.timedOut u hno
      · rw [he.lists, List.mem_filter] at hin
        exact hin.1

/-- The step of an executing context. It leaves the wait lists of the other modules as they are. -/
theorem exec (h : Sound m L) (hact : m.active = some x) (hcur : m.kernel.currentTask = some t)
    (hres : m.ResumeSafe) {k' : Kernel} {c' : Ctl}
    (hs : ctlStep m.kernel t (m.ctl x) = some (k', c', o)) :
    ∃ L', StepEffect m L .exec (m.resume x k' c') L' o ∧ Sound (m.resume x k' c') L' ∧
      ∀ l, some l.family ≠ (m.ctl x).family → L' l = L l := by
  have hx := Machine.runs hact hcur
  have hkeep : ∀ c : Ctl, (m.ctl x).wakes = none → c.wakes = none →
      m.owed = Function.update m.owed x c.wakes := by
    intro c hold hnew
    rw [hnew, ← show m.owed x = none from hold, Function.update_eq_self]
  have happ : m.ctl x ≠ .app := by
    intro he
    rw [he] at hs
    cases hs
  cases hc : m.ctl x with
  | app => exact absurd hc happ
  | sem c =>
    rw [hc] at hs
    obtain ⟨⟨k₁, c₁, o₁⟩, hstep, he⟩ := Option.map_eq_some_iff.1 hs
    cases he
    obtain ⟨L', heff, hco⟩ := semStep_spec h.coherent hx hc hstep
    rw [hkeep (.sem c₁) (by rw [hc]; rfl) rfl] at hco
    refine ⟨L', .sem hx hc heff (heff.untouched x) ?_, h.resume hact hx happ hco (heff.untouched x) (fun l u hu => ?_)
      (h.slotted.setCtl ?_ (by simp [hc]) (by simp))
      (heff.covered h.coherent hx hc h.covered h.fresh) (by simp [Ctl.family]),
      fun l hl => (heff.untouched x).lists l fun he => hl (by rw [he]; rfl)⟩
    · exact semStep_family hstep
    · rw [hc]
      exact heff.newly hu
    · intro i
      rw [((heff.untouched x).event (by simp)).2]
      exact ⟨rfl, rfl⟩
  | mutex c =>
    rw [hc] at hs
    obtain ⟨⟨k₁, c₁, o₁⟩, hstep, he⟩ := Option.map_eq_some_iff.1 hs
    cases he
    obtain rfl := h.coherent.thread_of_not_isrSafe hx (by rw [hc]; rfl)
    obtain ⟨L', heff, hco⟩ := mutexStep_spec h.coherent hx hc hstep
    rw [hkeep (.mutex c₁) (by rw [hc]; rfl) rfl] at hco
    refine ⟨L', .mutex hx hc heff heff.untouched hact, h.resume hact hx happ hco heff.untouched
      (fun l u hu => ?_) (h.slotted.setCtl ?_ (by simp [hc]) (by simp))
      (heff.covered h.coherent hc h.covered h.fresh) (by simp [Ctl.family]),
      fun l hl => heff.untouched.lists l fun he => hl (by rw [he]; rfl)⟩
    · rw [hc]
      exact heff.newly hu
    · intro i
      rw [(heff.untouched.event (by simp)).2]
      exact ⟨rfl, rfl⟩
  | queue c =>
    rw [hc] at hs
    obtain ⟨⟨k₁, c₁, o₁⟩, hstep, he⟩ := Option.map_eq_some_iff.1 hs
    cases he
    have hthread : (Ctl.queue c).isrSafe = false → x = .thread t := by
      rw [← hc]
      exact h.coherent.thread_of_not_isrSafe hx
    obtain ⟨L', heff, hco⟩ := queueStep_spec h.coherent hx hc
      (show m.owed x = _ by rw [Machine.owed, hc]) hstep
    refine ⟨L', .queue hx hc heff (heff.untouched hthread), h.resume hact hx happ hco
      (heff.untouched hthread) (fun l u hu => ?_) (h.slotted.setCtl ?_ (by simp [hc]) (by simp))
      (heff.covered h.coherent hx hc h.covered h.fresh) (by simp [Ctl.family]),
      fun l hl => (heff.untouched hthread).lists l fun he => hl (by rw [he]; rfl)⟩
    · rw [hc]
      exact heff.newly hu
    · intro i
      rw [((heff.untouched hthread).event (by simp)).2]
      exact ⟨rfl, rfl⟩
  | event c =>
    rw [hc] at hs
    obtain ⟨⟨k₁, c₁, o₁⟩, hstep, he⟩ := Option.map_eq_some_iff.1 hs
    cases he
    have hthread : (Ctl.event c).isrSafe = false → x = .thread t := by
      rw [← hc]
      exact h.coherent.thread_of_not_isrSafe hx
    obtain ⟨L', heff, hco⟩ := eventStep_spec h.coherent h.slotted hx hc hstep
    rw [hkeep (.event c₁) (by rw [hc]; rfl) rfl] at hco
    refine ⟨L', .event hx hc heff (heff.untouched hthread), h.resume hact hx happ hco
      (heff.untouched hthread) (fun l u hu => ?_) (heff.slotted h.slotted hc hthread)
      (heff.covered h.coherent hthread hc h.covered) (by simp [Ctl.family]),
      fun l hl => (heff.untouched hthread).lists l fun he => hl (by rw [he]; rfl)⟩
    rw [hc]
    exact heff.newly hu
  | notify c => exact absurd (by rw [hc]; rfl) (h.calm x)
  | sched c =>
    have hfree : ResumesFree m.kernel L m.owed c := by
      rintro index rfl hidx hp
      obtain ⟨hnot, hwake⟩ := hres x index hact hc hidx hp
      rw [h.linked_iff] at hnot
      exact ⟨fun l hl => hnot ⟨l, hl⟩, hwake⟩
    rw [hc] at hs
    obtain ⟨⟨k₁, c₁, o₁⟩, hstep, he⟩ := Option.map_eq_some_iff.1 hs
    cases he
    obtain ⟨hco, hun, rfl⟩ := schedStep_spec h.coherent hx hc hfree hstep
    rw [hkeep (.sched c₁) (by rw [hc]; rfl) rfl] at hco
    refine ⟨L, .sched hx hc hun hstep, h.resume hact hx happ hco hun (fun l u hu => Or.inl hu)
      (h.slotted.setCtl ?_ (by simp [hc]) (by simp)) (fun l => ?_) (by simp [Ctl.family]),
      fun _ _ => rfl⟩
    · intro i
      rw [(hun.event (by simp)).2]
      exact ⟨rfl, rfl⟩
    · refine (h.covered l).untouched h.coherent hun (by rw [hc]; rfl) ?_
      cases l <;> simp [WaitList.family]

/-- An orderly step has an effect and keeps the invariant. -/
theorem step (h : Sound m L) (hok : m.Orderly a) (hs : m.step a = some (m', o)) :
    ∃ L', StepEffect m L a m' L' o ∧ Sound m' L' := by
  rcases Machine.step_cases hs with ⟨c, i, rfl, hact, hrest, rfl, rfl⟩ |
    ⟨x, t, k', c', rfl, hact, hcur, hstep, rfl⟩ | ⟨c, rfl, hsafe, rfl, rfl⟩ |
    ⟨rfl, hd, hp, rfl, rfl⟩ | ⟨n, rfl, rfl, rfl⟩ | ⟨n, k', rfl, hk, rfl, rfl⟩
  · obtain ⟨-, hp, hcur⟩ := Machine.active_thread hact
    refine ⟨L, .call hact hrest, h.start hrest (fun u hu => ?_) (fun i hi => by cases hi) hok le_rfl
      fun hi => by cases hi⟩
    cases hu
    exact ⟨h.coherent.free_of_current hcur hp, (h.coherent.current _ hcur).resolve_left (by simp)⟩
  · obtain ⟨L', he, hs', -⟩ := h.exec hact hcur hok hstep
    exact ⟨L', he, hs'⟩
  · refine ⟨L, .irq hsafe, h.start (h.finished m.depth le_rfl) (fun u hu => by cases hu)
      (fun i hi => ?_) hok (Nat.le_succ _) fun _ => Nat.lt_succ_self _⟩
    cases hi
    exact ⟨rfl, hsafe⟩
  · exact ⟨L, .pendSV, h.pendSV⟩
  · exact ⟨L, .clock, h.clock n⟩
  · obtain ⟨k₁, L', hk₁, he, hs'⟩ := h.tick hok
    rw [hk] at hk₁
    cases hk₁
    exact ⟨L', .tick he, hs'⟩

end Sound

/-! ### The start -/

namespace Config

variable (cfg : Config)

/-- What the tasks created so far leave: nobody waits, and nothing has happened yet. -/
structure Fresh (k : Kernel) : Prop where
  head : ∀ l, k.head l = none
  currentTask : k.currentTask = none
  pendsv : k.pendsv = false
  delayTicks : ∀ t, (k.tcb t).delayTicks = 0
  timedOut : ∀ t, (k.tcb t).timedOut = false
  state : ∀ t, (k.tcb t).state = .ready
  sem : k.sem = cfg.sem
  queue : ∀ q, (k.queue q).count = 0
  mutex : ∀ m, k.mutex m = {}
  group : ∀ e, k.group e = {}
  pending : ∀ i, k.pending i = {}

theorem fresh_schedInit : cfg.Fresh cfg.schedInit := by
  refine ⟨fun _ => rfl, rfl, rfl, fun t => ?_, fun t => ?_, fun t => ?_, rfl, fun _ => rfl,
    fun _ => rfl, fun _ => rfl, fun _ => rfl⟩ <;> cases t <;> rfl

theorem Fresh.createSection {cfg : Config} {k : Kernel} (h : cfg.Fresh k) (p : ℕ) :
    cfg.Fresh (k.createSection p) := by
  refine ⟨h.head, h.currentTask, h.pendsv, fun t => ?_, fun t => ?_, fun t => ?_, h.sem, h.queue,
    h.mutex, h.group, h.pending⟩ <;> rw [k.tcb_createSection] <;> split_ifs
  · rfl
  · exact h.delayTicks t
  · rfl
  · exact h.timedOut t
  · rfl
  · exact h.state t

theorem fresh_created : cfg.Fresh cfg.created :=
  cfg.created_induct cfg.fresh_schedInit fun _ p hk => hk.createSection p

end Config

theorem Kernel.tcb_schedStart (k : Kernel) (t : TaskPtr) :
    k.schedStart.tcb t = { k.tcb t with
      state := if t = k.schedSelectNext then .running else (k.tcb t).state } := by
  unfold schedStart setState
  rw [modifyTask_tcb]
  split_ifs with h
  · rw [h]
  · rfl

/-- The machine that starts to run the first task. -/
theorem Sound.init (cfg : Config) : Sound (Machine.start cfg) fun _ => [] := by
  have hf := cfg.fresh_created
  have hn : ∀ u, some cfg.created.schedSelectNext = some u →
      u = .idle ∨ InTable (Machine.start cfg).kernel u := by
    rintro u hu
    cases hu
    exact cfg.created.schedSelectNext_spec.imp_right fun ⟨i, hi, he, _⟩ => ⟨i, hi, he⟩
  refine ⟨⟨hf.head, fun l t ht => ?_, fun x t hx => ?_, fun x y t hx => ?_, fun t ht => ?_, hn, hn,
    fun t ht => absurd rfl ht, fun _ => rfl⟩, fun l t ht => ?_, ⟨fun t w d i ht => ?_,
    fun i t hi => ?_⟩, fun l => Handoff.Covered.of_not_waiting fun hne => hne rfl, fun _ _ => rfl,
    fun _ => (Option.some_ne_none _).symm⟩
  · cases ht
  · cases hx
  · cases hx
  · change 0 < (cfg.created.schedStart.tcb t).delayTicks at ht
    rw [Kernel.tcb_schedStart] at ht
    exact absurd ht (by simp [hf.delayTicks t])
  · cases ht
  · cases ht
  · have hp : ((Machine.start cfg).kernel.pending i).task = none :=
      congrArg EventPending.task (hf.pending i)
    rw [hp] at hi
    cases hi

/-- The invariant rule of orderly runs: for properties of the machine, its wait lists and what has been
reported. -/
theorem Machine.orderly_induct {cfg : Config} {ok : Machine → Action → Prop}
    (hok : ∀ m a, ok m a → m.Orderly a) {I : Machine → (WaitList → List TaskPtr) → List Obs → Prop}
    {m : Machine} {out : List Obs} (h : Run.Reach Machine.step ok (Machine.start cfg) m out)
    (h₀ : I (Machine.start cfg) (fun _ => []) [])
    (hstep : ∀ {m L a m' L' out o}, Run.Reach Machine.step ok (Machine.start cfg) m out → Sound m L →
      I m L out → ok m a → m.step a = some (m', o) → StepEffect m L a m' L' o → Sound m' L' →
      I m' L' (out ++ o)) :
    ∃ L, Sound m L ∧ I m L out := by
  refine h.induct (I := fun m out => ∃ L, Sound m L ∧ I m L out) ⟨_, Sound.init cfg, h₀⟩ ?_
  rintro m m' a out o hm ⟨L, hs, hI⟩ hoka hst
  obtain ⟨L', he, hs'⟩ := hs.step (hok m a hoka) hst
  exact ⟨L', hs', hstep hm hs hI hoka hst he hs'⟩

/-- Along an orderly run the wait lists are coherent with what the tasks do, and no wake-up is
lost. -/
theorem Machine.sound_of_reach {cfg : Config} {ok : Machine → Action → Prop}
    (hok : ∀ m a, ok m a → m.Orderly a) {m : Machine} {out : List Obs}
    (h : Run.Reach Machine.step ok (Machine.start cfg) m out) : ∃ L, Sound m L := by
  obtain ⟨L, hs, -⟩ := Machine.orderly_induct hok (I := fun _ _ _ => True) h trivial
    fun _ _ _ _ _ _ _ => trivial
  exact ⟨L, hs⟩

/-! ### Runs of some of the calls -/

theorem Ctl.family_ctlStep {k k' : Kernel} {t : TaskPtr} {c c' : Ctl} {o : List Obs}
    (h : ctlStep k t c = some (k', c', o)) : c'.family = c.family := by
  cases ctlStep_cases h with
  | sem | mutex | queue | event | notify | sched => rfl

/-- No step leads to the beginning of `sched_task_resume`. -/
theorem Ctl.not_resume_ctlStep {k k' : Kernel} {t : TaskPtr} {c c' : Ctl} {o : List Obs}
    (h : ctlStep k t c = some (k', c', o)) (index : ℕ) : c' ≠ .sched (.resume index) := by
  rintro rfl
  have hF := (Ctl.family_ctlStep h).symm
  cases c with
  | app | sem c | mutex c | queue c | event c | notify c => cases hF
  | sched c =>
    obtain ⟨⟨k₁, c₁, o₁⟩, hs, he⟩ := Option.map_eq_some_iff.1 h
    cases he
    cases c <;> simp only [schedStep] at hs <;> (try split_ifs at hs) <;> cases hs

/-- In a run that makes calls of a kind only, every context is at a program point of these
calls. -/
theorem Machine.ctl_of_reach {cfg : Config} {ok : Machine → Action → Prop} {P : Call → Prop}
    {S : Ctl → Prop} (hok : ∀ m a, ok m a → a.Within P) (happ : S .app)
    (hentry : ∀ c, P c → S c.entry)
    (hstep : ∀ k t c k' c' o, S c → ctlStep k t c = some (k', c', o) → S c') {m : Machine}
    {out : List Obs} (h : Run.Reach Machine.step ok (Machine.start cfg) m out) (x : Ctx) :
    S (m.ctl x) := by
  revert x
  refine h.invariant (I := fun m => ∀ x, S (m.ctl x)) (fun _ => happ) ?_
  intro m m' a o hS hoka hs x
  have hupd : ∀ y c, S c → S (Function.update m.ctl y c x) := by
    intro y c hc
    by_cases hx : x = y
    · subst hx
      rwa [Function.update_self]
    · rw [Function.update_of_ne hx]
      exact hS x
  have hwithin := hok m a hoka
  rcases Machine.step_cases hs with ⟨c, i, rfl, -, -, rfl, -⟩ | ⟨y, t, k', c', rfl, -, -, hst, rfl⟩ |
    ⟨c, rfl, -, rfl, -⟩ | ⟨rfl, -, -, rfl, -⟩ | ⟨n, rfl, rfl, -⟩ | ⟨n, k', rfl, -, rfl, -⟩
  · exact hupd _ _ (hentry c hwithin)
  · exact hupd _ _ (hstep _ _ _ _ _ _ (hS y) hst)
  · exact hupd _ _ (hentry c hwithin)
  · exact hS x
  · exact hS x
  · exact hS x

/-- The calls after which no task is ever woken or resumed outside the critical section that has
unlinked it: all but those of queues and notifications and `sched_task_resume`. -/
def Call.Steady (c : Call) : Prop :=
  c.family ≠ some .queue ∧ c.family ≠ some .notify ∧ c.isResume = false

instance : DecidablePred Call.Steady := fun _ => inferInstanceAs (Decidable (_ ∧ _ ∧ _))

theorem Call.steady_of_mutex {c : Call} (h : c.family = some .mutex) : c.Steady := by
  refine ⟨by rw [h]; simp, by rw [h]; simp, ?_⟩
  cases c <;> first | rfl | cases h

/-- In a run of steady calls every action that makes no other call is orderly. -/
theorem Machine.orderly_of_within {cfg : Config} {ok : Machine → Action → Prop}
    (hok : ∀ m a, ok m a → a.Within Call.Steady) {m : Machine} {out : List Obs}
    (h : Run.Reach Machine.step ok (Machine.start cfg) m out) {a : Action}
    (hwithin : a.Within Call.Steady) : m.Orderly a := by
  have hctl := Machine.ctl_of_reach (S := fun c => c.family ≠ some .queue ∧
      ∀ index, c ≠ .sched (.resume index)) hok ⟨by simp [Ctl.family], by simp⟩ ?_ ?_ h
  · cases a with
    | call c | irq c => exact hwithin.2.1
    | exec =>
      intro x index _ hc
      exact absurd hc ((hctl x).2 index)
    | pendSV | clock n => trivial
    | tick n =>
      intro x t hw
      have hF := (hctl x).1
      generalize m.ctl x = c at hw hF
      unfold Ctl.wakes at hw
      split at hw
      · exact absurd rfl hF
      · cases hw
  · intro c hc
    refine ⟨hc.1, fun index he => ?_⟩
    cases c <;> cases he
    cases hc.2.2
  · intro k t c k' c' o hc hs
    exact ⟨by rw [Ctl.family_ctlStep hs]; exact hc.1, Ctl.not_resume_ctlStep hs⟩

/-- A run of steady calls is orderly. -/
theorem Machine.orderly_of_steady {cfg : Config} {ok : Machine → Action → Prop}
    (hok : ∀ m a, ok m a → a.Within Call.Steady) {m : Machine} {out : List Obs}
    (h : Run.Reach Machine.step ok (Machine.start cfg) m out) :
    Run.Reach Machine.step (fun m a => ok m a ∧ m.Orderly a) (Machine.start cfg) m out :=
  h.mono fun m _ a hm hoka => ⟨hoka, Machine.orderly_of_within hok hm (hok m a hoka)⟩

/-! ### The number of tasks -/

theorem StepEffect.taskCount (he : StepEffect m L a m' L' o)
    (hno : ∀ x priority, m.ctl x ≠ .sched (.createSection priority)) :
    m'.kernel.taskCount = m.kernel.taskCount := by
  cases he with
  | call _ _ | irq _ | pendSV | clock => rfl
  | tick he => exact he.quiet.taskCount
  | sem _ _ _ hu _ | mutex _ _ _ hu _ | queue _ _ _ hu | event _ _ _ hu => exact hu.taskCount (by simp)
  | @sched x _ _ _ _ hx hc _ hst =>
    exact (schedStep_quiet hst fun priority he => hno x priority (by rw [hc, he])).1.taskCount

/-- The context is in `sched_task_create` and has not created the task yet. -/
def Ctl.creates : Ctl → Bool
  | .sched (.create _ _) | .sched (.createSection _) => true
  | _ => false

/-- No step leads into `sched_task_create`. -/
theorem Ctl.creates_ctlStep {k k' : Kernel} {c c' : Ctl} {o : List Obs} (hc : c.creates = false)
    (h : ctlStep k t c = some (k', c', o)) : c'.creates = false := by
  cases ctlStep_cases h with
  | sem | mutex | queue | event | notify => rfl
  | @sched c c₁ hs =>
    cases c <;> cases hc
    all_goals
      simp only [schedStep] at hs
      (try split_ifs at hs) <;> cases hs <;> rfl

/-- The tasks are created in the order of their priorities in the configuration. -/
theorem Config.priority_created (cfg : Config) {i p : ℕ} (hi : cfg.priorities[i]? = some p) :
    (cfg.created.tcb (.tcb i)).priority = p := by
  have hfold : ∀ (ps : List ℕ) (k : Kernel) (j : ℕ),
      ((ps.foldl Kernel.createSection k).tcb (.tcb j)).priority =
        if j < k.taskCount then (k.tcb (.tcb j)).priority
        else (ps[j - k.taskCount]?).getD (k.tcb (.tcb j)).priority := by
    intro ps
    induction ps with
    | nil => intro k j; simp
    | cons q ps ih =>
      intro k j
      have hget : ((k.createSection q).tcb (.tcb j)).priority =
          if j = k.taskCount then q else (k.tcb (.tcb j)).priority := by
        change (Function.update k.tcb (.tcb k.taskCount) _ (.tcb j)).priority = _
        rw [Function.update_apply]
        by_cases hj : j = k.taskCount
        · simp [hj]
        · simp [hj]
      have hcount : (k.createSection q).taskCount = k.taskCount + 1 := rfl
      rw [List.foldl_cons, ih, hget, hcount]
      by_cases hj : j = k.taskCount
      · simp [hj]
      · by_cases hlt : j < k.taskCount
        · simp [hj, hlt, Nat.lt_succ_of_lt hlt]
        · obtain ⟨d, rfl⟩ : ∃ d, j = k.taskCount + 1 + d := ⟨j - (k.taskCount + 1), by omega⟩
          have hd : k.taskCount + 1 + d - k.taskCount = d + 1 := by omega
          have hnew : k.taskCount + 1 + d - (k.taskCount + 1) = d := by omega
          rw [if_neg hj, if_neg (by omega), if_neg hlt, hd, hnew, List.getElem?_cons_succ]
  rw [Config.created, hfold]
  simp [schedInit, hi]

theorem Config.taskCount_created (cfg : Config) :
    cfg.created.taskCount = cfg.priorities.length := by
  have hfold : ∀ (ps : List ℕ) (k : Kernel),
      (ps.foldl Kernel.createSection k).taskCount = k.taskCount + ps.length := by
    intro ps
    induction ps with
    | nil => exact fun k => rfl
    | cons p ps ih =>
      intro k
      rw [List.foldl_cons, ih, List.length_cons]
      change k.taskCount + 1 + ps.length = _
      omega
  rw [Config.created, hfold]
  exact Nat.zero_add _

/-- In a run without `sched_task_create` no context is in this call. -/
theorem Machine.not_createSection_of_reach {cfg : Config} {ok : Machine → Action → Prop}
    (hok : ∀ m a, ok m a → a.Within fun c => c.isCreate = false) {m : Machine} {out : List Obs}
    (h : Run.Reach Machine.step ok (Machine.start cfg) m out) (x : Ctx) (priority : ℕ) :
    m.ctl x ≠ .sched (.createSection priority) := by
  intro hc
  have hno := Machine.ctl_of_reach (S := fun c => c.creates = false) hok rfl
    (fun c hc => by cases c <;> first | rfl | cases hc)
    (fun k t c k' c' o hc hs => Ctl.creates_ctlStep hc hs) h x
  rw [hc] at hno
  cases hno

/-- A run of orderly steps without `sched_task_create` keeps the number of tasks. -/
theorem Machine.taskCount_of_reach {cfg : Config} {ok : Machine → Action → Prop}
    (hok : ∀ m a, ok m a → m.Orderly a ∧ a.Within fun c => c.isCreate = false) {m : Machine}
    {out : List Obs} (h : Run.Reach Machine.step ok (Machine.start cfg) m out) :
    m.kernel.taskCount = cfg.priorities.length := by
  obtain ⟨L, -, hcount⟩ := Machine.orderly_induct (fun m a ha => (hok m a ha).1)
    (I := fun m _ _ => m.kernel.taskCount = cfg.priorities.length) h cfg.taskCount_created
    fun hm _ hcount _ _ he _ => by
      have hno := Machine.not_createSection_of_reach (fun m a ha => (hok m a ha).2) hm
      exact (he.taskCount hno).trans hcount
  exact hcount

/-! ### No lost wake-up -/

/-- The task has been popped from the list `l` and has still to run its test again: it is about
to, or it has not left `sched_block_locked` yet and no timeout has made it ready. -/
def Machine.MustRetry (m : Machine) (l : WaitList) (t : TaskPtr) : Prop :=
  (m.ctl (.thread t)).retries = some l ∨
  ((m.ctl (.thread t)).waitsOn = some l ∧ (∀ xs, m.kernel.Waiters l xs → t ∉ xs) ∧
    ¬ ((m.ctl (.thread t)).timed = true ∧ (m.kernel.tcb t).timedOut = true))

/-- The list `l` is well formed, and if it is not empty at least `n` of the tasks popped from it
have still to run their test again. -/
def Machine.NoLostWakeup (m : Machine) (l : WaitList) (n : ℕ) : Prop :=
  ∃ xs, m.kernel.Waiters l xs ∧
    (xs ≠ [] → ∃ P : Finset TaskPtr, n ≤ P.card ∧ ∀ t ∈ P, m.MustRetry l t)

theorem Sound.noLostWakeup {m : Machine} {L : WaitList → List TaskPtr} (h : Sound m L)
    (l : WaitList) : m.NoLostWakeup l (avail m.kernel l) := by
  refine ⟨L l, h.coherent.waiters l, fun hne => ?_⟩
  obtain ⟨P, hcard, hP⟩ := h.covered l hne
  refine ⟨P, hcard, fun t ht => (hP t ht).imp_right fun ⟨hw, hnot, hmark⟩ => ⟨hw, ?_, hmark⟩⟩
  intro xs hxs
  rw [hxs.unique (h.coherent.waiters l)]
  exact hnot

end TamgaOs
