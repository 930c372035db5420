import TamgaOs.Machine.NotificationSteps
import TamgaOs.Machine.Split
import TamgaOs.Properties.BatchedTick

/-!
# What a timed wait leaves behind

A wait with a timeout stores the list it waits in in the control block, and every exit has to clear it
again: a later `sched_delay_ms` would otherwise end like a timeout of that list. `mutex_lock_timeout` and
the queue calls forget it in one exit, where a task has been woken, has lost the race for the object and
finds its deadline passed.

## Main definitions

* `Machine.Traceless m t`: the control block of the task has no trace of a wait.
* `Machine.noteWoken`: which tasks have been woken in their present call.
* `Ctl.givesUp`: the exit that forgets.
* `Remembers`: the invariant.

## Main results

* `timedWait_traceless`: with whole ticks, a task outside every call has no trace of a wait.
* `timedWait_leaves_trace`: after the other exit it has one.
-/

namespace TamgaOs

/-! ### The fields of a wait -/

/-- The task remembers no list, is not marked, has no delay and is in no list. -/
structure Machine.Traceless (m : Machine) (t : TaskPtr) : Prop where
  head : (m.kernel.tcb t).waitListHead = none
  mark : (m.kernel.tcb t).timedOut = false
  delay : (m.kernel.tcb t).delayTicks = 0
  unlinked : ¬ m.kernel.Linked t

namespace Ctl

/-- A program point of a call with a timeout at which the task may remember a list. -/
def keepsHead : Ctl → Bool
  | mutex (.attempt _ d _) => d.isSome
  | mutex (.clock _ _) | mutex (.acquired _) => true
  | mutex (.block _ timeout) => timeout.isSome
  | queue (.loop _ _ d _) => d.isSome
  | queue (.wake _ timed _) | queue (.trigger timed _) | queue (.finish timed _) => timed
  | c => c.timed

/-- The next step of a call with a timeout gives up because the deadline has passed. -/
def givesUp (k : Kernel) : Ctl → Bool
  | mutex (.clock _ d) => decide (d ≤ k.ticks)
  | queue (.loop q op (some d) _) => !k.queueReady q op && decide (d ≤ k.ticks)
  | _ => false

/-- The task sleeps in `sched_delay_ms` or `task_notify_wait`. -/
def sleeps : Ctl → Bool
  | sched .delayTrigger | sched .delayWait | notify .blocked => true
  | _ => false

variable {c : Ctl}

theorem keepsHead_of_timed (h : c.timed = true) : c.keepsHead = true := by
  unfold timed at h
  split at h <;> first | exact h | cases h

theorem timed_of_atRest (h : c.atRest = true) : c.timed = false := by
  unfold atRest at h
  split at h <;> first | rfl | cases h

theorem keepsHead_of_atRest (h : c.atRest = true) : c.keepsHead = false := by
  unfold atRest at h
  split at h <;> first | rfl | cases h

theorem keepsHead_of_sleeps (h : c.sleeps = true) : c.keepsHead = false := by
  unfold sleeps at h
  split at h <;> first | rfl | cases h

theorem keepsHead_of_delaying (h : c.muted.delaying = true) : c.keepsHead = false := by
  cases c with
  | app | sem c | mutex c | queue c | event c => cases h
  | notify c | sched c => rfl

end Ctl

/-! ### The steps of a task in its own call -/

section Own

variable {k k' : Kernel} {t u : TaskPtr} {c c' : Ctl} {o : List Obs} {e : ℕ} {bits : BitVec 32}
  {gs : List EventGrant}

/-- Where a call with a timeout goes on without a list to remember, it has cleared the list. -/
theorem waitListHead_left (hs : ctlStep k t c = some (k', c', o)) (hc : c.keepsHead = true)
    (hc' : c'.keepsHead = false) (hup : c.givesUp k = true → (k.tcb t).waitListHead = none)
    (hevent : ∀ w d i, c = .event (.blocked w d i) → (k.tcb t).waitListHead = none) :
    (k'.tcb t).waitListHead = none := by
  have hclear : ∀ b : Bool, ((k.modifyTask t fun x =>
      { x with timedOut := b, waitListHead := none }).tcb t).waitListHead = none := by
    intro b
    rw [Kernel.modifyTask_self]
  cases c with
  | app | sem c | notify c | sched c => cases hc
  | mutex c =>
    obtain ⟨⟨k₁, c₁, o₁⟩, hstep, he⟩ := Option.map_eq_some_iff.1 hs
    cases he
    cases c with
    | attempt m d retry =>
      obtain ⟨d, rfl⟩ := Option.isSome_iff_exists.1 hc
      simp only [mutexStep] at hstep
      split at hstep <;> rename_i hd <;> cases hd <;> cases hstep <;> cases hc'
    | clock m d =>
      simp only [mutexStep] at hstep
      split_ifs at hstep with hd <;> cases hstep
      · exact hup (by simpa [Ctl.givesUp] using hd)
      · cases hc'
    | acquired m =>
      cases hstep
      rw [Kernel.modifyTask_self]
    | block m timeout =>
      obtain ⟨d, rfl⟩ := Option.isSome_iff_exists.1 hc
      simp only [mutexStep] at hstep
      split at hstep <;> cases hstep <;> cases hc'
    | blocked m d =>
      obtain ⟨d, rfl⟩ := Option.isSome_iff_exists.1 hc
      simp only [mutexStep] at hstep
      split_ifs at hstep <;> cases hstep
      · exact hclear false
      · cases hc'
    | enter | trylock | unlock | release | locked | lockTimeoutReturned | trylocked | unlocked => cases hc
  | queue c =>
    obtain ⟨⟨k₁, c₁, o₁⟩, hstep, he⟩ := Option.map_eq_some_iff.1 hs
    cases he
    cases c with
    | loop q op d retry =>
      obtain ⟨d, rfl⟩ := Option.isSome_iff_exists.1 hc
      rcases queueStep_loop hstep with ⟨-, -, rfl, -⟩ | ⟨d', hready, he, hle, rfl, -, -⟩ |
        ⟨-, -, -, rfl, -⟩
      · cases hc'
      · cases he
        exact hup (by simp [Ctl.givesUp, hready, hle])
      · cases hc'
    | wake w timed r =>
      have htimed : timed = true := hc
      subst htimed
      cases w <;> cases hstep <;> cases hc'
    | trigger timed r =>
      have htimed : timed = true := hc
      subst htimed
      cases hstep
      cases hc'
    | finish timed r =>
      have htimed : timed = true := hc
      subst htimed
      cases hstep
      rw [Kernel.modifyTask_self]
    | blocked q op d =>
      obtain ⟨d, rfl⟩ := Option.isSome_iff_exists.1 hc
      simp only [queueStep] at hstep
      split_ifs at hstep <;> cases hstep
      · exact hclear false
      · cases hc'
    | enter | attempt | returned => cases hc
  | event c =>
    obtain ⟨⟨k₁, c₁, o₁⟩, hstep, he⟩ := Option.map_eq_some_iff.1 hs
    cases he
    cases c with
    | blocked w d i =>
      simp only [eventStep] at hstep
      split_ifs at hstep <;> cases hstep
      · exact hclear false
      · exact hevent w d i rfl
    | set | clear | get | enter | loop | done | got | returned => cases hc

/-- A task that executes is not marked afterwards: it clears the mark when it reads it. -/
theorem timedOut_left (hs : ctlStep k t c = some (k', c', o))
    (hmark : (k.tcb t).timedOut = true → c.timed = true) : (k'.tcb t).timedOut = false := by
  obtain ⟨F, -, hstores⟩ := ctlStep_family_stores hs
  by_contra hne
  rw [Bool.not_eq_false] at hne
  have hto := hstores.timedOut t hne
  have htimed := hmark hto
  have hclear : ((k.modifyTask t fun x =>
      { x with timedOut := false, waitListHead := none }).tcb t).timedOut = false := by
    rw [Kernel.modifyTask_self]
  unfold Ctl.timed at htimed
  split at htimed
  · obtain ⟨⟨k₁, c₁, o₁⟩, hstep, he⟩ := Option.map_eq_some_iff.1 hs
    cases he
    simp only [mutexStep, htimed, hto, and_self, if_true] at hstep
    cases hstep
    rw [hclear] at hne
    cases hne
  · obtain ⟨⟨k₁, c₁, o₁⟩, hstep, he⟩ := Option.map_eq_some_iff.1 hs
    cases he
    simp only [queueStep, htimed, hto, and_self, if_true] at hstep
    cases hstep
    rw [hclear] at hne
    cases hne
  · obtain ⟨⟨k₁, c₁, o₁⟩, hstep, he⟩ := Option.map_eq_some_iff.1 hs
    cases he
    simp only [eventStep, htimed, hto, and_self, if_true] at hstep
    cases hstep
    exact absurd (hclear.symm.trans hne) Bool.false_ne_true
  · cases htimed

/-- Everybody whom `event_wake_satisfied` wakes forgets its list. -/
theorem Kernel.waitListHead_eventWakeLoop (e : ℕ) : ∀ (fuel : ℕ) (cur : Link) (k : Kernel) {k' : Kernel}
    {gs : List EventGrant}, k.eventWakeLoop e fuel cur = some (k', gs) →
    ∀ g ∈ gs, (k'.tcb g.task).waitListHead = none
  | 0, _, _, _, _, h, _, _ => by cases h
  | fuel + 1, cur, k, k', gs, h, g, hg => by
    unfold Kernel.eventWakeLoop at h
    split at h
    · cases h
      cases hg
    · rename_i t _
      split at h
      · rename_i i _
        obtain ⟨⟨k₁, gs₁⟩, hrest, he⟩ := Option.map_eq_some_iff.1 h
        cases he
        rcases List.mem_cons.1 hg with rfl | hmem
        · have hwoken : ((k.eventGrant e cur t i).tcb t).waitListHead = none := by
            have hlater : ∀ k : Kernel, (k.tcb t).waitListHead = none →
                ((k.schedWakeTask t).tcb t).waitListHead = none := by
              intro k hk
              rcases (Stores.schedWakeTask (F := .event) (T := ∅) k t).waitListHead
                (Set.notMem_empty t) with hnone | hsame
              · exact hnone
              · exact hsame.trans hk
            refine hlater _ ?_
            rw [Kernel.modifyTask_self]
          rcases (Stores.eventWakeLoop e fuel cur _ hrest).waitListHead (Set.notMem_empty t) with
            hnone | hsame
          · exact hnone
          · exact hsame.trans hwoken
        · exact waitListHead_eventWakeLoop e fuel cur _ hrest g hmem
      · exact waitListHead_eventWakeLoop e fuel _ k h g hg

end Own

/-! ### The steps of the others -/

section Others

variable {k k' : Kernel} {L L' : WaitList → List TaskPtr} {m m' : Machine} {t : TaskPtr} {x : Ctx} {n : ℕ}
  {c' : Ctl} {o : List Obs}

theorem Task.head_aged (x : Task) (n : ℕ) :
    let ends := decide (x.state = .blocked ∧ 0 < x.delayTicks ∧ x.delayTicks ≤ n)
    (x.aged n).waitListHead = (if ends then none else x.waitListHead) ∧
      (x.aged n).timedOut = ((ends && x.waitListHead.isSome) || x.timedOut) := by
  unfold Task.aged
  by_cases hb : x.state = .blocked ∧ 0 < x.delayTicks
  · by_cases hle : x.delayTicks ≤ n <;> simp [hb, hle]
  · have hends : ¬ (x.state = .blocked ∧ 0 < x.delayTicks ∧ x.delayTicks ≤ n) := fun h =>
      hb ⟨h.1, h.2.1⟩
    simp [hb, hends]

/-- The tick: a delay that ends clears the list, and marks the task that remembers one. -/
theorem Coherent.expiry {ctl : Ctx → Ctl} {W : Ctx → Option TaskPtr} (h : Coherent k ctl W L)
    (hs : k.schedTickN n = some k') (t : TaskPtr) :
    (k'.tcb t).waitListHead = (if k.expires n t then none else (k.tcb t).waitListHead) ∧
      (k'.tcb t).timedOut = ((k.expires n t && (k.tcb t).waitListHead.isSome) || (k.tcb t).timedOut) := by
  obtain ⟨k₁, L₁, haged, hrun⟩ := h.wellLinked.schedTickN n
  cases hs.symm.trans hrun
  have hresch := k₁.rescheduled_schedPickAndMark
  have hsame : k₁.schedPickAndMark.triggerIfSwitch.tcb = k₁.schedPickAndMark.tcb := by
    unfold Kernel.triggerIfSwitch
    split_ifs <;> rfl
  rw [hsame, hresch.waitListHead, hresch.timedOut]
  have hcard := haged.card t
  split_ifs at hcard with hin
  · obtain ⟨i, hi, rfl⟩ := hin
    have hexp : k.expires n (.tcb i) = decide ((k.card (.tcb i)).state = .blocked ∧
        0 < (k.card (.tcb i)).delayTicks ∧ (k.card (.tcb i)).delayTicks ≤ n) := by
      simp only [Kernel.expires, List.mem_range.1 hi, true_and]
      rfl
    have haged := Task.head_aged (k.card (.tcb i)) n
    rw [← hcard, ← hexp] at haged
    exact haged
  · have hexp : k.expires n t = false := by
      cases t with
      | idle => rfl
      | tcb i =>
        rw [Bool.eq_false_iff, ne_eq, Kernel.expires_tcb]
        exact fun he => hin ⟨i, List.mem_range.2 he.1, rfl⟩
    have hhead := congrArg Task.waitListHead hcard
    have hmark := congrArg Task.timedOut hcard
    rw [hexp]
    exact ⟨hhead, hmark⟩

end Others

/-! ### What a task remembers -/

namespace Machine

/-- Whether a task has been woken from a wait list in its present call. -/
def noteWoken (m : Machine) (a : Action) (_o : List Obs) (woken : TaskPtr → Bool) : TaskPtr → Bool :=
  match a, m.active with
  | .call _, some (.thread t) => Function.update woken t false
  | .exec, some (.thread t) =>
    if (m.ctl (.thread t)).waitsOn.isSome then Function.update woken t true else woken
  | _, _ => woken

/-- The step is the exit that forgets: a task that has been woken gives up. -/
def forgets (m : Machine) (woken : TaskPtr → Bool) : Action → Bool
  | .exec =>
    match m.active with
    | some (.thread t) => woken t && (m.ctl (.thread t)).givesUp m.kernel
    | _ => false
  | _ => false

end Machine

/-- A task remembers a list only inside a call with a timeout, after a block in this call and before
`event_set` grants its wait, and it is marked only in the list. -/
structure Remembers (m : Machine) (L : WaitList → List TaskPtr) (woken : TaskPtr → Bool)
    (t : TaskPtr) : Prop where
  keeps : (m.kernel.tcb t).waitListHead ≠ none → (m.ctl (.thread t)).keepsHead = true
  woken : (m.kernel.tcb t).waitListHead ≠ none → (m.ctl (.thread t)).timed = false → woken t = true
  mark : (m.kernel.tcb t).timedOut = true → (m.ctl (.thread t)).timed = true
  granted : ∀ w d i, m.ctl (.thread t) = .event (.blocked w d i) → t ∉ L (.event w.group) →
    (m.kernel.tcb t).waitListHead = none

section Steps

variable {m m' : Machine} {L L' : WaitList → List TaskPtr} {woken : TaskPtr → Bool} {t : TaskPtr}
  {x : Ctx} {a : Action} {o : List Obs} {k' : Kernel} {c' : Ctl} {n : ℕ}

theorem Ctl.waitsOn_of_timed {c : Ctl} (h : c.timed = true) : c.waitsOn.isSome = true := by
  unfold timed at h
  split at h <;> first | rfl | cases h

theorem Ctl.timed_of_givesUp {k : Kernel} {c : Ctl} (h : c.givesUp k = true) : c.timed = false := by
  unfold givesUp at h
  split at h <;> first | rfl | cases h

/-- The lists after the step of an event call are those of its effect. -/
theorem Sound.eventEffect (h : Sound m.muted L) (hact : m.active = some x) {u : TaskPtr}
    (hcur : m.kernel.currentTask = some u) {c : EventCtl} (hc : m.ctl x = .event c)
    (hs : ctlStep m.kernel u (m.ctl x) = some (k', c', o)) (hs' : Sound (m.resume x k' c').muted L') :
    ∃ c₁, c' = .event c₁ ∧ eventStep m.kernel u c = some (k', c₁, o) ∧
      EventEffect m.kernel m.muted.ctl L u c k' c₁ L' o := by
  have hx := Machine.runs hact hcur
  rw [hc] at hs
  obtain ⟨⟨k₁, c₁, o₁⟩, hstep, he⟩ := Option.map_eq_some_iff.1 hs
  cases he
  have hmuted : m.muted.ctl x = .event c := by
    rw [Machine.ctl_muted, hc]
    rfl
  obtain ⟨L₁, heff, hco⟩ := eventStep_spec h.coherent h.slotted hx hmuted hstep
  have hL : L₁ = L' := funext fun l => (hco.waiters l).unique (hs'.coherent.waiters l)
  exact ⟨c₁, rfl, hstep, hL ▸ heff⟩

namespace Remembers

/-- A clean control block. -/
theorem of_clean (hhead : (m.kernel.tcb t).waitListHead = none) (hmark : (m.kernel.tcb t).timedOut = false) :
    Remembers m L woken t := by
  refine ⟨fun hne => absurd hhead hne, fun hne => absurd hhead hne, fun hmark' => ?_, fun _ _ _ _ _ => hhead⟩
  exact absurd (hmark.symm.trans hmark') Bool.false_ne_true

/-- Between its calls a task has a clean control block. -/
theorem clean (h : Remembers m L woken t) (hrest : (m.ctl (.thread t)).atRest = true) :
    (m.kernel.tcb t).waitListHead = none ∧ (m.kernel.tcb t).timedOut = false := by
  constructor
  · by_contra hne
    have hkeeps := h.keeps hne
    rw [Ctl.keepsHead_of_atRest hrest] at hkeeps
    cases hkeeps
  · by_contra hne
    rw [Bool.not_eq_false] at hne
    have htimed := h.mark hne
    rw [Ctl.timed_of_atRest hrest] at htimed
    cases htimed

/-- The invariant of a task is about the control block and the program point of this task. -/
theorem congr {woken' : TaskPtr → Bool} (h : Remembers m L woken t)
    (htcb : m'.kernel.tcb t = m.kernel.tcb t) (hctl : m'.ctl (.thread t) = m.ctl (.thread t))
    (hwoken : woken' t = woken t) : Remembers m' L woken' t := by
  refine ⟨fun hne => ?_, fun hne htimed => ?_, fun hmark => ?_, fun w d i hc hout => ?_⟩
  · rw [htcb] at hne
    rw [hctl]
    exact h.keeps hne
  · rw [htcb] at hne
    rw [hctl] at htimed
    rw [hwoken]
    exact h.woken hne htimed
  · rw [htcb] at hmark
    rw [hctl]
    exact h.mark hmark
  · rw [hctl] at hc
    rw [htcb]
    exact h.granted w d i hc hout

/-- The task executes a step of its call. -/
theorem own (h : Remembers m L woken t) (hso : Sound m.muted L) (hact : m.active = some (.thread t))
    (hcur : m.kernel.currentTask = some t)
    (hkept : woken t = true → (m.ctl (.thread t)).givesUp m.kernel = false)
    (hs : ctlStep m.kernel t (m.ctl (.thread t)) = some (k', c', o))
    (hso' : Sound (m.resume (.thread t) k' c').muted L') :
    Remembers (m.resume (.thread t) k' c') L' (m.noteWoken .exec o woken) t := by
  have hctl : (m.resume (.thread t) k' c').ctl (.thread t) = c' := Function.update_self ..
  obtain ⟨F, hF, hstores⟩ := ctlStep_family_stores hs
  -- a list that the task has not just linked itself in was remembered before
  have hold : c'.timed = false → (k'.tcb t).waitListHead ≠ none →
      (m.kernel.tcb t).waitListHead ≠ none := by
    intro htimed hne hnone
    have hnot : t ∉ c'.remembers t := fun hmem => by
      rw [hmem.2] at htimed
      cases htimed
    rcases hstores.waitListHead hnot with hcleared | hsame
    · exact hne hcleared
    · exact hne (hsame.trans hnone)
  have happ : m.muted.ctl (.thread t) ≠ .app := by
    intro he
    have happ : m.ctl (.thread t) = .app := by
      rw [Machine.ctl_muted] at he
      generalize m.ctl (.thread t) = c at he
      cases c with
      | notify c => cases c <;> cases he
      | app | sem c | mutex c | queue c | event c | sched c => exact he
    rw [happ] at hs
    cases hs
  have hfree := (hso.coherent.free_of_runs (Machine.runs hact hcur) happ).1
  have hforgets : (m.ctl (.thread t)).givesUp m.kernel = true →
      (m.kernel.tcb t).waitListHead = none := by
    intro hup
    by_contra hne
    have hno := hkept (h.woken hne (Ctl.timed_of_givesUp hup))
    rw [hup] at hno
    cases hno
  refine ⟨fun hne => ?_, fun hne htimed => ?_, fun hmark => ?_, fun w d i hc hnot => ?_⟩
  · rw [hctl]
    by_contra hkeeps
    rw [Bool.not_eq_true] at hkeeps
    have htimed : c'.timed = false := by
      by_contra ht
      rw [Bool.not_eq_false] at ht
      rw [Ctl.keepsHead_of_timed ht] at hkeeps
      cases hkeeps
    refine hne (waitListHead_left hs (h.keeps (hold htimed hne)) hkeeps hforgets fun w d i hc => ?_)
    exact h.granted w d i hc (hfree.1 _)
  · rw [hctl] at htimed
    have hne' := hold htimed hne
    unfold Machine.noteWoken
    rw [hact]
    dsimp only
    split_ifs with hwaits
    · exact Function.update_self ..
    · refine h.woken hne' ?_
      by_contra ht
      rw [Bool.not_eq_false] at ht
      exact hwaits (Ctl.waitsOn_of_timed ht)
  · have hclear := timedOut_left hs h.mark
    exact absurd (hclear.symm.trans hmark) Bool.false_ne_true
  · -- the task has just linked itself
    rw [hctl] at hc
    subst hc
    cases hc : m.ctl (.thread t) with
    | app | sem c | mutex c | queue c | notify c | sched c =>
      have hsame := Ctl.family_ctlStep hs
      rw [hc] at hsame
      cases hsame
    | event c =>
      obtain ⟨c₁, he, -, heff⟩ := hso.eventEffect hact hcur hc hs hso'
      cases he
      cases heff with
      | block =>
        refine absurd ?_ hnot
        rw [Function.update_self]
        exact Kernel.mem_enqueued.2 (.inl rfl)
      | noSlot _ hc' => rcases hc' with he | he <;> cases he

/-- Another context executes a step. -/
theorem other (h : Remembers m L woken t) (hso : Sound m.muted L) (hact : m.active = some x)
    {u : TaskPtr} (hcur : m.kernel.currentTask = some u) (hxt : x ≠ .thread t)
    (hs : ctlStep m.kernel u (m.ctl x) = some (k', c', o))
    (hso' : Sound (m.resume x k' c').muted L')
    (hleave : ∀ l, t ∈ L l → t ∉ L' l → (m.ctl x).family = some l.family) :
    Remembers (m.resume x k' c') L' (m.noteWoken .exec o woken) t := by
  have hctl : (m.resume x k' c').ctl (.thread t) = m.ctl (.thread t) :=
    Function.update_of_ne (Ne.symm hxt) ..
  have hwoken : m.noteWoken .exec o woken t = woken t := by
    unfold Machine.noteWoken
    rw [hact]
    cases x with
    | isr i => rfl
    | thread v =>
      dsimp only
      split_ifs
      · exact Function.update_of_ne (fun he => hxt (by rw [he])) ..
      · rfl
  obtain ⟨F, hF, hstores⟩ := ctlStep_family_stores hs
  have hnot : t ∉ c'.remembers u := by
    rintro ⟨rfl, htimed⟩
    cases x with
    | thread v =>
      obtain ⟨-, -, hv⟩ := Machine.active_thread hact
      exact hxt (by rw [Option.some.inj (hv.symm.trans hcur)])
    | isr i =>
      have hsafe := hso'.coherent.isr i
      rw [Machine.ctl_muted, Machine.ctl_resume, Function.update_self] at hsafe
      have hno := Ctl.timed_of_isrSafe hsafe
      rw [Ctl.timed_muted, htimed] at hno
      cases hno
  have hhead := hstores.waitListHead hnot
  have hold : (k'.tcb t).waitListHead ≠ none → (m.kernel.tcb t).waitListHead ≠ none := by
    intro hne hnone
    rcases hhead with hcleared | hsame
    · exact hne hcleared
    · exact hne (hsame.trans hnone)
  refine ⟨fun hne => ?_, fun hne htimed => ?_, fun hmark => ?_, fun w d i hc hout => ?_⟩
  · rw [hctl]
    exact h.keeps (hold hne)
  · rw [hctl] at htimed
    rw [hwoken]
    exact h.woken (hold hne) htimed
  · rw [hctl]
    exact h.mark (hstores.timedOut t hmark)
  · rw [hctl] at hc
    by_contra hne
    have hin : t ∈ L (.event w.group) := by
      by_contra hout
      exact hold hne (h.granted w d i hc hout)
    -- `event_set` has granted the wait
    cases hc₀ : m.ctl x with
    | app | sem c | mutex c | queue c | notify c | sched c =>
      have hfamily := hleave _ hin hout
      rw [hc₀] at hfamily
      cases hfamily
    | event c =>
      obtain ⟨c₁, rfl, hstep, heff⟩ := hso.eventEffect hact hcur hc₀ hs hso'
      cases heff with
      | @set e bits b kept gs _ hpass _ =>
        by_cases he : w.group = e
        · subst he
          rw [Function.update_self] at hout
          have hcases : t ∈ kept ∨ ∃ g ∈ gs, g.task = t := by
            have hcases := @eventPass_cases (waitOf m.muted.ctl)
              ((m.kernel.group w.group).bits ||| bits) _ t hin
            rwa [hpass] at hcases
          obtain ⟨g, hg, rfl⟩ := hcases.resolve_left hout
          obtain ⟨⟨k₁, gs₁⟩, hset, he⟩ := Option.map_eq_some_iff.1 hstep
          obtain ⟨rfl, -, hreports⟩ : k₁ = k' ∧ _ ∧ _ := by simpa only [Prod.mk.injEq] using he
          have hmem : Obs.eventGranted g.task g.wait g.observed ∈
              gs₁.map fun g => .eventGranted g.task g.wait g.observed := by
            rw [List.tail_eq_of_cons_eq hreports]
            exact List.mem_map_of_mem hg
          obtain ⟨g₁, hg₁, he⟩ := List.mem_map.1 hmem
          injection he with htask
          refine hne ?_
          rw [← htask]
          exact Kernel.waitListHead_eventWakeLoop _ _ _ _ hset g₁ hg₁
        · rw [Function.update_of_ne (by simpa using he)] at hout
          exact hout hin
      | @block w₀ =>
        refine hout ?_
        by_cases he : WaitList.event w.group = .event w₀.group
        · rw [he, Function.update_self]
          exact Kernel.mem_enqueued.2 (.inr (he ▸ hin))
        · rwa [Function.update_of_ne he]
      | clear | get | enter | granted | expired | noSlot | timeout | finish => exact hout hin

/-- The tick. -/
theorem tick (h : Remembers m L woken t) (hso : Sound m.muted L)
    (hk : m.kernel.schedTickN n = some k')
    (hleave : ∀ l, t ∈ L l → t ∉ L' l → m.kernel.expires n t = true) :
    Remembers { m with kernel := k' } L' woken t := by
  obtain ⟨hhead, hmark⟩ := hso.coherent.expiry hk t
  rw [Machine.kernel_muted] at hhead hmark
  cases hexp : m.kernel.expires n t with
  | true =>
    rw [hexp, if_pos rfl] at hhead
    refine ⟨fun hne => absurd hhead hne, fun hne => absurd hhead hne, fun hmark' => ?_, fun _ _ _ _ _ => hhead⟩
    change (k'.tcb t).timedOut = true at hmark'
    rw [hmark, hexp, Bool.true_and, Bool.or_eq_true] at hmark'
    rcases hmark' with hsome | hold
    · -- a task that remembers a list and has a delay is linked or popped
      have hkeeps := h.keeps (Option.isSome_iff_ne_none.1 hsome)
      rcases hso.coherent.delay t (Kernel.delayTicks_pos_of_expires hexp) with hdel | hwait
      · rw [Ctl.keepsHead_of_delaying hdel] at hkeeps
        cases hkeeps
      · have htimed := hwait.timed
        rwa [Machine.ctl_muted, Ctl.timed_muted] at htimed
    · exact h.mark hold
  | false =>
    rw [hexp, if_neg Bool.false_ne_true] at hhead
    rw [hexp, Bool.false_and, Bool.false_or] at hmark
    refine ⟨fun hne => h.keeps (hhead ▸ hne), fun hne => h.woken (hhead ▸ hne),
      fun hmark' => h.mark (hmark.symm.trans hmark'), fun w d i hc hout => ?_⟩
    refine hhead.trans (h.granted w d i hc fun hin => ?_)
    rw [hleave _ hin hout] at hexp
    cases hexp

/-- A step that is not the exit that forgets. -/
theorem step (h : Remembers m L woken t) (hso : Sound m.muted L) (hkept : m.forgets woken a = false)
    (hs : m.step a = some (m', o)) (hso' : Sound m'.muted L')
    (hleave : ∀ l u, u ∈ L l → u ∉ L' l → (∃ n, a = .tick n ∧ m.kernel.expires n u = true) ∨
      ∃ x, a = .exec ∧ m.active = some x ∧ (m.ctl x).family = some l.family) :
    Remembers m' L' (m.noteWoken a o woken) t := by
  -- outside `exec` and `tick` the lists stay as they are
  have hlists : a ≠ .exec → (∀ n, a ≠ .tick n) → ∀ l, t ∈ L l → t ∈ L' l := by
    intro hexec htick l hin
    by_contra hout
    rcases hleave l t hin hout with ⟨n, he, -⟩ | ⟨x, he, -⟩
    · exact htick n he
    · exact hexec he
  have hstays : a ≠ .exec → (∀ n, a ≠ .tick n) → Remembers m L' woken t := fun hexec htick =>
    ⟨h.keeps, h.woken, h.mark, fun w d i hc hout =>
      h.granted w d i hc fun hin => hout (hlists hexec htick _ hin)⟩
  rcases Machine.step_cases hs with ⟨c, i, rfl, hact, hrest, rfl, -⟩ |
    ⟨x, u, k', c', rfl, hact, hcur, hst, rfl⟩ | ⟨c, rfl, -, rfl, -⟩ | ⟨rfl, -, -, rfl, -⟩ |
    ⟨n, rfl, rfl, -⟩ | ⟨n, k', rfl, hk, rfl, -⟩
  · by_cases hti : t = .tcb i
    · subst hti
      obtain ⟨hhead, hmark⟩ := h.clean hrest
      exact of_clean hhead hmark
    · have hne : Ctx.thread t ≠ .thread (.tcb i) := fun he => hti (by simpa using he)
      refine (hstays (by simp) (by simp)).congr rfl (Function.update_of_ne hne ..) ?_
      unfold Machine.noteWoken
      rw [hact]
      exact Function.update_of_ne hti ..
  · by_cases hxt : x = .thread t
    · subst hxt
      have hut : u = t := by
        obtain ⟨-, -, ht⟩ := Machine.active_thread hact
        exact Option.some.inj (hcur.symm.trans ht)
      subst hut
      refine h.own hso hact hcur (fun hw => ?_) hst hso'
      simpa [Machine.forgets, hact, hw] using hkept
    · refine h.other hso hact hcur hxt hst hso' fun l hin hout => ?_
      rcases hleave l t hin hout with ⟨n, he, -⟩ | ⟨y, -, hy, hfamily⟩
      · cases he
      · cases hact.symm.trans hy
        exact hfamily
  · exact (hstays (by simp) (by simp)).congr rfl (Machine.update_isr m.ctl m.depth c.entry t) rfl
  · exact (hstays (by simp) (by simp)).congr rfl rfl rfl
  · exact (hstays (by simp) (by simp)).congr rfl rfl rfl
  · refine h.tick hso hk fun l hin hout => ?_
    rcases hleave l t hin hout with ⟨n', he, hexp⟩ | ⟨x, he, -⟩
    · cases he
      exact hexp
    · cases he

end Remembers

end Steps

/-! ### Runs -/

/-- The machine with the record of who has been woken. -/
def Machine.waking : Machine × (TaskPtr → Bool) → Action → Option ((Machine × (TaskPtr → Bool)) × List Obs) :=
  Run.annotate Machine.step Machine.noteWoken

/-- The invariant holds along every undisturbed run in which no woken task gives up. -/
theorem Machine.remembers_of_reach (cfg : Config) {m : Machine} {woken : TaskPtr → Bool} {out : List Obs}
    (h : Run.Reach Machine.waking (fun s a => s.1.Undisturbed a ∧ s.1.forgets s.2 a = false)
      (Machine.start cfg, fun _ => false) (m, woken) out) :
    ∃ L, Sound m.muted L ∧ ∀ t, Remembers m L woken t := by
  have hinv : ∃ L, Sound (m, woken).1.muted L ∧ ∀ t, Remembers (m, woken).1 L (m, woken).2 t := by
    refine h.invariant (I := fun s => ∃ L, Sound s.1.muted L ∧ ∀ t, Remembers s.1 L s.2 t) ?_ ?_
    · refine ⟨fun _ => [], Sound.init cfg, fun t => Remembers.of_clean ?_ ?_⟩
      · have hnone : ∀ t, (cfg.created.tcb t).waitListHead = none := by
          refine cfg.created_induct (I := fun k => ∀ t, (k.tcb t).waitListHead = none) (fun t => ?_)
            fun k p hk t => ?_
          · cases t <;> rfl
          · rw [k.tcb_createSection]
            split_ifs
            · rfl
            · exact hk t
        change (cfg.created.schedStart.tcb t).waitListHead = none
        rw [Kernel.tcb_schedStart]
        exact hnone t
      · change (cfg.created.schedStart.tcb t).timedOut = false
        rw [Kernel.tcb_schedStart]
        exact cfg.fresh_created.timedOut t
    · rintro ⟨m, woken⟩ ⟨m', woken'⟩ a o ⟨L, hso, hrem⟩ hok hstep
      obtain ⟨hst, rfl⟩ := Run.annotate_eq_some.1 hstep
      obtain ⟨L', hso', hleave⟩ := hso.muted_step hok.1 hst
      exact ⟨L', hso', fun t => (hrem t).step hso hok.2 hst hso' hleave⟩
  exact hinv

/-- A step without queues, notifications and resumed tasks, after such steps, disturbs nothing. -/
theorem Machine.undisturbed_of_steady_noted {cfg : Config} {s : Machine × (TaskPtr → Bool)}
    {ok : Machine × (TaskPtr → Bool) → Action → Prop} {out : List Obs} {a : Action}
    (h : Run.Reach Machine.waking ok (Machine.start cfg, fun _ => false) s out)
    (hok : ∀ s a, ok s a → a.Within Call.Steady) (ha : a.Within Call.Steady) : s.1.Undisturbed a := by
  have hrun : Run.Reach Machine.step (fun _ a => a.Within Call.Steady) (Machine.start cfg) s.1 out :=
    Run.Reach.of_annotate (s := s.1) (g := s.2) h fun _ _ _ ha => hok _ _ ha
  exact Machine.undisturbed_of_within (fun _ _ => id) hrun ha

/-- Runs without queues, notifications and resumed tasks are undisturbed. -/
theorem Machine.waking_of_steady {cfg : Config} {s : Machine × (TaskPtr → Bool)} {out : List Obs}
    (h : Run.Reach Machine.waking (fun s a => a.Within Call.Steady ∧ s.1.forgets s.2 a = false)
      (Machine.start cfg, fun _ => false) s out) :
    Run.Reach Machine.waking (fun s a => s.1.Undisturbed a ∧ s.1.forgets s.2 a = false)
      (Machine.start cfg, fun _ => false) s out :=
  h.mono fun _ _ _ hs ha => ⟨Machine.undisturbed_of_steady_noted hs (fun _ _ ha => ha.1) ha.1, ha.2⟩

/-- Between its calls a task has no trace of a wait. -/
theorem Remembers.traceless {m : Machine} {L : WaitList → List TaskPtr} {woken : TaskPtr → Bool}
    {t : TaskPtr} (h : Remembers m L woken t) (hso : Sound m.muted L)
    (hrest : (m.ctl (.thread t)).atRest = true) : m.Traceless t := by
  obtain ⟨hhead, hmark⟩ := h.clean hrest
  have hrest' : (m.muted.ctl (.thread t)).atRest = true := by rwa [Machine.ctl_muted, Ctl.atRest_muted]
  have hout : ∀ l, t ∉ L l := by
    intro l hin
    have hwaits := (hso.coherent.linked l t hin).2
    rw [Ctl.waitsOn_of_atRest hrest'] at hwaits
    cases hwaits
  refine ⟨hhead, hmark, ?_, fun hlinked => ?_⟩
  · by_contra hne
    rcases hso.coherent.delay t (Nat.pos_of_ne_zero hne) with hdel | hwait
    · rw [Ctl.delaying_of_atRest hrest'] at hdel
      cases hdel
    · have htimed := hwait.timed
      rw [Ctl.timed_of_atRest hrest'] at htimed
      cases htimed
  · obtain ⟨l, hin⟩ := hso.linked_iff.1 hlinked
    exact hout l hin

/-- The runs with whole ticks. -/
theorem Machine.traceless_of_reach {cfg : Config} {m : Machine} {woken : TaskPtr → Bool} {out : List Obs}
    (h : Run.Reach Machine.waking (fun s a => s.1.Undisturbed a ∧ s.1.forgets s.2 a = false)
      (Machine.start cfg, fun _ => false) (m, woken) out) (t : TaskPtr) :
    ((m.ctl (.thread t)).atRest = true → m.Traceless t) ∧
    ((m.ctl (.thread t)).sleeps = true →
      m.kernel.expire t =
        some (m.kernel.modifyTask t fun x => { x with delayTicks := 0, state := .ready }) ∧
      ∀ n k', m.kernel.schedTickN n = some k' → (k'.tcb t).timedOut = false) := by
  obtain ⟨L, hso, hrem⟩ := Machine.remembers_of_reach cfg h
  refine ⟨(hrem t).traceless hso, fun hsleeps => ?_⟩
  have hhead : (m.kernel.tcb t).waitListHead = none := by
    by_contra hne
    have hkeeps := (hrem t).keeps hne
    rw [Ctl.keepsHead_of_sleeps hsleeps] at hkeeps
    cases hkeeps
  have hmark : (m.kernel.tcb t).timedOut = false := by
    by_contra hne
    rw [Bool.not_eq_false] at hne
    have hkeeps := Ctl.keepsHead_of_timed ((hrem t).mark hne)
    rw [Ctl.keepsHead_of_sleeps hsleeps] at hkeeps
    cases hkeeps
  refine ⟨?_, fun n k' hk => ?_⟩
  · unfold Kernel.expire
    rw [hhead]
  · rw [(hso.coherent.expiry hk t).2, Machine.kernel_muted, hhead, hmark]
    simp

/-- A timed wait leaves no trace. In every run of all calls of the kernel, from any configuration, in
which nothing comes between the statements of a tick, no step makes a task ready behind the back of its
list and no task that has been woken in `mutex_lock_timeout`, `queue_send_timeout` or
`queue_receive_timeout` gives up at its deadline: a task outside every call remembers no list, is not
marked, has no delay and is in no list; and when it sleeps in `sched_delay_ms` or `task_notify_wait`,
the end of its delay touches no list, and no tick marks it. -/
theorem timedWait_traceless (cfg : Config) {s : Split} {woken : TaskPtr → Bool} {out : List Obs}
    (h : Run.Reach (Split.noted Machine.noteWoken)
      (Split.WholeNoted Machine.noteWoken fun s a => s.1.Undisturbed a ∧ s.1.forgets s.2 a = false)
      (Split.start cfg, fun _ => false) (s, woken) out) (hs : s.ticking = false) (t : TaskPtr) :
    ((s.machine.ctl (.thread t)).atRest = true → s.machine.Traceless t) ∧
    ((s.machine.ctl (.thread t)).sleeps = true →
      s.kernel.expire t =
        some (s.kernel.modifyTask t fun x => { x with delayTicks := 0, state := .ready }) ∧
      ∀ n k', s.kernel.schedTickN n = some k' → (k'.tcb t).timedOut = false) :=
  Machine.traceless_of_reach (Split.reach_noted h hs) t

/-- Task 0 locks a mutex and sleeps; task 1 waits for the mutex with a timeout, and gets it when task 0
unlocks it and sleeps again. -/
def lockAfterBlock : Scenario where
  config := { priorities := [1, 2] }
  actions := [.call (.mutexTrylock 0), .exec, .call (.schedDelayMs 1), .exec, .exec, .pendSV,
    .call (.mutexLockTimeout 0 5), .exec, .exec, .exec, .exec, .pendSV, .clock 1, .tick 1, .pendSV, .exec,
    .call (.mutexUnlock 0), .exec, .exec, .call (.schedDelayMs 10), .exec, .exec, .pendSV,
    .exec, .exec, .exec]
  possible := by decide +kernel

theorem lockAfterBlock_traceless :
    (lockAfterBlock.noted Machine.noteWoken fun _ => false).1.ctl (.thread (.tcb 1)) =
      .mutex (.lockTimeoutReturned 0 0) ∧
    (lockAfterBlock.noted Machine.noteWoken fun _ => false).2 (.tcb 1) = true ∧
    (lockAfterBlock.noted Machine.noteWoken fun _ => false).1.Traceless (.tcb 1) := by
  have hpermitted : Run.Permitted Machine.waking
      (fun s a => (a.Within Call.Steady ∧ s.1.forgets s.2 a = false) ∧ s.1.Timely a)
      (Machine.start lockAfterBlock.config, fun _ => false) lockAfterBlock.actions := by decide +kernel
  obtain ⟨out, hreach⟩ := lockAfterBlock.reach_noted Machine.noteWoken (fun _ => false) hpermitted
  have hret : (lockAfterBlock.noted Machine.noteWoken fun _ => false).1.ctl (.thread (.tcb 1)) =
      .mutex (.lockTimeoutReturned 0 0) := by decide +kernel
  have hwoken : (lockAfterBlock.noted Machine.noteWoken fun _ => false).2 (.tcb 1) = true := by
    decide +kernel
  have hundisturbed : Run.Reach Machine.waking
      (fun s a => (s.1.Undisturbed a ∧ s.1.forgets s.2 a = false) ∧ s.1.Timely a)
      (Machine.start lockAfterBlock.config, fun _ => false) _ out :=
    hreach.mono fun s out a hs ha => ⟨⟨Machine.undisturbed_of_steady_noted hs
      (fun _ _ ha => ha.1.1) ha.1.1, ha.1.2⟩, ha.2⟩
  obtain ⟨s, hs, hm, hsplit⟩ := Split.exists_of_noted hundisturbed
  rw [← hm] at hret ⊢
  exact ⟨hret, hwoken, (timedWait_traceless lockAfterBlock.config hsplit hs (.tcb 1)).1
    (by rw [hret]; rfl)⟩

/-- Task 0 locks a mutex and sleeps. -/
def mutexHeld : Scenario where
  config := { priorities := [1, 2] }
  actions := [.call (.mutexTrylock 0), .exec, .call (.schedDelayMs 1), .exec, .exec, .pendSV]
  possible := by decide +kernel

/-- Task 1 waits for the mutex with a timeout. Task 0 unlocks it, locks it again before task 1 runs, and
sleeps beyond the deadline of task 1. -/
def lostRace : List Action :=
  [.call (.mutexLockTimeout 0 5), .exec, .exec, .exec, .exec, .pendSV, .clock 1, .tick 1, .pendSV, .exec,
    .call (.mutexUnlock 0), .exec, .exec, .call (.mutexTrylock 0), .exec, .clock 5,
    .call (.schedDelayMs 10), .exec, .exec, .pendSV, .exec, .exec, .exec]

/-- Task 1 sleeps for 1 ms. -/
def nextDelay : List Action :=
  [.call (.schedDelayMs 1), .exec, .exec, .pendSV, .clock 1, .tick 1]

/-- Task 1 calls `mutex_lock_timeout` without a trace of a wait, loses the race, gives up, and still
remembers the mutex; the end of its next delay marks it as timed out. -/
theorem timedWait_leaves_trace :
    ∃ m₀ m m' out o o', Run.Reach Machine.step (fun _ a => a.Within Call.Steady)
        (Machine.start mutexHeld.config) m₀ out ∧
      (m₀.ctl (.thread (.tcb 1))).atRest = true ∧ m₀.Traceless (.tcb 1) ∧
      Run.exec Machine.step m₀ lostRace = some (m, o) ∧
      m.ctl (.thread (.tcb 1)) = .mutex (.lockTimeoutReturned 0 (-1)) ∧
      (m.kernel.tcb (.tcb 1)).waitListHead = some (.mutex 0) ∧
      Run.exec Machine.step m nextDelay = some (m', o') ∧
      m'.ctl (.thread (.tcb 1)) = .sched .delayWait ∧ (m'.kernel.tcb (.tcb 1)).timedOut = true := by
  have hpermitted : Run.Permitted Machine.waking
      (fun s a => a.Within Call.Steady ∧ s.1.forgets s.2 a = false)
      (Machine.start mutexHeld.config, fun _ => false) mutexHeld.actions := by decide +kernel
  obtain ⟨out, hreach⟩ := mutexHeld.reach_noted Machine.noteWoken (fun _ => false) hpermitted
  obtain ⟨L, hso, hrem⟩ := Machine.remembers_of_reach _ (Machine.waking_of_steady hreach)
  have hrest : ((mutexHeld.noted Machine.noteWoken fun _ => false).1.ctl (.thread (.tcb 1))).atRest =
      true := by decide +kernel
  have hrun : (Run.exec Machine.step (mutexHeld.noted Machine.noteWoken fun _ => false).1 lostRace).any
      (fun r => decide (r.1.ctl (.thread (.tcb 1)) = .mutex (.lockTimeoutReturned 0 (-1)) ∧
          (r.1.kernel.tcb (.tcb 1)).waitListHead = some (.mutex 0)) &&
        (Run.exec Machine.step r.1 nextDelay).any fun r' =>
          decide (r'.1.ctl (.thread (.tcb 1)) = .sched .delayWait ∧
            (r'.1.kernel.tcb (.tcb 1)).timedOut = true)) = true := by decide +kernel
  obtain ⟨⟨m, o⟩, hrace, hrun⟩ := (Option.any_eq_true _ _).1 hrun
  rw [Bool.and_eq_true, decide_eq_true_eq] at hrun
  obtain ⟨⟨hret, hhead⟩, hrun⟩ := hrun
  obtain ⟨⟨m', o'⟩, hdelay, hrun⟩ := (Option.any_eq_true _ _).1 hrun
  obtain ⟨hsleeps, hmark⟩ := of_decide_eq_true hrun
  exact ⟨_, m, m', out, o, o', hreach.of_annotate fun _ _ _ ha => ha.1, hrest,
    (hrem _).traceless hso hrest, hrace, hret, hhead, hdelay, hsleeps, hmark⟩

end TamgaOs
