import TamgaOs.Properties.Event
import TamgaOs.Machine.Objects
import TamgaOs.Machine.Split

/-!
# The failure value of `event_wait_timeout`

`event_wait_timeout` returns the bits that it has observed, and `0xFFFFFFFF` when it has failed. A group
may have all 32 bits set, and a wait that is granted then returns the failure value: the caller takes
for a timeout what has been granted, and perhaps consumed.

## Main definitions

* `CallHistory`, `Machine.recording`: the last call of every task and the reports since it began.
* `Machine.Unambiguous`: the condition on a step.
* `EventMove`: what one step does to the event wait of a task.
* `GrantsMatch`, `RecordSound`: the invariants.

## Main results

* `StepEffect.eventMove`: every orderly step does one of these things.
* `eventWaitTimeout_unambiguous`: a call that has been granted returns another value.
* `eventWaitTimeout_allBits`: with all bits set it does not.
-/

namespace TamgaOs

/-! ### The record -/

/-- The bits that the reports grant to the task `t`. -/
def grantsTo (t : TaskPtr) (out : List Obs) : List (BitVec 32) :=
  out.filterMap fun b =>
    match b with
    | .eventGranted u _ v => if u = t then some v else none
    | _ => none

section Grants

variable {t : TaskPtr} {out o : List Obs} {v : BitVec 32}

theorem mem_grantsTo : v ∈ grantsTo t out ↔ ∃ w, Obs.eventGranted t w v ∈ out := by
  constructor
  · intro hv
    obtain ⟨b, hb, he⟩ := List.mem_filterMap.1 hv
    split at he
    · rename_i u w v'
      split_ifs at he with hu
      cases he
      exact ⟨w, hu ▸ hb⟩
    · cases he
  · rintro ⟨w, hw⟩
    exact List.mem_filterMap.2 ⟨_, hw, if_pos rfl⟩

theorem grantsTo_append : grantsTo t (out ++ o) = grantsTo t out ++ grantsTo t o :=
  List.filterMap_append

theorem grantsTo_eq_nil (h : ∀ w v, Obs.eventGranted t w v ∉ o) : grantsTo t o = [] := by
  refine List.eq_nil_iff_forall_not_mem.2 fun v hv => ?_
  obtain ⟨w, hw⟩ := mem_grantsTo.1 hv
  exact h w v hw

theorem grantsTo_other (h : ∀ b ∈ o, b.family ≠ .event) : grantsTo t o = [] :=
  grantsTo_eq_nil fun _ _ hb => h _ hb rfl

end Grants

/-- What the tasks have called. -/
structure CallHistory where
  /-- The last call of a task. -/
  call : TaskPtr → Option Call := fun _ => none
  /-- The reports since this call began. -/
  since : TaskPtr → List Obs := fun _ => []

namespace Machine

/-- The record after an action. -/
def recordCall (m : Machine) (a : Action) (o : List Obs) (r : CallHistory) : CallHistory :=
  match a, m.active with
  | .call c, some (.thread t) =>
    { call := Function.update r.call t (some c), since := Function.update r.since t [] }
  | _, _ => { r with since := fun t => r.since t ++ o }

/-- The machine with its record. -/
def recording : Machine × CallHistory → Action → Option ((Machine × CallHistory) × List Obs) :=
  Run.annotate step recordCall

/-- The task waits for an event with a timeout, for some bits. -/
def AwaitsBits (m : Machine) (t : TaskPtr) : Prop :=
  ∃ w d i, m.ctl (.thread t) = .event (.blocked w (some d) i) ∧ w.mask ≠ 0

/-- The grant of the wait of the task clears some bits. -/
def ConsumesBits (m : Machine) (t : TaskPtr) : Prop :=
  ∃ w d i, m.ctl (.thread t) = .event (.blocked w d i) ∧ w.mask ≠ 0 ∧ w.autoClear = true

/-- No `event_wait_timeout` is satisfied while all bits of its group are set: neither at once, nor by an
`event_set` that leaves all bits set, unless a waiter before it consumes some of them. -/
def Unambiguous (m : Machine) : Action → Prop
  | .exec => ∀ x, m.active = some x →
      (∀ w d, m.ctl x = .event (.loop w (some d)) → (m.kernel.group w.group).bits = 0xFFFFFFFF →
        w.met 0xFFFFFFFF = false) ∧
      ∀ e b, m.ctl x = .event (.set e b) → (m.kernel.group e).bits ||| b = 0xFFFFFFFF →
        ∀ pre t post, m.kernel.Waiters (.event e) (pre ++ t :: post) → m.AwaitsBits t →
          ∃ u ∈ pre, m.ConsumesBits u
  | _ => True

end Machine

/-! ### One pass with all bits set -/

section Pass

variable {wait : TaskPtr → EventWait} {b : BitVec 32} {xs : List TaskPtr} {t : TaskPtr}

/-- A wait for some bits is satisfied when all are set. -/
theorem EventWait.met_ones {w : EventWait} (hmask : w.mask ≠ 0) : w.met 0xFFFFFFFF = true := by
  have hand : (0xFFFFFFFF : BitVec 32) &&& w.mask = w.mask := BitVec.allOnes_and
  unfold EventWait.met eventConditionMet
  cases w.mode with
  | all => simp only [hand, beq_self_eq_true]
  | any =>
    simp only [hand, bne_iff_ne]
    exact hmask

theorem EventWait.clear_eq_and (w : EventWait) (b : BitVec 32) : ∃ c, w.clear b = b &&& c := by
  unfold EventWait.clear
  split_ifs
  · exact ⟨_, rfl⟩
  · exact ⟨BitVec.allOnes 32, BitVec.and_allOnes.symm⟩

/-- Clearing bits does not set the last one. -/
theorem ne_ones_of_and {c : BitVec 32} (hb : b ≠ 0xFFFFFFFF) : b &&& c ≠ 0xFFFFFFFF :=
  fun h => hb (BitVec.and_eq_allOnes_iff.1 h).1

/-- A grant that clears some bits leaves a bit clear. -/
theorem EventWait.clear_ne_ones {w : EventWait} (hauto : w.autoClear = true) (hmask : w.mask ≠ 0) :
    w.clear b ≠ 0xFFFFFFFF := by
  rw [EventWait.clear, if_pos hauto]
  intro h
  refine hmask ?_
  have hnot : ~~~w.mask = BitVec.allOnes 32 := (BitVec.and_eq_allOnes_iff.1 h).2
  rw [← BitVec.not_not (b := w.mask), hnot, BitVec.not_allOnes]
  rfl

/-- Bits that are clear stay clear during the pass. -/
theorem eventPass_observed_ne_ones (hb : b ≠ 0xFFFFFFFF) {g : EventGrant}
    (hg : g ∈ (eventPass wait b xs).2.2) : g.observed ≠ 0xFFFFFFFF := by
  induction xs generalizing b with
  | nil => cases hg
  | cons u xs ih =>
    cases hu : (wait u).met b with
    | true =>
      rw [eventPass_cons_met hu] at hg
      rcases List.mem_cons.1 hg with rfl | hmem
      · exact hb
      · obtain ⟨c, hc⟩ := (wait u).clear_eq_and b
        exact ih (hc ▸ ne_ones_of_and hb) hmem
    | false =>
      rw [eventPass_cons_not_met hu] at hg
      exact ih hb hg

/-- A waiter behind one that consumes bits does not observe all of them. -/
theorem eventPass_observed_of_consumed {pre post : List TaskPtr} {u : TaskPtr} {g : EventGrant}
    (hnot : t ∉ pre) (hu : u ∈ pre) (hmask : (wait u).mask ≠ 0) (hauto : (wait u).autoClear = true)
    (hg : g ∈ (eventPass wait b (pre ++ t :: post)).2.2) (ht : g.task = t) :
    g.observed ≠ 0xFFFFFFFF := by
  induction pre generalizing b with
  | nil => cases hu
  | cons p pre ih =>
    obtain ⟨htp, hnot⟩ := not_or.1 (List.mem_cons.not.1 hnot)
    rw [List.cons_append] at hg
    by_cases hb : b = 0xFFFFFFFF
    · cases hp : (wait p).met b with
      | true =>
        rw [eventPass_cons_met hp] at hg
        rcases List.mem_cons.1 hg with rfl | hmem
        · exact absurd ht.symm htp
        · rcases List.mem_cons.1 hu with rfl | hu
          · exact eventPass_observed_ne_ones (EventWait.clear_ne_ones hauto hmask) hmem
          · exact ih hnot hu hmem
      | false =>
        rw [eventPass_cons_not_met hp] at hg
        rcases List.mem_cons.1 hu with rfl | hu
        · rw [hb, EventWait.met_ones hmask] at hp
          cases hp
        · exact ih hnot hu hg
    · rw [← List.cons_append] at hg
      exact eventPass_observed_ne_ones hb hg

/-- A task that is granted its wait does not go on waiting. -/
theorem eventPass_disjoint (hxs : xs.Nodup) {g : EventGrant} (hg : g ∈ (eventPass wait b xs).2.2) :
    g.task ∉ (eventPass wait b xs).2.1 := by
  induction xs generalizing b with
  | nil => cases hg
  | cons u xs ih =>
    obtain ⟨hnot, hxs⟩ := List.nodup_cons.1 hxs
    cases hu : (wait u).met b with
    | true =>
      rw [eventPass_cons_met hu] at hg ⊢
      rcases List.mem_cons.1 hg with rfl | hmem
      · exact fun hkept => hnot (eventPass_sublist.subset hkept)
      · exact ih hxs hmem
    | false =>
      rw [eventPass_cons_not_met hu] at hg ⊢
      rintro (_ | ⟨_, hkept⟩)
      · exact hnot (eventPass_granted hg).1
      · exact ih hxs hg hkept

end Pass

/-! ### What a step does to a wait -/

/-- The context is in an event wait, or has returned from one. -/
def Ctl.inEventWait : Ctl → Bool
  | .event (.enter _ _) | .event (.loop _ _) | .event (.blocked _ _ _) | .event (.returned _ _) => true
  | _ => false

/-- What one step with the reports `o` does to the event wait of the task `t`. -/
inductive EventMove (m : Machine) (L : WaitList → List TaskPtr) (a : Action) (m' : Machine)
    (L' : WaitList → List TaskPtr) (o : List Obs) (t : TaskPtr) : Prop
  /-- The task is in no event wait. -/
  | outside (hc' : (m'.ctl (.thread t)).inEventWait = false) (ho : grantsTo t o = [])
  | begin {c : Call} (ha : a = .call c) (hact : m.active = some (.thread t))
      (hc' : m'.ctl (.thread t) = c.entry)
  /-- The step is not about the task. -/
  | stay (hc' : m'.ctl (.thread t) = m.ctl (.thread t)) (ho : grantsTo t o = [])
      (hwait : ∀ w d i, m.ctl (.thread t) = .event (.blocked w d i) →
        (t ∈ L' (.event w.group) ↔ t ∈ L (.event w.group)) ∧
        (m'.kernel.tcb t).timedOut = (m.kernel.tcb t).timedOut ∧
        (m'.kernel.pending i).observedBits = (m.kernel.pending i).observedBits)
  | prepare {w : EventWait} {d : Option ℕ}
      (hc : (∃ ms, m.ctl (.thread t) = .event (.enter w ms)) ∨
        ∃ d, m.ctl (.thread t) = .event (.loop w d))
      (hc' : m'.ctl (.thread t) = .event (.loop w d)) (ho : grantsTo t o = [])
  | refuse {w : EventWait} {d : Option ℕ} {r : EventReturn} (hc : m.ctl (.thread t) = .event (.loop w d))
      (hc' : m'.ctl (.thread t) = .event (.returned w r)) (hr : r = .expired ∨ r = .noSlot)
      (ho : grantsTo t o = [])
  /-- The condition is met at once. -/
  | grant {w : EventWait} {d : Option ℕ} {v : BitVec 32} (hc : m.ctl (.thread t) = .event (.loop w d))
      (hc' : m'.ctl (.thread t) = .event (.returned w (.granted v))) (ho : v ∈ grantsTo t o)
  | block {w : EventWait} {d : Option ℕ} {i : ℕ} (hc : m.ctl (.thread t) = .event (.loop w d))
      (hc' : m'.ctl (.thread t) = .event (.blocked w d i)) (hin : t ∈ L' (.event w.group))
      (ho : grantsTo t o = [])
  /-- The condition is met by an `event_set`. -/
  | satisfy {w : EventWait} {d : Option ℕ} {i : ℕ} (hc : m.ctl (.thread t) = .event (.blocked w d i))
      (hc' : m'.ctl (.thread t) = .event (.blocked w d i)) (hin : t ∈ L (.event w.group))
      (hout : t ∉ L' (.event w.group))
      (hmark : ¬ (d.isSome = true ∧ (m'.kernel.tcb t).timedOut = true))
      (ho : (m'.kernel.pending i).observedBits ∈ grantsTo t o)
  | expire {w : EventWait} {d : Option ℕ} {i : ℕ} (hc : m.ctl (.thread t) = .event (.blocked w d i))
      (hc' : m'.ctl (.thread t) = .event (.blocked w d i)) (hin : t ∈ L (.event w.group))
      (hd : d.isSome = true) (hmark : (m'.kernel.tcb t).timedOut = true) (ho : grantsTo t o = [])
  | timeout {w : EventWait} {d : Option ℕ} {i : ℕ} (hc : m.ctl (.thread t) = .event (.blocked w d i))
      (hmark : d.isSome = true ∧ (m.kernel.tcb t).timedOut = true)
      (hc' : m'.ctl (.thread t) = .event (.returned w .expired)) (ho : grantsTo t o = [])
  | finish {w : EventWait} {d : Option ℕ} {i : ℕ} (hc : m.ctl (.thread t) = .event (.blocked w d i))
      (hmark : ¬ (d.isSome = true ∧ (m.kernel.tcb t).timedOut = true)) (hout : t ∉ L (.event w.group))
      (hc' : m'.ctl (.thread t) = .event (.returned w (.granted (m.kernel.pending i).observedBits)))
      (ho : grantsTo t o = [])

section Steps

variable {m m' : Machine} {L L' : WaitList → List TaskPtr} {a : Action} {out o : List Obs} {t : TaskPtr}

theorem Sound.linked_of_blocked (hs : Sound m L) {w : EventWait} {d : Option ℕ} {i : ℕ}
    (hc : m.ctl (.thread t) = .event (.blocked w d i)) {l : WaitList} (ht : t ∈ L l) :
    l = .event w.group := by
  have hw := (hs.coherent.linked l t ht).2
  rw [hc] at hw
  exact (Option.some.inj hw).symm

/-- A step that is not of the module of event groups. -/
theorem EventMove.resume_other (hs : Sound m L) {F : Family} {x : Ctx} {k' : Kernel} {c' : Ctl}
    (hu : Untouched F x m.kernel k' L L') (hF : F ≠ .event) (hc' : c'.inEventWait = false)
    (ho : ∀ b ∈ o, b.family ≠ .event) : EventMove m L a (m.resume x k' c') L' o t := by
  by_cases hx : Ctx.thread t = x
  · refine .outside ?_ (grantsTo_other ho)
    rw [Machine.ctl_resume, hx, Function.update_self]
    exact hc'
  · refine .stay ?_ (grantsTo_other ho) fun w d i hc => ⟨?_, ?_, ?_⟩
    · rw [Machine.ctl_resume, Function.update_of_ne hx]
    · rw [hu.lists (.event w.group) (Ne.symm hF)]
    · exact hu.timedOut t (hs.coherent.table t (by rw [hc]; exact Ctl.noConfusion)) (Ne.symm hx)
    · rw [Machine.kernel_resume, (hu.event hF).2]

/-- A step of an event call that moves nobody else. -/
theorem EventMove.resume_event (hs : Sound m L) {x : Ctx} {k' : Kernel} {c' : Ctl}
    (hu : Untouched .event x m.kernel k' L L)
    (hobs : ∀ i, (k'.pending i).observedBits = (m.kernel.pending i).observedBits)
    (hne : Ctx.thread t ≠ x) (ho : grantsTo t o = []) : EventMove m L a (m.resume x k' c') L o t := by
  refine .stay ?_ ho fun w d i hc => ⟨Iff.rfl, ?_, hobs i⟩
  · rw [Machine.ctl_resume, Function.update_of_ne hne]
  · exact hu.timedOut t (hs.coherent.table t (by rw [hc]; exact Ctl.noConfusion)) (Ne.symm hne)

/-- `event_set`. -/
theorem EventMove.set (hs : Sound m L) {x : Ctx} {k' : Kernel} {e : ℕ} {bits b : BitVec 32}
    {kept : List TaskPtr} {gs : List EventGrant} (hfree : ∀ u, x = .thread u → ∀ l, u ∉ L l)
    (hpass : eventPass (waitOf m.ctl) ((m.kernel.group e).bits ||| bits) (L (.event e)) = (b, kept, gs))
    (hwoken : Woken (m.kernel.setEventBits e ((m.kernel.group e).bits ||| bits)) k' e L
      (Function.update L (.event e) kept) b gs) :
    EventMove m L a (m.resume x k' (.event .done)) (Function.update L (.event e) kept)
      (.eventSet e bits :: gs.map fun g => .eventGranted g.task g.wait g.observed) t := by
  have hgranted : ∀ w v, Obs.eventGranted t w v ∈
      Obs.eventSet e bits :: gs.map (fun g => Obs.eventGranted g.task g.wait g.observed) →
      ∃ g ∈ gs, g.task = t := by
    intro w v hmem
    rcases List.mem_cons.1 hmem with he | hmem
    · cases he
    · obtain ⟨g, hg, he⟩ := List.mem_map.1 hmem
      cases he
      exact ⟨g, hg, rfl⟩
  have hlinked : ∀ g ∈ gs, g.task ∈ L (.event e) := by
    intro g hg
    have hmem : g ∈ (eventPass (waitOf m.ctl) ((m.kernel.group e).bits ||| bits) (L (.event e))).2.2 := by
      rwa [hpass]
    exact (eventPass_granted hmem).1
  by_cases hx : Ctx.thread t = x
  · refine .outside ?_ (grantsTo_eq_nil fun w v hmem => ?_)
    · rw [Machine.ctl_resume, hx, Function.update_self]
      rfl
    · obtain ⟨g, hg, rfl⟩ := hgranted w v hmem
      exact hfree g.task hx.symm _ (hlinked g hg)
  have hctl : (m.resume x k' (.event .done)).ctl (.thread t) = m.ctl (.thread t) :=
    Function.update_of_ne hx ..
  have hmark : ∀ {w d i}, m.ctl (.thread t) = .event (.blocked w d i) →
      (k'.tcb t).timedOut = (m.kernel.tcb t).timedOut := fun hc =>
    (hwoken.untouched x).timedOut t (hs.coherent.table t (by rw [hc]; exact Ctl.noConfusion)) (Ne.symm hx)
  by_cases hany : ∃ g ∈ gs, g.task = t
  · obtain ⟨g, hg, rfl⟩ := hany
    have hin := hlinked g hg
    obtain ⟨w, d, i, hc, rfl⟩ := Ctl.eq_event_of_waitsOn (hs.coherent.linked _ _ hin).2
    have hslot := (hs.slotted.slot _ w d i hc).2.1
    refine .satisfy hc (hctl.trans hc) hin ?_ ?_ ?_
    · have hmem : g ∈ (eventPass (waitOf m.ctl) ((m.kernel.group w.group).bits ||| bits)
          (L (.event w.group))).2.2 := by rwa [hpass]
      have hnot := eventPass_disjoint (hs.coherent.waiters _).nodup hmem
      rw [hpass] at hnot
      rwa [Function.update_self]
    · rintro ⟨hd, hto⟩
      rw [Machine.kernel_resume, hmark hc, hs.fresh _ _ hin (by rw [hc]; exact hd)] at hto
      cases hto
    · rw [Machine.kernel_resume, hwoken.granted.observed g hg i hslot]
      exact mem_grantsTo.2 ⟨g.wait, List.mem_cons_of_mem _ (List.mem_map_of_mem hg)⟩
  · refine .stay hctl (grantsTo_eq_nil fun w v hmem => hany (hgranted w v hmem)) fun w d i hc =>
      ⟨?_, hmark hc, ?_⟩
    · rw [Function.update_apply]
      split_ifs with he
      · cases he
        constructor
        · intro hkept
          have hsub : ((eventPass (waitOf m.ctl) ((m.kernel.group w.group).bits ||| bits)
              (L (.event w.group))).2.1).Sublist (L (.event w.group)) := eventPass_sublist
          rw [hpass] at hsub
          exact hsub.subset hkept
        · intro hin
          have hcases : t ∈ (eventPass (waitOf m.ctl) ((m.kernel.group w.group).bits ||| bits)
              (L (.event w.group))).2.1 ∨ _ := eventPass_cases hin
          rw [hpass] at hcases
          exact hcases.resolve_right hany
      · exact Iff.rfl
    · have hslot := (hs.slotted.slot t w d i hc).2.1
      rw [Machine.kernel_resume, hwoken.granted.other i fun g hg he => hany ⟨g, hg, ?_⟩]
      · rfl
      · have hslot' : some t = some g.task := hslot.symm.trans he
        exact (Option.some.inj hslot').symm

/-- The tick. -/
theorem EventMove.tick (hs : Sound m L) {n : ℕ} {k' : Kernel} (hsafe : m.TickSafe n)
    (he : TickEffect n m.kernel k' L L') : EventMove m L a { m with kernel := k' } L' [] t := by
  by_cases hc : ∃ w d i, m.ctl (.thread t) = .event (.blocked w d i)
  swap
  · exact .stay rfl rfl fun w d i hc' => absurd ⟨w, d, i, hc'⟩ hc
  obtain ⟨w, d, i, hc⟩ := hc
  cases hexp : m.kernel.expires n t with
  | false =>
    refine .stay rfl rfl fun w' d' i' hc' => ⟨?_, ?_, ?_⟩
    · rw [he.lists, List.mem_filter, hexp]
      simp
    · refine he.quiet.timedOut t ?_
      change ¬ m.kernel.expires n t = true
      rw [hexp]
      exact Bool.false_ne_true
    · dsimp only
      rw [he.quiet.pending]
  | true =>
    -- only a linked task has a delay here, and it waits with a timeout
    have hpos := Kernel.delayTicks_pos_of_expires hexp
    have hin : t ∈ L (.event w.group) := by
      by_contra hnot
      have hfree : ∀ l, t ∉ L l := fun l hl => hnot (hs.linked_of_blocked hc hl ▸ hl)
      rw [hs.not_expires hsafe (by rw [hc]; rfl) hfree] at hexp
      cases hexp
    have hd : d.isSome = true := by
      rcases hs.coherent.delay t hpos with hdel | hwait
      · rw [hc] at hdel
        cases hdel
      · have htimed := hwait.timed
        rwa [hc] at htimed
    exact .expire hc hc hin hd (he.marked _ t hin hexp) rfl

/-- One step of an event call. -/
theorem EventMove.event (hs : Sound m L) {x : Ctx} {u : TaskPtr} {c c' : EventCtl} {k' : Kernel}
    (hx : Runs m.kernel x u) (hc : m.ctl x = .event c)
    (he : EventEffect m.kernel m.ctl L u c k' c' L' o) (hu : Untouched .event x m.kernel k' L L') :
    EventMove m L a (m.resume x k' (.event c')) L' o t := by
  have happ : m.ctl x ≠ .app := by
    rw [hc]
    exact Ctl.noConfusion
  have hfree : ∀ u, x = .thread u → ∀ l, u ∉ L l := by
    rintro u' rfl
    have hut : u' = u := by
      rcases hx.ctx with ⟨he, -⟩ | ⟨i, he⟩ <;> cases he
      rfl
    subst hut
    exact (hs.coherent.free_of_runs hx happ).1.1
  have hself : ∀ {c'' : Ctl}, Ctx.thread t = x → (m.resume x k' c'').ctl (.thread t) = c'' := by
    rintro c'' rfl
    exact Function.update_self ..
  have hthread : (Ctl.event c).isrSafe = false → x = .thread u := by
    rw [← hc]
    exact hs.coherent.thread_of_not_isrSafe hx
  cases he with
  | set hpass hwoken => exact .set hs hfree hpass hwoken
  | clear | get =>
    by_cases ht : Ctx.thread t = x
    · exact .outside (by rw [hself ht]; rfl) rfl
    · exact .resume_event hs hu (fun _ => rfl) ht rfl
  | enter =>
    by_cases ht : Ctx.thread t = x
    · exact .prepare (.inl ⟨_, ht ▸ hc⟩) (hself ht) rfl
    · exact .resume_event hs hu (fun _ => rfl) ht rfl
  | @granted w d hmet =>
    obtain rfl := hthread rfl
    by_cases ht : t = u
    · subst ht
      exact .grant hc (hself rfl) (mem_grantsTo.2 ⟨w, List.mem_cons_self⟩)
    · refine .resume_event hs hu (fun i => ?_) (by simpa using ht) (grantsTo_eq_nil fun w' v hmem => ?_)
      · unfold Kernel.eventAutoClear
        split_ifs <;> rfl
      · cases List.mem_singleton.1 hmem
        exact ht rfl
  | expired =>
    by_cases ht : Ctx.thread t = x
    · exact .refuse (ht ▸ hc) (hself ht) (.inl rfl) rfl
    · exact .resume_event hs hu (fun _ => rfl) ht rfl
  | @noSlot w d _ hslot hc' =>
    by_cases ht : Ctx.thread t = x
    · rcases hc' with rfl | rfl
      · exact .prepare (.inr ⟨d, ht ▸ hc⟩) (hself ht) rfl
      · exact .refuse (ht ▸ hc) (hself ht) (.inr rfl) rfl
    · exact .resume_event hs hu (fun _ => rfl) ht rfl
  | @block w d i _ hnot hslot hq hmark =>
    obtain rfl := hthread rfl
    by_cases ht : t = u
    · subst ht
      refine .block hc (hself rfl) ?_ rfl
      rw [Function.update_self]
      exact Kernel.mem_enqueued.2 (.inl rfl)
    · refine .stay ?_ rfl fun w' d' j hc' => ⟨?_, ?_, ?_⟩
      · exact Function.update_of_ne (by simpa using ht) ..
      · rw [Function.update_apply]
        split_ifs with he
        · rw [he, Kernel.mem_enqueued]
          exact or_iff_right ht
        · exact Iff.rfl
      · exact hq.timedOut t (by simpa using ht)
      · rw [Machine.kernel_resume, hq.pending]
        change (Function.update m.kernel.pending i _ j).observedBits = _
        rw [Function.update_apply]
        split_ifs with hji
        · rw [hji]
        · rfl
  | @timeout w d i hmark =>
    obtain rfl := hthread rfl
    by_cases ht : t = u
    · subst ht
      exact .timeout hc ⟨rfl, hmark⟩ (hself rfl) rfl
    · refine .resume_event hs hu (fun j => ?_) (by simpa using ht) rfl
      change (Function.update m.kernel.pending i _ j).observedBits = _
      rw [Function.update_apply]
      split_ifs with hji
      · rw [hji]
        rfl
      · rfl
  | @finish w d i hmark =>
    obtain rfl := hthread rfl
    by_cases ht : t = u
    · subst ht
      exact .finish hc hmark (hfree t rfl _) (hself rfl) rfl
    · refine .resume_event hs hu (fun j => ?_) (by simpa using ht) rfl
      change (Function.update m.kernel.pending i _ j).observedBits = _
      rw [Function.update_apply]
      split_ifs with hji
      · rw [hji]
      · rfl

/-- Every orderly step does one of these things. -/
theorem StepEffect.eventMove (he : StepEffect m L a m' L' o) (hs : Sound m L) (hok : m.Orderly a)
    (t : TaskPtr) : EventMove m L a m' L' o t := by
  cases he with
  | @call c i hact hrest =>
    by_cases ht : t = .tcb i
    · subst ht
      exact .begin rfl hact (Function.update_self ..)
    · exact .stay (Function.update_of_ne (by simpa using ht) ..) rfl fun _ _ _ _ => ⟨Iff.rfl, rfl, rfl⟩
  | @irq c hsafe =>
    exact .stay (Machine.update_isr m.ctl m.depth c.entry t) rfl fun _ _ _ _ => ⟨Iff.rfl, rfl, rfl⟩
  | pendSV | clock => exact .stay rfl rfl fun _ _ _ _ => ⟨Iff.rfl, rfl, rfl⟩
  | tick he => exact .tick hs hok he
  | sem hx hc he hu ho => exact .resume_other hs hu (by simp) rfl fun b hb => by simp [ho b hb]
  | mutex hx hc he hu _ => exact .resume_other hs hu (by simp) rfl fun b hb => by simp [he.family b hb]
  | queue hx hc he hu => exact .resume_other hs hu (by simp) rfl fun b hb => by simp [he.family b hb]
  | event hx hc he hu => exact .event hs hx hc he hu
  | sched hx hc hu hst => exact .resume_other hs hu (by simp) rfl (by simp)

/-! ### The invariants -/

/-- The grants `vs` since its last call agree with where the task `t` is in its event wait. -/
structure GrantsMatch (m : Machine) (L : WaitList → List TaskPtr) (vs : List (BitVec 32)) (t : TaskPtr) :
    Prop where
  asking : ∀ w, ((∃ ms, m.ctl (.thread t) = .event (.enter w ms)) ∨
    ∃ d, m.ctl (.thread t) = .event (.loop w d)) → vs = []
  waiting : ∀ w d i, m.ctl (.thread t) = .event (.blocked w d i) →
    (t ∈ L (.event w.group) ∨ (d.isSome = true ∧ (m.kernel.tcb t).timedOut = true)) → vs = []
  woken : ∀ w d i, m.ctl (.thread t) = .event (.blocked w d i) → t ∉ L (.event w.group) →
    ¬ (d.isSome = true ∧ (m.kernel.tcb t).timedOut = true) → (m.kernel.pending i).observedBits ∈ vs
  failed : ∀ w b, m.ctl (.thread t) = .event (.returned w b) → b = .expired ∨ b = .noSlot → vs = []
  granted : ∀ w v, m.ctl (.thread t) = .event (.returned w (.granted v)) → v ∈ vs

namespace GrantsMatch

variable {vs : List (BitVec 32)}

theorem of_entry {c : Call} (hc : m.ctl (.thread t) = c.entry) : GrantsMatch m L [] t := by
  refine ⟨fun _ _ => rfl, fun _ _ _ _ _ => rfl, fun w d i hc' => ?_, fun _ _ _ _ => rfl, fun w v hc' => ?_⟩
  · rw [hc] at hc'
    exact absurd hc' (c.not_eventBlocked_entry w d i)
  · rw [hc] at hc'
    cases c <;> cases hc'

theorem of_outside (hc : (m.ctl (.thread t)).inEventWait = false) : GrantsMatch m L vs t := by
  constructor
  · rintro w (⟨ms, he⟩ | ⟨d, he⟩) <;> rw [he] at hc <;> cases hc
  · intro w d i he
    rw [he] at hc
    cases hc
  · intro w d i he
    rw [he] at hc
    cases hc
  · intro w b he
    rw [he] at hc
    cases hc
  · intro w v he
    rw [he] at hc
    cases hc

/-- A task that is about to look at the bits. -/
theorem of_loop {w : EventWait} {d : Option ℕ} (hc : m.ctl (.thread t) = .event (.loop w d)) :
    GrantsMatch m L [] t := by
  refine ⟨fun _ _ => rfl, fun _ _ _ _ _ => rfl, fun w' d' i hc' => ?_, fun _ _ _ _ => rfl, fun w' v hc' => ?_⟩
  · cases hc.symm.trans hc'
  · cases hc.symm.trans hc'

/-- A task in the middle of its wait. -/
theorem of_blocked {w : EventWait} {d : Option ℕ} {i : ℕ} (hc : m.ctl (.thread t) = .event (.blocked w d i))
    (hwaiting : (t ∈ L (.event w.group) ∨ (d.isSome = true ∧ (m.kernel.tcb t).timedOut = true)) → vs = [])
    (hwoken : t ∉ L (.event w.group) → ¬ (d.isSome = true ∧ (m.kernel.tcb t).timedOut = true) →
      (m.kernel.pending i).observedBits ∈ vs) : GrantsMatch m L vs t := by
  refine ⟨fun w' hc' => ?_, fun w' d' j hc' => ?_, fun w' d' j hc' => ?_, fun w' b hc' => ?_,
    fun w' v hc' => ?_⟩
  · rcases hc' with ⟨ms, hc'⟩ | ⟨d, hc'⟩ <;> cases hc.symm.trans hc'
  · cases hc.symm.trans hc'
    exact hwaiting
  · cases hc.symm.trans hc'
    exact hwoken
  · cases hc.symm.trans hc'
  · cases hc.symm.trans hc'

/-- A task that has returned. -/
theorem of_returned {w : EventWait} {b : EventReturn} (hc : m.ctl (.thread t) = .event (.returned w b))
    (hfailed : b = .expired ∨ b = .noSlot → vs = []) (hgranted : ∀ v, b = .granted v → v ∈ vs) :
    GrantsMatch m L vs t := by
  refine ⟨fun w' hc' => ?_, fun w' d' j hc' => ?_, fun w' d' j hc' => ?_, fun w' b' hc' => ?_,
    fun w' v hc' => ?_⟩
  · rcases hc' with ⟨ms, hc'⟩ | ⟨d, hc'⟩ <;> cases hc.symm.trans hc'
  · cases hc.symm.trans hc'
  · cases hc.symm.trans hc'
  · cases hc.symm.trans hc'
    exact hfailed
  · cases hc.symm.trans hc'
    exact hgranted v rfl

/-- A step of a task that makes no call. -/
theorem step (h : GrantsMatch m L vs t) (hmove : EventMove m L a m' L' o t)
    (hno : ∀ c, a = .call c → m.active ≠ some (.thread t)) :
    GrantsMatch m' L' (vs ++ grantsTo t o) t := by
  cases hmove with
  | outside hc' ho => exact of_outside hc'
  | begin ha hact hc' => exact absurd hact (hno _ ha)
  | stay hc' ho hwait =>
    rw [ho, List.append_nil]
    refine ⟨fun w hc => h.asking w (by rwa [← hc']), fun w d i hc hw => ?_, fun w d i hc hout hmark => ?_,
      fun w b hc => h.failed w b (hc' ▸ hc), fun w v hc => h.granted w v (hc' ▸ hc)⟩
    · rw [hc'] at hc
      obtain ⟨hL, hto, -⟩ := hwait w d i hc
      rw [hL, hto] at hw
      exact h.waiting w d i hc hw
    · rw [hc'] at hc
      obtain ⟨hL, hto, hobs⟩ := hwait w d i hc
      rw [hL] at hout
      rw [hto] at hmark
      rw [hobs]
      exact h.woken w d i hc hout hmark
  | prepare hc hc' ho =>
    rw [ho, List.append_nil, h.asking _ hc]
    exact of_loop hc'
  | refuse hc hc' hr ho =>
    rw [ho, List.append_nil, h.asking _ (.inr ⟨_, hc⟩)]
    refine of_returned hc' (fun _ => rfl) ?_
    rintro v rfl
    rcases hr with hr | hr <;> cases hr
  | grant hc hc' ho =>
    refine of_returned hc' (fun hr => ?_) fun v hv => ?_
    · rcases hr with hr | hr <;> cases hr
    · cases hv
      exact List.mem_append_right _ ho
  | block hc hc' hin ho =>
    rw [ho, List.append_nil, h.asking _ (.inr ⟨_, hc⟩)]
    exact of_blocked hc' (fun _ => rfl) fun hout => absurd hin hout
  | @satisfy w d i hc hc' hin hout hmark ho =>
    refine of_blocked hc' (fun hw => ?_) fun _ _ => List.mem_append_right _ ho
    rcases hw with hin' | hto
    · exact absurd hin' hout
    · exact absurd hto hmark
  | @expire w d i hc hc' hin hd hmark ho =>
    rw [ho, List.append_nil, h.waiting w d i hc (.inl hin)]
    exact of_blocked hc' (fun _ => rfl) fun _ hnot => absurd ⟨hd, hmark⟩ hnot
  | @timeout w d i hc hmark hc' ho =>
    rw [ho, List.append_nil, h.waiting w d i hc (.inr hmark)]
    exact of_returned hc' (fun _ => rfl) (by simp)
  | @finish w d i hc hmark hout hc' ho =>
    rw [ho, List.append_nil]
    refine of_returned hc' (by simp) fun v hv => ?_
    cases hv
    exact h.woken w d i hc hout hmark

end GrantsMatch

variable {r : CallHistory}

/-- The record of a task that makes a call. -/
theorem Machine.recordCall_begin {c : Call} (hact : m.active = some (.thread t)) :
    (m.recordCall (.call c) o r).call t = some c ∧ (m.recordCall (.call c) o r).since t = [] := by
  simp [Machine.recordCall, hact]

/-- The record of the other tasks. -/
theorem Machine.recordCall_other (hs : m.step a = some (m', o))
    (hno : ∀ c, a = .call c → m.active ≠ some (.thread t)) :
    (m.recordCall a o r).call t = r.call t ∧ (m.recordCall a o r).since t = r.since t ++ o := by
  cases a with
  | call c =>
    have ho : o = [] := by
      rcases Machine.step_cases hs with ⟨_, _, -, -, -, -, ho⟩ | ⟨_, _, _, _, he, _⟩ | ⟨_, he, _⟩ |
        ⟨he, _⟩ | ⟨_, he, _⟩ | ⟨_, _, he, _⟩
      · exact ho
      · cases he
      · cases he
      · cases he
      · cases he
      · cases he
    subst ho
    unfold Machine.recordCall
    split
    · rename_i c' u hc hact
      have htu : t ≠ u := by
        rintro rfl
        exact hno c rfl hact
      simp [Function.update_of_ne htu]
    · simp
  | exec | irq | pendSV | clock | tick => exact ⟨rfl, rfl⟩

/-- A call begins. -/
theorem Machine.ctl_call {c : Call} (hs : m.step (.call c) = some (m', o))
    (hact : m.active = some (.thread t)) : m'.ctl (.thread t) = c.entry := by
  rcases Machine.step_cases hs with ⟨_, i, he, hact', -, rfl, -⟩ | ⟨_, _, _, _, he, _⟩ | ⟨_, he, _⟩ |
    ⟨he, _⟩ | ⟨_, he, _⟩ | ⟨_, _, he, _⟩ <;> cases he
  cases hact.symm.trans hact'
  exact Function.update_self ..

/-- The context is in no event wait without a timeout. -/
def Ctl.timedEvent : Ctl → Bool
  | .event (.loop _ d) | .event (.blocked _ d _) => d.isSome
  | _ => true

theorem Ctl.timedEvent_ctlStep {k k' : Kernel} {c c' : Ctl} (hc : c.timedEvent = true)
    (h : ctlStep k t c = some (k', c', o)) : c'.timedEvent = true := by
  cases ctlStep_cases h with
  | sem | mutex | queue | notify | sched => rfl
  | @event c c₁ hs =>
    cases c with
    | set e b =>
      obtain ⟨_, -, he⟩ := Option.map_eq_some_iff.1 hs
      cases he
      rfl
    | loop w d =>
      have hd : d.isSome = true := hc
      simp only [eventStep] at hs
      split at hs
      · cases hs
        rfl
      · cases hs
        rfl
      · split at hs
        · cases hd
        · cases hs
          rfl
      · cases hs
        exact hd
      · cases hs
    | blocked w d i =>
      simp only [eventStep] at hs
      split_ifs at hs <;> cases hs <;> rfl
    | clear | get | enter =>
      cases hs
      rfl
    | done | got | returned => cases hs

/-- A task that is in `event_wait_timeout` stays in it until it returns. -/
theorem Machine.timedEvent_step (hs : m.step a = some (m', o)) (h : (m.ctl (.thread t)).timedEvent = true)
    (hno : ∀ c, a = .call c → m.active ≠ some (.thread t)) : (m'.ctl (.thread t)).timedEvent = true := by
  rcases Machine.step_cases hs with ⟨c, i, rfl, hact, -, rfl, -⟩ | ⟨x, u, k', c', -, -, -, hst, rfl⟩ |
    ⟨c, -, -, rfl, -⟩ | ⟨-, -, -, rfl, -⟩ | ⟨_, -, rfl, -⟩ | ⟨_, _, -, -, rfl, -⟩
  · have ht : Ctx.thread t ≠ .thread (.tcb i) := fun he => hno c rfl (he ▸ hact)
    dsimp only
    rwa [Function.update_of_ne ht]
  · rw [Machine.ctl_resume, Function.update_apply]
    split_ifs with hx
    · exact Ctl.timedEvent_ctlStep (hx ▸ h) hst
    · exact h
  · dsimp only
    rwa [Machine.update_isr]
  · exact h
  · exact h
  · exact h

/-- An `event_set` of an unambiguous step lets no waiter with a timeout observe all bits. -/
theorem Machine.set_ne_ones {x : Ctx} {e : ℕ} {bits : BitVec 32} {g : EventGrant} (hs : Sound m L)
    (hsafe : EventSafe m L out) (hact : m.active = some x) (hc : m.ctl x = .event (.set e bits))
    (hok : m.Unambiguous .exec) (htimed : (m.ctl (.thread g.task)).timedEvent = true)
    (hg : g ∈ (eventPass (waitOf m.ctl) ((m.kernel.group e).bits ||| bits) (L (.event e))).2.2) :
    g.observed ≠ 0xFFFFFFFF := by
  by_cases hones : (m.kernel.group e).bits ||| bits = 0xFFFFFFFF
  swap
  · exact eventPass_observed_ne_ones hones hg
  obtain ⟨hin, hwait, hmet⟩ := eventPass_granted hg
  obtain ⟨w, d, i, hblocked, -⟩ := Ctl.eq_event_of_waitsOn (hs.coherent.linked _ _ hin).2
  have hw : waitOf m.ctl g.task = w := by simp only [waitOf, hblocked]
  have hunmet := hsafe.unmet e g.task hin
  rw [hw] at hunmet hwait
  -- a wait for no bits is satisfied always or never
  have hmask : w.mask ≠ 0 := by
    intro hzero
    rw [hwait] at hmet
    unfold EventWait.met eventConditionMet at hmet hunmet
    cases hmode : w.mode with
    | all => simp [hmode, hzero] at hunmet
    | any => simp [hmode, hzero] at hmet
  obtain ⟨d, rfl⟩ : ∃ d', d = some d' := by
    rw [hblocked] at htimed
    exact Option.isSome_iff_exists.1 htimed
  obtain ⟨pre, post, hL⟩ := List.append_of_mem hin
  have hchain := hs.coherent.waiters (.event e)
  rw [hL] at hchain hg
  obtain ⟨u, hu, wu, du, iu, hcu, hmasku, hautou⟩ :=
    (hok x hact).2 e bits hc hones pre g.task post hchain ⟨w, d, i, hblocked, hmask⟩
  have hwu : waitOf m.ctl u = wu := by simp only [waitOf, hcu]
  have hnot : g.task ∉ pre := by
    intro hpre
    exact (List.nodup_append.1 hchain.nodup).2.2 _ hpre _ List.mem_cons_self rfl
  exact eventPass_observed_of_consumed hnot hu (hwu ▸ hmasku) (hwu ▸ hautou) hg rfl

/-- No grant of a wait with a timeout observes all bits. -/
theorem Machine.granted_ne_ones {w : EventWait} {v : BitVec 32} (hs : Sound m L) (hsafe : EventSafe m L out)
    (hst : m.step a = some (m', o)) (hok : m.Unambiguous a) (htimed : (m.ctl (.thread t)).timedEvent = true)
    (hmem : Obs.eventGranted t w v ∈ o) : v ≠ 0xFFFFFFFF := by
  rcases Machine.step_cases hst with ⟨_, _, -, -, -, -, rfl⟩ | ⟨x, u, k', c', rfl, hact, hcur, hctl, rfl⟩ |
    ⟨_, -, -, -, rfl⟩ | ⟨-, -, -, -, rfl⟩ | ⟨_, -, -, rfl⟩ | ⟨_, _, -, -, -, rfl⟩
  · cases hmem
  · have hF : (m.ctl x).family = some .event := by
      obtain ⟨F, hF, -⟩ := ctlStep_family_stores hctl
      rw [hF, ← ctlStep_family hF hctl _ hmem]
      rfl
    cases hc : m.ctl x with
    | event c =>
      rw [hc] at hctl
      obtain ⟨⟨k₁, c₁, o₁⟩, hevent, he⟩ := Option.map_eq_some_iff.1 hctl
      cases he
      have hruns := Machine.runs hact hcur
      obtain ⟨L', he, -⟩ := eventStep_spec hs.coherent hs.slotted hruns hc hevent
      cases he with
      | set hpass hwoken =>
        rcases List.mem_cons.1 hmem with he | hmem
        · cases he
        · obtain ⟨g, hg, he⟩ := List.mem_map.1 hmem
          cases he
          exact Machine.set_ne_ones hs hsafe hact hc hok htimed (by rwa [hpass])
      | @granted w d hmet =>
        cases List.mem_singleton.1 hmem
        obtain rfl := hs.coherent.thread_of_not_isrSafe hruns (by rw [hc]; rfl)
        intro hones
        obtain ⟨d, rfl⟩ : ∃ d', d = some d' := by
          rw [hc] at htimed
          exact Option.isSome_iff_exists.1 htimed
        rw [hones, (hok _ hact).1 w d hc hones] at hmet
        cases hmet
      | clear => cases List.mem_singleton.1 hmem
      | get | enter | expired | noSlot | block | timeout | finish => cases hmem
    | app | sem c | mutex c | queue c | notify c | sched c =>
      rw [hc] at hF
      cases hF
  · cases hmem
  · cases hmem
  · cases hmem
  · cases hmem

/-- What is known of the record along a run. -/
structure RecordSound (m : Machine) (L : WaitList → List TaskPtr) (r : CallHistory) (out : List Obs) :
    Prop where
  grants : ∀ t, GrantsMatch m L (grantsTo t (r.since t)) t
  past : ∀ t, ∃ past, out = past ++ r.since t
  timed : ∀ t w ms, r.call t = some (.eventWaitTimeout w ms) → (m.ctl (.thread t)).timedEvent = true ∧
    ∀ v ∈ grantsTo t (r.since t), v ≠ 0xFFFFFFFF

theorem RecordSound.step (h : RecordSound m L r out) (hs : Sound m L) (hsafe : EventSafe m L out)
    (hst : m.step a = some (m', o)) (hok : m.Unambiguous a) (hmove : ∀ t, EventMove m L a m' L' o t) :
    RecordSound m' L' (m.recordCall a o r) (out ++ o) := by
  have hcases : ∀ t, (∃ c, a = .call c ∧ m.active = some (.thread t)) ∨
      ∀ c, a = .call c → m.active ≠ some (.thread t) := by
    intro t
    by_cases hb : ∃ c, a = .call c ∧ m.active = some (.thread t)
    · exact .inl hb
    · exact .inr fun c hc hact => hb ⟨c, hc, hact⟩
  refine ⟨fun t => ?_, fun t => ?_, fun t w ms hcall => ?_⟩
  · rcases hcases t with ⟨c, rfl, hact⟩ | hno
    · rw [(Machine.recordCall_begin hact).2]
      exact .of_entry (Machine.ctl_call hst hact)
    · rw [(Machine.recordCall_other hst hno).2, grantsTo_append]
      exact (h.grants t).step (hmove t) hno
  · rcases hcases t with ⟨c, rfl, hact⟩ | hno
    · rw [(Machine.recordCall_begin hact).2]
      exact ⟨out ++ o, (List.append_nil _).symm⟩
    · obtain ⟨past, hpast⟩ := h.past t
      refine ⟨past, ?_⟩
      rw [(Machine.recordCall_other hst hno).2, ← List.append_assoc, ← hpast]
  · rcases hcases t with ⟨c, rfl, hact⟩ | hno
    · obtain ⟨hc, hsince⟩ := Machine.recordCall_begin (r := r) (o := o) (c := c) hact
      rw [hc] at hcall
      cases hcall
      rw [hsince, Machine.ctl_call hst hact]
      exact ⟨rfl, fun v hv => by cases hv⟩
    · obtain ⟨hc, hsince⟩ := Machine.recordCall_other (r := r) hst hno
      obtain ⟨htimed, hones⟩ := h.timed t w ms (hc ▸ hcall)
      refine ⟨Machine.timedEvent_step hst htimed hno, fun v hv => ?_⟩
      rw [hsince, grantsTo_append] at hv
      rcases List.mem_append.1 hv with hv | hv
      · exact hones v hv
      · obtain ⟨w', hw'⟩ := mem_grantsTo.1 hv
        exact Machine.granted_ne_ones hs hsafe hst hok htimed hw'

end Steps

/-! ### What holds on every run -/

/-- The runs with whole ticks in which no `event_wait_timeout` is satisfied while all bits of its group
are set. -/
theorem Machine.unambiguous_of_reach {cfg : Config} {m : Machine} {r : CallHistory} {out : List Obs}
    (h : Run.Reach Machine.recording (fun p a => a.Within Call.Steady ∧ p.1.Unambiguous a)
      (Machine.start cfg, {}) (m, r) out) {t : TaskPtr} {w w' : EventWait} {ms : ℕ} {b : EventReturn}
    (hcall : r.call t = some (.eventWaitTimeout w ms))
    (hret : m.ctl (.thread t) = .event (.returned w' b)) :
    (∀ e, (m.kernel.group e).bits = eventReplay (fun _ => 0) out e) ∧
    (∃ past, out = past ++ r.since t) ∧
    (b.value = 0xFFFFFFFF → ∀ w v, Obs.eventGranted t w v ∉ r.since t) ∧
    ∀ w v, Obs.eventGranted t w v ∈ r.since t → b.value ≠ 0xFFFFFFFF := by
  have hinv : ∃ L, Sound (m, r).1 L ∧ EventSafe (m, r).1 L out ∧ RecordSound (m, r).1 L (m, r).2 out := by
    refine (h.induct (I := fun p out => Run.Reach Machine.step (fun m a => a.Within Call.Steady)
      (Machine.start cfg) p.1 out ∧ ∃ L, Sound p.1 L ∧ EventSafe p.1 L out ∧ RecordSound p.1 L p.2 out)
      ⟨.init, _, Sound.init cfg, EventSafe.init cfg, ?_⟩ ?_).2
    · refine ⟨fun t => .of_outside rfl, fun t => ⟨[], rfl⟩, fun t w ms hc => ?_⟩
      cases hc
    · rintro ⟨m, r⟩ ⟨m', r'⟩ a out o - ⟨hm, L, hs, hsafe, hrec⟩ hok hstep
      obtain ⟨hst, rfl⟩ := Run.annotate_eq_some.1 hstep
      have horderly := Machine.orderly_of_within (fun _ _ ha => ha) hm hok.1
      obtain ⟨L', he, hs'⟩ := hs.step horderly hst
      exact ⟨hm.step hok.1 hst, L', hs', hsafe.step hs horderly he,
        hrec.step hs hsafe hst hok.2 fun t => he.eventMove hs horderly t⟩
  obtain ⟨L, -, hsafe, hrec⟩ := hinv
  obtain ⟨-, hones⟩ := hrec.timed t w ms hcall
  have hnone : b.value = 0xFFFFFFFF → ∀ w v, Obs.eventGranted t w v ∉ r.since t := by
    intro hvalue w₀ v₀ hmem
    have hv₀ := mem_grantsTo.2 ⟨w₀, hmem⟩
    cases b with
    | granted v => exact hones v ((hrec.grants t).granted w' v hret) hvalue
    | expired =>
      rw [(hrec.grants t).failed w' _ hret (.inl rfl)] at hv₀
      cases hv₀
    | noSlot =>
      rw [(hrec.grants t).failed w' _ hret (.inr rfl)] at hv₀
      cases hv₀
  exact ⟨fun e => (congrFun hsafe.replay e).symm, hrec.past t, hnone,
    fun w v hmem hvalue => hnone hvalue w v hmem⟩

/-- Whatever the tasks and the handlers do with event groups and the other steady calls, as long as
nothing comes between the statements of a tick and no `event_wait_timeout` is satisfied while all bits of
its group are set: the bits of every group are what the reports leave, and when a call of
`event_wait_timeout` has returned, no report since it began grants the task anything if it returns
`0xFFFFFFFF`, and if there is one the call returns something else. -/
theorem eventWaitTimeout_unambiguous (cfg : Config) {s : Split} {r : CallHistory} {out : List Obs}
    (h : Run.Reach (Split.noted Machine.recordCall)
      (Split.WholeNoted Machine.recordCall fun p a => a.Within Call.Steady ∧ p.1.Unambiguous a)
      (Split.start cfg, {}) (s, r) out) (hs : s.ticking = false)
    {t : TaskPtr} {w w' : EventWait} {ms : ℕ} {b : EventReturn}
    (hcall : r.call t = some (.eventWaitTimeout w ms))
    (hret : s.machine.ctl (.thread t) = .event (.returned w' b)) :
    (∀ e, (s.kernel.group e).bits = eventReplay (fun _ => 0) out e) ∧
    (∃ past, out = past ++ r.since t) ∧
    (b.value = 0xFFFFFFFF → ∀ w v, Obs.eventGranted t w v ∉ r.since t) ∧
    ∀ w v, Obs.eventGranted t w v ∈ r.since t → b.value ≠ 0xFFFFFFFF :=
  Machine.unambiguous_of_reach (Split.reach_noted h hs) hcall hret

/-- The step satisfies no wait while all bits of its group are set. -/
def Machine.LeavesBit (m : Machine) : Action → Bool
  | .exec =>
    match m.active with
    | some x =>
      match m.ctl x with
      | .event (.loop w _) => (m.kernel.group w.group).bits != 0xFFFFFFFF
      | .event (.set e b) => (m.kernel.group e).bits ||| b != 0xFFFFFFFF
      | _ => true
    | none => true
  | _ => true

theorem Machine.unambiguous_of_leavesBit {m : Machine} {a : Action} (h : m.LeavesBit a = true) :
    m.Unambiguous a := by
  cases a with
  | exec =>
    intro x hact
    simp only [LeavesBit, hact] at h
    refine ⟨fun w d hc hones => ?_, fun e b hc hones => ?_⟩
    · simp only [hc, hones, bne_self_eq_false] at h
      cases h
    · simp only [hc, hones, bne_self_eq_false] at h
      cases h
  | call | irq | pendSV | clock | tick => trivial

/-- A task waits for one bit, which a handler sets. -/
def oneBit : Scenario where
  config := { priorities := [1] }
  actions := [.call (.eventWaitTimeout ⟨0, 1, .any, true⟩ 5), .exec, .exec, .irq (.eventSet 0 1), .exec,
    .pendSV, .exec]
  possible := by decide +kernel

theorem oneBit_unambiguous :
    (oneBit.noted Machine.recordCall {}).1.ctl (.thread (.tcb 0)) =
      .event (.returned ⟨0, 1, .any, true⟩ (.granted 1)) ∧
    .eventGranted (.tcb 0) ⟨0, 1, .any, true⟩ 1 ∈ (oneBit.noted Machine.recordCall {}).2.since (.tcb 0) ∧
    (EventReturn.granted 1).value ≠ 0xFFFFFFFF := by
  have hpermitted : Run.Permitted Machine.recording
      (fun p a => (a.Within Call.Steady ∧ p.1.LeavesBit a = true) ∧ p.1.Timely a)
      (Machine.start oneBit.config, {}) oneBit.actions := by decide +kernel
  obtain ⟨out, hreach⟩ := oneBit.reach_noted Machine.recordCall {} hpermitted
  have hcall : (oneBit.noted Machine.recordCall {}).2.call (.tcb 0) =
      some (.eventWaitTimeout ⟨0, 1, .any, true⟩ 5) := by decide +kernel
  have hret : (oneBit.noted Machine.recordCall {}).1.ctl (.thread (.tcb 0)) =
      .event (.returned ⟨0, 1, .any, true⟩ (.granted 1)) := by decide +kernel
  have hmem : .eventGranted (.tcb 0) ⟨0, 1, .any, true⟩ 1 ∈
      (oneBit.noted Machine.recordCall {}).2.since (.tcb 0) := by decide +kernel
  have hok : Run.Reach Machine.recording
      (fun p a => (a.Within Call.Steady ∧ p.1.Unambiguous a) ∧ p.1.Timely a)
      (Machine.start oneBit.config, {}) _ out :=
    hreach.mono fun p _ a _ ha => ⟨⟨ha.1.1, Machine.unambiguous_of_leavesBit ha.1.2⟩, ha.2⟩
  obtain ⟨s, hs, hm, hsplit⟩ := Split.exists_of_noted hok
  rw [← hm] at hret ⊢
  obtain ⟨-, -, -, hvalue⟩ := eventWaitTimeout_unambiguous oneBit.config hsplit hs hcall hret
  exact ⟨hret, hmem, hvalue _ _ hmem⟩

/-- A task waits for one bit, and a handler sets all of them. -/
def allBits : Scenario where
  config := { priorities := [1] }
  actions := [.call (.eventWaitTimeout ⟨0, 1, .any, true⟩ 5), .exec, .exec,
    .irq (.eventSet 0 0xFFFFFFFF), .exec, .pendSV, .exec]
  possible := by decide +kernel

/-- The call has been granted and has consumed its bit, and returns `0xFFFFFFFF`. -/
theorem eventWaitTimeout_allBits :
    ∃ s r out b, Run.Reach (Split.noted Machine.recordCall)
      (Split.WholeNoted Machine.recordCall fun _ a => a.Within fun c => c.family = some .event)
      (Split.start allBits.config, {}) (s, r) out ∧
      r.call (.tcb 0) = some (.eventWaitTimeout ⟨0, 1, .any, true⟩ 5) ∧
      s.machine.ctl (.thread (.tcb 0)) = .event (.returned ⟨0, 1, .any, true⟩ b) ∧
      b.value = 0xFFFFFFFF ∧
      Obs.eventGranted (.tcb 0) ⟨0, 1, .any, true⟩ 0xFFFFFFFF ∈ r.since (.tcb 0) ∧
      (s.kernel.group 0).bits = 0xFFFFFFFE := by
  have hpermitted : Run.Permitted Machine.recording
      (fun p a => (a.Within fun c => c.family = some .event) ∧ p.1.Timely a)
      (Machine.start allBits.config, {}) allBits.actions := by decide +kernel
  obtain ⟨out, hreach⟩ := allBits.reach_noted Machine.recordCall {} hpermitted
  have hcall : (allBits.noted Machine.recordCall {}).2.call (.tcb 0) =
      some (.eventWaitTimeout ⟨0, 1, .any, true⟩ 5) := by decide +kernel
  have hret : (allBits.noted Machine.recordCall {}).1.ctl (.thread (.tcb 0)) =
      .event (.returned ⟨0, 1, .any, true⟩ (.granted 0xFFFFFFFF)) := by decide +kernel
  have hmem : Obs.eventGranted (.tcb 0) ⟨0, 1, .any, true⟩ 0xFFFFFFFF ∈
      (allBits.noted Machine.recordCall {}).2.since (.tcb 0) := by decide +kernel
  have hbits : ((allBits.noted Machine.recordCall {}).1.kernel.group 0).bits = 0xFFFFFFFE := by
    decide +kernel
  obtain ⟨s, -, hm, hsplit⟩ := Split.exists_of_noted hreach
  rw [← hm] at hret hbits
  exact ⟨s, _, out, .granted 0xFFFFFFFF, hsplit, hcall, hret, rfl, hmem, hbits⟩

end TamgaOs
