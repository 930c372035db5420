import TamgaOs.Machine.Orderly
import TamgaOs.Machine.Split

/-!
# Event groups miss no wake-up and hand no signal to two consumers

The bits of every group are what the reports of a run leave: sets add bits, clears remove bits, and
a grant of an `auto_clear` wait removes its mask. A grant is honest when it reports the bits of its
moment and its condition holds of them. Everything that is said about the granted waits follows
from the history alone, once the history has been shown to agree with the groups. A set that comes
between the statements of a tick finds a waiter whose removal from the list has begun, and breaks this.

## Main definitions

* `eventReplay bits out`: the bits of the groups after the reports `out`.
* `HonestGrants bits out`: every grant reports the bits of its moment, which meet its condition.
* `EventSafe m L out`: the invariant.

## Main results

* `honestGrants_eventPass`: one pass of `event_wake_satisfied` is honest.
* `EventSafe.step`: one orderly step keeps the invariant.
* `eventGroups_safe`: what holds along every run with whole ticks.
* `eventGroups_unsafe`: a set within a tick breaks it.
-/

namespace TamgaOs

/-! ### The history of the groups -/

/-- What one report says about the bits of the groups. -/
def eventReport (bits : ℕ → BitVec 32) : Obs → ℕ → BitVec 32
  | .eventSet e b => Function.update bits e (bits e ||| b)
  | .eventCleared e b => Function.update bits e (bits e &&& ~~~b)
  | .eventGranted _ w _ => Function.update bits w.group (w.clear (bits w.group))
  | _ => bits

/-- The bits of the groups after the reports `out`. -/
def eventReplay (bits : ℕ → BitVec 32) (out : List Obs) : ℕ → BitVec 32 :=
  out.foldl eventReport bits

/-- Every grant reports the bits of its group at its moment, and they meet its condition. -/
def HonestGrants (bits : ℕ → BitVec 32) : List Obs → Prop
  | [] => True
  | b :: out =>
    (∀ t w v, b = .eventGranted t w v → v = bits w.group ∧ w.met v = true) ∧
      HonestGrants (eventReport bits b) out

section History

variable {bits : ℕ → BitVec 32} {out o : List Obs} {e : ℕ}

theorem eventReplay_append :
    eventReplay bits (out ++ o) = eventReplay (eventReplay bits out) o :=
  List.foldl_append

theorem honestGrants_append :
    HonestGrants bits (out ++ o) ↔
      HonestGrants bits out ∧ HonestGrants (eventReplay bits out) o := by
  induction out generalizing bits with
  | nil => exact (true_and _).symm ▸ Iff.rfl
  | cons b out ih => rw [List.cons_append, HonestGrants, HonestGrants, ih, and_assoc]; rfl

/-- Reports of the other modules say nothing about the groups. -/
theorem eventReplay_other (ho : ∀ b ∈ o, b.family ≠ .event) :
    eventReplay bits o = bits ∧ HonestGrants bits o := by
  induction o with
  | nil => exact ⟨rfl, trivial⟩
  | cons b o ih =>
    have hb := ho b List.mem_cons_self
    have hsame : eventReport bits b = bits := by
      cases b <;> first | rfl | exact absurd rfl hb
    obtain ⟨hreplay, hhonest⟩ := ih fun b' hb' => ho b' (List.mem_cons_of_mem b hb')
    refine ⟨?_, fun t w v he => ?_, ?_⟩
    · change eventReplay (eventReport bits b) o = _
      rw [hsame, hreplay]
    · subst he
      exact absurd rfl hb
    · rw [hsame]
      exact hhonest

/-- An honest grant, seen from the whole history. -/
theorem HonestGrants.granted {t : TaskPtr} {w : EventWait} {v : BitVec 32} {post : List Obs}
    (h : HonestGrants bits (out ++ .eventGranted t w v :: post)) :
    v = eventReplay bits out w.group ∧ w.met v = true :=
  (honestGrants_append.1 h).2.1 t w v rfl

/-- A bit that is set after the reports was set before, or has been set by one of them. -/
theorem getLsbD_eventReplay {i : ℕ} (h : (eventReplay bits out e).getLsbD i = true) :
    (bits e).getLsbD i = true ∨ ∃ b, Obs.eventSet e b ∈ out ∧ b.getLsbD i = true := by
  induction out generalizing bits with
  | nil => exact Or.inl h
  | cons b out ih =>
    rcases @ih (eventReport bits b) h with hb | ⟨b', hmem, hb'⟩
    · have hcases : (bits e).getLsbD i = true ∨ ∃ b', b = .eventSet e b' ∧ b'.getLsbD i = true := by
        cases b with
        | eventSet e' b' =>
          by_cases he : e = e'
          · subst he
            simp only [eventReport, Function.update_self, BitVec.getLsbD_or, Bool.or_eq_true] at hb
            exact hb.imp_right fun hb => ⟨b', rfl, hb⟩
          · simp only [eventReport, Function.update_of_ne he] at hb
            exact Or.inl hb
        | eventCleared e' b' =>
          by_cases he : e = e'
          · subst he
            simp only [eventReport, Function.update_self, BitVec.getLsbD_and,
              Bool.and_eq_true] at hb
            exact Or.inl hb.1
          · simp only [eventReport, Function.update_of_ne he] at hb
            exact Or.inl hb
        | eventGranted t w v =>
          by_cases he : e = w.group
          · subst he
            simp only [eventReport, Function.update_self, EventWait.clear] at hb
            split_ifs at hb
            · simp only [BitVec.getLsbD_and, Bool.and_eq_true] at hb
              exact Or.inl hb.1
            · exact Or.inl hb
          · simp only [eventReport, Function.update_of_ne he] at hb
            exact Or.inl hb
        | _ => exact Or.inl hb
      refine hcases.imp_right fun ⟨b', he, hb'⟩ => ⟨b', ?_, hb'⟩
      rw [he]
      exact List.mem_cons_self
    · exact Or.inr ⟨b', List.mem_cons_of_mem b hmem, hb'⟩

/-- Between a grant that has cleared its mask and a later grant from the same group, every bit of
the mask that the later one sees has been set again. -/
theorem HonestGrants.cleared {mid post : List Obs} {t t' : TaskPtr} {w w' : EventWait}
    {v v' : BitVec 32} {i : ℕ}
    (h : HonestGrants bits (out ++ .eventGranted t w v :: (mid ++ .eventGranted t' w' v' :: post)))
    (hauto : w.autoClear = true) (hgroup : w'.group = w.group) (hmask : w.mask.getLsbD i = true)
    (hseen : v'.getLsbD i = true) :
    ∃ b, Obs.eventSet w.group b ∈ mid ∧ b.getLsbD i = true := by
  obtain ⟨-, -, hrest⟩ := honestGrants_append.1 h
  have hv' := (HonestGrants.granted hrest).1
  rw [hv', hgroup] at hseen
  refine (getLsbD_eventReplay hseen).resolve_left fun hbefore => ?_
  simp [eventReport, EventWait.clear, hauto, hmask] at hbefore

/-- The grants of one pass of `event_wake_satisfied` are honest, and leave the bits that the pass
leaves. -/
theorem honestGrants_eventPass {wait : TaskPtr → EventWait} {xs : List TaskPtr}
    (hwait : ∀ t ∈ xs, (wait t).group = e) :
    HonestGrants bits ((eventPass wait (bits e) xs).2.2.map fun g =>
        .eventGranted g.task g.wait g.observed) ∧
      eventReplay bits ((eventPass wait (bits e) xs).2.2.map fun g =>
        .eventGranted g.task g.wait g.observed) =
          Function.update bits e (eventPass wait (bits e) xs).1 := by
  induction xs generalizing bits with
  | nil => exact ⟨trivial, (Function.update_eq_self e bits).symm⟩
  | cons t xs ih =>
    have hxs : ∀ u ∈ xs, (wait u).group = e := fun u hu => hwait u (List.mem_cons_of_mem t hu)
    cases ht : (wait t).met (bits e) with
    | true =>
      set bits' := Function.update bits e ((wait t).clear (bits e)) with hbits'
      have hself : bits' e = (wait t).clear (bits e) := Function.update_self ..
      have hreport : eventReport bits (.eventGranted t (wait t) (bits e)) = bits' := by
        simp only [eventReport, hwait t List.mem_cons_self, hbits']
      obtain ⟨hhonest, hreplay⟩ := @ih bits' hxs
      rw [eventPass_cons_met ht, ← hself]
      refine ⟨⟨fun u w v he => ?_, ?_⟩, ?_⟩
      · cases he
        exact ⟨by rw [hwait t List.mem_cons_self], ht⟩
      · rw [hreport]
        exact hhonest
      · change eventReplay (eventReport bits _) _ = _
        rw [hreport]
        refine hreplay.trans ?_
        rw [hbits', Function.update_idem]
    | false =>
      rw [eventPass_cons_not_met ht]
      exact ih hxs

end History

/-! ### The invariant -/

/-- The bits of the groups. -/
def Kernel.eventBits (k : Kernel) (e : ℕ) : BitVec 32 := (k.group e).bits

theorem Kernel.eventBits_setEventBits (k : Kernel) (e : ℕ) (b : BitVec 32) :
    (k.setEventBits e b).eventBits = Function.update k.eventBits e b := by
  funext e'
  by_cases he : e' = e
  · subst he
    simp [eventBits, setEventBits]
  · simp [eventBits, setEventBits, Function.update_of_ne he]

theorem Kernel.eventBits_eventAutoClear (k : Kernel) (w : EventWait) :
    (k.eventAutoClear w).eventBits =
      Function.update k.eventBits w.group (w.clear (k.eventBits w.group)) := by
  unfold eventAutoClear EventWait.clear
  split_ifs
  · exact k.eventBits_setEventBits ..
  · exact (Function.update_eq_self ..).symm

/-- No linked task has its condition met; the reports agree with the groups and are honest; and a
task that has left its list because of the event, or has returned from such a wait, has been
granted what it observes. -/
structure EventSafe (m : Machine) (L : WaitList → List TaskPtr) (out : List Obs) : Prop where
  unmet : ∀ e t, t ∈ L (.event e) → (waitOf m.ctl t).met (m.kernel.eventBits e) = false
  replay : eventReplay (fun _ => 0) out = m.kernel.eventBits
  honest : HonestGrants (fun _ => 0) out
  granted : ∀ t w d i, m.ctl (.thread t) = .event (.blocked w d i) → (∀ l, t ∉ L l) →
    ¬ (d.isSome = true ∧ (m.kernel.tcb t).timedOut = true) →
    Obs.eventGranted t w (m.kernel.pending i).observedBits ∈ out
  returned : ∀ t w v, m.ctl (.thread t) = .event (.returned w (.granted v)) →
    Obs.eventGranted t w v ∈ out

/-- The context does not wait for an event. -/
def Ctl.NoEventWait (c : Ctl) : Prop := ∀ w d i, c ≠ .event (.blocked w d i)

/-- The context has not returned from an event wait that was granted. -/
def Ctl.NoEventReturn (c : Ctl) : Prop := ∀ w v, c ≠ .event (.returned w (.granted v))

theorem waitOf_congr {ctl ctl' : Ctx → Ctl} {t : TaskPtr}
    (h : ctl' (.thread t) = ctl (.thread t)) : waitOf ctl' t = waitOf ctl t := by
  simp only [waitOf, h]

namespace EventSafe

variable {m m' : Machine} {L L' : WaitList → List TaskPtr} {out o : List Obs} {a : Action}

/-- The invariant is about the history of the run. -/
theorem history (h : EventSafe m L out) {k : Kernel}
    (hreplay : eventReplay m.kernel.eventBits o = k.eventBits)
    (hhonest : HonestGrants m.kernel.eventBits o) :
    eventReplay (fun _ => 0) (out ++ o) = k.eventBits ∧ HonestGrants (fun _ => 0) (out ++ o) := by
  rw [eventReplay_append, honestGrants_append, h.replay]
  exact ⟨hreplay, h.honest, hhonest⟩

/-- A step that leaves the groups and their lists alone. -/
theorem keep (h : EventSafe m L out) (hs : Sound m L)
    (hctl : ∀ t, m'.ctl (.thread t) = m.ctl (.thread t) ∨ (m.ctl (.thread t)).NoEventWait ∧
      (m'.ctl (.thread t)).NoEventWait ∧ (m'.ctl (.thread t)).NoEventReturn)
    (hgroup : m'.kernel.group = m.kernel.group)
    (hobs : ∀ i, (m'.kernel.pending i).observedBits = (m.kernel.pending i).observedBits)
    (hmark : ∀ t w d i, m.ctl (.thread t) = .event (.blocked w d i) →
      m'.ctl (.thread t) = m.ctl (.thread t) → (∀ l, t ∉ L' l) →
      ¬ (d.isSome = true ∧ (m'.kernel.tcb t).timedOut = true) →
      (∀ l, t ∉ L l) ∧ ¬ (d.isSome = true ∧ (m.kernel.tcb t).timedOut = true))
    (hL : ∀ e t, t ∈ L' (.event e) → t ∈ L (.event e)) (ho : ∀ b ∈ o, b.family ≠ .event) :
    EventSafe m' L' (out ++ o) := by
  have hbits : m'.kernel.eventBits = m.kernel.eventBits := by
    unfold Kernel.eventBits
    rw [hgroup]
  obtain ⟨hreplay, hhonest⟩ := h.history (k := m'.kernel)
    (by rw [hbits]; exact (eventReplay_other ho).1) (eventReplay_other ho).2
  refine ⟨fun e t ht => ?_, hreplay, hhonest, fun t w d i ht hno hmk => ?_, fun t w v ht => ?_⟩
  · have hin := hL e t ht
    obtain ⟨w, d, i, hwait, -⟩ := Ctl.eq_event_of_waitsOn (hs.coherent.linked _ t hin).2
    rw [hbits, waitOf_congr ((hctl t).resolve_right fun hn => hn.1 w d i hwait)]
    exact h.unmet e t hin
  · rcases hctl t with he | ⟨-, hnew, -⟩
    · obtain ⟨hno', hmk'⟩ := hmark t w d i (he ▸ ht) he hno hmk
      rw [hobs]
      exact List.mem_append_left o (h.granted t w d i (he ▸ ht) hno' hmk')
    · exact absurd ht (hnew w d i)
  · rcases hctl t with he | ⟨-, -, hnew⟩
    · exact List.mem_append_left o (h.returned t w v (he ▸ ht))
    · exact absurd ht (hnew w v)

/-- The step of a context that neither waits for an event nor has been granted one. -/
theorem resume_other {F : Family} (h : EventSafe m L out) (hs : Sound m L) {x : Ctx} {k' : Kernel}
    {c' : Ctl} (hu : Untouched F x m.kernel k' L L') (hF : F ≠ .event)
    (hold : (m.ctl x).NoEventWait) (hnew : c'.NoEventWait ∧ c'.NoEventReturn)
    (ho : ∀ b ∈ o, b.family ≠ .event) : EventSafe (m.resume x k' c') L' (out ++ o) := by
  have hlist : ∀ e, L' (.event e) = L (.event e) := fun e => hu.lists _ (Ne.symm hF)
  refine h.keep hs (fun u => ?_) (hu.event hF).1 (fun i => by
    rw [Machine.kernel_resume, (hu.event hF).2]) (fun u w d i hc he hno hmk => ?_)
    (fun e u hin => hlist e ▸ hin) ho
  · by_cases hux : Ctx.thread u = x
    · subst hux
      rw [Machine.ctl_resume, Function.update_self]
      exact Or.inr ⟨hold, hnew⟩
    · exact Or.inl (by rw [Machine.ctl_resume, Function.update_of_ne hux])
  · have hxu : x ≠ .thread u := by
      rintro rfl
      exact hold w d i hc
    have htab := hs.coherent.table u (by rw [hc]; exact Ctl.noConfusion)
    rw [Machine.kernel_resume, hu.timedOut u htab hxu] at hmk
    refine ⟨fun l hl => hno l ?_, hmk⟩
    have hw := (hs.coherent.linked l u hl).2
    rw [hc] at hw
    cases hw
    rwa [hlist]

/-- A step of an event call that moves no task and meets no condition. -/
theorem resume_event (h : EventSafe m L out) (hs : Sound m L) {x : Ctx} {k' : Kernel} {c' : Ctl}
    (hu : Untouched .event x m.kernel k' L L)
    (hmet : ∀ e (w : EventWait), w.met (k'.eventBits e) = true → w.met (m.kernel.eventBits e) = true)
    (hobs : ∀ i, (k'.pending i).observedBits = (m.kernel.pending i).observedBits)
    (hfree : ∀ t, x = .thread t → ∀ l, t ∉ L l)
    (hreplay : eventReplay m.kernel.eventBits o = k'.eventBits)
    (hhonest : HonestGrants m.kernel.eventBits o) (hnew : c'.NoEventWait)
    (hret : ∀ t w v, x = .thread t → c' = .event (.returned w (.granted v)) →
      Obs.eventGranted t w v ∈ out ++ o) : EventSafe (m.resume x k' c') L (out ++ o) := by
  have hother : ∀ u, Ctx.thread u ≠ x → (m.resume x k' c').ctl (.thread u) = m.ctl (.thread u) :=
    fun u hux => Function.update_of_ne hux ..
  have hself : (m.resume x k' c').ctl x = c' := Function.update_self ..
  obtain ⟨hreplay', hhonest'⟩ := h.history hreplay hhonest
  refine ⟨fun e t ht => ?_, hreplay', hhonest', fun t w d i ht hno hmk => ?_, fun t w v ht => ?_⟩
  · have hne : Ctx.thread t ≠ x := fun he => hfree t he.symm _ ht
    rw [waitOf_congr (hother t hne), Bool.eq_false_iff]
    exact fun hm => Bool.eq_false_iff.1 (h.unmet e t ht) (hmet e _ hm)
  · by_cases hne : Ctx.thread t = x
    · rw [hne, hself] at ht
      exact absurd ht (hnew w d i)
    · rw [hother t hne] at ht
      rw [Machine.kernel_resume, hu.timedOut t
        (hs.coherent.table t (by rw [ht]; exact Ctl.noConfusion)) (Ne.symm hne)] at hmk
      rw [Machine.kernel_resume, hobs]
      exact List.mem_append_left o (h.granted t w d i ht hno hmk)
  · by_cases hne : Ctx.thread t = x
    · rw [hne, hself] at ht
      exact hret t w v hne.symm ht
    · rw [hother t hne] at ht
      exact List.mem_append_left o (h.returned t w v ht)

/-- `event_set`: the waiters whose condition is met leave the list, with what they observe in their
slots, and the others go on waiting. -/
theorem set (h : EventSafe m L out) (hs : Sound m L) {x : Ctx} {k' : Kernel} {e : ℕ}
    {bits b : BitVec 32} {kept : List TaskPtr} {gs : List EventGrant}
    (hfree : ∀ t, x = .thread t → ∀ l, t ∉ L l)
    (hpass : eventPass (waitOf m.ctl) ((m.kernel.group e).bits ||| bits) (L (.event e)) =
      (b, kept, gs))
    (hwoken : Woken (m.kernel.setEventBits e ((m.kernel.group e).bits ||| bits)) k' e L
      (Function.update L (.event e) kept) b gs) :
    EventSafe (m.resume x k' (.event .done)) (Function.update L (.event e) kept)
      (out ++ .eventSet e bits :: gs.map fun g => .eventGranted g.task g.wait g.observed) := by
  have hother : ∀ u, Ctx.thread u ≠ x →
      (m.resume x k' (.event .done)).ctl (.thread u) = m.ctl (.thread u) :=
    fun u hux => Function.update_of_ne hux ..
  have hself : (m.resume x k' (.event .done)).ctl x = .event .done := Function.update_self ..
  have hlinked : ∀ e t, t ∈ L (.event e) → ∃ w d i,
      m.ctl (.thread t) = .event (.blocked w d i) ∧ w.group = e := fun e t ht =>
    Ctl.eq_event_of_waitsOn (hs.coherent.linked _ t ht).2
  have hgroup : ∀ t ∈ L (.event e), (waitOf m.ctl t).group = e := by
    intro t ht
    obtain ⟨w, d, i, hc, hw⟩ := hlinked e t ht
    simpa [waitOf, hc] using hw
  have hkeptEq : (eventPass (waitOf m.ctl) ((m.kernel.group e).bits ||| bits)
      (L (.event e))).2.1 = kept := by rw [hpass]
  have hgsEq : (eventPass (waitOf m.ctl) ((m.kernel.group e).bits ||| bits)
      (L (.event e))).2.2 = gs := by rw [hpass]
  -- the bits before and after the pass
  set bits₁ := Function.update m.kernel.eventBits e (m.kernel.eventBits e ||| bits) with hbits₁
  have hself₁ : bits₁ e = (m.kernel.group e).bits ||| bits := Function.update_self ..
  have hbits : k'.eventBits = Function.update m.kernel.eventBits e b := by
    rw [← m.kernel.eventBits_setEventBits e b]
    unfold Kernel.eventBits
    rw [hwoken.group, Kernel.setEventBits, Kernel.setEventBits, Function.update_idem]
  obtain ⟨hhonest, hreplay⟩ :
      HonestGrants bits₁ ((eventPass (waitOf m.ctl) (bits₁ e) (L (.event e))).2.2.map fun g =>
        .eventGranted g.task g.wait g.observed) ∧ _ :=
    honestGrants_eventPass hgroup
  rw [hself₁, hpass] at hhonest hreplay
  dsimp only at hhonest hreplay
  have hset : HonestGrants m.kernel.eventBits
      (.eventSet e bits :: gs.map fun g => Obs.eventGranted g.task g.wait g.observed) :=
    ⟨fun _ _ _ he => Obs.noConfusion he, hhonest⟩
  obtain ⟨hreplay', hhonest'⟩ := h.history (k := k')
    (by rw [hbits]; exact hreplay.trans (by rw [hbits₁, Function.update_idem])) hset
  refine ⟨fun e' t ht => ?_, hreplay', hhonest', fun t w d i ht hno hmk => ?_, fun t w v ht => ?_⟩
  · have hin : t ∈ L (.event e') := by
      rcases mem_of_mem_update ht with hold | ⟨he, hkept⟩
      · exact hold
      · rw [← hkeptEq] at hkept
        rw [he]
        exact eventPass_sublist.subset hkept
    rw [waitOf_congr (hother t fun he => hfree t he.symm _ hin), Machine.kernel_resume, hbits]
    by_cases he : e' = e
    · subst he
      rw [Function.update_self] at ht ⊢
      rw [← hkeptEq] at ht
      have hkept := eventPass_kept ht
      rwa [hpass] at hkept
    · rw [Function.update_of_ne he]
      exact h.unmet e' t hin
  · by_cases hne : Ctx.thread t = x
    · rw [hne, hself] at ht
      cases ht
    rw [hother t hne] at ht
    rw [Machine.kernel_resume] at hmk ⊢
    rw [(hwoken.untouched x).timedOut t
      (hs.coherent.table t (by rw [ht]; exact Ctl.noConfusion)) (Ne.symm hne)] at hmk
    obtain ⟨-, hslot, -⟩ := hs.slotted.slot t w d i ht
    have hgranted : ∀ g ∈ gs, g.task ∈ L (.event e) ∧ g.wait = waitOf m.ctl g.task := by
      intro g hg
      rw [← hgsEq] at hg
      exact ⟨(eventPass_granted hg).1, (eventPass_granted hg).2.1⟩
    by_cases hin : t ∈ L (.event e)
    · -- the task has just left the list
      have hcases : t ∈ (eventPass (waitOf m.ctl) ((m.kernel.group e).bits ||| bits)
          (L (.event e))).2.1 ∨ _ := eventPass_cases hin
      rcases hcases with hkept | ⟨g, hg, rfl⟩
      · rw [hpass] at hkept
        exact absurd (by rw [Function.update_self]; exact hkept) (hno (.event e))
      · rw [hpass] at hg
        rw [hwoken.granted.observed g hg i hslot]
        have hw : w = g.wait := by
          rw [(hgranted g hg).2]
          simp [waitOf, ht]
        rw [hw]
        exact List.mem_append_right out (List.mem_cons_of_mem _ (List.mem_map_of_mem hg))
    · -- the task had left its list before
      rw [hwoken.granted.other i fun g hg he => hin ?_]
      · refine List.mem_append_left _ (h.granted t w d i ht (fun l hl => ?_) hmk)
        by_cases hle : l = .event e
        · exact hin (hle ▸ hl)
        · exact hno l (by rwa [Function.update_of_ne hle])
      · have hslot' : some t = some g.task := hslot.symm.trans he
        rw [Option.some.inj hslot']
        exact (hgranted g hg).1
  · by_cases hne : Ctx.thread t = x
    · rw [hne, hself] at ht
      cases ht
    · rw [hother t hne] at ht
      exact List.mem_append_left _ (h.returned t w v ht)

/-- A wait whose condition is not met: the task is linked. -/
theorem block (h : EventSafe m L out) {t : TaskPtr} {k' : Kernel} {w : EventWait}
    {d : Option ℕ} {i : ℕ} (hfree : ∀ l, t ∉ L l)
    (hnot : w.met (m.kernel.group w.group).bits = false)
    (hq : Quiet (m.kernel.eventPendingFill i t w) k' {t}) :
    EventSafe (m.resume (.thread t) k' (.event (.blocked w d i)))
      (Function.update L (.event w.group) (m.kernel.enqueued t (L (.event w.group)))) out := by
  have hother : ∀ u, u ≠ t → (m.resume (.thread t) k' (.event (.blocked w d i))).ctl (.thread u) =
      m.ctl (.thread u) := fun u hu => Function.update_of_ne (by simpa using hu) ..
  have hself : (m.resume (.thread t) k' (.event (.blocked w d i))).ctl (.thread t) =
      .event (.blocked w d i) := Function.update_self ..
  have hbits : k'.eventBits = m.kernel.eventBits := by
    unfold Kernel.eventBits
    rw [hq.group]
    rfl
  have hold : ∀ e u, u ∈ L (.event e) → (waitOf (m.resume (.thread t) k'
      (.event (.blocked w d i))).ctl u).met (k'.eventBits e) = false := by
    intro e u hu
    have hut : u ≠ t := fun he => hfree _ (he ▸ hu)
    rw [waitOf_congr (hother u hut), hbits]
    exact h.unmet e u hu
  refine ⟨fun e u hu => ?_, h.replay.trans hbits.symm, h.honest, fun u w' d' j hc hno hmk => ?_,
    fun u w' v hc => ?_⟩
  · rcases mem_of_mem_update hu with hin | ⟨he, hin⟩
    · exact hold e u hin
    · cases he
      rcases Kernel.mem_enqueued.1 hin with rfl | hin
      · have hw : waitOf (m.resume (.thread u) k' (.event (.blocked w d i))).ctl u = w := by
          simp only [waitOf, hself]
        rw [hw, Machine.kernel_resume, hbits]
        exact hnot
      · exact hold _ u hin
  · by_cases hut : u = t
    · subst hut
      rw [hself] at hc
      cases hc
      refine absurd ?_ (hno (.event w.group))
      rw [Function.update_self]
      exact Kernel.mem_enqueued.2 (Or.inl rfl)
    · rw [hother u hut] at hc
      have hobs : (k'.pending j).observedBits = (m.kernel.pending j).observedBits := by
        rw [hq.pending]
        change (Function.update m.kernel.pending i _ j).observedBits = _
        rw [Function.update_apply]
        split_ifs with hji
        · rw [hji]
        · rfl
      rw [Machine.kernel_resume] at hmk ⊢
      rw [hq.timedOut u (by simpa using hut)] at hmk
      rw [hobs]
      refine h.granted u w' d' j hc (fun l hl => hno l ?_) hmk
      by_cases hle : l = .event w.group
      · subst hle
        rw [Function.update_self]
        exact Kernel.mem_enqueued.2 (Or.inr hl)
      · rwa [Function.update_of_ne hle]
  · by_cases hut : u = t
    · subst hut
      rw [hself] at hc
      cases hc
    · rw [hother u hut] at hc
      exact h.returned u w' v hc

/-- One step of an event call. -/
theorem event (h : EventSafe m L out) (hs : Sound m L) {x : Ctx} {t : TaskPtr} {c c' : EventCtl}
    {k' : Kernel} (hx : Runs m.kernel x t) (hc : m.ctl x = .event c)
    (he : EventEffect m.kernel m.ctl L t c k' c' L' o)
    (hu : Untouched .event x m.kernel k' L L') :
    EventSafe (m.resume x k' (.event c')) L' (out ++ o) := by
  have happ : m.ctl x ≠ .app := by
    rw [hc]
    exact Ctl.noConfusion
  have hfree : ∀ u, x = .thread u → ∀ l, u ∉ L l := by
    rintro u rfl
    have hut : u = t := by
      rcases hx.ctx with ⟨he, -⟩ | ⟨i, he⟩ <;> cases he
      rfl
    subst hut
    exact (hs.coherent.free_of_runs hx happ).1.1
  have hthread : (Ctl.event c).isrSafe = false → x = .thread t := by
    rw [← hc]
    exact hs.coherent.thread_of_not_isrSafe hx
  have hclear : ∀ e b, ∀ e' (v : EventWait),
      v.met (Function.update m.kernel.eventBits e (m.kernel.eventBits e &&& b) e') = true →
      v.met (m.kernel.eventBits e') = true := by
    intro e b e' v hv
    by_cases hee : e' = e
    · subst hee
      rw [Function.update_self] at hv
      exact EventWait.met_and hv
    · rwa [Function.update_of_ne hee] at hv
  cases he with
  | set hpass hwoken => exact h.set hs hfree hpass hwoken
  | @clear e bits =>
    have hbits := m.kernel.eventBits_setEventBits e ((m.kernel.group e).bits &&& ~~~bits)
    refine h.resume_event hs hu (fun e' v hv => ?_) (fun _ => rfl) hfree hbits.symm
      ⟨fun _ _ _ he => Obs.noConfusion he, trivial⟩ (by simp [Ctl.NoEventWait]) (by simp)
    rw [Kernel.eventClear, hbits] at hv
    exact hclear _ _ _ _ hv
  | get | enter | expired =>
    exact h.resume_event hs hu (fun _ _ hv => hv) (fun _ => rfl) hfree rfl trivial
      (by simp [Ctl.NoEventWait]) (by simp)
  | noSlot hslot hc' =>
    refine h.resume_event hs hu (fun _ _ hv => hv) (fun _ => rfl) hfree rfl trivial ?_ ?_
    · rcases hc' with rfl | rfl <;> simp [Ctl.NoEventWait]
    · rcases hc' with rfl | rfl <;> simp
  | @granted w d hmet =>
    have hbits := m.kernel.eventBits_eventAutoClear w
    refine h.resume_event hs hu (fun e' v hv => ?_) (fun i => ?_) hfree hbits.symm
      ⟨fun u v b hb => ?_, trivial⟩ (by simp [Ctl.NoEventWait]) fun u v b hxu hb => ?_
    · rw [hbits] at hv
      by_cases hee : e' = w.group
      · subst hee
        rw [Function.update_self] at hv
        exact EventWait.met_of_met_clear hv
      · rwa [Function.update_of_ne hee] at hv
    · unfold Kernel.eventAutoClear
      split_ifs <;> rfl
    · cases hb
      exact ⟨rfl, hmet⟩
    · cases hb
      cases (hthread rfl).symm.trans hxu
      exact List.mem_append_right _ List.mem_cons_self
  | block hnot hslot hq hmark =>
    obtain rfl := hthread rfl
    rw [List.append_nil]
    exact h.block (hfree t rfl) hnot hq
  | @timeout w d i hmark =>
    obtain rfl := hthread rfl
    refine h.resume_event hs hu (fun _ _ hv => hv) (fun j => ?_) hfree rfl trivial
      (by simp [Ctl.NoEventWait]) (by simp)
    change (Function.update m.kernel.pending i _ j).observedBits = _
    rw [Function.update_apply]
    split_ifs with hji
    · rw [hji]
      rfl
    · rfl
  | @finish w d i hmark =>
    obtain rfl := hthread rfl
    refine h.resume_event hs hu (fun _ _ hv => hv) (fun j => ?_) hfree rfl trivial
      (by simp [Ctl.NoEventWait]) fun u v b hxu hb => ?_
    · change (Function.update m.kernel.pending i _ j).observedBits = _
      rw [Function.update_apply]
      split_ifs with hji
      · rw [hji]
      · rfl
    · cases hb
      cases hxu
      rw [List.append_nil]
      exact h.granted t w d i hc (hfree t rfl) hmark

/-- A tick expires linked waiters only, which are marked. -/
theorem tick (h : EventSafe m L out) (hs : Sound m L) {n : ℕ} {k' : Kernel}
    (hsafe : m.TickSafe n) (he : TickEffect n m.kernel k' L L') :
    EventSafe { m with kernel := k' } L' (out ++ []) := by
  refine h.keep hs (fun _ => Or.inl rfl) he.quiet.group (fun i => by rw [he.quiet.pending])
    (fun t w d i hc _ hno hmk => ?_) (fun e t ht => ?_) (by simp)
  · have hexp : m.kernel.expires n t = false := by
      rw [Bool.eq_false_iff]
      intro hexp
      by_cases hin : ∃ l, t ∈ L l
      · obtain ⟨l, hl⟩ := hin
        have hpos := Kernel.delayTicks_pos_of_expires hexp
        refine hmk ⟨?_, he.marked l t hl hexp⟩
        rcases hs.coherent.delay t hpos with hdel | hwait
        · rw [hc] at hdel
          cases hdel
        · have htimed := hwait.timed
          rwa [hc] at htimed
      · rw [hs.not_expires hsafe (by rw [hc]; rfl) fun l hl => hin ⟨l, hl⟩] at hexp
        cases hexp
    have hnot : t ∉ {t | m.kernel.expires n t = true} := by
      change ¬ m.kernel.expires n t = true
      rw [hexp]
      exact Bool.false_ne_true
    refine ⟨fun l hl => hno l ?_, ?_⟩
    · rw [he.lists, List.mem_filter, hexp]
      exact ⟨hl, rfl⟩
    · rw [← he.quiet.timedOut t hnot]
      exact hmk
  · rw [he.lists, List.mem_filter] at ht
    exact ht.1

/-- One orderly step keeps the invariant. -/
theorem step (h : EventSafe m L out) (hs : Sound m L) (hok : m.Orderly a)
    (he : StepEffect m L a m' L' o) : EventSafe m' L' (out ++ o) := by
  cases he with
  | @call c i hact hrest =>
    refine h.keep hs (fun t => ?_) rfl (fun _ => rfl) (fun _ _ _ _ _ _ hno hmk => ⟨hno, hmk⟩)
      (fun _ _ ht => ht) (by simp)
    by_cases ht : t = .tcb i
    · subst ht
      refine Or.inr ⟨Ctl.not_eventBlocked_of_atRest hrest, ?_⟩
      change Ctl.NoEventWait (Function.update m.ctl _ _ _) ∧
        Ctl.NoEventReturn (Function.update m.ctl _ _ _)
      rw [Function.update_self]
      refine ⟨c.not_eventBlocked_entry, ?_⟩
      cases c <;> simp [Ctl.NoEventReturn, Call.entry]
    · exact Or.inl (Function.update_of_ne (by simpa using ht) ..)
  | @irq c hsafe =>
    have hsame : ∀ t, Function.update m.ctl (.isr m.depth) c.entry (.thread t) =
        m.ctl (.thread t) := fun t => Function.update_of_ne (by simp) ..
    exact h.keep hs (fun t => Or.inl (hsame t)) rfl (fun _ => rfl)
      (fun _ _ _ _ _ _ hno hmk => ⟨hno, hmk⟩) (fun _ _ ht => ht) (by simp)
  | pendSV | clock =>
    exact h.keep hs (fun _ => Or.inl rfl) rfl (fun _ => rfl)
      (fun _ _ _ _ _ _ hno hmk => ⟨hno, hmk⟩) (fun _ _ ht => ht) (by simp)
  | tick he => exact h.tick hs hok he
  | sem hx hc he hu ho =>
    exact h.resume_other hs hu (by simp) (by simp [Ctl.NoEventWait, hc])
      (by simp [Ctl.NoEventWait, Ctl.NoEventReturn]) fun b hb => by simp [ho b hb]
  | mutex hx hc he hu _ =>
    exact h.resume_other hs hu (by simp) (by simp [Ctl.NoEventWait, hc])
      (by simp [Ctl.NoEventWait, Ctl.NoEventReturn]) fun b hb => by simp [he.family b hb]
  | queue hx hc he hu =>
    exact h.resume_other hs hu (by simp) (by simp [Ctl.NoEventWait, hc])
      (by simp [Ctl.NoEventWait, Ctl.NoEventReturn]) fun b hb => by simp [he.family b hb]
  | event hx hc he hu => exact h.event hs hx hc he hu
  | sched hx hc hu hst =>
    exact h.resume_other hs hu (by simp) (by simp [Ctl.NoEventWait, hc])
      (by simp [Ctl.NoEventWait, Ctl.NoEventReturn]) (by simp)

theorem init (cfg : Config) : EventSafe (Machine.start cfg) (fun _ => []) [] := by
  refine ⟨fun e t ht => absurd ht List.not_mem_nil, ?_, trivial, fun t w d i ht => ?_,
    fun t w v ht => ?_⟩
  · funext e
    change 0 = (cfg.created.group e).bits
    rw [cfg.fresh_created.group]
  · cases ht
  · cases ht

end EventSafe

/-! ### The table of pending waits -/

/-- `event_pending_alloc` finds a free slot: every occupied slot belongs to another task, and the
caller has none. -/
theorem Sound.eventPendingSlot_ne_none {m : Machine} {L : WaitList → List TaskPtr}
    (hs : Sound m L) (hcount : m.kernel.taskCount ≤ taskMax) {t : TaskPtr} {w : EventWait}
    {d : Option ℕ} (hc : m.ctl (.thread t) = .event (.loop w d)) :
    m.kernel.eventPendingSlot ≠ none := by
  intro hnone
  have htask : ∀ i, i < eventPendingMax → ∃ u, (m.kernel.pending i).task = some u := by
    intro i hi
    have hi' := List.find?_eq_none.1 hnone i (List.mem_range.2 hi)
    simpa [Option.ne_none_iff_exists'] using hi'
  have : Nonempty TaskPtr := ⟨t⟩
  choose! f hf using htask
  have howner : ∀ i, i < eventPendingMax →
      ∃ w d, m.ctl (.thread (f i)) = .event (.blocked w d i) := fun i hi =>
    hs.slotted.owner i (f i) (hf i hi)
  have hinj : Set.InjOn f (Finset.range eventPendingMax) := by
    intro i hi j hj hij
    obtain ⟨w, d, hi'⟩ := howner i (by simpa using hi)
    obtain ⟨w', d', hj'⟩ := howner j (by simpa using hj)
    rw [hij, hj'] at hi'
    cases hi'
    rfl
  have hnot : t ∉ (Finset.range eventPendingMax).image f := by
    intro hmem
    obtain ⟨i, hi, rfl⟩ := Finset.mem_image.1 hmem
    obtain ⟨w', d', hc'⟩ := howner i (Finset.mem_range.1 hi)
    rw [hc] at hc'
    cases hc'
  have htable : ∀ u, m.ctl (.thread u) ≠ .app →
      u ∈ (Finset.range m.kernel.taskCount).image TaskPtr.tcb := by
    intro u hu
    obtain ⟨i, hi, rfl⟩ := hs.coherent.table u hu
    exact Finset.mem_image_of_mem _ (Finset.mem_range.2 hi)
  have hsub : insert t ((Finset.range eventPendingMax).image f) ⊆
      (Finset.range m.kernel.taskCount).image TaskPtr.tcb := by
    intro u hu
    rcases Finset.mem_insert.1 hu with rfl | hmem
    · exact htable u (by rw [hc]; exact Ctl.noConfusion)
    · obtain ⟨i, hi, rfl⟩ := Finset.mem_image.1 hmem
      obtain ⟨w', d', hc'⟩ := howner i (Finset.mem_range.1 hi)
      exact htable _ (by rw [hc']; exact Ctl.noConfusion)
  have hle := (Finset.card_le_card hsub).trans Finset.card_image_le
  rw [Finset.card_insert_of_notMem hnot, Finset.card_image_of_injOn hinj, Finset.card_range,
    Finset.card_range] at hle
  simp only [eventPendingMax, taskMax] at hle hcount
  omega

/-! ### What holds on every run -/

/-- What holds of the event groups after a run with the reports `out`. -/
structure EventGroupsSafe (m : Machine) (out : List Obs) : Prop where
  /-- A linked task waits in the call that has linked it, its condition is not met by the bits of
  the group, and `event_pending_find` finds the slot of this very wait. -/
  waiting : ∀ e, ∃ xs, m.kernel.Waiters (.event e) xs ∧ ∀ t ∈ xs, ∃ w d i,
    m.ctl (.thread t) = .event (.blocked w d i) ∧ w.group = e ∧
    w.met (m.kernel.group e).bits = false ∧ m.kernel.eventPendingFind t = some i ∧
    (m.kernel.pending i).wait = w
  /-- The reports determine the bits. -/
  replay : ∀ e, eventReplay (fun _ => 0) out e = (m.kernel.group e).bits
  /-- A wait that has returned because of the event returns what it has been granted. -/
  returned : ∀ t w v, m.ctl (.thread t) = .event (.returned w (.granted v)) →
    Obs.eventGranted t w v ∈ out
  /-- A grant is of the bits of its moment, and they meet the condition. -/
  granted : ∀ past t w v future, out = past ++ .eventGranted t w v :: future →
    v = eventReplay (fun _ => 0) past w.group ∧ w.met v = true
  /-- The mask of an `auto_clear` grant is seen by a later grant only as far as it has been set
  again. -/
  consumed : ∀ past between future t t' w w' v v' i,
    out = past ++ .eventGranted t w v :: (between ++ .eventGranted t' w' v' :: future) →
    w.autoClear = true → w'.group = w.group → w.mask.getLsbD i = true → v'.getLsbD i = true →
    ∃ b, Obs.eventSet w.group b ∈ between ∧ b.getLsbD i = true
  /-- `event_pending_alloc` succeeds. -/
  slot : ∀ x w d, m.ctl x = .event (.loop w d) → m.kernel.eventPendingSlot ≠ none

/-- The runs with whole ticks. -/
theorem Machine.eventGroupsSafe_of_reach {cfg : Config} (hcfg : cfg.priorities.length ≤ taskMax)
    {m : Machine} {out : List Obs}
    (h : Run.Reach Machine.step
      (fun _ a => a.Within fun c => c.Steady ∧ c.isCreate = false) (Machine.start cfg) m out) :
    EventGroupsSafe m out := by
  have hord := Machine.orderly_of_steady (fun _ _ ha => ha.mono fun _ => And.left) h
  have hcount := Machine.taskCount_of_reach
    (fun _ _ ha => ⟨ha.2, ha.1.mono fun _ => And.right⟩) hord
  obtain ⟨L, hs, hsafe⟩ := Machine.orderly_induct (fun _ _ ha => ha.2) (I := EventSafe) hord
    (EventSafe.init cfg) fun _ hs hsafe hok _ he _ => hsafe.step hs hok.2 he
  refine ⟨fun e => ⟨L (.event e), hs.coherent.waiters _, fun t ht => ?_⟩,
    fun e => congrFun hsafe.replay e, hsafe.returned, ?_, ?_, fun x w d hc => ?_⟩
  · obtain ⟨w, d, i, hc, hw⟩ := Ctl.eq_event_of_waitsOn (hs.coherent.linked _ t ht).2
    have hunmet := hsafe.unmet e t ht
    simp only [waitOf, hc] at hunmet
    exact ⟨w, d, i, hc, hw, hunmet, hs.slotted.find hc, (hs.slotted.slot t w d i hc).2.2⟩
  · rintro past t w v future rfl
    exact hsafe.honest.granted
  · rintro past between future t t' w w' v v' i rfl hauto hgroup hmask hseen
    exact hsafe.honest.cleared hauto hgroup hmask hseen
  · cases x with
    | thread t => exact hs.eventPendingSlot_ne_none (hcount.trans_le hcfg) hc
    | isr i =>
      have hsafe := hs.coherent.isr i
      rw [hc] at hsafe
      cases hsafe

/-- Whatever at most `TASK_MAX` tasks and the handlers do with event groups and the other steady
calls, and whichever timeouts expire, as long as nothing comes between the statements of a tick: event
groups miss no wake-up and hand no signal to two consumers. -/
theorem eventGroups_safe (cfg : Config) (hcfg : cfg.priorities.length ≤ taskMax) {s : Split}
    {out : List Obs}
    (h : Run.Reach Split.step
      (Split.Whole fun _ a => a.Within fun c => c.Steady ∧ c.isCreate = false) (Split.start cfg) s out)
    (hs : s.ticking = false) : EventGroupsSafe s.machine out :=
  Machine.eventGroupsSafe_of_reach hcfg (Split.reach_machine h hs)

/-- Two tasks wait for bits that overlap, one of them to consume them; a handler sets them: the
first waiter takes its bit away from the second one. -/
def overlappingWaits : Scenario where
  config := { priorities := [1, 2] }
  actions := [.call (.eventWait ⟨0, 1, .any, true⟩), .exec, .pendSV,
    .call (.eventWaitTimeout ⟨0, 3, .all, false⟩ 10), .exec, .exec, .irq (.eventSet 0 3), .exec,
    .pendSV, .exec]
  possible := by decide +kernel

theorem overlappingWaits_safe : EventGroupsSafe overlappingWaits.final overlappingWaits.reports := by
  have hrun : Run.Reach Machine.step
      (fun m a => (a.Within fun c => c.Steady ∧ c.isCreate = false) ∧ m.Timely a)
      (Machine.start overlappingWaits.config) overlappingWaits.final overlappingWaits.reports :=
    overlappingWaits.reach (by decide +kernel)
  obtain ⟨s, hs, hm, hreach⟩ := Split.exists_of_machine hrun
  rw [← hm]
  exact eventGroups_safe overlappingWaits.config (by decide) hreach hs

example : overlappingWaits.final.kernel.head (.event 0) = some (.tcb 1) ∧
    overlappingWaits.final.ctl (.thread (.tcb 0)) =
      .event (.returned ⟨0, 1, .any, true⟩ (.granted 3)) := by decide +kernel

/-- Task 0 waits for the bit 0, task 1 for the bit 1, behind it in the list. The timeout of task 1
expires, and the tick is about to search the list when a handler sets the bit 0. Task 0 returns and
waits for another group, and task 1 returns. -/
def setWithinTick : SplitScenario where
  config := { priorities := [0, 1] }
  actions :=
    [.kernel (.call (.eventWaitTimeout ⟨0, 1, .any, false⟩ 5)), .kernel .exec, .kernel .exec,
      .kernel .pendSV, .kernel (.call (.eventWaitTimeout ⟨0, 2, .any, false⟩ 1)), .kernel .exec,
      .kernel .exec, .kernel .pendSV, .kernel (.clock 1), .sysTick] ++ List.replicate 8 .statement ++
    [.kernel (.irq (.eventSet 0 1)), .kernel .exec] ++ List.replicate 17 .statement ++
    [.kernel .pendSV, .kernel .exec, .kernel (.call (.eventWait ⟨1, 1, .any, false⟩)), .kernel .exec,
      .kernel .pendSV, .kernel .exec]
  possible := by decide +kernel

/-- The tick does not find task 1 behind the task that is not in the list any more: it has given up and
is still linked. -/
theorem eventGroups_unsafe :
    ∃ s out, Run.Reach Split.step
      (fun _ a => ∀ a' ∈ a.op, a'.Within fun c => c.family = some .event)
      (Split.start setWithinTick.config) s out ∧ s.ticking = false ∧
      s.machine.ctl (.thread (.tcb 1)) = .event (.returned ⟨0, 2, .any, false⟩ .expired) ∧
      s.kernel.Waiters (.event 0) [.tcb 1] ∧ ¬ EventGroupsSafe s.machine out := by
  have hret : setWithinTick.final.machine.ctl (.thread (.tcb 1)) =
      .event (.returned ⟨0, 2, .any, false⟩ .expired) := by decide +kernel
  have hlist : setWithinTick.final.kernel.Waiters (.event 0) [.tcb 1] := by decide +kernel
  have hidle : setWithinTick.final.ticking = false := by decide +kernel
  have hreach : Run.Reach Split.step
      (fun _ a => ∀ a' ∈ a.op, a'.Within fun c => c.family = some .event)
      (Split.start setWithinTick.config) setWithinTick.final setWithinTick.reports :=
    setWithinTick.reach (by decide +kernel)
  generalize setWithinTick.final = s at hret hlist hidle hreach
  refine ⟨s, _, hreach, hidle, hret, hlist, fun hsafe => ?_⟩
  obtain ⟨xs, hxs, hlinked⟩ := hsafe.waiting 0
  obtain ⟨w, d, i, hblocked, -⟩ := hlinked (.tcb 1) (hlist.unique hxs ▸ List.mem_cons_self)
  rw [hret] at hblocked
  cases hblocked

end TamgaOs
