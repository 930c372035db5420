import TamgaOs.Machine.Orderly
import TamgaOs.Machine.Split

/-!
# Queue wake-ups

A queue call wakes the waiter that it has popped after its critical section has ended. In between
the waiter is in no list, but it is still blocked with its timeout running, so that the tick may
expire it; the wake-up has then been spent on a task that returns without testing again.

## Main definitions

* `Machine.QueueWakeupsKept`: no wake-up of a queue is lost.

## Main results

* `queueWakeups_kept`: as long as ticks are whole and none expires a task that has been popped and
  not been woken yet, no wake-up is lost.
* `queueWakeup_lost_by_tick`: otherwise an item may be left to a waiter that nobody wakes.
-/

namespace TamgaOs

/-- While a receiver is linked, as many popped receivers as there are items have still to test
again, and while a sender is linked, as many popped senders as there are free slots. -/
def Machine.QueueWakeupsKept (m : Machine) : Prop :=
  ∀ q, m.NoLostWakeup (.queueReceive q) (m.kernel.queue q).count ∧
    m.NoLostWakeup (.queueSend q)
      ((m.kernel.queue q).capacity.toNat - (m.kernel.queue q).count)

/-- The call is one of `queue.c`. -/
def Call.OfQueue (c : Call) : Prop := c.family = some .queue

instance : DecidablePred Call.OfQueue := fun _ => inferInstanceAs (Decidable (_ = _))

/-- A run of queue calls is orderly if its ticks are safe. -/
theorem Machine.orderly_of_queue {cfg : Config} {ok : Machine → Action → Prop}
    (hok : ∀ m a, ok m a → a.Within Call.OfQueue ∧ ∀ n, a = .tick n → m.TickSafe n)
    {m : Machine} {out : List Obs} (h : Run.Reach Machine.step ok (Machine.start cfg) m out) :
    Run.Reach Machine.step Machine.Orderly (Machine.start cfg) m out := by
  refine h.mono fun m out a hm hoka => ?_
  have hctl := Machine.ctl_of_reach (S := fun c => c.family ≠ some .sched)
    (fun m a ha => (hok m a ha).1) (by simp [Ctl.family]) (fun c hc => ?_)
    (fun k t c k' c' o hc hs => by rw [Ctl.family_ctlStep hs]; exact hc) hm
  · obtain ⟨hwithin, htick⟩ := hok m a hoka
    cases a with
    | call c | irq c =>
      intro hn
      rw [show c.family = some .queue from hwithin] at hn
      cases hn
    | exec =>
      intro x index _ hc
      exact absurd (by rw [hc]; rfl) (hctl x)
    | pendSV | clock n => trivial
    | tick n => exact htick n rfl
  · rw [show c.entry.family = some .queue from hc]
    simp

/-- The queue calls of any tasks and handlers, with whole ticks that are safe. -/
theorem Machine.queueWakeupsKept_of_reach {cfg : Config} {m : Machine} {out : List Obs}
    (h : Run.Reach Machine.step
      (fun m a => a.Within Call.OfQueue ∧ ∀ n, a = .tick n → m.TickSafe n)
      (Machine.start cfg) m out) : m.QueueWakeupsKept := by
  obtain ⟨L, hs⟩ := Machine.sound_of_reach (fun _ _ => id)
    (Machine.orderly_of_queue (fun _ _ => id) h)
  exact fun q => ⟨hs.noLostWakeup (.queueReceive q), hs.noLostWakeup (.queueSend q)⟩

/-- As long as nothing comes between the statements of a tick and no tick expires a task that has been
popped and not been woken yet, the queue calls of any tasks and handlers, in any order, lose no
wake-up. -/
theorem queueWakeups_kept (cfg : Config) {s : Split} {out : List Obs}
    (h : Run.Reach Split.step
      (Split.Whole fun m a => a.Within Call.OfQueue ∧ ∀ n, a = .tick n → m.TickSafe n)
      (Split.start cfg) s out) (hs : s.ticking = false) : s.machine.QueueWakeupsKept :=
  Machine.queueWakeupsKept_of_reach (Split.reach_machine h hs)

/-- Two receivers wait, the first one with a timeout of 1 ms. A sender has stored an item and
popped the first receiver, and is about to wake it. -/
def poppedNotWoken : Scenario where
  config := { priorities := [0, 1, 2], queue := fun _ => (1, 1) }
  actions := [.call (.queueReceiveTimeout 0 1), .exec, .exec, .pendSV, .call (.queueReceive 0),
    .exec, .pendSV, .call (.queueTrySend 0 [7]), .exec]
  possible := by decide +kernel

/-- There is no tick in this run. -/
theorem poppedNotWoken.reached {ok : Machine → Action → Prop}
    (hok : ∀ m a, a.Within Call.OfQueue → (∀ n, a ≠ .tick n) → ok m a) :
    Run.Reach Machine.step ok (Machine.start poppedNotWoken.config) poppedNotWoken.final
      poppedNotWoken.reports := by
  have hall : ∀ a ∈ poppedNotWoken.actions, a.Within Call.OfQueue := by decide +kernel
  refine poppedNotWoken.reach (.of_forall _ fun a ha m => hok m a (hall a ha) ?_)
  rintro n rfl
  simp [poppedNotWoken] at ha

theorem poppedNotWoken_kept : poppedNotWoken.final.QueueWakeupsKept := by
  have hrun : Run.Reach Machine.step
      (fun m a => (a.Within Call.OfQueue ∧ ∀ n, a = .tick n → m.TickSafe n) ∧ m.Timely a)
      (Machine.start poppedNotWoken.config) poppedNotWoken.final poppedNotWoken.reports :=
    poppedNotWoken.reached fun m _ hw hn =>
      ⟨⟨hw, fun n he => absurd he (hn n)⟩, m.timely_of_ne_tick hn⟩
  obtain ⟨s, hs, hm, hreach⟩ := Split.exists_of_machine hrun
  rw [← hm]
  exact queueWakeups_kept poppedNotWoken.config hreach hs

/-- The tick that expires the popped receiver. -/
def poppedNotWoken.ticked : Kernel :=
  (poppedNotWoken.final.kernel.schedTickN 1).get (by decide +kernel)

/-- After this tick there is an item and a linked receiver, and nobody will test again. -/
theorem queueWakeup_lost_by_tick :
    ∃ s out, Run.Reach Split.step (Split.Whole fun _ a => a.Within Call.OfQueue)
      (Split.start poppedNotWoken.config) s out ∧ ¬ s.machine.QueueWakeupsKept := by
  obtain ⟨L, hs⟩ := Machine.sound_of_reach (fun _ _ => id) (Machine.orderly_of_queue
    (fun _ _ h => h)
    (poppedNotWoken.reached fun m a hw hn => ⟨hw, fun n he => absurd he (hn n)⟩))
  have htick : poppedNotWoken.final.step (.tick 1) =
      some ({ poppedNotWoken.final with kernel := poppedNotWoken.ticked }, []) := by
    simp [Machine.step, poppedNotWoken.ticked]
  have hreach : Run.Reach Machine.step (fun m a => a.Within Call.OfQueue ∧ m.Timely a)
      (Machine.start poppedNotWoken.config)
      { poppedNotWoken.final with kernel := poppedNotWoken.ticked } _ :=
    (poppedNotWoken.reached fun m _ hw hn => ⟨hw, m.timely_of_ne_tick hn⟩).step
      ⟨(show Action.Within _ (.tick 1) from trivial), by decide +kernel⟩ htick
  obtain ⟨s, -, hm, hsplit⟩ := Split.exists_of_machine hreach
  refine ⟨s, _, hsplit, fun hk => ?_⟩
  rw [hm] at hk
  obtain ⟨xs, hw, hP⟩ := (hk 0).1
  have hhead : poppedNotWoken.ticked.head (.queueReceive 0) = some (.tcb 1) := by decide +kernel
  have hcount : (poppedNotWoken.ticked.queue 0).count = 1 := by decide +kernel
  have hmem : TaskPtr.tcb 1 ∈ xs := by
    cases xs with
    | nil =>
      have h0 : poppedNotWoken.ticked.head (.queueReceive 0) = none := hw
      rw [hhead] at h0
      cases h0
    | cons y ys =>
      have hy := hw.1
      change poppedNotWoken.ticked.head (.queueReceive 0) = some y at hy
      rw [hhead] at hy
      cases hy
      exact List.mem_cons_self
  obtain ⟨P, hcard, hmust⟩ := hP (List.ne_nil_of_mem hmem)
  change (poppedNotWoken.ticked.queue 0).count ≤ P.card at hcard
  rw [hcount] at hcard
  obtain ⟨t, ht⟩ := Finset.card_pos.1 hcard
  -- only the three tasks are in a call at all
  have hne : poppedNotWoken.final.ctl (.thread t) ≠ .app := by
    intro he
    rcases hmust t ht with hr | ⟨hr, -⟩
    · change (poppedNotWoken.final.ctl (.thread t)).retries = _ at hr
      rw [he] at hr
      cases hr
    · exact Ctl.ne_app_of_waitsOn hr he
  obtain ⟨i, hi, rfl⟩ := hs.coherent.table t hne
  have hcountTasks : poppedNotWoken.final.kernel.taskCount = 3 := by decide +kernel
  rw [hcountTasks] at hi
  have hno : ∀ j < 3, (poppedNotWoken.final.ctl (.thread (.tcb j))).retries ≠
      some (.queueReceive 0) := by decide +kernel
  rcases hmust _ ht with hr | ⟨hwait, hnot, hmark⟩
  · exact hno i hi hr
  · have hcase : i = 0 ∨ i = 1 ∨ i = 2 := by omega
    rcases hcase with rfl | rfl | rfl
    · exact hmark (by decide +kernel)
    · exact hnot xs hw hmem
    · revert hwait
      decide +kernel

end TamgaOs
