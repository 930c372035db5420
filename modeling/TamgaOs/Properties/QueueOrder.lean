import TamgaOs.Library.Fifo
import TamgaOs.Machine.Journal
import TamgaOs.Machine.Objects
import TamgaOs.Machine.QueueSteps

/-!
# A message queue is a bounded FIFO queue

The flat buffer with its indices is a ring buffer whose cells are the items. Every successful
transfer is one event of a bounded queue, and no other step of any call touches the queue. This
needs nothing about the wait lists, so it holds along every run.

## Main definitions

* `Queue.items`: the contents of the buffer, oldest first.
* `Queue.WellFormed`, `Queue.Transfers`: the invariant, and what a step may do.
* `QueueCtl.Transferred`: what a call has reported so far, at each of its program points.

## Main results

* `ctlStep_transfers`: what a step of any call does to a queue.
* `queue_refines_fifo`: along every run each queue is the bounded queue that its history describes;
  a call that succeeds has made one transfer, and a call that fails none.
-/

namespace TamgaOs

/-- The `item_size` bytes at `item`. -/
def itemBytes (itemSize : UInt16) (item : List UInt8) : List UInt8 :=
  (List.range itemSize.toNat).map fun i => item.getD i 0

/-- What a report says about the queue `q` of items of the given size. -/
def Obs.queueEvent (q : ℕ) (itemSize : UInt16) : Obs → Option (Fifo.Event (List UInt8))
  | .queueSent q' item => if q' = q then some (.sent (itemBytes itemSize item)) else none
  | .queueReceived q' item => if q' = q then some (.received item) else none
  | _ => none

/-- The history of the queue `q`. -/
def queueEvents (q : ℕ) (itemSize : UInt16) (out : List Obs) : List (Fifo.Event (List UInt8)) :=
  out.filterMap (Obs.queueEvent q itemSize)

namespace Queue

variable (x : Queue)

/-- The `j`-th cell of the buffer. -/
def cell (j : ℕ) : List UInt8 :=
  (List.range x.itemSize.toNat).map fun i => x.buffer (j * x.itemSize.toNat + i)

/-- The contents of the buffer, oldest first. -/
def items : List (List UInt8) := Ring.contents x.capacity.toNat x.head x.count x.cell

/-- The `j`-th cell lies in the buffer of `capacity * item_size` bytes. -/
def Inside (j : ℕ) : Prop :=
  j * x.itemSize.toNat + x.itemSize.toNat ≤ x.capacity.toNat * x.itemSize.toNat

/-- The invariant of the indices. -/
structure WellFormed : Prop where
  count_le : x.count ≤ x.capacity.toNat
  head_lt : x.capacity ≠ 0 → x.head < x.capacity.toNat
  tail_eq : x.tail = (x.head + x.count) % x.capacity.toNat

/-- What a step may do to a queue: nothing; or append an item, when there is room, by writing the
bytes of the cell at `tail` only; or remove the oldest item. In the last two cases the index is
advanced modulo the capacity, which is not 0. -/
inductive Transfers (x x' : Queue) : List (Fifo.Event (List UInt8)) → Prop
  | keep (h : x' = x) : Transfers x x' []
  | send (item : List UInt8) (hcapacity : x.capacity ≠ 0) (hinside : x.Inside x.tail)
      (hroom : x.items.length < x.capacity.toNat) (hitems : x'.items = x.items ++ [item])
      (hbuffer : ∀ o, o < x.tail * x.itemSize.toNat ∨
        x.tail * x.itemSize.toNat + x.itemSize.toNat ≤ o → x'.buffer o = x.buffer o)
      (hsize : x'.itemSize = x.itemSize ∧ x'.capacity = x.capacity) :
      Transfers x x' [.sent item]
  | receive (item : List UInt8) (hcapacity : x.capacity ≠ 0) (hinside : x.Inside x.head)
      (hitems : x.items = item :: x'.items) (hbuffer : x'.buffer = x.buffer)
      (hsize : x'.itemSize = x.itemSize ∧ x'.capacity = x.capacity) :
      Transfers x x' [.received item]

variable {x} {x' : Queue} {es : List (Fifo.Event (List UInt8))}

theorem Transfers.moves (h : Transfers x x' es) :
    Fifo.Moves x.capacity.toNat x.items es x'.items := by
  cases h with
  | keep he =>
    rw [he]
    exact .nil _
  | send item _ _ hroom hitems _ _ =>
    rw [hitems]
    exact .send hroom
  | receive item _ _ hitems _ _ =>
    rw [hitems]
    exact .receive

theorem Transfers.size (h : Transfers x x' es) :
    x'.itemSize = x.itemSize ∧ x'.capacity = x.capacity := by
  cases h with
  | keep he => exact he ▸ ⟨rfl, rfl⟩
  | send item _ _ _ _ _ hsize => exact hsize
  | receive item _ _ _ _ hsize => exact hsize

theorem inside_of_lt {j : ℕ} (hj : j < x.capacity.toNat) : x.Inside j := by
  unfold Inside
  rw [← Nat.succ_mul]
  exact Nat.mul_le_mul_right _ hj

/-- The bytes of two cells do not overlap. -/
theorem offset_cases {i j n : ℕ} (hne : i ≠ j) {o : ℕ} (ho : o < n) :
    i * n + o < j * n ∨ j * n + n ≤ i * n + o := by
  rcases Nat.lt_or_gt_of_ne hne with hlt | hlt
  · left
    have hle : (i + 1) * n ≤ j * n := Nat.mul_le_mul_right n hlt
    rw [Nat.succ_mul] at hle
    omega
  · right
    have hle : (j + 1) * n ≤ i * n := Nat.mul_le_mul_right n hlt
    rw [Nat.succ_mul] at hle
    omega

@[simp] theorem length_items : x.items.length = x.count := by simp [items]

theorem toNat_pos_iff {n : UInt16} : 0 < n.toNat ↔ n ≠ 0 := by
  rw [Nat.pos_iff_ne_zero, ne_eq, ne_eq, ← UInt16.toNat_inj]
  rfl

end Queue

namespace Kernel

variable (k : Kernel) (q : ℕ)

/-- `queue_copy_in` when there is room. -/
theorem transfers_queueCopyIn {item : List UInt8} (h : (k.queue q).WellFormed)
    (hroom : (k.queue q).count < (k.queue q).capacity.toNat) :
    ((k.queueCopyIn q item).queue q).WellFormed ∧
      Queue.Transfers (k.queue q) ((k.queueCopyIn q item).queue q)
        [.sent (itemBytes (k.queue q).itemSize item)] := by
  obtain ⟨hcount, hhead, htail⟩ := h
  set x := k.queue q with hx
  set x' := (k.queueCopyIn q item).queue q with hx'
  have hcap : x.capacity.toNat < 2 ^ 16 := x.capacity.toNat_lt
  have hpos : 0 < x.capacity.toNat := Nat.zero_lt_of_lt hroom
  have hne : x.capacity ≠ 0 := Queue.toNat_pos_iff.1 hpos
  have hlt : x.tail < x.capacity.toNat := htail ▸ Nat.mod_lt _ hpos
  have hsize : x'.itemSize = x.itemSize := by simp [hx', queueCopyIn, modifyQueue, hx]
  have hcapacity : x'.capacity = x.capacity := by simp [hx', queueCopyIn, modifyQueue, hx]
  have hhead' : x'.head = x.head := by simp [hx', queueCopyIn, modifyQueue, hx]
  have hbuffer : ∀ o, x'.buffer o =
      if x.tail * x.itemSize.toNat ≤ o ∧ o < x.tail * x.itemSize.toNat + x.itemSize.toNat then
        item.getD (o - x.tail * x.itemSize.toNat) 0
      else x.buffer o := fun o => by simp [hx', queueCopyIn, modifyQueue, hx]
  -- the 16-bit counters do not wrap
  have hcount' : x'.count = x.count + 1 := by
    have hmod : x'.count = (x.count + 1) % 2 ^ 16 := by
      simp [hx', queueCopyIn, modifyQueue, hx]
    rw [hmod, Nat.mod_eq_of_lt (by omega)]
  have htail' : x'.tail = (x.head + (x.count + 1)) % x.capacity.toNat := by
    have hmod : x'.tail = (x.tail + 1) % x.capacity.toNat % 2 ^ 16 := by
      simp [hx', queueCopyIn, modifyQueue, hx]
    rw [hmod, Nat.mod_eq_of_lt ((Nat.mod_lt _ hpos).trans hcap), htail, Nat.mod_add_mod,
      Nat.add_assoc]
  have hitem : x'.cell x.tail = itemBytes x.itemSize item := by
    unfold Queue.cell itemBytes
    rw [hsize]
    refine List.map_congr_left fun i hi => ?_
    have hi' := List.mem_range.1 hi
    rw [hbuffer, if_pos ⟨Nat.le_add_right _ _, by omega⟩, Nat.add_sub_cancel_left]
  have hother : ∀ j, j ≠ x.tail → x'.cell j = x.cell j := by
    intro j hj
    unfold Queue.cell
    rw [hsize]
    refine List.map_congr_left fun i hi => ?_
    rw [hbuffer, if_neg]
    have hcases := Queue.offset_cases hj (List.mem_range.1 hi)
    omega
  refine ⟨⟨?_, fun _ => ?_, ?_⟩, .send _ hne (Queue.inside_of_lt hlt) ?_ ?_ (fun o ho => ?_)
    ⟨hsize, hcapacity⟩⟩
  · rw [hcount', hcapacity]
    exact hroom
  · rw [hhead', hcapacity]
    exact hhead hne
  · rw [htail', hhead', hcount', hcapacity]
  · rwa [Queue.length_items]
  · rw [← hitem]
    unfold Queue.items
    rw [hcapacity, hhead', hcount', htail]
    exact Ring.contents_push hroom fun j hj => hother j (htail ▸ hj)
  · rw [hbuffer, if_neg (by omega)]

/-- `queue_copy_out` when there is an item. -/
theorem transfers_queueCopyOut (h : (k.queue q).WellFormed) (hitem : 0 < (k.queue q).count) :
    ((k.queueCopyOut q).1.queue q).WellFormed ∧
      Queue.Transfers (k.queue q) ((k.queueCopyOut q).1.queue q)
        [.received (k.queueCopyOut q).2] := by
  obtain ⟨hcount, hhead, htail⟩ := h
  set x := k.queue q with hx
  set x' := (k.queueCopyOut q).1.queue q with hx'
  have hcap : x.capacity.toNat < 2 ^ 16 := x.capacity.toNat_lt
  have hpos : 0 < x.capacity.toNat := hitem.trans_le hcount
  have hne : x.capacity ≠ 0 := Queue.toNat_pos_iff.1 hpos
  have hlt : x.head < x.capacity.toNat := hhead hne
  have hcapacity : x'.capacity = x.capacity := by simp [hx', queueCopyOut, modifyQueue, hx]
  have hcell : x'.cell = x.cell := by
    funext j
    simp [hx', queueCopyOut, modifyQueue, hx, Queue.cell]
  have htail' : x'.tail = x.tail := by simp [hx', queueCopyOut, modifyQueue, hx]
  have hbuffer : x'.buffer = x.buffer := by simp [hx', queueCopyOut, modifyQueue, hx]
  have hcount' : x'.count = x.count - 1 := by simp [hx', queueCopyOut, modifyQueue, hx]
  have hhead' : x'.head = (x.head + 1) % x.capacity.toNat := by
    have hmod : x'.head = (x.head + 1) % x.capacity.toNat % 2 ^ 16 := by
      simp [hx', queueCopyOut, modifyQueue, hx]
    rw [hmod, Nat.mod_eq_of_lt ((Nat.mod_lt _ hpos).trans hcap)]
  have hout : (k.queueCopyOut q).2 = x.cell (x.head % x.capacity.toNat) := by
    rw [Nat.mod_eq_of_lt hlt]
    rfl
  have hsize : x'.itemSize = x.itemSize := by simp [hx', queueCopyOut, modifyQueue, hx]
  refine ⟨⟨?_, fun _ => ?_, ?_⟩, .receive _ hne (Queue.inside_of_lt hlt) ?_ hbuffer
    ⟨hsize, hcapacity⟩⟩
  · rw [hcount', hcapacity]
    omega
  · rw [hhead', hcapacity]
    exact Nat.mod_lt _ hpos
  · rw [htail', htail, hhead', hcount', hcapacity, Nat.mod_add_mod]
    congr 1
    omega
  · have hsucc : x.count = x'.count + 1 := by omega
    rw [hout]
    unfold Queue.items
    rw [hsucc, hcapacity, hhead', hcell]
    exact Ring.contents_pop

end Kernel

/-! ### The steps of the calls -/

variable {k k' : Kernel} {t : TaskPtr} {o : List Obs} {q : ℕ}

/-- A step of a queue call copies no item and reports nothing, or it copies one after a successful
test and reports it. -/
theorem queueStep_queue {c c' : QueueCtl} (h : queueStep k t c = some (k', c', o)) :
    (k'.queue = k.queue ∧ o = []) ∨
    ∃ q op, k.queueReady q op = true ∧ k'.queue = (k.queueMoved q op).1.queue ∧
      o = [queueObs q op (k.queueMoved q op).2] := by
  have htransfer : ∀ q op, (k.queueTransfer q op).1.queue = (k.queueMoved q op).1.queue := by
    intro q op
    rw [k.queueTransfer_eq]
    exact (SameObjects.wqPop _ _).queue
  cases c with
  | enter q op timeoutMs =>
    cases h
    exact Or.inl ⟨rfl, rfl⟩
  | loop q op deadline retry =>
    rcases queueStep_loop h with ⟨hready, rfl, -, rfl⟩ | ⟨d, -, -, -, rfl, -, rfl⟩ | ⟨-, -, hb, -, rfl⟩
    · exact Or.inr ⟨q, op, hready, htransfer q op, by rw [k.queueTransfer_eq]⟩
    · exact Or.inl ⟨rfl, rfl⟩
    · exact Or.inl ⟨(SameObjects.blockOn hb).queue, rfl⟩
  | blocked q op deadline =>
    simp only [queueStep] at h
    split_ifs at h <;> cases h <;> exact Or.inl ⟨rfl, rfl⟩
  | attempt q op =>
    simp only [queueStep] at h
    split_ifs at h with hready
    · cases h
      exact Or.inr ⟨q, op, hready, htransfer q op, by rw [k.queueTransfer_eq]⟩
    · cases h
      exact Or.inl ⟨rfl, rfl⟩
  | wake w timed r =>
    cases w with
    | none =>
      cases h
      exact Or.inl ⟨rfl, rfl⟩
    | some w =>
      cases h
      exact Or.inl ⟨(SameObjects.wakeSection k w).queue, rfl⟩
  | trigger timed r =>
    cases h
    exact Or.inl ⟨(SameObjects.triggerIfSwitch k).queue, rfl⟩
  | finish timed r =>
    simp only [queueStep] at h
    split_ifs at h <;> cases h <;> exact Or.inl ⟨rfl, rfl⟩
  | returned r => cases h

/-- What a copy does to each queue. -/
theorem transfers_queueMoved {q' : ℕ} {op : QueueOp} (hw : (k.queue q).WellFormed)
    (hready : k.queueReady q' op = true) :
    ((k.queueMoved q' op).1.queue q).WellFormed ∧
      Queue.Transfers (k.queue q) ((k.queueMoved q' op).1.queue q)
        (queueEvents q (k.queue q).itemSize [queueObs q' op (k.queueMoved q' op).2]) := by
  by_cases hq : q' = q
  · subst hq
    cases op with
    | send item =>
      have hroom : (k.queue q').count < (k.queue q').capacity.toNat := of_decide_eq_true hready
      have hevents : queueEvents q' (k.queue q').itemSize [.queueSent q' item] =
          [.sent (itemBytes (k.queue q').itemSize item)] := by simp [queueEvents, Obs.queueEvent]
      change _ ∧ Queue.Transfers _ _ (queueEvents q' (k.queue q').itemSize [.queueSent q' item])
      rw [hevents]
      exact k.transfers_queueCopyIn q' hw hroom
    | receive =>
      have hitem : 0 < (k.queue q').count := of_decide_eq_true hready
      have hevents : ∀ item, queueEvents q' (k.queue q').itemSize [.queueReceived q' item] =
          [.received item] := fun item => by simp [queueEvents, Obs.queueEvent]
      change _ ∧ Queue.Transfers _ _ (queueEvents q' (k.queue q').itemSize [.queueReceived q' _])
      rw [hevents]
      exact k.transfers_queueCopyOut q' hw hitem
  · have hsame : (k.queueMoved q' op).1.queue q = k.queue q := by
      cases op <;> exact Function.update_of_ne (Ne.symm hq) ..
    have hnone : queueEvents q (k.queue q).itemSize
        [queueObs q' op (k.queueMoved q' op).2] = [] := by
      cases op <;> simp [queueEvents, queueObs, Obs.queueEvent, hq]
    rw [hnone, hsame]
    exact ⟨hw, .keep rfl⟩

/-- What a step of any call does to a queue. -/
theorem ctlStep_transfers {c c' : Ctl} (h : ctlStep k t c = some (k', c', o))
    (hw : (k.queue q).WellFormed) : (k'.queue q).WellFormed ∧
      Queue.Transfers (k.queue q) (k'.queue q) (queueEvents q (k.queue q).itemSize o) := by
  cases hF : c.family with
  | none =>
    cases c with
    | app => cases h
    | sem | mutex | queue | event | notify | sched => cases hF
  | some F =>
    by_cases hqueue : F = .queue
    · cases c with
      | queue c =>
        obtain ⟨⟨k₁, c₁, o₁⟩, hs, he⟩ := Option.map_eq_some_iff.1 h
        cases he
        rcases queueStep_queue hs with ⟨hk, rfl⟩ | ⟨q', op, hready, hk, rfl⟩
        · rw [hk]
          exact ⟨hw, .keep rfl⟩
        · rw [hk]
          exact transfers_queueMoved hw hready
      | app | sem | mutex | event | notify | sched =>
        rw [hqueue] at hF
        cases hF
    · have hnone : queueEvents q (k.queue q).itemSize o = [] := by
        refine List.filterMap_eq_nil_iff.2 fun b hb => ?_
        have hfamily : b.family = F := ctlStep_family hF h b hb
        cases b with
        | queueSent | queueReceived => exact absurd hfamily (Ne.symm hqueue)
        | semTaken | semGiven | mutexAcquired | mutexReleased | eventSet | eventCleared
        | eventGranted | notifyGiven | notifyTaken => rfl
      rw [hnone, (ctlStep_objects hF h).queue hqueue]
      exact ⟨hw, .keep rfl⟩

/-! ### The calls -/

/-- The queue of a call, the direction, and whether the call is `queue_try_send` or
`queue_try_receive`. -/
def Call.queueArgs : Call → Option (ℕ × QueueOp × Bool)
  | queueSend q item | queueSendTimeout q item _ => some (q, .send item, false)
  | queueReceive q | queueReceiveTimeout q _ => some (q, .receive, false)
  | queueTrySend q item => some (q, .send item, true)
  | queueTryReceive q => some (q, .receive, true)
  | _ => none

/-- `queue_send_from_isr` and `queue_receive_from_isr`, given the value that `queue_try_send` or
`queue_try_receive` has returned. -/
def queueFromIsr (value : ℤ) : ℤ := if value ≠ 0 then 0 else -1

/-- The call has succeeded: it has made the one transfer that it returns. -/
def QueueReturn.Succeeded (r : QueueReturn) (args : ℕ × QueueOp × Bool) (o : List Obs) : Prop :=
  (r.queue, r.op) = (args.1, args.2.1) ∧ r.value = (if args.2.2 then 1 else 0) ∧
    (args.2.2 = true → queueFromIsr r.value = 0) ∧ o = [queueObs r.queue r.op r.item]

/-- The call has failed: it has made no transfer. -/
def QueueReturn.Failed (r : QueueReturn) (args : ℕ × QueueOp × Bool) (o : List Obs) : Prop :=
  (r.queue, r.op) = (args.1, args.2.1) ∧ r.value = (if args.2.2 then 0 else -1) ∧
    (args.2.2 = true → queueFromIsr r.value = -1) ∧ o = []

/-- What the call with these arguments has reported when it is at a program point. -/
def QueueCtl.Transferred (args : ℕ × QueueOp × Bool) (o : List Obs) : QueueCtl → Prop
  | enter q op _ | loop q op _ _ | blocked q op _ => args = (q, op, false) ∧ o = []
  | attempt q op => args = (q, op, true) ∧ o = []
  | wake _ _ r | trigger _ r | finish _ r => r.Succeeded args o
  | returned r => r.Succeeded args o ∨ r.Failed args o

theorem QueueCtl.Transferred.step {args : ℕ × QueueOp × Bool} {os : List Obs} {c c' : QueueCtl}
    (hc : c.Transferred args os) (h : queueStep k t c = some (k', c', o)) :
    c'.Transferred args (os ++ o) := by
  cases c with
  | enter q op timeoutMs =>
    cases h
    rw [List.append_nil]
    exact hc
  | loop q op deadline retry =>
    obtain ⟨rfl, rfl⟩ := hc
    simp only [queueStep] at h
    split at h <;> cases h
    · exact ⟨rfl, rfl, by simp, rfl⟩
    · exact Or.inr ⟨rfl, rfl, by simp, rfl⟩
    · exact ⟨rfl, rfl⟩
  | blocked q op deadline =>
    obtain ⟨rfl, rfl⟩ := hc
    simp only [queueStep] at h
    split_ifs at h <;> cases h
    · exact Or.inr ⟨rfl, rfl, by simp, rfl⟩
    · exact ⟨rfl, rfl⟩
  | attempt q op =>
    obtain ⟨rfl, rfl⟩ := hc
    simp only [queueStep] at h
    split_ifs at h <;> cases h
    · exact ⟨rfl, rfl, fun _ => rfl, rfl⟩
    · exact Or.inr ⟨rfl, rfl, fun _ => rfl, rfl⟩
  | wake w timed r =>
    cases w <;> cases h <;> rw [List.append_nil] <;> exact hc
  | trigger timed r =>
    cases h
    rw [List.append_nil]
    exact hc
  | finish timed r =>
    simp only [queueStep] at h
    split_ifs at h <;> cases h <;> rw [List.append_nil] <;> exact Or.inl hc
  | returned r => cases h

/-- A context in a queue call, and the record of this call. -/
def Ctl.QueueLogged : Ctl → Option CallRecord → Prop
  | .queue c, r => ∃ r' args, r = some r' ∧ r'.call.queueArgs = some args ∧
      c.Transferred args r'.reports
  | _, _ => True

theorem Machine.queueLogged_of_reach {cfg : Config} {m : Machine} {log : Ctx → Option CallRecord}
    {ok : Machine × (Ctx → Option CallRecord) → Action → Prop} {out : List Obs}
    (h : Run.Reach Machine.logged ok (Machine.startLogged cfg) (m, log) out) (x : Ctx) :
    (m.ctl x).QueueLogged (log x) := by
  refine Machine.journal_invariant (R := Ctl.QueueLogged) trivial (fun c => ?_)
    (fun k t c k' c' o r hs hr => ?_) (fun c r n hr => ?_) h x
  · cases c with
    | queueSend | queueReceive | queueSendTimeout | queueReceiveTimeout | queueTrySend
    | queueTryReceive => exact ⟨_, _, rfl, rfl, rfl, rfl⟩
    | semTake | semGive | semTrytake | mutexLock | mutexLockTimeout | mutexTrylock | mutexUnlock
    | eventSet | eventClear | eventGet | eventWait | eventWaitTimeout | taskNotifyGive
    | taskNotifyWait | schedDelayMs | schedYield | schedBlock | schedTaskPause | schedTaskResume
    | schedTaskCreate => trivial
  · cases c with
    | app => cases hs
    | queue c =>
      obtain ⟨⟨k₁, c₁, o₁⟩, hstep, he⟩ := Option.map_eq_some_iff.1 hs
      cases he
      obtain ⟨r', args, rfl, hargs, hc⟩ := hr
      exact ⟨_, args, rfl, hargs, hc.step hstep⟩
    | sem | mutex | event | notify | sched =>
      obtain ⟨_, -, he⟩ := Option.map_eq_some_iff.1 hs
      cases he
      trivial
  · cases c with
    | queue c =>
      obtain ⟨r', args, rfl, hargs, hc⟩ := hr
      exact ⟨_, args, rfl, hargs, hc⟩
    | app | sem | mutex | event | notify | sched => trivial

/-! ### The refinement -/

/-- What a step of the machine does to a queue. -/
theorem Machine.step_transfers {m m' : Machine} {a : Action} (hs : m.step a = some (m', o))
    (hw : (m.kernel.queue q).WellFormed) : (m'.kernel.queue q).WellFormed ∧
      Queue.Transfers (m.kernel.queue q) (m'.kernel.queue q)
        (queueEvents q (m.kernel.queue q).itemSize o) := by
  rcases Machine.step_cases hs with ⟨c, i, rfl, -, -, rfl, rfl⟩ |
    ⟨x, t, k', c', rfl, -, -, hstep, rfl⟩ | ⟨c, rfl, -, rfl, rfl⟩ | ⟨rfl, -, -, rfl, rfl⟩ |
    ⟨n, rfl, rfl, rfl⟩ | ⟨n, k', rfl, htick, rfl, rfl⟩
  · exact ⟨hw, .keep rfl⟩
  · exact ctlStep_transfers hstep hw
  · exact ⟨hw, .keep rfl⟩
  · exact ⟨hw, .keep rfl⟩
  · exact ⟨hw, .keep rfl⟩
  · have hk : k'.queue = m.kernel.queue := (SameObjects.schedTickN htick).queue
    change (k'.queue q).WellFormed ∧ Queue.Transfers _ (k'.queue q) []
    rw [hk]
    exact ⟨hw, .keep rfl⟩

theorem Config.queue_created (cfg : Config) : cfg.created.queue = cfg.schedInit.queue :=
  cfg.created_induct (I := fun k => k.queue = cfg.schedInit.queue) rfl fun _ _ hk => hk

/-- Along every run, whatever calls the tasks and the handlers make, each queue is the bounded queue
that its history describes: its indices are in order, it holds the items that have been sent and
not yet received, in this order, and a step either leaves it as it is or makes one transfer inside
the buffer. A call has reported one transfer when it succeeds, and none before and when it
fails. -/
theorem queue_refines_fifo (cfg : Config) {m : Machine} {log : Ctx → Option CallRecord}
    {out : List Obs}
    (h : Run.Reach Machine.logged (fun _ _ => True) (Machine.startLogged cfg) (m, log) out)
    (q : ℕ) :
    ((m.kernel.queue q).itemSize, (m.kernel.queue q).capacity) = cfg.queue q ∧
    (m.kernel.queue q).WellFormed ∧
    (m.kernel.queue q).items.length ≤ (cfg.queue q).2.toNat ∧
    Fifo.Moves (cfg.queue q).2.toNat [] (queueEvents q (cfg.queue q).1 out)
      (m.kernel.queue q).items ∧
    (queueEvents q (cfg.queue q).1 out).filterMap Fifo.Event.sentItem =
      (queueEvents q (cfg.queue q).1 out).filterMap Fifo.Event.receivedItem ++
        (m.kernel.queue q).items ∧
    (∀ a m' o, m.step a = some (m', o) → (m.kernel.queue q).Transfers (m'.kernel.queue q)
      (queueEvents q (cfg.queue q).1 o)) ∧
    ∀ x c, m.ctl x = .queue c → ∃ r args, log x = some r ∧ r.call.queueArgs = some args ∧
      c.Transferred args r.reports := by
  have hinv : ((m.kernel.queue q).itemSize, (m.kernel.queue q).capacity) = cfg.queue q ∧
      (m.kernel.queue q).WellFormed ∧
      Fifo.Moves (cfg.queue q).2.toNat [] (queueEvents q (cfg.queue q).1 out)
        (m.kernel.queue q).items := by
    have hreach : Run.Reach Machine.step (fun _ _ => True) (Machine.start cfg) m out :=
      h.of_annotate fun _ _ _ => id
    refine hreach.induct (I := fun m out =>
      ((m.kernel.queue q).itemSize, (m.kernel.queue q).capacity) = cfg.queue q ∧
      (m.kernel.queue q).WellFormed ∧
      Fifo.Moves (cfg.queue q).2.toNat [] (queueEvents q (cfg.queue q).1 out)
        (m.kernel.queue q).items) ?_ ?_
    · have hqueue : (Machine.start cfg).kernel.queue q =
          { itemSize := (cfg.queue q).1, capacity := (cfg.queue q).2 } :=
        congrFun cfg.queue_created q
      rw [hqueue]
      exact ⟨rfl, ⟨Nat.zero_le _, Queue.toNat_pos_iff.2, (Nat.zero_mod _).symm⟩, .nil _⟩
    · rintro m m' a out o - ⟨hsize, hw, hmoves⟩ - hs
      obtain ⟨hw', htransfers⟩ := Machine.step_transfers (q := q) hs hw
      obtain ⟨hitem, hcapacity⟩ := htransfers.size
      have hmoves' := htransfers.moves
      rw [← hsize] at hmoves ⊢
      rw [hitem, hcapacity]
      refine ⟨rfl, hw', ?_⟩
      unfold queueEvents
      rw [List.filterMap_append]
      exact hmoves.trans hmoves'
  obtain ⟨hsize, hw, hmoves⟩ := hinv
  refine ⟨hsize, hw, hmoves.length_le (Nat.zero_le _), hmoves, hmoves.order,
    fun a m' o hs => ?_, fun x c hc => ?_⟩
  · rw [← hsize]
    exact (Machine.step_transfers hs hw).2
  · have hlogged := Machine.queueLogged_of_reach h x
    rw [hc] at hlogged
    exact hlogged

/-- Two tasks and a queue of one item of two bytes: the first task sends two items, the second one
receives while the first one waits. -/
def itemPassed : Option ((Machine × (Ctx → Option CallRecord)) × List Obs) :=
  Run.exec Machine.logged (Machine.startLogged
    { priorities := [0, 1], queue := fun _ => (2, 1) })
    [.call (.queueSend 0 [1, 2]), .exec, .exec, .exec, .call (.queueSend 0 [3, 4]), .exec,
      .pendSV, .call (.queueReceive 0), .exec, .exec, .exec, .pendSV, .exec, .exec]

/-- The first item has been passed on, and the second one is in the buffer. -/
theorem itemPassed_refines_fifo : ∃ m log out, itemPassed = some ((m, log), out) ∧
    Fifo.Moves 1 [] [.sent [1, 2], .received [1, 2], .sent [3, 4]] (m.kernel.queue 0).items := by
  have hout : itemPassed.map Prod.snd =
      some [.queueSent 0 [1, 2], .queueReceived 0 [1, 2], .queueSent 0 [3, 4]] := by
    decide +kernel
  obtain ⟨⟨⟨m, log⟩, out⟩, hrun, hout⟩ := Option.map_eq_some_iff.1 hout
  refine ⟨m, log, out, hrun, ?_⟩
  have hreach := Run.Reach.of_exec .init (.of_forall _ fun _ _ _ => trivial) hrun
  obtain ⟨-, -, -, hmoves, -⟩ := queue_refines_fifo _ hreach 0
  obtain rfl : out = _ := hout
  exact hmoves

end TamgaOs
