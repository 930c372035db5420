import TamgaOs.Machine.Context

/-!
# The steps of the queue calls on coherent wait lists

A queue call wakes the waiter it has popped after its critical section, so that between the two
steps the waiter is in no list and still blocked: the context owes it a wake-up.

## Main definitions

* `QueueEffect`: the steps of `queue.c` with the wait lists as explicit lists.
* `Popped k L l k' w L'`: what `wq_pop` does.

## Main results

* `queueStep_spec`: the code does what `QueueEffect` says, and the lists stay coherent.
* `QueueEffect.covered`: no wake-up is lost.
-/

namespace TamgaOs

/-- `wq_pop` on the list `l`: the state, the task popped, and the lists. -/
inductive Popped (k : Kernel) (L : WaitList → List TaskPtr) (l : WaitList) :
    Kernel → Option TaskPtr → (WaitList → List TaskPtr) → Prop
  | nobody (hl : L l = []) : Popped k L l k none L
  | first {w : TaskPtr} {xs : List TaskPtr} (hl : L l = w :: xs) :
      Popped k L l (k.setHead l (k.waitNext w)) (some w) (Function.update L l xs)

/-- The copy of a transfer, without the pop: the new state and the bytes received. -/
def Kernel.queueMoved (k : Kernel) (q : ℕ) : QueueOp → Kernel × List UInt8
  | .send item => (k.queueCopyIn q item, [])
  | .receive => k.queueCopyOut q

/-- One step of a queue call while `t` is the current task, on the wait lists `L`: the state, the
lists and the reports. -/
inductive QueueEffect (k : Kernel) (L : WaitList → List TaskPtr) (t : TaskPtr) :
    QueueCtl → Kernel → QueueCtl → (WaitList → List TaskPtr) → List Obs → Prop
  | enter {q : ℕ} {op : QueueOp} {ms : ℕ} :
      QueueEffect k L t (.enter q op ms) k (.loop q op (some (k.deadline ms)) false) L []
  | transfer {q : ℕ} {op : QueueOp} {d : Option ℕ} {retry : Bool} {k' : Kernel}
      {w : Option TaskPtr} {L' : WaitList → List TaskPtr} (hready : k.queueReady q op = true)
      (hpop : Popped (k.queueMoved q op).1 L (op.peerList q) k' w L') :
      QueueEffect k L t (.loop q op d retry) k'
        (.wake w d.isSome ⟨q, op, 0, (k.queueMoved q op).2⟩) L'
        [queueObs q op (k.queueMoved q op).2]
  | expired {q : ℕ} {op : QueueOp} {d : ℕ} {retry : Bool} (hnot : k.queueReady q op = false) :
      QueueEffect k L t (.loop q op (some d) retry) k (.returned ⟨q, op, -1, []⟩) L []
  | block {q : ℕ} {op : QueueOp} {d : Option ℕ} {retry : Bool} {k' : Kernel}
      (hnot : k.queueReady q op = false) (hq : Quiet k k' {t})
      (hmark : d.isSome → (k'.tcb t).timedOut = false) :
      QueueEffect k L t (.loop q op d retry) k' (.blocked q op d)
        (Function.update L (op.ownList q) (k.enqueued t (L (op.ownList q)))) []
  | timeout {q : ℕ} {op : QueueOp} {d : ℕ} (hmark : (k.tcb t).timedOut = true) :
      QueueEffect k L t (.blocked q op (some d))
        (k.modifyTask t fun x => { x with timedOut := false, waitListHead := none })
        (.returned ⟨q, op, -1, []⟩) L []
  | resume {q : ℕ} {op : QueueOp} {d : Option ℕ} :
      QueueEffect k L t (.blocked q op d) k (.loop q op d true) L []
  | attempt {q : ℕ} {op : QueueOp} {k' : Kernel} {w : Option TaskPtr}
      {L' : WaitList → List TaskPtr} (hready : k.queueReady q op = true)
      (hpop : Popped (k.queueMoved q op).1 L (op.peerList q) k' w L') :
      QueueEffect k L t (.attempt q op) k' (.wake w false ⟨q, op, 1, (k.queueMoved q op).2⟩) L'
        [queueObs q op (k.queueMoved q op).2]
  | fail {q : ℕ} {op : QueueOp} :
      QueueEffect k L t (.attempt q op) k (.returned ⟨q, op, 0, []⟩) L []
  | wake {w : TaskPtr} {timed : Bool} {r : QueueReturn} {k' : Kernel} (hq : Quiet k k' ∅) :
      QueueEffect k L t (.wake (some w) timed r) k' (.trigger timed r) L []
  | skip {timed : Bool} {r : QueueReturn} :
      QueueEffect k L t (.wake none timed r) k (.finish timed r) L []
  | trigger {timed : Bool} {r : QueueReturn} {k' : Kernel} (hq : Quiet k k' ∅) :
      QueueEffect k L t (.trigger timed r) k' (.finish timed r) L []
  | finish {timed : Bool} {r : QueueReturn} {k' : Kernel} (hq : Quiet k k' ∅) :
      QueueEffect k L t (.finish timed r) k' (.returned r) L []

variable {k k' : Kernel} {ctl : Ctx → Ctl} {W : Ctx → Option TaskPtr}
  {L L' : WaitList → List TaskPtr} {t : TaskPtr} {x : Ctx} {c c' : QueueCtl} {o : List Obs}
  {l : WaitList} {w : Option TaskPtr} {q : ℕ} {op : QueueOp}

/-! ### Popping -/

/-- `wq_pop` on coherent lists. -/
theorem Coherent.wqPop (h : Coherent k ctl W L) (hx : W x = none) (l : WaitList) :
    ∃ L', Popped k L l (k.wqPop l).1 (k.wqPop l).2 L' ∧
      Coherent (k.wqPop l).1 ctl (Function.update W x (k.wqPop l).2) L' := by
  cases hl : L l with
  | nil =>
    rw [Kernel.wqPop_nil (hl ▸ h.waiters l)]
    refine ⟨L, .nobody hl, ?_⟩
    rw [← hx, Function.update_eq_self]
    exact h
  | cons w xs =>
    rw [Kernel.wqPop_cons (hl ▸ h.waiters l)]
    exact ⟨_, .first hl, h.pop hl hx⟩

namespace Popped

theorem quiet (hp : Popped k L l k' w L') : Quiet k k' ∅ := by
  cases hp with
  | nobody hl => exact .refl k ∅
  | first hl => exact ((Relinked.setHead (S := []) _ l).quiet.mono (Set.empty_subset ∅))

theorem list_of_ne (hp : Popped k L l k' w L') {l' : WaitList} (hl : l' ≠ l) : L' l' = L l' := by
  cases hp with
  | nobody _ => rfl
  | first _ => exact Function.update_of_ne hl ..

theorem mem_of_mem (hp : Popped k L l k' w L') {l' : WaitList} {u : TaskPtr}
    (hu : u ∈ L' l') : u ∈ L l' := by
  cases hp with
  | nobody _ => exact hu
  | first hl =>
    rcases mem_of_mem_update hu with hold | ⟨rfl, hin⟩
    · exact hold
    · exact hl ▸ List.mem_cons_of_mem _ hin

end Popped

namespace Kernel

theorem sameSched_queueMoved (k : Kernel) (q : ℕ) (op : QueueOp) :
    SameSched k (k.queueMoved q op).1 := by
  cases op <;> exact ⟨rfl, rfl, rfl, rfl, rfl, fun _ => rfl, rfl, fun _ h => h, fun _ => rfl⟩

theorem queueTransfer_eq (k : Kernel) (q : ℕ) (op : QueueOp) :
    k.queueTransfer q op =
      (((k.queueMoved q op).1.wqPop (op.peerList q)).1, (k.queueMoved q op).2,
        ((k.queueMoved q op).1.wqPop (op.peerList q)).2) := by
  cases op <;> rfl

end Kernel

theorem Coherent.finish (h : Coherent k ctl W L) (hfree : Free L W t)
    (hd : (k.tcb t).delayTicks = 0) :
    Coherent (k.modifyTask t fun x => { x with waitListHead := none }) ctl W L :=
  h.modifyFree hfree fun hpos => absurd hpos (by simp [hd])

/-- The code of the queue calls does what `QueueEffect` says. -/
theorem queueStep_spec (h : Coherent k ctl W L) (hx : Runs k x t) (hc : ctl x = .queue c)
    (hW : W x = (Ctl.queue c).wakes) (hs : queueStep k t c = some (k', c', o)) :
    ∃ L', QueueEffect k L t c k' c' L' o ∧
      Coherent k' (Function.update ctl x (.queue c'))
        (Function.update W x (Ctl.queue c').wakes) L' := by
  have hadv : ∀ c', ((Ctl.queue c).isrSafe = true → (Ctl.queue c').isrSafe = true) →
      Coherent k (Function.update ctl x (.queue c')) W L := fun c' hsafe =>
    h.advance hx hc (by simp) rfl hsafe
  have hkeep : ∀ c', W x = none → (Ctl.queue c').wakes = none →
      Function.update W x (Ctl.queue c').wakes = W := fun c' hn hc' => by
    rw [hc', ← hn, Function.update_eq_self]
  cases c with
  | enter q op ms =>
    cases hs
    exact ⟨L, .enter, by rw [hkeep _ hW rfl]; exact hadv _ fun hf => by cases hf⟩
  | loop q op d retry =>
    obtain rfl := h.thread_of_not_isrSafe hx (by rw [hc]; rfl)
    obtain ⟨hfree, htab⟩ := h.free_of_runs hx (by rw [hc]; simp)
    have hd := h.delay_eq_zero hfree (by rw [hc]; rfl)
    rcases queueStep_loop hs with ⟨hready, rfl, rfl, rfl⟩ | ⟨d, hnot, rfl, -, rfl, rfl, rfl⟩ |
      ⟨hnot, -, hb, rfl, rfl⟩
    · rw [k.queueTransfer_eq]
      have hco := (hadv (.wake ((k.queueMoved q op).1.wqPop (op.peerList q)).2 d.isSome
        ⟨q, op, 0, (k.queueMoved q op).2⟩) fun hf => by cases hf).congr
          (k.sameSched_queueMoved q op)
      obtain ⟨L', hpop, hco'⟩ := hco.wqPop hW (op.peerList q)
      exact ⟨L', .transfer hready hpop, hco'⟩
    · exact ⟨L, .expired hnot, by rw [hkeep _ hW rfl]; exact hadv _ fun hf => by cases hf⟩
    · obtain ⟨k₁, hb₁, hblock⟩ := Kernel.blockOn_spec (h.waiters (op.ownList q)) (hfree.1 _)
        (h.length_lt _) (d.map fun d => d - k.ticks)
      cases hb.symm.trans hb₁
      refine ⟨_, .block hnot (hblock.quiet.mono fun u hu => hu.1) fun hr =>
        hblock.timedOut_self (by simpa using hr), ?_⟩
      rw [hkeep _ hW rfl]
      exact h.block hfree htab hd hblock rfl fun hsome => (by simpa using hsome : d.isSome = true)
  | blocked q op d =>
    obtain rfl := h.thread_of_not_isrSafe hx (by rw [hc]; rfl)
    obtain ⟨hfree, -⟩ := h.free_of_runs hx (by rw [hc]; simp)
    have hd := h.delay_eq_zero hfree (by rw [hc]; rfl)
    simp only [queueStep] at hs
    split_ifs at hs with hto
    · cases hs
      obtain ⟨d, rfl⟩ := Option.isSome_iff_exists.1 hto.1
      refine ⟨L, .timeout hto.2, ?_⟩
      rw [hkeep _ hW rfl]
      exact (hadv _ fun hf => by cases hf).modifyFree hfree fun hpos => absurd hpos (by simp [hd])
    · cases hs
      exact ⟨L, .resume, by rw [hkeep _ hW rfl]; exact hadv _ fun hf => by cases hf⟩
  | attempt q op =>
    by_cases hready : k.queueReady q op = true
    · simp only [queueStep, if_pos hready, k.queueTransfer_eq] at hs
      cases hs
      have hco := (hadv (.wake ((k.queueMoved q op).1.wqPop (op.peerList q)).2 false
        ⟨q, op, 1, (k.queueMoved q op).2⟩) fun _ => rfl).congr (k.sameSched_queueMoved q op)
      obtain ⟨L', hpop, hco'⟩ := hco.wqPop hW (op.peerList q)
      exact ⟨L', .attempt hready hpop, hco'⟩
    · simp only [queueStep, if_neg hready] at hs
      cases hs
      exact ⟨L, .fail, by rw [hkeep _ hW rfl]; exact hadv _ fun _ => rfl⟩
  | wake w timed r =>
    cases w with
    | none =>
      cases hs
      refine ⟨L, .skip, ?_⟩
      rw [hkeep _ hW rfl]
      refine hadv _ fun hf => ?_
      cases timed <;> exact hf
    | some w =>
      cases hs
      refine ⟨L, .wake (.wakeSection k w), (hadv (.trigger timed r) fun hf => ?_).wake hW⟩
      cases timed <;> exact hf
  | trigger timed r =>
    cases hs
    refine ⟨L, .trigger (.triggerIfSwitch k), ?_⟩
    rw [hkeep _ hW rfl]
    refine (hadv (.finish timed r) fun hf => ?_).triggerIfSwitch
    cases timed <;> exact hf
  | finish timed r =>
    cases timed with
    | false =>
      cases hs
      exact ⟨L, .finish (.refl k ∅), by rw [hkeep _ hW rfl]; exact hadv _ fun _ => rfl⟩
    | true =>
      cases hs
      obtain rfl := h.thread_of_not_isrSafe hx (by rw [hc]; rfl)
      obtain ⟨hfree, -⟩ := h.free_of_runs hx (by rw [hc]; simp)
      refine ⟨L, .finish (.modifyTask t rfl fun _ => rfl), ?_⟩
      rw [hkeep _ hW rfl]
      exact (hadv _ fun _ => rfl).finish hfree (h.delay_eq_zero hfree (by rw [hc]; rfl))
  | returned r => cases hs

/-! ### What a transfer does to the two sides -/

theorem QueueOp.ownList_ne_peerList (q : ℕ) (op : QueueOp) : op.ownList q ≠ op.peerList q := by
  cases op <;> exact WaitList.noConfusion

theorem QueueOp.family_ownList (q : ℕ) (op : QueueOp) : (op.ownList q).family = .queue := by
  cases op <;> rfl

theorem QueueOp.family_peerList (q : ℕ) (op : QueueOp) : (op.peerList q).family = .queue := by
  cases op <;> rfl

namespace Kernel

/-- The test of a call is true exactly when there is something for it. -/
theorem queueReady_iff : k.queueReady q op = true ↔ 0 < avail k (op.ownList q) := by
  cases op with
  | send item =>
    simp only [queueReady, avail, QueueOp.ownList, decide_eq_true_iff]
    omega
  | receive => simp only [queueReady, avail, QueueOp.ownList, decide_eq_true_iff]

theorem queue_queueMoved (k : Kernel) (q u : ℕ) (op : QueueOp) (hu : u ≠ q) :
    (k.queueMoved q op).1.queue u = k.queue u := by
  cases op <;> exact Function.update_of_ne hu ..

/-- A transfer takes one from what is available to its own side. -/
theorem avail_ownList_queueMoved (hready : k.queueReady q op = true) :
    avail (k.queueMoved q op).1 (op.ownList q) + 1 ≤ avail k (op.ownList q) := by
  cases op with
  | send item =>
    have hcap := (k.queue q).capacity.toNat_lt
    simp only [queueReady, decide_eq_true_eq] at hready
    simp only [queueMoved, queueCopyIn, modifyQueue, QueueOp.ownList, avail, Function.update_self]
    omega
  | receive =>
    simp only [queueReady, decide_eq_true_eq] at hready
    simp only [queueMoved, queueCopyOut, modifyQueue, QueueOp.ownList, avail,
      Function.update_self]
    omega

/-- A transfer adds one to what is available to the other side. -/
theorem avail_peerList_queueMoved (k : Kernel) (q : ℕ) (op : QueueOp) :
    avail (k.queueMoved q op).1 (op.peerList q) ≤ avail k (op.peerList q) + 1 := by
  cases op with
  | send item =>
    simp only [queueMoved, queueCopyIn, modifyQueue, QueueOp.peerList, avail,
      Function.update_self]
    exact Nat.mod_le ..
  | receive =>
    simp only [queueMoved, queueCopyOut, modifyQueue, QueueOp.peerList, avail,
      Function.update_self]
    omega

theorem avail_queueMoved_of_ne (hown : l ≠ op.ownList q) (hpeer : l ≠ op.peerList q) :
    avail (k.queueMoved q op).1 l = avail k l := by
  cases l with
  | queueSend u =>
    have hu : u ≠ q := by
      rintro rfl
      cases op
      · exact hown rfl
      · exact hpeer rfl
    simp only [avail, k.queue_queueMoved q u op hu]
  | queueReceive u =>
    have hu : u ≠ q := by
      rintro rfl
      cases op
      · exact hpeer rfl
      · exact hown rfl
    simp only [avail, k.queue_queueMoved q u op hu]
  | sem s => cases op <;> rfl
  | mutex m => cases op <;> rfl
  | event e => rfl

theorem untouched_queueMoved (k : Kernel) (q : ℕ) (op : QueueOp) (x : Ctx)
    (L : WaitList → List TaskPtr) : Untouched .queue x k (k.queueMoved q op).1 L L := by
  cases op <;> exact ⟨fun _ => rfl, fun _ => rfl, fun h => absurd rfl h, fun _ => ⟨rfl, rfl⟩,
    fun _ _ _ => rfl, fun _ => rfl, id, rfl, fun _ _ _ => rfl, fun _ _ => rfl⟩

end Kernel

namespace QueueEffect

theorem untouched (he : QueueEffect k L t c k' c' L' o)
    (hx : (Ctl.queue c).isrSafe = false → x = .thread t) : Untouched .queue x k k' L L' := by
  have hlist : ∀ (l' : WaitList) (xs : List TaskPtr) (l : WaitList), l'.family = .queue →
      l.family ≠ .queue → Function.update L l' xs l = L l := by
    rintro l' xs l hl' hl
    exact Function.update_of_ne (fun he => hl (by rw [he]; exact hl')) ..
  have hrefl : Untouched .queue x k k L L := .refl k L
  cases he with
  | enter | expired _ | resume | fail | skip => exact hrefl
  | transfer _ hpop | attempt _ hpop =>
    refine (k.untouched_queueMoved _ _ x L).trans
      (hpop.quiet.untouched (by simp) fun l hl => hpop.list_of_ne fun he => hl ?_)
    rw [he]
    exact QueueOp.family_peerList ..
  | block _ hq _ =>
    obtain rfl := hx rfl
    refine hq.untouched (by simp) fun l hl => hlist _ _ l (QueueOp.family_ownList ..) hl
  | timeout _ =>
    obtain rfl := hx rfl
    refine (Quiet.modifyTask (T := {t}) t ?_ fun ht => absurd rfl ht).untouched (by simp)
      fun _ _ => rfl
    rfl
  | wake hq | trigger hq | finish hq => exact hq.untouched (by simp) fun _ _ => rfl

/-- Only the executing task is linked. -/
theorem newly (he : QueueEffect k L t c k' c' L' o) {l : WaitList} {u : TaskPtr}
    (hu : u ∈ L' l) : u ∈ L l ∨ Newly k' t (.queue c) (.queue c') u := by
  cases he with
  | enter | expired _ | timeout _ | resume | fail | wake _ | skip | trigger _ | finish _ =>
    exact Or.inl hu
  | transfer _ hpop | attempt _ hpop => exact Or.inl (hpop.mem_of_mem hu)
  | block _ _ hmark =>
    rcases mem_of_mem_update hu with hold | ⟨rfl, hin⟩
    · exact Or.inl hold
    · exact (Kernel.mem_enqueued.1 hin).symm.imp_right fun he => ⟨he, rfl, hmark⟩

/-- No wake-up is lost. -/
theorem covered (he : QueueEffect k L t c k' c' L' o) (h : Coherent k ctl W L) (hx : Runs k x t)
    (hc : ctl x = .queue c) (hcov : ∀ l, Covered k ctl L l)
    (hfresh : ∀ l u, u ∈ L l → (ctl (.thread u)).timed = true → (k.tcb u).timedOut = false)
    (l : WaitList) : Covered k' (Function.update ctl x (.queue c')) L' l := by
  have hthread : (Ctl.queue c).isrSafe = false → x = .thread t := by
    rw [← hc]
    exact h.thread_of_not_isrSafe hx
  have hmark := fun u happ => (he.untouched hthread).timedOut u (h.table u happ)
  have hnone : none ≠ some l := (Option.some_ne_none l).symm
  have hno : (Ctl.queue c).retries ≠ some l → (Ctl.queue c).waitsOn ≠ some l →
      ∀ v, x = .thread v → ¬ StillToRetry k ctl L l v := by
    rintro hr hw v rfl
    exact not_stillToRetry (by rwa [hc]) (by rwa [hc])
  have hloop : ∀ {q op d retry}, c = .loop q op d retry → l ≠ op.ownList q →
      ∀ v, x = .thread v → ¬ StillToRetry k ctl L l v := by
    rintro q op d retry rfl hl
    refine hno (fun hr => ?_) hnone
    cases retry with
    | false => cases hr
    | true => exact hl (Option.some.inj hr).symm
  -- popping the other side hands over what the transfer has added to it
  have hpeer : ∀ {q op w}, Popped (k.queueMoved q op).1 L (op.peerList q) k' w L' →
      l = op.peerList q → (Ctl.queue c).retries ≠ some l → (Ctl.queue c).waitsOn ≠ some l →
      Covered k' (Function.update ctl x (.queue c')) L' l := by
    rintro q op w hpop rfl hr hw
    have ha : avail k' (op.peerList q) ≤ avail k (op.peerList q) + 1 := by
      rw [avail_congr hpop.quiet]
      exact k.avail_peerList_queueMoved q op
    cases hpop with
    | nobody hl => exact Handoff.Covered.of_not_waiting (not_not.2 hl)
    | first hl =>
      exact (hcov _).supply h hl (hfresh _ _ (hl ▸ List.mem_cons_self)) (by rwa [hc])
        (by rwa [hc]) hmark ha (Function.update_self ..)
  have hzero : ∀ {q op}, k.queueReady q op = false → avail k (op.ownList q) = 0 := by
    intro q op hnot
    by_contra hne
    rw [Kernel.queueReady_iff.2 (Nat.pos_of_ne_zero hne)] at hnot
    cases hnot
  have hcov' := hcov l
  cases he with
  | enter | fail | skip =>
    exact hcov'.elsewhere (hno hnone hnone) hmark le_rfl rfl
  | wake hq | trigger hq | finish hq =>
    exact hcov'.elsewhere (hno hnone hnone) hmark
      (avail_congr hq l).le rfl
  | transfer hready hpop =>
    obtain rfl := hthread rfl
    rename_i q op d retry w
    by_cases hown : l = op.ownList q
    · subst hown
      have hne := op.ownList_ne_peerList q
      refine hcov'.take (fun v happ hv => hmark v happ (by simpa using Ne.symm hv)) ?_ (hpop.list_of_ne hne)
      rw [avail_congr hpop.quiet]
      exact Kernel.avail_ownList_queueMoved hready
    · by_cases hp : l = op.peerList q
      · refine hpeer hpop hp (fun hr => ?_) hnone
        cases retry with
        | false => cases hr
        | true => exact hown (Option.some.inj hr).symm
      · refine hcov'.elsewhere (hloop rfl hown) hmark (le_of_eq ?_) (hpop.list_of_ne hp)
        rw [avail_congr hpop.quiet]
        exact Kernel.avail_queueMoved_of_ne hown hp
  | attempt hready hpop =>
    rename_i q op w
    by_cases hp : l = op.peerList q
    · exact hpeer hpop hp hnone hnone
    · refine hcov'.elsewhere (hno hnone hnone) hmark ?_
        (hpop.list_of_ne hp)
      rw [avail_congr hpop.quiet]
      by_cases hown : l = op.ownList q
      · subst hown
        exact (Nat.le_succ _).trans (Kernel.avail_ownList_queueMoved hready)
      · exact (Kernel.avail_queueMoved_of_ne hown hp).le
  | expired hnot =>
    rename_i q op d retry
    by_cases hown : l = op.ownList q
    · subst hown
      exact Handoff.Covered.of_zero (hzero hnot)
    · exact hcov'.elsewhere (hloop rfl hown) hmark le_rfl rfl
  | block hnot hq hm =>
    rename_i q op d retry
    by_cases hown : l = op.ownList q
    · subst hown
      exact Handoff.Covered.of_zero ((avail_congr hq _).trans (hzero hnot))
    · exact hcov'.elsewhere (hloop rfl hown) hmark (avail_congr hq l).le
        (Function.update_of_ne hown ..)
  | timeout hm =>
    refine hcov'.elsewhere ?_ hmark ?_ rfl
    · obtain rfl := hthread rfl
      rintro v hv
      cases hv
      rintro (he | ⟨-, -, hn⟩)
      · rw [hc] at he
        cases he
      · exact hn ⟨by rw [hc]; rfl, hm⟩
    · cases l <;> exact le_rfl
  | resume =>
    obtain rfl := hthread rfl
    exact hcov'.resume (by rw [hc]; rfl) (by rw [hc]; rfl)

/-- What a step reports is about queues. -/
theorem family (he : QueueEffect k L t c k' c' L' o) : ∀ b ∈ o, b.family = .queue := by
  have hobs : ∀ q op item, (queueObs q op item).family = .queue := by
    intro q op item
    cases op <;> rfl
  cases he <;> simp [hobs]

end QueueEffect

end TamgaOs
