import TamgaOs.Machine.Context
import Mathlib.Order.MinMax

/-!
# The steps of the mutex calls on coherent wait lists

## Main definitions

* `MutexEffect`: the steps of `mutex.c` with the wait lists as explicit lists.

## Main results

* `mutexStep_spec`: the code does what `MutexEffect` says, and the lists stay coherent.
* `MutexEffect.covered`: no wake-up is lost.
-/

namespace TamgaOs

/-- The state after `mutex_unlock` has restored the priority of the owner and freed the mutex,
before it wakes the task it has popped. -/
def Kernel.mutexFreed (k : Kernel) (m : ℕ) : Kernel :=
  (k.mutexRestore m).modifyMutex m fun x => { x with task := none }

/-- One step of a mutex call by the current task `t`, on the wait lists `L`: the state, the lists
and the reports. -/
inductive MutexEffect (k : Kernel) (L : WaitList → List TaskPtr) (t : TaskPtr) :
    MutexCtl → Kernel → MutexCtl → (WaitList → List TaskPtr) → List Obs → Prop
  | enter {m ms : ℕ} :
      MutexEffect k L t (.enter m ms) k (.attempt m (some (k.deadline ms)) false) L []
  | acquire {m : ℕ} {d : Option ℕ} {retry : Bool} (hfree : (k.mutex m).task = none) :
      MutexEffect k L t (.attempt m d retry) (k.modifyMutex m fun x => { x with task := some t })
        (match d with
          | none => .locked m
          | some _ => .acquired m) L [.mutexAcquired t m]
  | retreat {m : ℕ} {d : Option ℕ} {retry : Bool} (hheld : (k.mutex m).task ≠ none) :
      MutexEffect k L t (.attempt m d retry) k
        (match d with
          | none => .block m none
          | some d => .clock m d) L []
  | expired {m d : ℕ} : MutexEffect k L t (.clock m d) k (.lockTimeoutReturned m (-1)) L []
  | read {m d : ℕ} : MutexEffect k L t (.clock m d) k (.block m (some (d, d - k.ticks))) L []
  | reconsider {m : ℕ} {timeout : Option (ℕ × ℕ)} :
      MutexEffect k L t (.block m timeout) k (.attempt m (timeout.map Prod.fst) false) L []
  | block {m : ℕ} {timeout : Option (ℕ × ℕ)} {owner : TaskPtr} {k' : Kernel}
      (howner : (k.mutex m).task = some owner) (hq : Quiet (k.mutexElevate m owner t) k' {t})
      (hmark : timeout.isSome → (k'.tcb t).timedOut = false) :
      MutexEffect k L t (.block m timeout) k' (.blocked m (timeout.map Prod.fst))
        (Function.update L (.mutex m) ((k.mutexElevate m owner t).enqueued t (L (.mutex m)))) []
  | timeout {m d : ℕ} (hmark : (k.tcb t).timedOut = true) :
      MutexEffect k L t (.blocked m (some d))
        (k.modifyTask t fun x => { x with timedOut := false, waitListHead := none })
        (.lockTimeoutReturned m (-1)) L []
  | resume {m : ℕ} {d : Option ℕ} :
      MutexEffect k L t (.blocked m d) k (.attempt m d true) L []
  | acquired {m : ℕ} :
      MutexEffect k L t (.acquired m) (k.modifyTask t fun x => { x with waitListHead := none })
        (.lockTimeoutReturned m 0) L []
  | trylock {m : ℕ} (hfree : (k.mutex m).task = none) :
      MutexEffect k L t (.trylock m) (k.modifyMutex m fun x => { x with task := some t })
        (.trylocked m true) L [.mutexAcquired t m]
  | tryfail {m : ℕ} : MutexEffect k L t (.trylock m) k (.trylocked m false) L []
  | unlock {m : ℕ} (howner : (k.mutex m).task = some t) :
      MutexEffect k L t (.unlock m) k (.release m) L []
  | refuse {m : ℕ} (hother : (k.mutex m).task ≠ some t) :
      MutexEffect k L t (.unlock m) k (.unlocked m) L []
  | release {m : ℕ} (hl : L (.mutex m) = []) :
      MutexEffect k L t (.release m) (k.mutexFreed m) (.unlocked m) L [.mutexReleased t m]
  | handOver {m : ℕ} {w : TaskPtr} {xs : List TaskPtr} {k' : Kernel}
      (hl : L (.mutex m) = w :: xs) (hq : Quiet (k.mutexFreed m) k' ∅) :
      MutexEffect k L t (.release m) k' (.unlocked m) (Function.update L (.mutex m) xs)
        [.mutexReleased t m]

variable {k k' : Kernel} {ctl : Ctx → Ctl} {W : Ctx → Option TaskPtr}
  {L L' : WaitList → List TaskPtr} {t : TaskPtr} {x : Ctx} {c c' : MutexCtl} {o : List Obs}

/-! ### Stores to mutexes and priorities -/

namespace Kernel

theorem sameSched_modifyMutex (k : Kernel) (m : ℕ) (f : Mutex → Mutex) :
    SameSched k (k.modifyMutex m f) :=
  ⟨rfl, rfl, rfl, rfl, rfl, fun _ => rfl, rfl, fun _ h => h, fun _ => rfl⟩

theorem tcb_setPriority (k : Kernel) (t u : TaskPtr) (p : ℕ) :
    (k.setPriority t p).tcb u =
      { k.tcb u with priority := if u = t then p else (k.tcb u).priority } := by
  unfold setPriority
  rw [modifyTask_tcb]
  split_ifs with h
  · rw [h]
  · rfl

theorem sameSched_setPriority (k : Kernel) (t : TaskPtr) (p : ℕ) :
    SameSched k (k.setPriority t p) := by
  refine ⟨rfl, rfl, rfl, rfl, rfl, fun u => by rw [tcb_setPriority], ?_, fun u hu => ?_,
    fun u => by rw [tcb_setPriority]⟩
  · funext u
    change ((k.setPriority t p).tcb u).waitNext = _
    rw [tcb_setPriority]
    rfl
  · rw [tcb_setPriority] at hu
    exact hu

theorem sameSched_mutexElevate (k : Kernel) (m : ℕ) (owner t : TaskPtr) :
    SameSched k (k.mutexElevate m owner t) := by
  unfold mutexElevate
  dsimp only
  split_ifs
  · exact k.sameSched_setPriority owner _
  · exact (k.sameSched_modifyMutex m _).trans (sameSched_setPriority _ owner _)
  · exact .refl k

theorem sameSched_mutexRestore (k : Kernel) (m : ℕ) : SameSched k (k.mutexRestore m) := by
  unfold mutexRestore
  dsimp only
  split_ifs
  · refine SameSched.trans ?_ (sameSched_modifyMutex _ m _)
    split
    · exact k.sameSched_setPriority _ _
    · exact .refl k
  · exact .refl k

theorem sameSched_mutexFreed (k : Kernel) (m : ℕ) : SameSched k (k.mutexFreed m) :=
  (k.sameSched_mutexRestore m).trans (sameSched_modifyMutex _ m _)

theorem mutexFreed_setHead (k : Kernel) (m : ℕ) (l : WaitList) (h : Option TaskPtr) :
    (k.setHead l h).mutexFreed m = (k.mutexFreed m).setHead l h := by
  have hmutex : (k.setHead l h).mutex m = k.mutex m := rfl
  unfold mutexFreed mutexRestore
  rw [hmutex]
  split_ifs
  · rcases (k.mutex m).task with _ | owner <;> rfl
  · rfl

/-- The critical section of `mutex_unlock` on a mutex nobody waits for. -/
theorem mutexReleaseSection_nil {m : ℕ} (hw : k.Waiters (.mutex m) []) :
    k.mutexReleaseSection m = k.mutexFreed m := by
  rw [mutexReleaseSection, wqPop_nil hw]
  rfl

/-- The critical section of `mutex_unlock` on a mutex whose first waiter is `w`. -/
theorem mutexReleaseSection_cons {m : ℕ} {w : TaskPtr} {xs : List TaskPtr}
    (hw : k.Waiters (.mutex m) (w :: xs)) :
    k.mutexReleaseSection m =
      ((k.mutexFreed m).setHead (.mutex m) (k.waitNext w)).schedWakeTask w := by
  rw [mutexReleaseSection, wqPop_cons hw, ← mutexFreed_setHead]
  rfl

end Kernel

/-- The code of the mutex calls does what `MutexEffect` says. -/
theorem mutexStep_spec (h : Coherent k ctl W L) (hx : Runs k x t) (hc : ctl x = .mutex c)
    (hs : mutexStep k t c = some (k', c', o)) :
    ∃ L', MutexEffect k L t c k' c' L' o ∧
      Coherent k' (Function.update ctl x (.mutex c')) W L' := by
  -- no handler makes these calls
  obtain rfl := h.thread_of_not_isrSafe hx (by rw [hc]; rfl)
  obtain ⟨hfree, htab⟩ := h.free_of_runs hx (by rw [hc]; simp)
  have hd := h.delay_eq_zero hfree (by rw [hc]; rfl)
  have hadv : ∀ c', Coherent k (Function.update ctl (.thread t) (.mutex c')) W L := fun c' =>
    h.advance hx hc (by simp) rfl fun hf => by cases hf
  cases c with
  | enter m ms =>
    cases hs
    exact ⟨L, .enter, hadv _⟩
  | attempt m d retry =>
    by_cases hm : (k.mutex m).task = none
    · have hco := fun c' => (hadv c').congr
        (k.sameSched_modifyMutex m fun x => { x with task := some t })
      simp only [mutexStep, Kernel.mutexTryAcquire, if_pos hm] at hs
      cases d with
      | none =>
        cases hs
        exact ⟨L, .acquire hm, hco _⟩
      | some d =>
        cases hs
        exact ⟨L, .acquire hm, hco _⟩
    · simp only [mutexStep, Kernel.mutexTryAcquire, if_neg hm] at hs
      cases d with
      | none =>
        cases hs
        exact ⟨L, .retreat hm, hadv _⟩
      | some d =>
        cases hs
        exact ⟨L, .retreat hm, hadv _⟩
  | clock m d =>
    simp only [mutexStep] at hs
    split_ifs at hs
    · cases hs
      exact ⟨L, .expired, hadv _⟩
    · cases hs
      exact ⟨L, .read, hadv _⟩
  | block m timeout =>
    rcases mutexStep_block hs with ⟨-, rfl, rfl, rfl⟩ | ⟨owner, hm, hb, rfl, rfl⟩
    · exact ⟨L, .reconsider, hadv _⟩
    · have hsame := k.sameSched_mutexElevate m owner t
      have h₁ := h.congr hsame
      obtain ⟨k₁, hb₁, hblock⟩ := Kernel.blockOn_spec (h₁.waiters (.mutex m)) (hfree.1 _)
        (h₁.length_lt _) (timeout.map Prod.snd)
      cases hb.symm.trans hb₁
      have htab₁ : InTable (k.mutexElevate m owner t) t := by
        unfold InTable
        rw [hsame.taskCount]
        exact htab
      have hd₁ : ((k.mutexElevate m owner t).tcb t).delayTicks = 0 := by
        by_contra hne
        exact (hsame.delayTicks t (Nat.pos_of_ne_zero hne)).ne' hd
      refine ⟨_, .block hm (hblock.quiet.mono fun u hu => hu.1) fun hr =>
        hblock.timedOut_self (by simpa using hr),
        h₁.block hfree htab₁ hd₁ hblock rfl fun hr => ?_⟩
      simpa [Ctl.timed] using hr
  | blocked m d =>
    simp only [mutexStep] at hs
    split_ifs at hs with hto
    · cases hs
      obtain ⟨d, rfl⟩ := Option.isSome_iff_exists.1 hto.1
      exact ⟨L, .timeout hto.2, (hadv _).modifyFree hfree fun hpos => absurd hpos (by simp [hd])⟩
    · cases hs
      exact ⟨L, .resume, hadv _⟩
  | acquired m =>
    cases hs
    exact ⟨L, .acquired, (hadv _).modifyFree hfree fun hpos => absurd hpos (by simp [hd])⟩
  | trylock m =>
    by_cases hm : (k.mutex m).task = none
    · simp only [mutexStep, Kernel.mutexTryAcquire, if_pos hm] at hs
      cases hs
      exact ⟨L, .trylock hm, (hadv _).congr (k.sameSched_modifyMutex m _)⟩
    · simp only [mutexStep, Kernel.mutexTryAcquire, if_neg hm] at hs
      cases hs
      exact ⟨L, .tryfail, hadv _⟩
  | unlock m =>
    simp only [mutexStep] at hs
    split_ifs at hs with hm
    · cases hs
      exact ⟨L, .unlock hm, hadv _⟩
    · cases hs
      exact ⟨L, .refuse hm, hadv _⟩
  | release m =>
    cases hs
    have hco := (hadv (.unlocked m)).congr (k.sameSched_mutexFreed m)
    cases hl : L (.mutex m) with
    | nil =>
      rw [Kernel.mutexReleaseSection_nil (hl ▸ h.waiters (.mutex m))]
      exact ⟨L, .release hl, hco⟩
    | cons w xs =>
      have hnext : (k.mutexFreed m).waitNext = k.waitNext := (k.sameSched_mutexFreed m).waitNext
      rw [Kernel.mutexReleaseSection_cons (hl ▸ h.waiters (.mutex m)), ← hnext]
      exact ⟨_, .handOver hl (.handOver ..), hco.handOver hl⟩
  | locked m | lockTimeoutReturned m v | trylocked m r | unlocked m => cases hs

/-! ### What the effects leave alone -/

/-- The mutex that a call is about. -/
def MutexCtl.index : MutexCtl → ℕ
  | .enter m _ | .attempt m _ _ | .clock m _ | .block m _ | .blocked m _ | .acquired m
  | .trylock m | .unlock m | .release m | .locked m | .lockTimeoutReturned m _
  | .trylocked m _ | .unlocked m => m

theorem MutexCtl.eq_index_of_waitsOn {u : ℕ} (h : (Ctl.mutex c).waitsOn = some (.mutex u)) :
    u = c.index := by
  cases c <;> cases h
  rfl

theorem MutexCtl.eq_index_of_retries {u : ℕ} (h : (Ctl.mutex c).retries = some (.mutex u)) :
    u = c.index := by
  cases c <;> first | cases h | skip
  rename_i m d retry
  cases retry <;> cases h
  rfl

namespace Kernel

theorem mutex_modifyMutex (k : Kernel) (m u : ℕ) (f : Mutex → Mutex) :
    (k.modifyMutex m f).mutex u = if u = m then f (k.mutex m) else k.mutex u :=
  Function.update_apply ..

theorem mutex_setPriority (k : Kernel) (t : TaskPtr) (p : ℕ) :
    (k.setPriority t p).mutex = k.mutex :=
  rfl

/-- `mutexElevate` changes neither another mutex nor the owner of `m`. -/
theorem mutex_mutexElevate (k : Kernel) (m u : ℕ) (owner t : TaskPtr) :
    ((k.mutexElevate m owner t).mutex u).task = (k.mutex u).task ∧
      (u ≠ m → (k.mutexElevate m owner t).mutex u = k.mutex u) := by
  unfold mutexElevate
  dsimp only
  split_ifs
  · exact ⟨rfl, fun _ => rfl⟩
  · refine ⟨?_, fun hu => Function.update_of_ne hu ..⟩
    rw [mutex_setPriority, mutex_modifyMutex]
    split_ifs with hu
    · rw [hu]
    · rfl
  · exact ⟨rfl, fun _ => rfl⟩

/-- The mutex `m` records the priority of its owner when it elevates it for the first time. -/
theorem mutex_mutexElevate_record (k : Kernel) (m : ℕ) (owner t : TaskPtr) :
    (k.mutexElevate m owner t).mutex =
      if (k.tcb t).priority < (k.tcb owner).priority ∧ (k.mutex m).isElevated = false then
        Function.update k.mutex m { k.mutex m with
          ownerOriginalPriority := (k.tcb owner).priority, isElevated := true }
      else k.mutex := by
  unfold mutexElevate
  dsimp only
  by_cases hlt : (k.tcb t).priority < (k.tcb owner).priority
  · rw [if_pos hlt]
    cases he : (k.mutex m).isElevated with
    | true => simp [mutex_setPriority]
    | false =>
      simp only [Bool.false_eq_true, if_false, hlt, and_self, if_true]
      rfl
  · rw [if_neg hlt, if_neg fun h => hlt h.1]

/-- The owner becomes at least as urgent as the task that blocks. -/
theorem priority_mutexElevate (k : Kernel) (m : ℕ) (owner t u : TaskPtr) :
    ((k.mutexElevate m owner t).tcb u).priority =
      if u = owner then min (k.tcb owner).priority (k.tcb t).priority
      else (k.tcb u).priority := by
  unfold mutexElevate
  dsimp only
  by_cases hlt : (k.tcb t).priority < (k.tcb owner).priority
  · have htcb : (if (k.mutex m).isElevated = true then k else k.modifyMutex m fun x =>
        { x with ownerOriginalPriority := (k.tcb owner).priority, isElevated := true }).tcb =
          k.tcb := by
      split_ifs <;> rfl
    rw [if_pos hlt, tcb_setPriority, htcb]
    split_ifs
    · exact (min_eq_right hlt.le).symm
    · rfl
  · rw [if_neg hlt]
    split_ifs with hu
    · rw [hu, min_eq_left (not_lt.1 hlt)]
    · rfl

/-- The priority that the mutex `x` has recorded for the task `t`, when `t` owns it and has been
elevated through it. -/
def savedPriority (k : Kernel) (t : TaskPtr) (x : ℕ) : Option ℕ :=
  if (k.mutex x).task = some t ∧ (k.mutex x).isElevated = true then
    some (k.mutex x).ownerOriginalPriority
  else none

theorem savedPriority_eq_some {k : Kernel} {t : TaskPtr} {x v : ℕ} :
    k.savedPriority t x = some v ↔ (k.mutex x).task = some t ∧ (k.mutex x).isElevated = true ∧
      (k.mutex x).ownerOriginalPriority = v := by
  unfold savedPriority
  split_ifs with h
  · simp [h]
  · simp only [false_iff]
    exact fun hc => h ⟨hc.1, hc.2.1⟩

/-- An unlock restores the priority that the mutex has recorded. -/
theorem priority_mutexFreed (k : Kernel) (m : ℕ) (u : TaskPtr) :
    ((k.mutexFreed m).tcb u).priority =
      (k.savedPriority u m).getD (k.tcb u).priority := by
  change ((k.mutexRestore m).tcb u).priority = _
  unfold mutexRestore savedPriority
  dsimp only
  cases he : (k.mutex m).isElevated with
  | false => simp
  | true =>
    rw [if_pos rfl]
    cases ho : (k.mutex m).task with
    | none => simp [modifyMutex]
    | some o =>
      change ((k.setPriority o _).tcb u).priority = _
      rw [tcb_setPriority]
      by_cases hu : u = o
      · simp [hu]
      · simp [hu, Ne.symm hu]

/-- Only the mutex that is unlocked changes, and it is free afterwards. -/
theorem mutex_mutexFreed (k : Kernel) (m u : ℕ) :
    (k.mutexFreed m).mutex u =
      if u = m then { k.mutex m with task := none, isElevated := false } else k.mutex u := by
  have hres : (k.mutexRestore m).mutex =
      Function.update k.mutex m { k.mutex m with isElevated := false } := by
    unfold mutexRestore
    dsimp only
    split_ifs with he
    · split <;> rfl
    · have hsame : { k.mutex m with isElevated := false } = k.mutex m := by
        rw [Bool.not_eq_true] at he
        rw [← he]
      rw [hsame, Function.update_eq_self]
  unfold mutexFreed
  rw [mutex_modifyMutex, hres]
  split_ifs with hu
  · simp
  · exact Function.update_of_ne hu ..

theorem mutex_mutexFreed_of_ne (k : Kernel) {m u : ℕ} (hu : u ≠ m) :
    (k.mutexFreed m).mutex u = k.mutex u := by
  rw [mutex_mutexFreed, if_neg hu]

end Kernel

namespace Untouched

variable {x : Ctx}

theorem modifyMutex (k : Kernel) (m : ℕ) (f : Mutex → Mutex) :
    Untouched .mutex x k (k.modifyMutex m f) L L :=
  ⟨fun _ => rfl, fun h => absurd rfl h, fun _ => rfl, fun _ => ⟨rfl, rfl⟩, fun h => absurd rfl h,
    fun _ => rfl, id, rfl, fun _ _ _ => rfl, fun _ _ => rfl⟩

theorem setPriority (k : Kernel) (t : TaskPtr) (p : ℕ) :
    Untouched .mutex x k (k.setPriority t p) L L :=
  ⟨fun _ => rfl, fun h => absurd rfl h, fun _ => rfl, fun _ => ⟨rfl, rfl⟩, fun h => absurd rfl h,
    fun _ => rfl, id, rfl, fun u _ _ => by rw [Kernel.tcb_setPriority], fun _ _ => rfl⟩

theorem mutexElevate (k : Kernel) (m : ℕ) (owner t : TaskPtr) :
    Untouched .mutex x k (k.mutexElevate m owner t) L L := by
  unfold Kernel.mutexElevate
  dsimp only
  split_ifs
  · exact .setPriority ..
  · exact (Untouched.modifyMutex ..).trans (.setPriority ..)
  · exact .refl ..

theorem mutexFreed (k : Kernel) (m : ℕ) : Untouched .mutex x k (k.mutexFreed m) L L := by
  have hrestore : Untouched .mutex x k (k.mutexRestore m) L L := by
    unfold Kernel.mutexRestore
    dsimp only
    split_ifs
    · refine .trans ?_ (.modifyMutex ..)
      split
      · exact .setPriority ..
      · exact .refl ..
    · exact .refl ..
  exact hrestore.trans (.modifyMutex ..)

end Untouched

namespace MutexEffect

theorem untouched (he : MutexEffect k L t c k' c' L' o) :
    Untouched .mutex (.thread t) k k' L L' := by
  have hlist : ∀ (m : ℕ) (xs : List TaskPtr) (l : WaitList), l.family ≠ .mutex →
      Function.update L (.mutex m) xs l = L l := by
    rintro m xs l hl
    exact Function.update_of_ne (fun he => hl (by rw [he]; rfl)) ..
  have hself : ∀ u ∈ ({t} : Set TaskPtr), Ctx.thread t = .thread u := by
    rintro u rfl
    rfl
  cases he with
  | enter | retreat _ | expired | read | reconsider | resume | tryfail | unlock _ | refuse _ =>
    exact .refl ..
  | acquire _ | trylock _ => exact .modifyMutex ..
  | block howner hq hmark => exact (Untouched.mutexElevate ..).trans (hq.untouched hself (hlist _ _))
  | timeout _ | acquired =>
    refine (Quiet.modifyTask (T := {t}) t ?_ fun ht => absurd rfl ht).untouched hself
      fun _ _ => rfl
    rfl
  | release hl => exact .mutexFreed ..
  | handOver hl hq => exact (Untouched.mutexFreed ..).trans (hq.untouched (by simp) (hlist _ _))

/-- Only the executing task is linked. -/
theorem newly (he : MutexEffect k L t c k' c' L' o) {l : WaitList} {u : TaskPtr}
    (hu : u ∈ L' l) : u ∈ L l ∨ Newly k' t (.mutex c) (.mutex c') u := by
  cases he with
  | enter | acquire _ | retreat _ | expired | read | reconsider | resume | tryfail | unlock _
  | refuse _ | timeout _ | acquired | trylock _ | release _ => exact Or.inl hu
  | block _ _ hmark =>
    rcases mem_of_mem_update hu with hold | ⟨rfl, hin⟩
    · exact Or.inl hold
    · refine (Kernel.mem_enqueued.1 hin).symm.imp_right fun he => ⟨he, rfl, fun hto => hmark ?_⟩
      simpa [Ctl.timed] using hto
  | handOver hl _ =>
    rcases mem_of_mem_update hu with hold | ⟨rfl, hin⟩
    · exact Or.inl hold
    · exact Or.inl (hl ▸ List.mem_cons_of_mem _ hin)

/-- Only the mutex of the call changes. -/
theorem frame (he : MutexEffect k L t c k' c' L' o) {u : ℕ} (hu : u ≠ c.index) :
    k'.mutex u = k.mutex u ∧ L' (.mutex u) = L (.mutex u) := by
  have hne : ∀ m : ℕ, u ≠ m → WaitList.mutex u ≠ .mutex m := fun m hm he =>
    hm (WaitList.mutex.inj he)
  cases he with
  | enter | retreat _ | expired | read | reconsider | resume | tryfail | unlock _ | refuse _
  | timeout _ | acquired => exact ⟨rfl, rfl⟩
  | acquire _ | trylock _ => exact ⟨Function.update_of_ne hu .., rfl⟩
  | block howner hq hmark =>
    exact ⟨by rw [hq.mutex]; exact (k.mutex_mutexElevate _ u _ t).2 hu,
      Function.update_of_ne (hne _ hu) ..⟩
  | release hl => exact ⟨Kernel.mutex_mutexFreed_of_ne k hu, rfl⟩
  | handOver hl hq =>
    exact ⟨by rw [hq.mutex]; exact Kernel.mutex_mutexFreed_of_ne k hu,
      Function.update_of_ne (hne _ hu) ..⟩

/-- No wake-up is lost. -/
theorem covered (he : MutexEffect k L t c k' c' L' o) (h : Coherent k ctl W L)
    (hc : ctl (.thread t) = .mutex c) (hcov : ∀ l, Covered k ctl L l)
    (hfresh : ∀ l u, u ∈ L l → (ctl (.thread u)).timed = true → (k.tcb u).timedOut = false)
    (l : WaitList) : Covered k' (Function.update ctl (.thread t) (.mutex c')) L' l := by
  have hmark := fun u happ => he.untouched.timedOut u (h.table u happ)
  by_cases hF : l.family = .mutex
  swap
  · exact (hcov l).untouched h he.untouched (by rw [hc]; rfl) hF
  obtain ⟨u, rfl⟩ : ∃ u, l = .mutex u := by
    cases l <;> first | exact ⟨_, rfl⟩ | cases hF
  by_cases hu : u = c.index
  swap
  · obtain ⟨hmutex, hL⟩ := he.frame hu
    refine (hcov _).elsewhere ?_ hmark (by simp only [avail, hmutex, le_refl]) hL
    rintro v hv
    cases hv
    refine not_stillToRetry (fun hr => ?_) fun hw => ?_
    · rw [hc] at hr
      exact hu (MutexCtl.eq_index_of_retries hr)
    · rw [hc] at hw
      exact hu (MutexCtl.eq_index_of_waitsOn hw)
  have hcov := hcov (.mutex u)
  have hno : (Ctl.mutex c).retries = none → (Ctl.mutex c).waitsOn = none →
      ∀ v, Ctx.thread t = .thread v → ¬ StillToRetry k ctl L (.mutex u) v := by
    intro hr hw v hv
    cases hv
    exact not_stillToRetry (by simp [hc, hr]) (by simp [hc, hw])
  have hheld : (k.mutex u).task ≠ none → avail k (.mutex u) = 0 := fun hm => if_neg hm
  subst hu
  cases he with
  | enter | expired | read | reconsider | tryfail | unlock _ | refuse _ | acquired =>
    exact hcov.elsewhere (hno rfl rfl) hmark le_rfl rfl
  | acquire hfree =>
    refine hcov.take (fun v happ hv => hmark v happ (by simpa using Ne.symm hv)) ?_ rfl
    simp [avail, Kernel.mutex_modifyMutex, MutexCtl.index, hfree]
  | retreat hm => exact Handoff.Covered.of_zero (hheld hm)
  | block howner hq _ =>
    refine Handoff.Covered.of_zero (if_neg ?_)
    rw [hq.mutex, (k.mutex_mutexElevate _ _ _ t).1]
    simp [MutexCtl.index, howner]
  | timeout hm =>
    refine hcov.elsewhere ?_ hmark le_rfl rfl
    rintro v hv
    cases hv
    rintro (he | ⟨-, -, hn⟩)
    · rw [hc] at he
      cases he
    · exact hn ⟨by rw [hc]; rfl, hm⟩
  | resume => exact hcov.resume (by rw [hc]; rfl) (by rw [hc]; rfl)
  | trylock hfree =>
    refine hcov.elsewhere (hno rfl rfl) hmark ?_ rfl
    simp [avail, Kernel.mutex_modifyMutex, MutexCtl.index]
  | release hl => exact Handoff.Covered.of_not_waiting (not_not.2 hl)
  | handOver hl hq =>
    refine hcov.supply h hl (hfresh _ _ (hl ▸ List.mem_cons_self)) (by simp [hc, Ctl.retries])
      (by simp [hc, Ctl.waitsOn]) hmark ?_ (Function.update_self ..)
    simp only [avail]
    split_ifs <;> omega

/-- What a step reports is about mutexes. -/
theorem family (he : MutexEffect k L t c k' c' L' o) : ∀ b ∈ o, b.family = .mutex := by
  cases he <;> simp [Obs.family]

end MutexEffect

end TamgaOs
