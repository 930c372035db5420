import TamgaOs.Machine.Context

/-!
# The steps of the semaphore calls on coherent wait lists

## Main definitions

* `SemEffect`: the steps of `semaphore.c` with the wait lists as explicit lists.

## Main results

* `semStep_spec`: the code does what `SemEffect` says, and the lists stay coherent.
* `SemEffect.covered`: no wake-up is lost.
* `SemEffect.inBounds`: the count stays between 0 and the maximum.
-/

namespace TamgaOs

/-- One step of a semaphore call by the current task `t`, on the wait lists `L`: the state and the
lists afterwards. -/
inductive SemEffect (k : Kernel) (L : WaitList → List TaskPtr) (t : TaskPtr) :
    SemCtl → Kernel → SemCtl → (WaitList → List TaskPtr) → Prop
  | take {s : ℕ} {retry : Bool} (hpos : 0 < (k.sem s).count) :
      SemEffect k L t (.take s retry) (k.setSemCount s ((k.sem s).count - 1)) (.taken s) L
  | block {s : ℕ} {retry : Bool} {k' : Kernel} (hle : (k.sem s).count ≤ 0) (hq : Quiet k k' ∅) :
      SemEffect k L t (.take s retry) k' (.blocked s)
        (Function.update L (.sem s) (k.enqueued t (L (.sem s))))
  | resume {s : ℕ} : SemEffect k L t (.blocked s) k (.take s true) L
  | give {s : ℕ} (hl : L (.sem s) = []) : SemEffect k L t (.give s) (k.semIncr s) (.given s) L
  | wake {s : ℕ} {w : TaskPtr} {xs : List TaskPtr} {k' : Kernel} (hl : L (.sem s) = w :: xs)
      (hq : Quiet (k.semIncr s) k' ∅) :
      SemEffect k L t (.give s) k' (.given s) (Function.update L (.sem s) xs)
  | trytake {s : ℕ} (hpos : 0 < (k.sem s).count) :
      SemEffect k L t (.trytake s) (k.setSemCount s ((k.sem s).count - 1)) (.trytaken s true) L
  | tryfail {s : ℕ} (hle : (k.sem s).count ≤ 0) :
      SemEffect k L t (.trytake s) k (.trytaken s false) L

variable {k k' : Kernel} {ctl : Ctx → Ctl} {W : Ctx → Option TaskPtr}
  {L L' : WaitList → List TaskPtr} {t : TaskPtr} {x : Ctx} {c c' : SemCtl} {o : List Obs}

theorem Kernel.sameSched_setSemCount (k : Kernel) (s : ℕ) (n : ℤ) :
    SameSched k (k.setSemCount s n) :=
  ⟨rfl, rfl, rfl, rfl, rfl, fun _ => rfl, rfl, fun _ h => h, fun _ => rfl⟩

theorem Kernel.sameSched_semIncr (k : Kernel) (s : ℕ) : SameSched k (k.semIncr s) := by
  unfold Kernel.semIncr
  split_ifs
  · exact k.sameSched_setSemCount s _
  · exact ⟨rfl, rfl, rfl, rfl, rfl, fun _ => rfl, rfl, fun _ h => h, fun _ => rfl⟩

theorem Kernel.semIncr_setHead (k : Kernel) (s : ℕ) (l : WaitList) (h : Option TaskPtr) :
    (k.setHead l h).semIncr s = (k.semIncr s).setHead l h := by
  unfold Kernel.semIncr
  change (if (k.sem s).count < (k.sem s).max then _ else _) = _
  split_ifs <;> rfl

/-- The code of the semaphore calls does what `SemEffect` says. -/
theorem semStep_spec (h : Coherent k ctl W L) (hx : Runs k x t) (hc : ctl x = .sem c)
    (hs : semStep k t c = some (k', c', o)) :
    ∃ L', SemEffect k L t c k' c' L' ∧ Coherent k' (Function.update ctl x (.sem c')) W L' := by
  have hadv : ∀ c', ((Ctl.sem c).isrSafe = true → (Ctl.sem c').isrSafe = true) →
      Coherent k (Function.update ctl x (.sem c')) W L := fun c' hsafe =>
    h.advance hx hc (by simp) rfl hsafe
  cases c with
  | take s retry =>
    obtain rfl := h.thread_of_not_isrSafe hx (by rw [hc]; rfl)
    obtain ⟨hfree, htab⟩ := h.free_of_runs hx (by rw [hc]; simp)
    have hd := h.delay_eq_zero hfree (by rw [hc]; rfl)
    rcases semStep_take hs with ⟨hpos, rfl, rfl, rfl⟩ | ⟨hpos, hb, rfl, rfl⟩
    · exact ⟨L, .take hpos, (hadv _ (fun hf => by cases hf)).congr (k.sameSched_setSemCount s _)⟩
    · obtain ⟨k₁, hb₁, hblock⟩ := Kernel.blockOn_spec (h.waiters (.sem s)) (hfree.1 _)
        (h.length_lt _) none
      cases hb.symm.trans hb₁
      refine ⟨_, .block hpos (hblock.quiet.mono ?_),
        h.block hfree htab hd hblock rfl fun hr => by cases hr⟩
      rintro u ⟨-, hr⟩
      cases hr
  | blocked s =>
    cases hs
    exact ⟨L, .resume, hadv _ fun hf => by cases hf⟩
  | give s =>
    cases hs
    have hk := (hadv (.given s) fun _ => rfl).congr (k.sameSched_semIncr s)
    cases hl : L (.sem s) with
    | nil =>
      have hpop := Kernel.wqPop_nil (hl ▸ h.waiters (.sem s))
      refine ⟨L, ?_, ?_⟩
      · rw [Kernel.semGive, hpop]
        exact .give hl
      · rw [Kernel.semGive, hpop]
        exact hk
    | cons w xs =>
      have hgive : k.semGive s =
          ((k.semIncr s).setHead (.sem s) (k.waitNext w)).schedWakeTask w := by
        rw [Kernel.semGive, Kernel.wqPop_cons (hl ▸ h.waiters (.sem s))]
        exact congrArg (Kernel.schedWakeTask · w) (k.semIncr_setHead s _ _)
      refine ⟨_, .wake hl ?_, ?_⟩
      · rw [hgive]
        exact .handOver ..
      · have hnext : (k.semIncr s).waitNext = k.waitNext := (k.sameSched_semIncr s).waitNext
        rw [hgive, ← hnext]
        exact hk.handOver hl
  | trytake s =>
    by_cases hpos : 0 < (k.sem s).count
    · simp only [semStep, Kernel.semTrytake, if_pos hpos] at hs
      cases hs
      exact ⟨L, .trytake hpos, (hadv _ fun _ => rfl).congr (k.sameSched_setSemCount s _)⟩
    · simp only [semStep, Kernel.semTrytake, if_neg hpos] at hs
      cases hs
      exact ⟨L, .tryfail (not_lt.1 hpos), hadv _ fun _ => rfl⟩
  | taken s => cases hs
  | given s => cases hs
  | trytaken s r => cases hs

/-- The count is between 0 and the maximum. -/
def Sem.InBounds (s : Sem) : Prop := 0 ≤ s.count ∧ s.count ≤ s.max

/-- The semaphore that a call is about. -/
def SemCtl.index : SemCtl → ℕ
  | .take s _ | .blocked s | .give s | .trytake s | .taken s | .given s | .trytaken s _ => s

theorem SemCtl.eq_index_of_waitsOn {u : ℕ} (h : (Ctl.sem c).waitsOn = some (.sem u)) :
    u = c.index := by
  cases c <;> cases h
  rfl

theorem SemCtl.eq_index_of_retries {u : ℕ} (h : (Ctl.sem c).retries = some (.sem u)) :
    u = c.index := by
  cases c <;> first | cases h | skip
  rename_i s retry
  cases retry <;> cases h
  rfl

theorem Kernel.sem_setSemCount (k : Kernel) (s u : ℕ) (n : ℤ) :
    (k.setSemCount s n).sem u = if u = s then { k.sem s with count := n } else k.sem u :=
  Function.update_apply ..

theorem Kernel.sem_semIncr_of_ne (k : Kernel) {s u : ℕ} (hu : u ≠ s) :
    (k.semIncr s).sem u = k.sem u := by
  unfold Kernel.semIncr
  split_ifs
  · exact Function.update_of_ne hu ..
  · rfl

/-- `sem_give` adds at most one token. -/
theorem Kernel.count_semIncr (k : Kernel) (s : ℕ) :
    ((k.semIncr s).sem s).count =
      if (k.sem s).count < (k.sem s).max then (k.sem s).count + 1 else (k.sem s).count := by
  unfold Kernel.semIncr
  split_ifs
  · rw [Kernel.sem_setSemCount, if_pos rfl]
  · rfl

theorem Kernel.max_semIncr (k : Kernel) (s : ℕ) :
    ((k.semIncr s).sem s).max = (k.sem s).max := by
  unfold Kernel.semIncr
  split_ifs
  · rw [Kernel.sem_setSemCount, if_pos rfl]
  · rfl

/-- `sem_give` does not exceed the maximum. -/
theorem Kernel.inBounds_semIncr {k : Kernel} {s : ℕ} (h : (k.sem s).InBounds) :
    ((k.semIncr s).sem s).InBounds := by
  obtain ⟨hlo, hhi⟩ := h
  unfold Sem.InBounds
  rw [Kernel.count_semIncr, Kernel.max_semIncr]
  split_ifs <;> omega

theorem Untouched.setSemCount (k : Kernel) (s : ℕ) (n : ℤ) (x : Ctx)
    (L : WaitList → List TaskPtr) : Untouched .sem x k (k.setSemCount s n) L L :=
  ⟨fun h => absurd rfl h, fun _ => rfl, fun _ => rfl, fun _ => ⟨rfl, rfl⟩, fun _ _ _ => rfl,
    fun _ => rfl, id, rfl, fun _ _ _ => rfl, fun _ _ => rfl⟩

theorem Untouched.semIncr (k : Kernel) (s : ℕ) (x : Ctx) (L : WaitList → List TaskPtr) :
    Untouched .sem x k (k.semIncr s) L L := by
  unfold Kernel.semIncr
  split_ifs
  · exact .setSemCount ..
  · exact .refl k L

namespace SemEffect

theorem untouched (he : SemEffect k L t c k' c' L') (x : Ctx) :
    Untouched .sem x k k' L L' := by
  have hlist : ∀ (s : ℕ) (xs : List TaskPtr) (l : WaitList), l.family ≠ .sem →
      Function.update L (.sem s) xs l = L l := by
    rintro s xs l hl
    exact Function.update_of_ne (fun he => hl (by rw [he]; rfl)) ..
  cases he with
  | take hpos | trytake hpos => exact .setSemCount ..
  | block hle hq => exact hq.untouched (by simp) (hlist _ _)
  | resume | tryfail hle => exact .refl k L
  | give hl => exact .semIncr ..
  | wake hl hq =>
    exact (Untouched.semIncr k _ x L).trans (hq.untouched (by simp) (hlist _ _))

/-- Only the executing task is linked. -/
theorem newly (he : SemEffect k L t c k' c' L') {l : WaitList} {u : TaskPtr} (hu : u ∈ L' l) :
    u ∈ L l ∨ Newly k' t (.sem c) (.sem c') u := by
  cases he with
  | take _ | resume | give _ | trytake _ | tryfail _ => exact Or.inl hu
  | block _ _ =>
    rcases mem_of_mem_update hu with hold | ⟨rfl, hin⟩
    · exact Or.inl hold
    · exact (Kernel.mem_enqueued.1 hin).symm.imp_right fun he => ⟨he, rfl, fun hf => by cases hf⟩
  | wake hl _ =>
    rcases mem_of_mem_update hu with hold | ⟨rfl, hin⟩
    · exact Or.inl hold
    · exact Or.inl (hl ▸ List.mem_cons_of_mem _ hin)

/-- Only the semaphore of the call changes. -/
theorem frame (he : SemEffect k L t c k' c' L') {u : ℕ} (hu : u ≠ c.index) :
    k'.sem u = k.sem u ∧ L' (.sem u) = L (.sem u) := by
  have hne : ∀ s : ℕ, u ≠ s → WaitList.sem u ≠ .sem s := fun s hs he =>
    hs (WaitList.sem.inj he)
  cases he with
  | take hpos | trytake hpos => exact ⟨Function.update_of_ne hu .., rfl⟩
  | block hle hq => exact ⟨by rw [hq.sem], Function.update_of_ne (hne _ hu) ..⟩
  | resume | tryfail hle => exact ⟨rfl, rfl⟩
  | give hl => exact ⟨k.sem_semIncr_of_ne hu, rfl⟩
  | wake hl hq =>
    exact ⟨by rw [hq.sem]; exact k.sem_semIncr_of_ne hu, Function.update_of_ne (hne _ hu) ..⟩

/-- No wake-up is lost. -/
theorem covered (he : SemEffect k L t c k' c' L') (h : Coherent k ctl W L) (hx : Runs k x t)
    (hc : ctl x = .sem c) (hcov : ∀ l, Covered k ctl L l)
    (hfresh : ∀ l u, u ∈ L l → (ctl (.thread u)).timed = true → (k.tcb u).timedOut = false)
    (l : WaitList) : Covered k' (Function.update ctl x (.sem c')) L' l := by
  have hmark := fun u happ => (he.untouched x).timedOut u (h.table u happ)
  by_cases hF : l.family = .sem
  swap
  · exact (hcov l).untouched h (he.untouched x) (by rw [hc]; rfl) hF
  obtain ⟨u, rfl⟩ : ∃ u, l = .sem u := by
    cases l <;> first | exact ⟨_, rfl⟩ | cases hF
  by_cases hu : u = c.index
  swap
  · obtain ⟨hsem, hL⟩ := he.frame hu
    refine (hcov _).elsewhere ?_ hmark (by simp only [avail, hsem, le_refl]) hL
    rintro v rfl
    refine not_stillToRetry (fun hr => ?_) fun hw => ?_
    · rw [hc] at hr
      exact hu (SemCtl.eq_index_of_retries hr)
    · rw [hc] at hw
      exact hu (SemCtl.eq_index_of_waitsOn hw)
  have hcov := hcov (.sem u)
  have hthread : (ctl x).isrSafe = false → x = .thread t := h.thread_of_not_isrSafe hx
  have hno : (Ctl.sem c).retries = none → (Ctl.sem c).waitsOn = none →
      ∀ v, x = .thread v → ¬ StillToRetry k ctl L (.sem u) v := by
    rintro hr hw v rfl
    exact not_stillToRetry (by simp [hc, hr]) (by simp [hc, hw])
  rw [hc] at hthread
  cases he with
  | take hpos =>
    obtain rfl := hthread rfl
    refine hcov.take (fun u happ hu => hmark u happ (by simpa using Ne.symm hu)) ?_ rfl
    subst hu
    simp only [avail, Kernel.sem_setSemCount, if_true]
    omega
  | block hle hq =>
    subst hu
    refine Handoff.Covered.of_zero ?_
    simp only [avail, hq.sem]
    omega
  | resume =>
    obtain rfl := hthread rfl
    exact hcov.resume (by rw [hc]; rfl) (by rw [hc]; rfl)
  | give hl =>
    subst hu
    exact Handoff.Covered.of_not_waiting (not_not.2 hl)
  | wake hl hq =>
    subst hu
    refine hcov.supply h hl (hfresh _ _ (hl ▸ List.mem_cons_self)) (by simp [hc, Ctl.retries])
      (by simp [hc, Ctl.waitsOn]) hmark ?_ (Function.update_self ..)
    simp only [avail, hq.sem, Kernel.count_semIncr]
    split_ifs <;> omega
  | trytake hpos =>
    subst hu
    refine hcov.elsewhere (hno rfl rfl) hmark ?_ rfl
    simp only [avail, Kernel.sem_setSemCount, if_true]
    omega
  | tryfail hle => exact hcov.elsewhere (hno rfl rfl) hmark le_rfl rfl

theorem inBounds (he : SemEffect k L t c k' c' L') (h : ∀ s, (k.sem s).InBounds) (s : ℕ) :
    (k'.sem s).InBounds ∧ (k'.sem s).max = (k.sem s).max := by
  by_cases hs : s = c.index
  swap
  · rw [(he.frame hs).1]
    exact ⟨h s, rfl⟩
  subst hs
  have hs := h c.index
  cases he with
  | take hpos | trytake hpos =>
    simp only [SemCtl.index, Sem.InBounds, Kernel.sem_setSemCount, if_true] at hs ⊢
    exact ⟨⟨by omega, by omega⟩, trivial⟩
  | block hle hq =>
    rw [hq.sem]
    exact ⟨hs, rfl⟩
  | resume | tryfail hle => exact ⟨hs, rfl⟩
  | give hl => exact ⟨Kernel.inBounds_semIncr hs, k.max_semIncr _⟩
  | wake hl hq =>
    rw [hq.sem]
    exact ⟨Kernel.inBounds_semIncr hs, k.max_semIncr _⟩

end SemEffect

end TamgaOs
