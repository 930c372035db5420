import TamgaOs.Machine.Orderly

/-!
# Tasks that create tasks

`sched_task_create` makes three steps: it tests for a free slot, it takes the slot in a critical
section, and it computes its result from `s_task_count` again. Only the second one is protected. A call
that is preempted before it by calls that fill the table writes behind its end, and a call that is
preempted after it returns the index of another task.

## Main definitions

* `CreateRecord`, `Machine.creating`: the slots taken and the results of the calls, beside the machine.
* `Machine.CreateSafe`: the condition on a step.
* `Machine.CreatesSoundly`: the properties of the calls.
* `CreationsSound`: the invariant of the records.

## Main results

* `taskCreate_safe`: all the properties, for every run whose steps meet the condition.
* `createSafe_of_oneCreator`, `createSafe_of_creatorsIn`: a single creating task meets it, and so do
  several ones that keep apart.
* `taskCreate_unsafe`: two runs without them.
-/

namespace TamgaOs

/-! ### What a creation changes -/

/-- The operation creates a task. -/
def SchedOp.creates : SchedOp → Bool
  | .create _ => true
  | _ => false

/-- A task is created in the critical section of `sched_task_create` only. -/
theorem Ctl.creates_of_mem_schedOps {c : Ctl} {k : Kernel} {t : TaskPtr} {op : SchedOp}
    (hop : op ∈ c.schedOps k t) (hcreates : op.creates = true) :
    ∃ priority, c = .sched (.createSection priority) := by
  cases c with
  | app => cases hop
  | sem c => cases c <;> grind [Ctl.schedOps, semOps, Kernel.wakeHead, SchedOp.creates]
  | mutex c => cases c <;> grind [Ctl.schedOps, mutexOps, Kernel.wakeHead, SchedOp.creates]
  | queue c =>
    cases c with
    | loop q op' deadline retry =>
      simp only [Ctl.schedOps, queueOps] at hop
      grind [SchedOp.creates]
    | wake w timed r => cases w <;> grind [Ctl.schedOps, queueOps, SchedOp.creates]
    | enter | blocked | attempt | trigger | finish | returned => cases hop
  | event c => cases c <;> grind [Ctl.schedOps, eventOps, SchedOp.creates]
  | notify c => cases c <;> grind [Ctl.schedOps, notifyOps, SchedOp.creates]
  | sched c => cases c <;> simp only [Ctl.schedOps, schedCtlOps] at hop <;> grind [SchedOp.creates]

/-- The context is in a call of `sched_task_create`, or has returned from it. -/
def Ctl.inCreate : Ctl → Bool
  | .sched (.create _ _) | .sched (.createSection _) | .sched .createReturn | .sched (.created _) => true
  | _ => false

theorem Ctl.inCreate_ctlStep {k k' : Kernel} {t : TaskPtr} {c c' : Ctl} {o : List Obs}
    (hc : c.inCreate = false) (h : ctlStep k t c = some (k', c', o)) : c'.inCreate = false := by
  cases ctlStep_cases h with
  | sem | mutex | queue | event | notify => rfl
  | @sched c c₁ hs =>
    cases c <;> cases hc
    all_goals
      simp only [schedStep] at hs
      (try split_ifs at hs) <;> cases hs <;> rfl

/-! ### The record -/

/-- What the calls of `sched_task_create` have done. -/
structure CreateRecord where
  /-- The slot that a context has taken in its last call. -/
  slot : Ctx → Option ℕ := fun _ => none
  /-- The slots of `s_tasks` that have been written. -/
  written : List ℕ := []
  /-- The results, each with the slot that its call has taken. -/
  results : List (Option ℕ × ℤ)

namespace Machine

/-- The record after an action. -/
def creation (m : Machine) (a : Action) (_ : List Obs) (r : CreateRecord) : CreateRecord :=
  match a with
  | .call _ =>
    match m.active with
    | some x => { r with slot := Function.update r.slot x none }
    | none => r
  | .exec =>
    match m.active with
    | some x =>
      match m.ctl x, m.step .exec with
      | .sched (.createSection _), _ =>
        { r with
          slot := Function.update r.slot x (some m.kernel.taskCount)
          written := r.written ++ [m.kernel.taskCount] }
      | _, some (m', _) =>
        match m'.ctl x with
        | .sched (.created index) => { r with results := r.results ++ [(r.slot x, index)] }
        | _ => r
      | _, none => r
    | none => r
  | .irq _ | .pendSV | .clock _ | .tick _ => r

/-- The machine with its record. -/
def creating : Machine × CreateRecord → Action → Option ((Machine × CreateRecord) × List Obs) :=
  Run.annotate step creation

/-- The machine that starts, with the results of the calls before. -/
def startCreating (cfg : Config) : Machine × CreateRecord :=
  (start cfg, { results := (List.range cfg.priorities.length).map fun i => (some i, (i : ℤ)) })

/-- A task that enters the critical section of `sched_task_create` finds a free slot, and no other task
has still to compute its result. -/
def CreateSafe (p : Machine × CreateRecord) : Action → Prop
  | .exec => ∀ x priority, p.1.active = some x → p.1.ctl x = .sched (.createSection priority) →
      p.1.kernel.taskCount < taskMax ∧ ∀ y, p.1.ctl y ≠ .sched .createReturn
  | _ => True

end Machine

/-- The records of the creations, when the table has `n` tasks. -/
structure CreationsSound (n : ℕ) (ctl : Ctx → Ctl) (r : CreateRecord) : Prop where
  count : n ≤ taskMax
  written : ∀ s ∈ r.written, s < taskMax
  results : ∀ q ∈ r.results, q = (none, -1) ∨ ∃ s < n, q = (some s, (s : ℤ))
  nodup : ((r.results.map Prod.snd).filter (0 ≤ ·)).Nodup
  fresh : ∀ x isNull priority, ctl x = .sched (.create isNull priority) → r.slot x = none
  pending : ∀ x, ctl x = .sched .createReturn →
    ∃ s, n = s + 1 ∧ r.slot x = some s ∧ ∀ q ∈ r.results, q.2 ≠ s
  one : ∀ x y, ctl x = .sched .createReturn → ctl y = .sched .createReturn → x = y

namespace CreationsSound

variable {n : ℕ} {ctl : Ctx → Ctl} {r : CreateRecord} {x : Ctx} {c : Ctl} {q : Option ℕ × ℤ}

/-- A context that moves on, but not to the computation of its result. -/
theorem move (h : CreationsSound n ctl r) (hreturn : c ≠ .sched .createReturn)
    (hcreate : ∀ isNull priority, c = .sched (.create isNull priority) → r.slot x = none) :
    CreationsSound n (Function.update ctl x c) r := by
  have hkeep : ∀ y, Function.update ctl x c y = .sched .createReturn → ctl y = .sched .createReturn := by
    intro y hy
    rw [Function.update_apply] at hy
    split_ifs at hy
    · exact absurd hy hreturn
    · exact hy
  refine { h with fresh := ?_, pending := fun y hy => h.pending y (hkeep y hy),
                  one := fun y z hy hz => h.one y z (hkeep y hy) (hkeep z hz) }
  intro y isNull priority hy
  rw [Function.update_apply] at hy
  split_ifs at hy with he
  · exact he ▸ hcreate isNull priority hy
  · exact h.fresh y isNull priority hy

/-- A call that begins. -/
theorem begin (h : CreationsSound n ctl r) (hreturn : c ≠ .sched .createReturn) :
    CreationsSound n (Function.update ctl x c) { r with slot := Function.update r.slot x none } := by
  refine { h with fresh := ?_, pending := ?_, one := ?_ }
  · intro y isNull priority hy
    dsimp only
    rw [Function.update_apply] at hy ⊢
    split_ifs at hy ⊢
    · rfl
    · exact h.fresh y isNull priority hy
  · intro y hy
    have hne : y ≠ x := by
      rintro rfl
      rw [Function.update_self] at hy
      exact hreturn hy
    dsimp only
    rw [Function.update_of_ne hne] at hy ⊢
    exact h.pending y hy
  · intro y z hy hz
    rw [Function.update_apply] at hy hz
    split_ifs at hy hz
    · exact absurd hy hreturn
    · exact absurd hy hreturn
    · exact absurd hz hreturn
    · exact h.one y z hy hz

/-- A call that returns. -/
theorem push (h : CreationsSound n ctl r) (hq : q = (none, -1) ∨ ∃ s < n, q = (some s, (s : ℤ)))
    (hnew : 0 ≤ q.2 → ∀ q' ∈ r.results, q'.2 ≠ q.2)
    (hpending : 0 ≤ q.2 → ∀ y, ctl y ≠ .sched .createReturn) :
    CreationsSound n ctl { r with results := r.results ++ [q] } := by
  refine { h with results := ?_, nodup := ?_, pending := ?_ }
  · intro q' hq'
    rcases List.mem_append.1 hq' with hold | hlast
    · exact h.results q' hold
    · rw [List.mem_singleton.1 hlast]
      exact hq
  · rw [List.map_append, List.filter_append]
    refine List.nodup_append.2 ⟨h.nodup, ?_, ?_⟩
    · exact (List.nodup_singleton q.2).filter _
    · rintro i hi j hj rfl
      rw [List.map_singleton, List.mem_filter, List.mem_singleton] at hj
      obtain ⟨q', hq', hi⟩ := List.mem_map.1 (List.mem_filter.1 hi).1
      obtain ⟨rfl, hpos⟩ := hj
      exact hnew (of_decide_eq_true hpos) q' hq' hi
  · intro y hy
    obtain ⟨s, hn, hslot, hother⟩ := h.pending y hy
    refine ⟨s, hn, hslot, fun q' hq' => ?_⟩
    rcases List.mem_append.1 hq' with hold | hlast
    · exact hother q' hold
    · rw [List.mem_singleton.1 hlast]
      rintro he
      exact hpending (by omega) y hy

/-- A slot is taken when no other call has still to compute its result. -/
theorem take (h : CreationsSound n ctl r) (hfree : n < taskMax)
    (hnone : ∀ y, ctl y ≠ .sched .createReturn) :
    CreationsSound (n + 1) (Function.update ctl x (.sched .createReturn))
      { r with slot := Function.update r.slot x (some n), written := r.written ++ [n] } := by
  have hself : ∀ y, Function.update ctl x (.sched .createReturn) y = .sched .createReturn → y = x := by
    intro y hy
    by_contra hne
    rw [Function.update_of_ne hne] at hy
    exact hnone y hy
  refine ⟨hfree, fun s hs => ?_, fun q hq => ?_, h.nodup, fun y isNull priority hy => ?_,
    fun y hy => ⟨n, rfl, ?_, fun q hq => ?_⟩, fun y z hy hz => (hself y hy).trans (hself z hz).symm⟩
  · rcases List.mem_append.1 hs with hold | hlast
    · exact h.written s hold
    · rwa [List.mem_singleton.1 hlast]
  · rcases h.results q hq with hfail | ⟨s, hs, he⟩
    · exact .inl hfail
    · exact .inr ⟨s, Nat.lt_succ_of_lt hs, he⟩
  · have hne : y ≠ x := by
      rintro rfl
      rw [Function.update_self] at hy
      cases hy
    dsimp only
    rw [Function.update_of_ne hne] at hy ⊢
    exact h.fresh y isNull priority hy
  · rw [hself y hy]
    exact Function.update_self ..
  · rcases h.results q hq with rfl | ⟨s, hs, rfl⟩
    · simp
    · simp only [ne_eq, Int.natCast_inj]
      exact hs.ne

end CreationsSound

/-! ### What a step does -/

namespace Machine

variable {m m' : Machine} {r : CreateRecord} {o : List Obs} {x : Ctx}

theorem creation_section {priority : ℕ} (hact : m.active = some x)
    (hc : m.ctl x = .sched (.createSection priority)) :
    m.creation .exec o r =
      { r with
        slot := Function.update r.slot x (some m.kernel.taskCount)
        written := r.written ++ [m.kernel.taskCount] } := by
  simp only [creation, hact, hc]

theorem creation_created {index : ℤ} (hact : m.active = some x) (hs : m.step .exec = some (m', o))
    (hc : ∀ priority, m.ctl x ≠ .sched (.createSection priority))
    (hc' : m'.ctl x = .sched (.created index)) :
    m.creation .exec o r = { r with results := r.results ++ [(r.slot x, index)] } := by
  simp only [creation, hact, hs]
  split
  · rename_i index' he
    rw [hc'] at he
    cases he
    rfl
  · rename_i he
    exact (he index hc').elim

theorem creation_other (hact : m.active = some x) (hs : m.step .exec = some (m', o))
    (hc : ∀ priority, m.ctl x ≠ .sched (.createSection priority))
    (hc' : ∀ index, m'.ctl x ≠ .sched (.created index)) :
    m.creation .exec o r = r := by
  simp only [creation, hact, hs]

/-- A step of a context outside `sched_task_create` keeps the number of tasks. -/
theorem taskCount_of_not_inCreate (hact : m.active = some x) (hc : (m.ctl x).inCreate = false)
    (hs : m.step .exec = some (m', o)) : m'.kernel.taskCount = m.kernel.taskCount := by
  refine (step_path hs).taskCount fun op hop priority he => ?_
  simp only [schedOps, hact] at hop
  split at hop
  · rename_i hx _
    cases hx
    obtain ⟨_, hsection⟩ := Ctl.creates_of_mem_schedOps hop (by rw [he]; rfl)
    rw [hsection] at hc
    cases hc
  · cases hop

/-- Outside the calls no task is created. -/
theorem taskCount_of_ne_exec {a : Action} (ha : a ≠ .exec) (hs : m.step a = some (m', o)) :
    m'.kernel.taskCount = m.kernel.taskCount := by
  refine (step_path hs).taskCount fun op hop priority he => ?_
  cases a with
  | exec => exact ha rfl
  | call | irq | pendSV | clock | tick => simp [schedOps, he] at hop

/-- Only a call, an interrupt or a step of a call moves a context. -/
theorem ctl_of_quiet {a : Action} (hcall : ∀ c, a ≠ .call c) (hirq : ∀ c, a ≠ .irq c) (hexec : a ≠ .exec)
    (hs : m.step a = some (m', o)) : m'.ctl = m.ctl := by
  rcases step_cases hs with ⟨c, _, rfl, _⟩ | ⟨_, _, _, _, rfl, _⟩ | ⟨c, rfl, _⟩ |
    ⟨-, -, -, rfl, -⟩ | ⟨_, -, rfl, -⟩ | ⟨_, _, -, -, rfl, -⟩
  · exact absurd rfl (hcall c)
  · exact absurd rfl hexec
  · exact absurd rfl (hirq c)
  · rfl
  · rfl
  · rfl

end Machine

/-- The step lemma: the records stay sound. -/
theorem CreationsSound.exec {m m' : Machine} {r : CreateRecord} {o : List Obs}
    (h : CreationsSound m.kernel.taskCount m.ctl r) (hsafe : Machine.CreateSafe (m, r) .exec)
    (hs : m.step .exec = some (m', o)) :
    CreationsSound m'.kernel.taskCount m'.ctl (m.creation .exec o r) := by
  rcases Machine.step_cases hs with ⟨_, _, he, _⟩ | ⟨x, t, k', c', -, hact, -, hst, rfl⟩ |
    ⟨_, he, _⟩ | ⟨he, _⟩ | ⟨_, he, _⟩ | ⟨_, _, he, _⟩
  · cases he
  · rw [Machine.kernel_resume, Machine.ctl_resume]
    have hctl : (m.resume x k' c').ctl x = c' := by
      rw [Machine.ctl_resume]
      exact Function.update_self ..
    cases hin : (m.ctl x).inCreate with
    | false =>
      have hin' := Ctl.inCreate_ctlStep hin hst
      have hcount := Machine.taskCount_of_not_inCreate hact hin hs
      rw [Machine.kernel_resume] at hcount
      rw [hcount, Machine.creation_other hact hs]
      · refine h.move ?_ ?_
        · rintro rfl
          cases hin'
        · rintro _ _ rfl
          cases hin'
      · intro priority he
        rw [he] at hin
        cases hin
      · intro index he
        rw [hctl] at he
        rw [he] at hin'
        cases hin'
    | true =>
      unfold Ctl.inCreate at hin
      split at hin
      · rename_i isNull priority hc
        have hslot := h.fresh x isNull priority hc
        rw [hc] at hst
        obtain ⟨⟨k₁, c₁, o₁⟩, hst, he⟩ := Option.map_eq_some_iff.1 hst
        cases he
        simp only [schedStep] at hst
        split_ifs at hst <;> cases hst
        · -- the call fails
          rw [Machine.creation_created hact hs (by simp [hc]) hctl, hslot]
          exact (h.move (by simp) (by simp)).push (.inl rfl) (by simp) (by simp)
        · rw [Machine.creation_other hact hs (by simp [hc]) (by simp [hctl])]
          exact h.move (by simp) (by simp)
      · rename_i priority hc
        obtain ⟨hfree, hnone⟩ := hsafe x priority hact hc
        rw [Machine.creation_section hact hc]
        rw [hc] at hst
        cases hst
        exact h.take hfree hnone
      · rename_i hc
        obtain ⟨s, hn, hslot, hother⟩ := h.pending x hc
        have hresult : ((m.kernel.taskCount : ℤ) - 1) = s := by omega
        have hmoved : CreationsSound m.kernel.taskCount
            (Function.update m.ctl x (.sched (.created (m.kernel.taskCount - 1)))) r :=
          h.move (by simp) (by simp)
        rw [hc] at hst
        cases hst
        rw [Machine.creation_created hact hs (by simp [hc]) hctl, hslot, hresult]
        rw [hresult] at hmoved
        refine hmoved.push (.inr ⟨s, by omega, rfl⟩) (fun _ => hother) fun _ y hy => ?_
        -- no other call has still to compute its result
        have hne : y ≠ x := by
          rintro rfl
          rw [Function.update_self] at hy
          cases hy
        rw [Function.update_of_ne hne] at hy
        exact hne (h.one y x hy hc)
      · rename_i hc
        rw [hc] at hst
        cases hst
      · cases hin
  · cases he
  · cases he
  · cases he
  · cases he

/-! ### What holds on every run -/

/-- The invariant of the safe runs. -/
theorem creationsSound_of_reach (cfg : Config) (hcfg : cfg.priorities.length ≤ taskMax) {m : Machine}
    {r : CreateRecord} {out : List Obs}
    (h : Run.Reach Machine.creating Machine.CreateSafe (Machine.startCreating cfg) (m, r) out) :
    CreationsSound m.kernel.taskCount m.ctl r := by
  refine h.invariant (I := fun p => CreationsSound p.1.kernel.taskCount p.1.ctl p.2) ?_ ?_
  · have hcount : (Machine.start cfg).kernel.taskCount = cfg.priorities.length := cfg.taskCount_created
    refine ⟨hcount ▸ hcfg, by simp [Machine.startCreating], fun q hq => ?_, ?_, nofun, nofun, nofun⟩
    · obtain ⟨i, hi, rfl⟩ := List.mem_map.1 hq
      exact .inr ⟨i, hcount ▸ List.mem_range.1 hi, rfl⟩
    · refine List.Nodup.filter _ ?_
      rw [Machine.startCreating, List.map_map]
      exact List.nodup_range.map fun _ _ he => Int.natCast_inj.1 he
  · rintro ⟨m, r⟩ ⟨m', r'⟩ a o hI hok hstep
    obtain ⟨hs, rfl⟩ := Run.annotate_eq_some.1 hstep
    cases a with
    | exec => exact hI.exec hok hs
    | call c =>
      rcases Machine.step_cases hs with ⟨_, i, he, hact, -, rfl, -⟩ | ⟨_, _, _, _, he, _⟩ |
        ⟨_, he, _⟩ | ⟨he, _⟩ | ⟨_, he, _⟩ | ⟨_, _, he, _⟩ <;> cases he
      simp only [Machine.creation, hact]
      exact hI.begin (by cases c <;> simp [Call.entry])
    | irq c =>
      rcases Machine.step_cases hs with ⟨_, _, he, _⟩ | ⟨_, _, _, _, he, _⟩ |
        ⟨_, he, hsafe, rfl, -⟩ | ⟨he, _⟩ | ⟨_, he, _⟩ | ⟨_, _, he, _⟩ <;> cases he
      exact hI.move (by cases c <;> simp [Call.entry]) (by cases c <;> cases hsafe <;> simp [Call.entry])
    | pendSV | clock n | tick n =>
      have hctl := Machine.ctl_of_quiet (by simp) (by simp) (by simp) hs
      have hcount := Machine.taskCount_of_ne_exec (by simp) hs
      change CreationsSound m'.kernel.taskCount m'.ctl r
      rw [hcount, hctl]
      exact hI

/-- What `sched_task_create` promises and a run can break. -/
structure Machine.CreatesSoundly (m : Machine) (r : CreateRecord) : Prop where
  count : m.kernel.taskCount ≤ taskMax
  /-- The table is not written behind its end. -/
  written : ∀ s ∈ r.written, s < taskMax
  /-- A call that succeeds returns the index of the slot that it has taken. -/
  own : ∀ q ∈ r.results, 0 ≤ q.2 → q.1.map Nat.cast = some q.2
  /-- No two calls return the same index. -/
  nodup : ((r.results.map Prod.snd).filter (0 ≤ ·)).Nodup
  /-- A call that fails has not taken a slot. -/
  failed : ∀ q ∈ r.results, q.2 < 0 → q = (none, -1)

/-- In every run in which a task that enters the critical section finds a free slot and no other task
has still to compute its result, the creations are sound, and the step in which a call fails is its
first one and changes nothing. -/
theorem taskCreate_safe (cfg : Config) (hcfg : cfg.priorities.length ≤ taskMax) {m : Machine}
    {r : CreateRecord} {out : List Obs}
    (h : Run.Reach Machine.creating Machine.CreateSafe (Machine.startCreating cfg) (m, r) out) :
    m.CreatesSoundly r ∧ ∀ x m' o, m.active = some x → m.step .exec = some (m', o) →
      m'.ctl x = .sched (.created (-1)) →
        (∃ isNull priority, m.ctl x = .sched (.create isNull priority)) ∧ m'.kernel = m.kernel := by
  have hs := creationsSound_of_reach cfg hcfg h
  refine ⟨⟨hs.count, hs.written, fun q hq hpos => ?_, hs.nodup, fun q hq hneg => ?_⟩, ?_⟩
  · rcases hs.results q hq with rfl | ⟨s, -, rfl⟩
    · cases hpos
    · rfl
  · rcases hs.results q hq with rfl | ⟨s, -, rfl⟩
    · rfl
    · exact absurd hneg (by simp)
  · intro x m' o hact hstep hfail
    rcases Machine.step_cases hstep with ⟨_, _, he, _⟩ | ⟨y, t, k', c', -, hact', -, hst, rfl⟩ |
      ⟨_, he, _⟩ | ⟨he, _⟩ | ⟨_, he, _⟩ | ⟨_, _, he, _⟩
    · cases he
    · obtain rfl : x = y := Option.some.inj (hact.symm.trans hact')
      rw [Machine.ctl_resume, Function.update_self] at hfail
      subst hfail
      cases hc : m.ctl x with
      | app => cases hc ▸ hst
      | sem c | mutex c | queue c | event c | notify c =>
        rw [hc] at hst
        obtain ⟨_, -, he⟩ := Option.map_eq_some_iff.1 hst
        cases he
      | sched c =>
        rw [hc] at hst
        obtain ⟨⟨k₁, c₁, o₁⟩, hst, he⟩ := Option.map_eq_some_iff.1 hst
        cases he
        cases c with
        | create isNull priority =>
          simp only [schedStep] at hst
          split_ifs at hst <;> cases hst
          exact ⟨⟨isNull, priority, rfl⟩, rfl⟩
        | createReturn =>
          -- the caller has taken a slot, so the table is not empty
          obtain ⟨s, hn, -⟩ := hs.pending x hc
          simp only [schedStep, Option.some.injEq, Prod.mk.injEq, SchedCtl.created.injEq] at hst
          omega
        | delay | delayWait =>
          simp only [schedStep] at hst
          split_ifs at hst <;> cases hst
        | delayTrigger | yield | block | trigger | pause | resume | createSection | returned
        | created => cases hst
    · cases he
    · cases he
    · cases he
    · cases he

/-! ### Known creators -/

/-- Only the contexts that call `sched_task_create` come to its program points. -/
theorem Machine.inCreate_step {P : Ctx → Prop} {m m' : Machine} {a : Action} {o : List Obs}
    (h : ∀ y, (m.ctl y).inCreate = true → P y)
    (hcall : ∀ c, a = .call c → c.isCreate = true → ∀ x, m.active = some x → P x)
    (hs : m.step a = some (m', o)) : ∀ y, (m'.ctl y).inCreate = true → P y := by
  intro y hy
  rcases Machine.step_cases hs with ⟨c, x, rfl, hact, -, rfl, -⟩ |
    ⟨x, u, k', c', -, hact, -, hst, rfl⟩ | ⟨c, -, hsafe, rfl, -⟩ | ⟨rfl, _⟩ | ⟨_, rfl, _⟩ |
    ⟨_, _, rfl, _⟩
  · dsimp only at hy
    rw [Function.update_apply] at hy
    split_ifs at hy with he
    · exact hcall c rfl (by cases c <;> first | rfl | cases hy) y (he ▸ hact)
    · exact h y hy
  · rw [Machine.ctl_resume, Function.update_apply] at hy
    split_ifs at hy with he
    · cases hin : (m.ctl x).inCreate with
      | true => exact he ▸ h x hin
      | false =>
        rw [Ctl.inCreate_ctlStep hin hst] at hy
        cases hy
    · exact h y hy
  · dsimp only at hy
    rw [Function.update_apply] at hy
    split_ifs at hy with he
    · cases c <;> cases hsafe <;> cases hy
    · exact h y hy
  all_goals exact h y (Machine.ctl_of_quiet (by simp) (by simp) (by simp) hs ▸ hy)

/-- Only the tasks `ts` call `sched_task_create`. A task that enters the critical section finds a free
slot, and none of them has still to compute its result. -/
def Machine.CreatorsIn (ts : List TaskPtr) (p : Machine × CreateRecord) : Action → Prop
  | .call c => c.isCreate = true → ∃ t ∈ ts, p.1.active = some (.thread t)
  | .exec =>
    match p.1.active.map p.1.ctl with
    | some (.sched (.createSection _)) =>
      p.1.kernel.taskCount < taskMax ∧ ∀ t ∈ ts, p.1.ctl (.thread t) ≠ .sched .createReturn
    | _ => True
  | _ => True

instance (ts : List TaskPtr) : ∀ p a, Decidable (Machine.CreatorsIn ts p a)
  | p, .call c =>
    inferInstanceAs (Decidable (c.isCreate = true → ∃ t ∈ ts, p.1.active = some (.thread t)))
  | p, .exec => by
    unfold Machine.CreatorsIn
    dsimp only
    split <;> infer_instance
  | _, .irq _ | _, .pendSV | _, .clock _ | _, .tick _ => inferInstanceAs (Decidable True)

/-- Such runs meet the condition. -/
theorem createSafe_of_creatorsIn {ts : List TaskPtr} {cfg : Config} {p : Machine × CreateRecord}
    {out : List Obs}
    (h : Run.Reach Machine.creating (Machine.CreatorsIn ts) (Machine.startCreating cfg) p out) :
    Run.Reach Machine.creating Machine.CreateSafe (Machine.startCreating cfg) p out := by
  refine h.mono fun p _ a hp hok => ?_
  have honly : ∀ y, (p.1.ctl y).inCreate = true → ∃ t ∈ ts, y = .thread t := by
    refine hp.invariant (I := fun p => ∀ y, (p.1.ctl y).inCreate = true → ∃ t ∈ ts, y = .thread t)
      nofun ?_
    rintro ⟨m, r⟩ ⟨m', r'⟩ a o hI hok hstep
    refine Machine.inCreate_step hI ?_ (Run.annotate_eq_some.1 hstep).1
    rintro c rfl hc x hact
    obtain ⟨t, ht, hcaller⟩ := hok hc
    exact ⟨t, ht, Option.some.inj (hact.symm.trans hcaller)⟩
  cases a with
  | exec =>
    intro x priority hact hc
    have hpoint : p.1.active.map p.1.ctl = some (.sched (.createSection priority)) := by
      rw [hact, Option.map_some, hc]
    simp only [Machine.CreatorsIn, hpoint] at hok
    refine ⟨hok.1, fun y hy => ?_⟩
    obtain ⟨t, ht, rfl⟩ := honly y (by rw [hy]; rfl)
    exact hok.2 t ht hy
  | call | irq | pendSV | clock | tick => trivial

/-- Only the task `t` calls `sched_task_create`. -/
def Machine.OneCreator (t : TaskPtr) (p : Machine × CreateRecord) : Action → Prop
  | .call c => c.isCreate = true → p.1.active = some (.thread t)
  | _ => True

/-- When only the task `t` creates tasks, no other context is in a creation, and a slot that it has found
stays free. -/
structure CreatorSound (t : TaskPtr) (m : Machine) : Prop where
  only : ∀ y, (m.ctl y).inCreate = true → y = .thread t
  free : ∀ priority, m.ctl (.thread t) = .sched (.createSection priority) → m.kernel.taskCount < taskMax

/-- The creator finds a free slot before its critical section. -/
theorem CreatorSound.free_exec {t : TaskPtr} {m m' : Machine} {o : List Obs} (h : CreatorSound t m)
    (hs : m.step .exec = some (m', o)) {priority : ℕ}
    (hc : m'.ctl (.thread t) = .sched (.createSection priority)) :
    m'.kernel.taskCount < taskMax := by
  rcases Machine.step_cases hs with ⟨_, _, he, _⟩ | ⟨x, u, k', c', -, hact, -, hst, rfl⟩ |
    ⟨_, he, _⟩ | ⟨he, _⟩ | ⟨_, he, _⟩ | ⟨_, _, he, _⟩
  · cases he
  · rw [Machine.ctl_resume] at hc
    by_cases hx : Ctx.thread t = x
    · rw [← hx, Function.update_self] at hc
      rw [← hx] at hst
      cases hc' : m.ctl (.thread t) with
      | app => cases hc' ▸ hst
      | sem c | mutex c | queue c | event c | notify c =>
        rw [hc'] at hst
        obtain ⟨_, -, he⟩ := Option.map_eq_some_iff.1 hst
        cases he
        cases hc
      | sched c =>
        rw [hc'] at hst
        obtain ⟨⟨k₁, c₁, o₁⟩, hst, he⟩ := Option.map_eq_some_iff.1 hst
        cases he
        cases hc
        cases c <;> simp only [schedStep] at hst
        case create isNull priority =>
          split_ifs at hst with hfull
          · cases hst
          · simp only [Option.some.injEq, Prod.mk.injEq] at hst
            rw [Machine.kernel_resume, ← hst.1]
            exact not_le.1 fun hle => hfull (.inl hle)
        all_goals (try split_ifs at hst) <;> cases hst
    · have hin : (m.ctl x).inCreate = false := by
        by_contra hin
        exact hx (h.only x (Bool.eq_true_of_not_eq_false hin)).symm
      rw [Function.update_of_ne hx] at hc
      rw [Machine.taskCount_of_not_inCreate hact hin hs]
      exact h.free priority hc
  · cases he
  · cases he
  · cases he
  · cases he

theorem CreatorSound.step {t : TaskPtr} {m m' : Machine} {r : CreateRecord} {a : Action} {o : List Obs}
    (h : CreatorSound t m) (hok : Machine.OneCreator t (m, r) a) (hs : m.step a = some (m', o)) :
    CreatorSound t m' := by
  have honly : ∀ y, (m'.ctl y).inCreate = true → y = .thread t := by
    refine Machine.inCreate_step h.only ?_ hs
    rintro c rfl hc x hact
    exact Option.some.inj (hact.symm.trans (hok hc))
  refine ⟨honly, fun priority hc => ?_⟩
  by_cases hexec : a = .exec
  · exact h.free_exec (hexec ▸ hs) hc
  rw [Machine.taskCount_of_ne_exec hexec hs]
  cases a with
  | exec => exact absurd rfl hexec
  | call c =>
    rcases Machine.step_cases hs with ⟨_, i, he, hact, -, rfl, -⟩ | ⟨_, _, _, _, he, _⟩ |
      ⟨_, he, _⟩ | ⟨he, _⟩ | ⟨_, he, _⟩ | ⟨_, _, he, _⟩ <;> cases he
    dsimp only at hc
    rw [Function.update_apply] at hc
    split_ifs at hc
    · cases c <;> cases hc
    · exact h.free priority hc
  | irq c =>
    rcases Machine.step_cases hs with ⟨_, _, he, _⟩ | ⟨_, _, _, _, he, _⟩ |
      ⟨_, he, hsafe, rfl, -⟩ | ⟨he, _⟩ | ⟨_, he, _⟩ | ⟨_, _, he, _⟩ <;> cases he
    dsimp only at hc
    rw [Machine.update_isr] at hc
    exact h.free priority hc
  | pendSV | clock n | tick n =>
    exact h.free priority (Machine.ctl_of_quiet (by simp) (by simp) (by simp) hs ▸ hc)

/-- A run in which a single task creates tasks meets the condition. -/
theorem createSafe_of_oneCreator {t : TaskPtr} {cfg : Config} {p : Machine × CreateRecord} {out : List Obs}
    (h : Run.Reach Machine.creating (Machine.OneCreator t) (Machine.startCreating cfg) p out) :
    Run.Reach Machine.creating Machine.CreateSafe (Machine.startCreating cfg) p out := by
  refine h.mono fun p _ a hp _ => ?_
  have hs : CreatorSound t p.1 := by
    refine hp.invariant (I := fun p => CreatorSound t p.1) ⟨nofun, nofun⟩ ?_
    rintro ⟨m, r⟩ ⟨m', r'⟩ a o hI hok hstep
    exact hI.step hok (Run.annotate_eq_some.1 hstep).1
  cases a with
  | exec =>
    intro x priority _ hc
    obtain rfl := hs.only x (by rw [hc]; rfl)
    refine ⟨hs.free priority hc, fun y hy => ?_⟩
    obtain rfl := hs.only y (by rw [hy]; rfl)
    cases hc.symm.trans hy
  | call | irq | pendSV | clock | tick => trivial

/-! ### Runs on the two sides of the condition -/

/-- The record of a run given by its actions. -/
def Scenario.creations (s : Scenario) : Machine × CreateRecord :=
  s.noted Machine.creation (Machine.startCreating s.config).2

theorem Scenario.reach_creations (s : Scenario) {ok : Machine × CreateRecord → Action → Prop}
    (h : Run.Permitted Machine.creating ok (Machine.startCreating s.config) s.actions) :
    ∃ out, Run.Reach Machine.creating ok (Machine.startCreating s.config)
      (s.creations.1, s.creations.2) out :=
  s.reach_noted Machine.creation _ h

/-- Two tasks create others in turns; each is preempted between its test and its critical section. -/
def createInTurns : Scenario where
  config := { priorities := [1, 1] }
  actions := [.call (.schedTaskCreate false 2), .exec, .tick 1, .pendSV,
    .call (.schedTaskCreate false 2), .exec, .exec, .exec, .call (.schedTaskCreate false 2), .exec,
    .tick 1, .pendSV, .exec, .exec, .tick 1, .pendSV, .exec, .exec]
  possible := by decide +kernel

theorem createInTurns_safe :
    createInTurns.creations.2.results =
        [(some 0, 0), (some 1, 1), (some 2, 2), (some 3, 3), (some 4, 4)] ∧
      createInTurns.creations.1.CreatesSoundly createInTurns.creations.2 := by
  have hpermitted : Run.Permitted Machine.creating (Machine.CreatorsIn [.tcb 0, .tcb 1])
      (Machine.startCreating createInTurns.config) createInTurns.actions := by decide +kernel
  obtain ⟨out, hreach⟩ := createInTurns.reach_creations hpermitted
  refine ⟨by decide +kernel, ?_⟩
  exact (taskCreate_safe createInTurns.config (by decide) (createSafe_of_creatorsIn hreach)).1

/-- One task is preempted between its critical section and its result by another one that creates a
task too. -/
def createAcrossResult : Scenario where
  config := { priorities := [1, 1] }
  actions := [.call (.schedTaskCreate false 2), .exec, .exec, .tick 1, .pendSV,
    .call (.schedTaskCreate false 2), .exec, .exec, .exec, .tick 1, .pendSV, .exec]
  possible := by decide +kernel

/-- One task is preempted between its test and its critical section by another one that takes the last
slot. -/
def createAcrossTest : Scenario where
  config := { priorities := [1, 1, 2, 2, 2, 2, 2, 2, 2, 2, 2] }
  actions := [.call (.schedTaskCreate false 2), .exec, .tick 1, .pendSV,
    .call (.schedTaskCreate false 2), .exec, .exec, .exec, .tick 1, .pendSV, .exec]
  possible := by decide +kernel

/-- Both callers get the index 3, and the first of them has taken the slot 2; and the last call of the
other run writes behind the end of the table. -/
theorem taskCreate_unsafe :
    (∃ m r out, Run.Reach Machine.creating (fun _ _ => True)
      (Machine.startCreating createAcrossResult.config) (m, r) out ∧
      r.results = [(some 0, 0), (some 1, 1), (some 3, 3), (some 2, 3)] ∧ ¬ m.CreatesSoundly r) ∧
    ∃ m r out, Run.Reach Machine.creating (fun _ _ => True)
      (Machine.startCreating createAcrossTest.config) (m, r) out ∧
      r.written = [11, 12] ∧ m.kernel.taskCount = 13 ∧ taskMax = 12 ∧ ¬ m.CreatesSoundly r := by
  obtain ⟨out, hreach⟩ := createAcrossResult.reach_creations (.of_forall _ fun _ _ _ => trivial)
  obtain ⟨out', hreach'⟩ := createAcrossTest.reach_creations (.of_forall _ fun _ _ _ => trivial)
  have hresults : createAcrossResult.creations.2.results =
      [(some 0, 0), (some 1, 1), (some 3, 3), (some 2, 3)] := by decide +kernel
  have hwritten : createAcrossTest.creations.2.written = [11, 12] := by decide +kernel
  have hcount : createAcrossTest.creations.1.kernel.taskCount = 13 := by decide +kernel
  refine ⟨⟨_, _, out, hreach, hresults, fun hs => ?_⟩, _, _, out', hreach', hwritten, hcount, rfl,
    fun hs => ?_⟩
  · have hnodup := hs.nodup
    rw [hresults] at hnodup
    exact absurd hnodup (by decide)
  · have hle := hs.count
    rw [hcount] at hle
    exact absurd hle (by decide)

end TamgaOs
