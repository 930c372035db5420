import TamgaOs.Machine.Orderly

/-!
# A task notification is a mailbox for the latest value

The critical section of `task_notify_give` stores the value and the flag, and those of
`task_notify_wait` test and clear the flag. The wake-up is issued outside of the critical section and
may come late or twice: what a wait returns depends on the order of the critical sections only.

## Main definitions

* `Unconsumed`: the value of the most recent give, as long as no wait has consumed it.
* `mailbox`: the same, computed from what has been reported.
* `NotifyCtl.checks`: the critical sections in which a wait looks at its flag.

## Main results

* `Machine.mailbox_of_reach`: flag and value are the mailbox.
* `notify_latest`: a wait returns the most recent value that has not been consumed, or 0 if there is
  none, in whatever order gives, waits and ticks come.
-/

namespace TamgaOs

/-- The most recent give to the task has given this value, and no wait has consumed it. -/
def Unconsumed (t : TaskPtr) (out : List Obs) (value : ℕ) : Prop :=
  ∃ pre post, out = pre ++ .notifyGiven t value :: post ∧
    (∀ w, Obs.notifyGiven t w ∉ post) ∧ ∀ w, Obs.notifyTaken t w ∉ post

/-- The mailbox of the task after a report. -/
def mailboxAfter (t : TaskPtr) (box : Option ℕ) : Obs → Option ℕ
  | .notifyGiven u value => if u = t then some value else box
  | .notifyTaken u _ => if u = t then none else box
  | _ => box

/-- The mailbox of the task after these reports. -/
def mailbox (t : TaskPtr) (out : List Obs) : Option ℕ := out.foldl (mailboxAfter t) none

variable {m m' : Machine} {a : Action} {o out : List Obs} {k k' : Kernel} {t u : TaskPtr}
  {c c' : NotifyCtl}

theorem mailbox_append (t : TaskPtr) (out o : List Obs) :
    mailbox t (out ++ o) = o.foldl (mailboxAfter t) (mailbox t out) :=
  List.foldl_append

theorem mailbox_concat (t : TaskPtr) (out : List Obs) (b : Obs) :
    mailbox t (out ++ [b]) = mailboxAfter t (mailbox t out) b :=
  mailbox_append t out [b]

theorem mailbox_eq_some_iff (t : TaskPtr) (out : List Obs) (value : ℕ) :
    mailbox t out = some value ↔ Unconsumed t out value := by
  induction out using List.reverseRecOn with
  | nil => exact iff_of_false (by simp [mailbox]) fun ⟨pre, post, he, _⟩ => by simp at he
  | append_singleton out b ih =>
    -- The last report is the give itself, or it comes after the give and is about something else.
    have hlast : Unconsumed t (out ++ [b]) value ↔ b = .notifyGiven t value ∨
        ((∀ w, b ≠ .notifyGiven t w) ∧ (∀ w, b ≠ .notifyTaken t w) ∧ Unconsumed t out value) := by
      constructor
      · rintro ⟨pre, post, he, hgiven, htaken⟩
        rcases List.eq_nil_or_concat post with rfl | ⟨post, b', rfl⟩
        · exact Or.inl (List.singleton_inj.1 (List.append_inj' he rfl).2)
        · rw [List.concat_eq_append] at he hgiven htaken
          rw [← List.cons_append, ← List.append_assoc] at he
          obtain ⟨rfl, hb⟩ := List.append_inj' he rfl
          obtain rfl := List.singleton_inj.1 hb
          exact Or.inr ⟨fun w hw => hgiven w (by simp [hw]), fun w hw => htaken w (by simp [hw]),
            pre, post, rfl, fun w hw => hgiven w (List.mem_append_left _ hw),
            fun w hw => htaken w (List.mem_append_left _ hw)⟩
      · rintro (rfl | ⟨hgiven, htaken, pre, post, rfl, hg, ht⟩)
        · exact ⟨out, [], rfl, by simp, by simp⟩
        · refine ⟨pre, post ++ [b], by simp, fun w hw => ?_, fun w hw => ?_⟩
          · rcases List.mem_append.1 hw with hw | hw
            · exact hg w hw
            · exact hgiven w (List.mem_singleton.1 hw).symm
          · rcases List.mem_append.1 hw with hw | hw
            · exact ht w hw
            · exact htaken w (List.mem_singleton.1 hw).symm
    rw [hlast, mailbox_concat, ← ih]
    cases b with
    | notifyGiven v w =>
      rcases eq_or_ne v t with rfl | hne
      · simp [mailboxAfter]
      · simp [mailboxAfter, hne]
    | notifyTaken v w =>
      rcases eq_or_ne v t with rfl | hne
      · simp [mailboxAfter]
      · simp [mailboxAfter, hne]
    | _ => simp [mailboxAfter]

/-! ### The flag and the value -/

/-- Flag and value of a notification, as a mailbox. -/
def Kernel.mail (k : Kernel) (t : TaskPtr) : Option ℕ :=
  if (k.tcb t).notifyPending then some (k.tcb t).notifyValue else none

theorem Kernel.mail_modifyTask {f : Task → Task} (hf : ∀ x : Task,
    (f x).notifyPending = x.notifyPending ∧ (f x).notifyValue = x.notifyValue) :
    (k.modifyTask u f).mail = k.mail := by
  funext t
  unfold Kernel.mail
  rw [Kernel.modifyTask_tcb]
  split_ifs with ht <;> simp_all

theorem Kernel.mail_of_rescheduled (h : Rescheduled k k') : k'.mail = k.mail := by
  funext t
  unfold Kernel.mail
  rw [h.tcb t]

theorem Kernel.mail_triggerIfSwitch (k : Kernel) : k.triggerIfSwitch.mail = k.mail := by
  unfold Kernel.triggerIfSwitch
  split_ifs <;> rfl

theorem Kernel.mail_wakeSection (k : Kernel) (u : TaskPtr) : (k.wakeSection u).mail = k.mail :=
  (mail_of_rescheduled rescheduled_schedPickAndMark).trans (mail_modifyTask fun _ => ⟨rfl, rfl⟩)

theorem Kernel.mail_tickTask {n i : ℕ} (h : tickTask n k i = some k') : k'.mail = k.mail := by
  unfold tickTask at h
  dsimp only at h
  split_ifs at h
  · unfold expire at h
    split at h
    · obtain ⟨k₁, hrem, rfl⟩ := Option.map_eq_some_iff.1 h
      obtain ⟨S, hrel⟩ := schedWaitListRemove_relinked hrem
      refine Eq.trans (mail_modifyTask ?_) (funext fun t => ?_)
      · exact fun _ => ⟨rfl, rfl⟩
      · unfold Kernel.mail
        rw [hrel.tcb t]
    · cases h
      exact mail_modifyTask fun _ => ⟨rfl, rfl⟩
  · cases h
    exact mail_modifyTask fun _ => ⟨rfl, rfl⟩
  · cases h
    rfl

/-- A tick touches no notification. -/
theorem Kernel.mail_schedTickN {n : ℕ} (h : k.schedTickN n = some k') : k'.mail = k.mail := by
  obtain ⟨k₁, hloop, rfl⟩ := schedTickN_rel (R := fun k k' => k'.mail = k.mail) (fun _ => rfl)
    (fun h₁ h₂ => h₂.trans h₁) mail_tickTask h
  exact (mail_triggerIfSwitch _).trans
    ((mail_of_rescheduled rescheduled_schedPickAndMark).trans hloop)

theorem Kernel.mail_notifyTake (k : Kernel) (u : TaskPtr) :
    (k.notifyTake u).mail = Function.update k.mail u none := by
  funext t
  unfold notifyTake mail
  rw [modifyTask_tcb, Function.update_apply]
  split_ifs with ht <;> simp_all

theorem Kernel.mail_notifyGiveSection (k : Kernel) (u : TaskPtr) (value : ℕ) :
    (k.notifyGiveSection u value).1.mail = Function.update k.mail u (some value) := by
  funext t
  unfold notifyGiveSection mail
  rw [modifyTask_tcb, Function.update_apply]
  split_ifs with ht <;> simp_all

theorem Kernel.mail_notifyBlockSection (k : Kernel) (u : TaskPtr) (ms : ℕ) :
    (k.notifyBlockSection u ms).mail = k.mail :=
  (mail_of_rescheduled (k := k.modifyTask u fun x =>
    { x with state := .blocked, delayTicks := ms, waitListHead := none })
    rescheduled_schedPickAndMark).trans (mail_modifyTask fun _ => ⟨rfl, rfl⟩)

/-- What a step of a notification call reports is what it does to the mailboxes. -/
theorem notifyStep_mail (h : notifyStep k u c = some (k', c', o)) (t : TaskPtr) :
    k'.mail t = o.foldl (mailboxAfter t) (k.mail t) := by
  have htake : (k.notifyTake u).mail t =
      [Obs.notifyTaken u (k.tcb u).notifyValue].foldl (mailboxAfter t) (k.mail t) := by
    rw [k.mail_notifyTake, Function.update_apply]
    simp [mailboxAfter, eq_comm]
  cases c with
  | give v value =>
    cases v with
    | none =>
      cases h
      rfl
    | some v =>
      have hgive : (k.notifyGiveSection v value).1.mail t =
          [Obs.notifyGiven v value].foldl (mailboxAfter t) (k.mail t) := by
        rw [k.mail_notifyGiveSection, Function.update_apply]
        simp [mailboxAfter, eq_comm]
      simp only [notifyStep] at h
      split at h <;> rename_i k₁ he <;> cases h <;> rw [he] at hgive <;> exact hgive
  | wake v =>
    cases h
    rw [k.mail_wakeSection]
    rfl
  | trigger =>
    cases h
    rw [k.mail_triggerIfSwitch]
    rfl
  | wait ms =>
    simp only [notifyStep] at h
    split_ifs at h <;> cases h
    · exact htake
    · rfl
    · rw [k.mail_notifyBlockSection]
      rfl
  | blocked =>
    simp only [notifyStep] at h
    split_ifs at h <;> cases h
    · exact htake
    · rfl
  | given | returned v => cases h

theorem notifyStep_single (h : notifyStep k u c = some (k', c', o)) : o = [] ∨ ∃ b, o = [b] := by
  cases c with
  | give v value =>
    cases v with
    | none =>
      cases h
      exact Or.inl rfl
    | some v =>
      simp only [notifyStep] at h
      split at h <;> cases h <;> exact Or.inr ⟨_, rfl⟩
  | wake | trigger =>
    cases h
    exact Or.inl rfl
  | wait | blocked =>
    simp only [notifyStep] at h
    split_ifs at h <;> cases h <;> first | exact Or.inl rfl | exact Or.inr ⟨_, rfl⟩
  | given | returned v => cases h

theorem Kernel.mail_eq_some {value : ℕ} : k.mail t = some value ↔
    (k.tcb t).notifyPending = true ∧ (k.tcb t).notifyValue = value := by
  unfold Kernel.mail
  split_ifs with hp <;> simp [hp]

/-- What a wait reports as consumed is in the mailbox. -/
theorem notifyStep_taken (h : notifyStep k u c = some (k', c', o)) {value : ℕ}
    (ht : .notifyTaken t value ∈ o) : k.mail t = some value := by
  rw [Kernel.mail_eq_some]
  cases c with
  | give v value =>
    cases v with
    | none =>
      cases h
      cases ht
    | some v =>
      simp only [notifyStep] at h
      split at h <;> cases h <;> simp at ht
  | wake | trigger =>
    cases h
    cases ht
  | wait | blocked =>
    simp only [notifyStep] at h
    split_ifs at h with hp
    · cases h
      obtain ⟨rfl, rfl⟩ : t = u ∧ value = (k.tcb u).notifyValue := by simpa using ht
      exact ⟨hp, rfl⟩
    all_goals
      cases h
      cases ht
  | given | returned v => cases h

/-! ### Runs -/

/-- The calls of `notify.c`. -/
def Call.Notifies (c : Call) : Prop := c.family = some .notify

instance : DecidablePred Call.Notifies := fun _ => inferInstanceAs (Decidable (_ = _))

theorem Machine.ctl_notifies {cfg : Config}
    (h : Run.Reach Machine.step (fun _ a => a.Within Call.Notifies) (Machine.start cfg) m out)
    (x : Ctx) : m.ctl x = .app ∨ ∃ c, m.ctl x = .notify c := by
  refine Machine.ctl_of_reach (S := fun c => c = .app ∨ ∃ d, c = .notify d) (fun _ _ => id)
    (Or.inl rfl) (fun c hc => Or.inr ?_) ?_ h x
  · cases c <;> first | exact ⟨_, rfl⟩ | cases hc
  · rintro k t c k' c' o (rfl | ⟨c, rfl⟩) hs
    · cases hs
    · obtain ⟨⟨k₁, c₁, o₁⟩, -, he⟩ := Option.map_eq_some_iff.1 hs
      cases he
      exact Or.inr ⟨c₁, rfl⟩

/-- What an action reports is what it does to the mailboxes, and it is one report at most. -/
theorem Machine.step_mail (hctl : ∀ x, m.ctl x = .app ∨ ∃ c, m.ctl x = .notify c)
    (hst : m.step a = some (m', o)) (t : TaskPtr) :
    m'.kernel.mail t = o.foldl (mailboxAfter t) (m.kernel.mail t) ∧
      (o = [] ∨ ∃ b, o = [b]) := by
  rcases Machine.step_cases hst with ⟨c, i, rfl, -, -, rfl, rfl⟩ |
    ⟨x, u, k', c', rfl, -, -, hs, rfl⟩ | ⟨c, rfl, -, rfl, rfl⟩ | ⟨rfl, -, -, rfl, rfl⟩ |
    ⟨n, rfl, rfl, rfl⟩ | ⟨n, k', rfl, hk, rfl, rfl⟩
  · exact ⟨rfl, Or.inl rfl⟩
  · rcases hctl x with happ | ⟨c, hc⟩
    · rw [happ] at hs
      cases hs
    · rw [hc] at hs
      obtain ⟨⟨k₁, c₁, o₁⟩, hstep, he⟩ := Option.map_eq_some_iff.1 hs
      cases he
      exact ⟨notifyStep_mail hstep t, notifyStep_single hstep⟩
  · exact ⟨rfl, Or.inl rfl⟩
  · exact ⟨rfl, Or.inl rfl⟩
  · exact ⟨rfl, Or.inl rfl⟩
  · exact ⟨congrFun (Kernel.mail_schedTickN hk) t, Or.inl rfl⟩

/-- A wait consumes the most recent value. -/
theorem Machine.unconsumed_of_taken (hctl : ∀ x, m.ctl x = .app ∨ ∃ c, m.ctl x = .notify c)
    (hmail : m.kernel.mail t = mailbox t out) (hst : m.step a = some (m', o)) {value : ℕ}
    (htaken : .notifyTaken t value ∈ o) : Unconsumed t out value := by
  rw [← mailbox_eq_some_iff, ← hmail]
  rcases Machine.step_cases hst with ⟨c, i, rfl, -, -, rfl, rfl⟩ |
    ⟨x, u, k', c', rfl, -, -, hs, rfl⟩ | ⟨c, rfl, -, rfl, rfl⟩ | ⟨rfl, -, -, rfl, rfl⟩ |
    ⟨n, rfl, rfl, rfl⟩ | ⟨n, k', rfl, hk, rfl, rfl⟩
  · cases htaken
  · rcases hctl x with happ | ⟨c, hc⟩
    · rw [happ] at hs
      cases hs
    · rw [hc] at hs
      obtain ⟨⟨k₁, c₁, o₁⟩, hstep, he⟩ := Option.map_eq_some_iff.1 hs
      cases he
      exact notifyStep_taken hstep htaken
  · cases htaken
  · cases htaken
  · cases htaken
  · cases htaken

theorem Config.mail_start (cfg : Config) (t : TaskPtr) : (Machine.start cfg).kernel.mail t = none := by
  have hcreated : cfg.created.mail t = none := by
    refine cfg.created_induct (I := fun k => k.mail t = none) (by cases t <;> rfl) fun k p hk => ?_
    unfold Kernel.mail at hk ⊢
    rw [k.tcb_createSection]
    split_ifs at hk ⊢ <;> first | rfl | simp_all
  show (cfg.created.schedStart).mail t = none
  unfold Kernel.mail at hcreated ⊢
  rw [Kernel.tcb_schedStart]
  exact hcreated

/-- Flag and value are the mailbox, and every wait so far has consumed the most recent value. -/
theorem Machine.mailbox_of_reach {cfg : Config}
    (h : Run.Reach Machine.step (fun _ a => a.Within Call.Notifies) (Machine.start cfg) m out)
    (t : TaskPtr) : m.kernel.mail t = mailbox t out ∧
      ∀ pre value post, out = pre ++ .notifyTaken t value :: post → Unconsumed t pre value := by
  refine h.induct (I := fun m out => m.kernel.mail t = mailbox t out ∧
    ∀ pre value post, out = pre ++ .notifyTaken t value :: post → Unconsumed t pre value)
    ⟨cfg.mail_start t, fun pre value post he => by simp at he⟩ ?_
  rintro m m' a out o hr ⟨hmail, htaken⟩ - hst
  have hctl := Machine.ctl_notifies hr
  obtain ⟨hstep, hone⟩ := Machine.step_mail hctl hst t
  refine ⟨by rw [mailbox_append, ← hmail, hstep], fun pre value post he => ?_⟩
  rcases hone with rfl | ⟨b, rfl⟩
  · exact htaken pre value post (by simpa using he)
  · rcases List.eq_nil_or_concat post with rfl | ⟨post, b', rfl⟩
    · obtain ⟨rfl, hb⟩ := List.append_inj' he rfl
      exact Machine.unconsumed_of_taken hctl hmail hst (by simpa using hb.symm)
    · rw [List.concat_eq_append, ← List.cons_append, ← List.append_assoc] at he
      exact htaken pre value post (List.append_inj' he rfl).1

/-- The critical sections in which `task_notify_wait` looks at its flag. -/
def NotifyCtl.checks : NotifyCtl → Bool
  | .wait _ | .blocked => true
  | _ => false

/-- A wait of the task looks at its flag at this point. -/
def Machine.ChecksNotification (m : Machine) (t : TaskPtr) : Prop :=
  m.active = some (.thread t) ∧ ∃ c, m.ctl (.thread t) = .notify c ∧ c.checks = true

/-- Gives and waits by tasks, gives by interrupt handlers, context switches and ticks, in any order:
* a wait that looks at its flag returns 1 with the most recent value if no wait has consumed it, and
  clears the flag; otherwise it returns 0 or blocks;
* every value that a wait has consumed is the most recent one before;
* between two waits that have returned 1 the later value has been given. -/
theorem notify_latest (cfg : Config)
    (h : Run.Reach Machine.step (fun _ a => a.Within Call.Notifies) (Machine.start cfg) m out)
    (t : TaskPtr) :
    (∀ m' o, m.ChecksNotification t → m.step .exec = some (m', o) →
      (∀ value, Unconsumed t out value → m'.ctl (.thread t) = .notify (.returned (some value)) ∧
        o = [.notifyTaken t value] ∧ (m'.kernel.tcb t).notifyPending = false) ∧
      ((∀ value, ¬Unconsumed t out value) → o = [] ∧
        (m'.ctl (.thread t) = .notify (.returned none) ∨
          m'.ctl (.thread t) = .notify .blocked))) ∧
    (∀ pre value post, out = pre ++ .notifyTaken t value :: post → Unconsumed t pre value) ∧
    ∀ pre value mid value' post,
      out = pre ++ .notifyTaken t value :: (mid ++ .notifyTaken t value' :: post) →
      .notifyGiven t value' ∈ mid := by
  obtain ⟨hmail, htaken⟩ := Machine.mailbox_of_reach h t
  refine ⟨fun m' o hcheck hst => ?_, htaken, fun pre value mid value' post he => ?_⟩
  · obtain ⟨hact, c, hc, hchecks⟩ := hcheck
    obtain ⟨-, -, hcur⟩ := Machine.active_thread hact
    simp only [← mailbox_eq_some_iff, ← hmail, Kernel.mail_eq_some]
    obtain ⟨x, u, k', c', hx, hu, hs, rfl⟩ : ∃ x u k' c', m.active = some x ∧
        m.kernel.currentTask = some u ∧ ctlStep m.kernel u (m.ctl x) = some (k', c', o) ∧
        m' = m.resume x k' c' := by
      rcases Machine.step_cases hst with ⟨_, _, he, _⟩ | ⟨x, u, k', c', -, h⟩ | ⟨_, he, _⟩ |
        ⟨he, _⟩ | ⟨_, he, _⟩ | ⟨_, _, he, _⟩
      · cases he
      · exact ⟨x, u, k', c', h⟩
      · cases he
      · cases he
      · cases he
      · cases he
    rw [hact] at hx
    cases hx
    rw [hcur] at hu
    cases hu
    rw [hc] at hs
    obtain ⟨⟨k₁, c₁, o₁⟩, hstep, he⟩ := Option.map_eq_some_iff.1 hs
    cases he
    have hcleared : ((m.kernel.notifyTake t).tcb t).notifyPending = false := by
      simp [Kernel.notifyTake]
    cases c with
    | wait ms | blocked =>
      simp only [notifyStep] at hstep
      split_ifs at hstep with hp
      all_goals
        cases hstep
        simp [hp, hcleared]
    | give | wake | trigger | given | returned => cases hchecks
  · rw [← List.cons_append, ← List.append_assoc] at he
    obtain ⟨p, q, hpq, -, hnot⟩ := htaken _ _ _ he
    -- The give comes after the wait before, because no wait has consumed it.
    rcases List.append_eq_append_iff.1 hpq with ⟨r, rfl, hr⟩ | ⟨r, rfl, hr⟩
    · cases r with
      | nil =>
        rw [List.nil_append] at hr
        cases hr
      | cons b r =>
        obtain ⟨-, hr⟩ := List.cons.inj hr
        rw [hr]
        simp
    · cases r with
      | nil => cases hr
      | cons b r =>
        obtain ⟨-, hr⟩ := List.cons.inj hr
        exact absurd (by rw [hr]; simp) (hnot value)

/-- A task waits for a notification; two gives come, one of them between its wake-up and its final
look at the flag. -/
def notifiedTwice : Scenario where
  config := { priorities := [1] }
  actions := [.call (.taskNotifyWait 10), .exec, .pendSV, .irq (.taskNotifyGive (some (.tcb 0)) 7),
    .exec, .exec, .exec, .pendSV, .irq (.taskNotifyGive (some (.tcb 0)) 8), .exec]
  possible := by decide +kernel

theorem notifiedTwice_returns : (notifiedTwice.final.step .exec).isSome = true := by
  decide +kernel

/-- The wait returns the later value. -/
theorem notifiedTwice_latest :
    let r := (notifiedTwice.final.step .exec).get notifiedTwice_returns
    r.1.ctl (.thread (.tcb 0)) = .notify (.returned (some 8)) ∧
      r.2 = [.notifyTaken (.tcb 0) 8] ∧ (r.1.kernel.tcb (.tcb 0)).notifyPending = false := by
  have hcheck : notifiedTwice.final.ChecksNotification (.tcb 0) :=
    ⟨by decide +kernel, .blocked, by decide +kernel, rfl⟩
  have hlatest : Unconsumed (.tcb 0) notifiedTwice.reports 8 :=
    (mailbox_eq_some_iff ..).1 (by decide +kernel)
  exact ((notify_latest notifiedTwice.config (notifiedTwice.reach (by decide +kernel)) (.tcb 0)).1
    _ _ hcheck (Option.some_get notifiedTwice_returns).symm).1 8 hlatest

end TamgaOs
