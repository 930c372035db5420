import TamgaOs.Kernel.Monitors
import TamgaOs.Library.Run
import TamgaOs.Library.Tally

/-!
# What the timing monitors report

A monitor is compared with the samples that its calls have taken: the elapsed time of each cycle, or the
distance of each mark from the time that it was expected at. Both are differences of two clock values and
are right across a wrap of the clock. The sum of the samples wraps without notice.

## Main definitions

* `DeadlineRecord`, `JitterRecord`: the history of a monitor.
* `DeadlineReport.Right`, `JitterReport.Right`: a report agrees with the samples.
* `SamplesFit`: the samples fit the counters.

## Main results

* `monitors_right_iff`: the runs that a monitor reports correctly.
* `deadline_sum_wraps`: two long cycles, and a mean of 0.
-/

namespace TamgaOs

/-- The samples fit the 32-bit counters. -/
def SamplesFit (samples : List UInt32) : Prop :=
  (samples.map UInt32.toNat).sum < 2 ^ 32 ∧ samples.length < 2 ^ 32

instance (samples : List UInt32) : Decidable (SamplesFit samples) :=
  inferInstanceAs (Decidable (_ ∧ _))

/-- The counters of a monitor belong to its samples. -/
def Counts (samples : List UInt32) (lo hi sum count : UInt32) : Prop :=
  Tally (2 ^ 32) (samples.map UInt32.toNat) lo.toNat hi.toNat sum.toNat count.toNat

section Counts

variable {samples : List UInt32} {lo hi sum count x : UInt32}

theorem Counts.nil : Counts [] lo hi 0 0 := Tally.nil

theorem Counts.append (h : Counts samples lo hi sum count) (x : UInt32) :
    Counts (samples ++ [x]) (if x < lo then x else lo) (if hi < x then x else hi) (sum + x)
      (count + 1) := by
  have hlo : (if x < lo then x else lo).toNat = min lo.toNat x.toNat := by
    split_ifs with hlt
    · rw [UInt32.lt_iff_toNat_lt] at hlt
      omega
    · rw [UInt32.lt_iff_toNat_lt] at hlt
      omega
  have hhi : (if hi < x then x else hi).toNat = max hi.toNat x.toNat := by
    split_ifs with hlt
    · rw [UInt32.lt_iff_toNat_lt] at hlt
      omega
    · rw [UInt32.lt_iff_toNat_lt] at hlt
      omega
  rw [Counts, List.map_append, hlo, hhi, UInt32.toNat_add, UInt32.toNat_add]
  exact Tally.append h x.toNat

/-- The test of a report for a monitor that has samples. -/
theorem not_unused {inUse : Bool} (huse : inUse = true) (hcount : count.toNat = samples.length)
    (hne : samples ≠ []) : ¬ (!inUse || count == 0) = true := by
  rw [huse, Bool.not_true, Bool.false_or, beq_iff_eq]
  intro hzero
  rw [hzero] at hcount
  exact (List.length_pos_iff.2 hne).ne hcount

/-- The quotient of the counters is the mean, and lies between the extremes, exactly when the samples
fit. -/
theorem Counts.mean_iff (h : Counts samples lo hi sum count) (hne : samples ≠ []) :
    (count.toNat = samples.length ∧
      (sum / count).toNat = (samples.map UInt32.toNat).sum / samples.length ∧
      lo ≤ sum / count ∧ sum / count ≤ hi) ↔ SamplesFit samples := by
  have hmean := Tally.mean_iff h (by omega) (mt List.map_eq_nil_iff.1 hne)
  rw [List.length_map] at hmean
  rw [UInt32.le_iff_toNat_le, UInt32.le_iff_toNat_le, UInt32.toNat_div]
  exact hmean

end Counts

/-! ### The deadline monitor -/

/-- The history of a deadline monitor. -/
structure DeadlineRecord where
  /-- The budget that it was created with. -/
  budget : Option UInt32 := none
  /-- The clock at a `begin` that has not been matched yet. -/
  opened : Option UInt32 := none
  /-- The elapsed times of the pairs of a `begin` and an `end`. -/
  samples : List UInt32 := []

namespace DeadlineRecord

variable (r : DeadlineRecord)

/-- A `begin` is ignored when another one has not been matched. -/
def begun (now : UInt32) : DeadlineRecord := { r with opened := some (r.opened.getD now) }

/-- An `end` is ignored when there is no `begin` to match. -/
def ended (now : UInt32) : DeadlineRecord :=
  match r.opened with
  | none => r
  | some start => { r with opened := none, samples := r.samples ++ [now - start] }

end DeadlineRecord

/-- The history of the created monitor with a handle goes on. -/
def DeadlineRecord.onHandle (f : DeadlineRecord → DeadlineRecord) (handle : ℤ)
    (r : Fin 8 → DeadlineRecord) : Fin 8 → DeadlineRecord :=
  match monitorSlot handle with
  | none => r
  | some i => if (r i).budget.isSome then Function.update r i (f (r i)) else r

/-- The histories after a call. -/
def DeadlineMonitors.note (_ : DeadlineMonitors) (c : DeadlineCall) (o : List DeadlineObs)
    (r : Fin 8 → DeadlineRecord) : Fin 8 → DeadlineRecord :=
  match c, o with
  | .create _ budgetMs, [.created handle] =>
    match monitorSlot handle with
    | none => r
    | some i => Function.update r i { budget := some budgetMs }
  | .begin handle now, _ => DeadlineRecord.onHandle (·.begun now) handle r
  | .end handle now, _ => DeadlineRecord.onHandle (·.ended now) handle r
  | _, _ => r

/-- The monitors with their histories. -/
def DeadlineMonitors.recorded : DeadlineMonitors × (Fin 8 → DeadlineRecord) → DeadlineCall →
    Option ((DeadlineMonitors × (Fin 8 → DeadlineRecord)) × List DeadlineObs) :=
  Run.annotate DeadlineMonitors.step DeadlineMonitors.note

/-- A report agrees with the samples. -/
structure DeadlineReport.Right (r : DeadlineReport) (samples : List UInt32) (budget : UInt32) :
    Prop where
  cycles : r.cycleCount.toNat = samples.length
  mean : r.avgMs.toNat = (samples.map UInt32.toNat).sum / samples.length
  min_le : r.minMs ≤ r.avgMs
  le_max : r.avgMs ≤ r.maxMs
  overruns : r.overrunCount.toNat = samples.countP (budget < ·)
  overruns_le : r.overrunCount ≤ r.cycleCount

namespace DeadlineMonitor

/-- A monitor agrees with its history, up to wraps of its counters. -/
structure Keeps (m : DeadlineMonitor) (r : DeadlineRecord) : Prop where
  inUse : m.inUse = r.budget.isSome
  budget : ∀ b, r.budget = some b → m.budgetMs = b
  active : m.active = r.opened.isSome
  start : ∀ t, r.opened = some t → m.startMs = t
  counts : Counts r.samples m.minMs m.maxMs m.sumMs m.cycleCount
  overruns : ∀ b, r.budget = some b →
    m.overrunCount.toNat = r.samples.countP (b < ·) % 2 ^ 32

variable {m : DeadlineMonitor} {r : DeadlineRecord} {b now : UInt32}

theorem keeps_created (name : String) (budgetMs : UInt32) :
    (created name budgetMs).Keeps { budget := some budgetMs } :=
  ⟨rfl, fun _ h => Option.some.inj h, rfl, fun _ h => absurd h (Option.some_ne_none _).symm,
    Counts.nil, fun _ _ => rfl⟩

theorem Keeps.record (h : m.Keeps r) (elapsed : UInt32) :
    (m.record elapsed).Keeps
      { r with opened := none, samples := r.samples ++ [elapsed] } := by
  refine ⟨h.inUse, h.budget, rfl, fun _ h => absurd h (Option.some_ne_none _).symm,
    h.counts.append elapsed, fun b hb => ?_⟩
  have hover := h.overruns b hb
  simp only [DeadlineMonitor.record, h.budget b hb, List.countP_append, List.countP_singleton]
  by_cases hlt : b < elapsed
  · simp only [hlt, decide_true, if_true, UInt32.toNat_add, hover]
    exact Nat.mod_add_mod _ _ _
  · simp only [hlt, decide_false, Bool.false_eq_true, if_false, Nat.add_zero, hover]

theorem Keeps.report_iff (h : m.Keeps r) (hb : r.budget = some b) (hne : r.samples ≠ []) :
    (∃ rep, m.report = some rep ∧ rep.Right r.samples b) ↔ SamplesFit r.samples := by
  have hmean := h.counts.mean_iff hne
  have hover := h.overruns b hb
  constructor
  · rintro ⟨rep, hrep, hright⟩
    rw [report] at hrep
    split_ifs at hrep with hzero
    obtain rfl := Option.some.inj hrep
    exact hmean.1 ⟨hright.cycles, hright.mean, hright.min_le, hright.le_max⟩
  · intro hfit
    obtain ⟨hcycles, hmean, hmin, hmax⟩ := hmean.2 hfit
    have hcount : r.samples.countP (b < ·) ≤ r.samples.length := List.countP_le_length
    have hover' := hover.trans (Nat.mod_eq_of_lt (hcount.trans_lt hfit.2))
    have huse : m.inUse = true := by rw [h.inUse, hb, Option.isSome_some]
    refine ⟨_, if_neg (not_unused huse hcycles hne), hcycles, hmean, hmin, hmax, hover', ?_⟩
    rw [UInt32.le_iff_toNat_le]
    exact (hover'.trans_le hcount).trans hcycles.ge

end DeadlineMonitor

/-- A change of one entry and of its history. -/
theorem keeps_entry {β γ : Type*} {P : β → γ → Prop} {s : Fin 8 → β} {r : Fin 8 → γ} {i : Fin 8}
    {m : β} {g : γ} (h : ∀ i, P (s i) (r i)) (hm : P m g) (j : Fin 8) :
    P (Function.update s i m j) (Function.update r i g j) := by
  by_cases hj : j = i
  · subst hj
    rw [Function.update_self, Function.update_self]
    exact hm
  · rw [Function.update_of_ne hj, Function.update_of_ne hj]
    exact h j

/-- The entry of the handle that a call has returned. -/
theorem monitorSlot_val (i : Fin 8) : monitorSlot i.val = some i := by
  revert i
  decide

namespace DeadlineMonitors

open DeadlineMonitor

variable {s s' : DeadlineMonitors} {r r' : Fin 8 → DeadlineRecord} {c : DeadlineCall}
  {o : List DeadlineObs} {i : Fin 8} {now : UInt32}

theorem keeps_beginSlot (h : ∀ i, (s i).Keeps (r i)) (j : Fin 8) :
    ((s.beginSlot i now).1 j).Keeps
      ((if (r i).budget.isSome then Function.update r i ((r i).begun now) else r) j) := by
  rw [← (h i).inUse, beginSlot]
  cases hin : (s i).inUse with
  | false => exact h j
  | true =>
    cases hact : (s i).active with
    | true =>
      obtain ⟨start, hstart⟩ := Option.isSome_iff_exists.1 ((h i).active.symm.trans hact)
      have hsame : (r i).begun now = r i := by
        rw [DeadlineRecord.begun, hstart, Option.getD_some, ← hstart]
      simpa [hsame] using h j
    | false =>
      have hnone : (r i).opened = none := by
        rw [← Option.not_isSome_iff_eq_none, ← (h i).active, hact]
        exact Bool.false_ne_true
      have hbegun : DeadlineMonitor.Keeps { s i with active := true, startMs := now }
          ((r i).begun now) := by
        refine ⟨(h i).inUse, (h i).budget, rfl, fun t ht => ?_, (h i).counts, (h i).overruns⟩
        rw [DeadlineRecord.begun, hnone] at ht
        exact Option.some.inj ht
      exact keeps_entry h hbegun j

theorem keeps_endSlot (h : ∀ i, (s i).Keeps (r i)) (j : Fin 8) :
    ((s.endSlot i now).1 j).Keeps
      ((if (r i).budget.isSome then Function.update r i ((r i).ended now) else r) j) := by
  rw [← (h i).inUse, endSlot]
  cases hin : (s i).inUse with
  | false => exact h j
  | true =>
    cases hact : (s i).active with
    | false =>
      have hnone : (r i).opened = none := by
        rw [← Option.not_isSome_iff_eq_none, ← (h i).active, hact]
        exact Bool.false_ne_true
      simpa [DeadlineRecord.ended, hnone] using h j
    | true =>
      obtain ⟨start, hstart⟩ := Option.isSome_iff_exists.1 ((h i).active.symm.trans hact)
      have hended : (r i).ended now =
          { r i with opened := none, samples := (r i).samples ++ [now - (s i).startMs] } := by
        rw [DeadlineRecord.ended, hstart, (h i).start start hstart]
      have hkeeps := keeps_entry (i := i) h ((h i).record (now - (s i).startMs)) j
      simpa [hended] using hkeeps

theorem keeps_step (h : ∀ i, (s i).Keeps (r i)) (hs : recorded (s, r) c = some ((s', r'), o)) :
    ∀ i, (s' i).Keeps (r' i) := by
  obtain ⟨hstep, rfl⟩ := Run.annotate_eq_some.1 hs
  cases c with
  | create name budgetMs =>
    simp only [step] at hstep
    split at hstep
    · cases hstep
      exact h
    · rename_i i _
      cases hstep
      simp only [note, monitorSlot_val]
      exact keeps_entry h (keeps_created name budgetMs)
  | begin handle now =>
    simp only [step] at hstep
    simp only [note, DeadlineRecord.onHandle]
    cases hslot : monitorSlot handle with
    | none =>
      rw [hslot] at hstep
      cases hstep
      exact h
    | some i =>
      rw [hslot] at hstep
      have hs' := congrArg Prod.fst (Option.some.inj hstep)
      subst hs'
      exact keeps_beginSlot h
  | «end» handle now =>
    simp only [step] at hstep
    simp only [note, DeadlineRecord.onHandle]
    cases hslot : monitorSlot handle with
    | none =>
      rw [hslot] at hstep
      cases hstep
      exact h
    | some i =>
      rw [hslot] at hstep
      have hs' := congrArg Prod.fst (Option.some.inj hstep)
      subst hs'
      exact keeps_endSlot h
  | report handle =>
    simp only [step] at hstep
    have hs' : s = s' := by
      split at hstep <;> exact congrArg Prod.fst (Option.some.inj hstep)
    subst hs'
    exact h

theorem keeps_of_reach {ok : DeadlineMonitors × (Fin 8 → DeadlineRecord) → DeadlineCall → Prop}
    {out : List DeadlineObs} (h : Run.Reach recorded ok (init, fun _ => {}) (s, r) out) :
    ∀ i, (s i).Keeps (r i) := by
  refine h.invariant (I := fun p => ∀ i, (p.1 i).Keeps (p.2 i)) (fun _ => ?_) ?_
  · exact ⟨rfl, fun _ h => absurd h (Option.some_ne_none _).symm, rfl,
      fun _ h => absurd h (Option.some_ne_none _).symm, Counts.nil,
      fun _ h => absurd h (Option.some_ne_none _).symm⟩
  · rintro ⟨s, r⟩ ⟨s', r'⟩ c o hI - hs
    exact keeps_step hI hs

end DeadlineMonitors

/-! ### The jitter monitor -/

/-- The history of a jitter monitor. -/
structure JitterRecord where
  /-- The period that it was created with. -/
  period : Option UInt32 := none
  /-- The clock at the first mark. -/
  first : Option UInt32 := none
  /-- The distances of the marks after it from the times that they were expected at. -/
  samples : List UInt32 := []

/-- The distance of two clock values, whichever is ahead. -/
def clockDistance (a b : UInt32) : UInt32 := if a - b ≤ b - a then a - b else b - a

/-- A mark: the `k`-th one after the first is expected `k` periods later. -/
def JitterRecord.marked (r : JitterRecord) (now : UInt32) : JitterRecord :=
  match r.first with
  | none => { r with first := some now }
  | some first =>
    let expected := first + UInt32.ofNat (r.samples.length + 1) * r.period.getD 0
    { r with samples := r.samples ++ [clockDistance now expected] }

/-- The histories after a call. -/
def JitterMonitors.note (_ : JitterMonitors) (c : JitterCall) (o : List JitterObs)
    (r : Fin 8 → JitterRecord) : Fin 8 → JitterRecord :=
  match c, o with
  | .create _ periodMs, [.created handle] =>
    match monitorSlot handle with
    | none => r
    | some i => Function.update r i { period := some periodMs }
  | .mark handle now, _ =>
    match monitorSlot handle with
    | none => r
    | some i => if (r i).period.isSome then Function.update r i ((r i).marked now) else r
  | _, _ => r

/-- The monitors with their histories. -/
def JitterMonitors.recorded : JitterMonitors × (Fin 8 → JitterRecord) → JitterCall →
    Option ((JitterMonitors × (Fin 8 → JitterRecord)) × List JitterObs) :=
  Run.annotate JitterMonitors.step JitterMonitors.note

/-- A report agrees with the samples. -/
structure JitterReport.Right (r : JitterReport) (samples : List UInt32) : Prop where
  count : r.sampleCount.toNat = samples.length
  mean : r.avgJitterMs.toNat = (samples.map UInt32.toNat).sum / samples.length
  min_le : r.minJitterMs ≤ r.avgJitterMs
  le_max : r.avgJitterMs ≤ r.maxJitterMs

/-- The magnitude of a difference in two's complement. -/
theorem jitterOf_eq (a b : UInt32) : jitterOf (a - b) = clockDistance a b := by
  have hneg : b - a = -(a - b) := UInt32.neg_sub.symm
  rw [clockDistance, hneg, jitterOf]
  generalize a - b = d
  have hd := d.toNat_lt
  have hnegd : (-d).toNat = (2 ^ 32 - d.toNat) % 2 ^ 32 := UInt32.toNat_neg d
  split_ifs with hlarge hle hle <;> rw [UInt32.le_iff_toNat_le, hnegd] at hle
  · -- The magnitude of the smallest number is that number itself.
    apply UInt32.toNat_inj.1
    omega
  · omega

namespace JitterMonitor

/-- A monitor agrees with its history, up to wraps of its counters. -/
structure Keeps (m : JitterMonitor) (r : JitterRecord) : Prop where
  inUse : m.inUse = r.period.isSome
  period : ∀ p, r.period = some p → m.periodMs = p
  baseline : m.baselineSet = r.first.isSome
  expected : ∀ t p, r.first = some t → r.period = some p →
    m.expectedMs = t + UInt32.ofNat (r.samples.length + 1) * p
  counts : Counts r.samples m.minJitterMs m.maxJitterMs m.sumJitterMs m.sampleCount
  fresh : r.first = none → r.samples = []

variable {m : JitterMonitor} {r : JitterRecord} {p now : UInt32}

theorem keeps_created (name : String) (periodMs : UInt32) :
    (created name periodMs).Keeps { period := some periodMs } :=
  ⟨rfl, fun _ h => Option.some.inj h, rfl, fun _ _ h => absurd h (Option.some_ne_none _).symm,
    Counts.nil, fun _ => rfl⟩

theorem Keeps.mark (h : m.Keeps r) (hp : r.period = some p) (now : UInt32) :
    (m.mark now).Keeps (r.marked now) := by
  cases hfirst : r.first with
  | none =>
    have hbase : m.baselineSet = false := by rw [h.baseline, hfirst]; rfl
    have hmark : m.mark now = { m with expectedMs := now + m.periodMs, baselineSet := true } := by
      rw [JitterMonitor.mark, hbase]
      rfl
    rw [hmark, JitterRecord.marked, hfirst]
    refine ⟨h.inUse, h.period, rfl, fun t q ht hq => ?_, h.counts,
      fun h => absurd h (Option.some_ne_none _)⟩
    obtain rfl := Option.some.inj ht
    have hone : UInt32.ofNat (r.samples.length + 1) * q = q := by
      rw [h.fresh hfirst]
      exact UInt32.one_mul q
    change now + m.periodMs = now + UInt32.ofNat (r.samples.length + 1) * q
    rw [h.period q hq, hone]
  | some first =>
    have hbase : m.baselineSet = true := by rw [h.baseline, hfirst]; rfl
    have hexpected := h.expected first p hfirst hp
    have hmarked : r.marked now =
        { r with samples := r.samples ++ [jitterOf (now - m.expectedMs)] } := by
      rw [JitterRecord.marked, hfirst, hp, jitterOf_eq, hexpected]
      rfl
    rw [hmarked, JitterMonitor.mark, hbase]
    refine ⟨h.inUse, h.period, (by rw [hfirst]; rfl), fun t q ht hq => ?_,
      h.counts.append _, fun h => absurd (hfirst.symm.trans h) (Option.some_ne_none _)⟩
    obtain rfl := Option.some.inj (hp.symm.trans hq)
    obtain rfl := Option.some.inj (hfirst.symm.trans ht)
    change m.expectedMs + m.periodMs =
      first + UInt32.ofNat ((r.samples ++ [jitterOf (now - m.expectedMs)]).length + 1) * p
    rw [hexpected, h.period p hp, List.length_append, List.length_singleton,
      UInt32.ofNat_add (r.samples.length + 1) 1, UInt32.add_mul, ← UInt32.add_assoc]
    congr 1
    exact (UInt32.one_mul p).symm

theorem Keeps.report_iff (h : m.Keeps r) (hp : r.period = some p) (hne : r.samples ≠ []) :
    (∃ rep, m.report = some rep ∧ rep.Right r.samples) ↔ SamplesFit r.samples := by
  have hmean := h.counts.mean_iff hne
  constructor
  · rintro ⟨rep, hrep, hright⟩
    rw [report] at hrep
    split_ifs at hrep with hzero
    obtain rfl := Option.some.inj hrep
    exact hmean.1 ⟨hright.count, hright.mean, hright.min_le, hright.le_max⟩
  · intro hfit
    obtain ⟨hcount, hmean, hmin, hmax⟩ := hmean.2 hfit
    have huse : m.inUse = true := by rw [h.inUse, hp, Option.isSome_some]
    exact ⟨_, if_neg (not_unused huse hcount hne), hcount, hmean, hmin, hmax⟩

end JitterMonitor

namespace JitterMonitors

open JitterMonitor

variable {s s' : JitterMonitors} {r r' : Fin 8 → JitterRecord} {c : JitterCall}
  {o : List JitterObs} {i : Fin 8} {now : UInt32}

theorem keeps_step (h : ∀ i, (s i).Keeps (r i)) (hs : recorded (s, r) c = some ((s', r'), o)) :
    ∀ i, (s' i).Keeps (r' i) := by
  obtain ⟨hstep, rfl⟩ := Run.annotate_eq_some.1 hs
  cases c with
  | create name periodMs =>
    simp only [step] at hstep
    split at hstep
    · cases hstep
      exact h
    · rename_i i _
      cases hstep
      simp only [note, monitorSlot_val]
      exact keeps_entry h (keeps_created name periodMs)
  | mark handle now =>
    simp only [step] at hstep
    simp only [note]
    cases hslot : monitorSlot handle with
    | none =>
      rw [hslot] at hstep
      cases hstep
      exact h
    | some i =>
      rw [hslot] at hstep
      have hs' := congrArg Prod.fst (Option.some.inj hstep)
      subst hs'
      cases hperiod : (r i).period with
      | none =>
        have huse : (s i).inUse = false := by rw [(h i).inUse, hperiod]; rfl
        simpa [huse, hperiod] using h
      | some p =>
        have huse : (s i).inUse = true := by rw [(h i).inUse, hperiod]; rfl
        simpa [huse, hperiod] using keeps_entry h ((h i).mark hperiod now)
  | report handle =>
    simp only [step] at hstep
    have hs' : s = s' := by
      split at hstep <;> exact congrArg Prod.fst (Option.some.inj hstep)
    subst hs'
    exact h

theorem keeps_of_reach {ok : JitterMonitors × (Fin 8 → JitterRecord) → JitterCall → Prop}
    {out : List JitterObs} (h : Run.Reach recorded ok (init, fun _ => {}) (s, r) out) :
    ∀ i, (s i).Keeps (r i) := by
  refine h.invariant (I := fun p => ∀ i, (p.1 i).Keeps (p.2 i)) (fun _ => ?_) ?_
  · exact ⟨rfl, fun _ h => absurd h (Option.some_ne_none _).symm, rfl,
      fun _ _ h => absurd h (Option.some_ne_none _).symm, Counts.nil, fun _ => rfl⟩
  · rintro ⟨s, r⟩ ⟨s', r'⟩ c o hI - hs
    exact keeps_step hI hs

end JitterMonitors

/-- A report is right as long as the samples fit the counters, and never afterwards. -/
theorem monitors_right_iff (i : Fin 8) :
    (∀ (s : DeadlineMonitors) (r : Fin 8 → DeadlineRecord) (out : List DeadlineObs),
      Run.Reach DeadlineMonitors.recorded (fun _ _ => True) (.init, fun _ => {}) (s, r) out →
      ∀ b, (r i).budget = some b → (r i).samples ≠ [] →
        ((∃ rep, (s i).report = some rep ∧ rep.Right (r i).samples b) ↔
          SamplesFit (r i).samples)) ∧
    ∀ (s : JitterMonitors) (r : Fin 8 → JitterRecord) (out : List JitterObs),
      Run.Reach JitterMonitors.recorded (fun _ _ => True) (.init, fun _ => {}) (s, r) out →
      ∀ p, (r i).period = some p → (r i).samples ≠ [] →
        ((∃ rep, (s i).report = some rep ∧ rep.Right (r i).samples) ↔ SamplesFit (r i).samples) :=
  ⟨fun _ _ _ h _ hb hne => (DeadlineMonitors.keeps_of_reach h i).report_iff hb hne,
    fun _ _ _ h _ hp hne => (JitterMonitors.keeps_of_reach h i).report_iff hp hne⟩

/-- Three cycles: the clock wraps in the first one, and the second one is too long. -/
def threeCycles : List DeadlineCall :=
  [.create "flight_ctrl" 10, .begin 0 0xFFFFFFFE, .end 0 2, .end 0 9, .begin 0 20, .end 0 35,
    .begin 0 40, .begin 0 42, .end 0 47]

/-- Marks at a period of 10 ms: the second one is in time, the third one late and the last one early. -/
def fourMarks : List JitterCall :=
  [.create "flight_ctrl" 10, .mark 0 0xFFFFFFF8, .mark 0 2, .mark 0 15, .mark 0 20]

theorem monitors_right_cycles :
    (∃ rep, (((Run.exec DeadlineMonitors.recorded (.init, fun _ => {}) threeCycles).get
      (by decide +kernel)).1.1 0).report = some rep ∧ rep.Right [4, 15, 7] 10) ∧
    ∃ rep, (((Run.exec JitterMonitors.recorded (.init, fun _ => {}) fourMarks).get
      (by decide +kernel)).1.1 0).report = some rep ∧ rep.Right [0, 3, 2] :=
  ⟨((monitors_right_iff 0).1 _ _ _
    (Run.Reach.exec (Run.Permitted.of_forall _ fun _ _ _ => trivial) (by decide +kernel)) 10
    (by decide +kernel) (by decide +kernel)).2 (by decide +kernel),
  ((monitors_right_iff 0).2 _ _ _
    (Run.Reach.exec (Run.Permitted.of_forall _ fun _ _ _ => trivial) (by decide +kernel)) 10
    (by decide +kernel) (by decide +kernel)).2 (by decide +kernel)⟩

/-- Two cycles of `2 ^ 31` ms each. -/
def longCycles : List DeadlineCall :=
  [.create "flight_ctrl" 10, .begin 0 0, .end 0 0x80000000, .begin 0 0x80000000, .end 0 0]

/-- The sum wraps to 0, and so does the mean, which is less than the minimum. -/
theorem deadline_sum_wraps :
    ((Run.exec DeadlineMonitors.recorded (.init, fun _ => {}) longCycles).any fun p =>
      decide ((p.1.2 0).samples = [0x80000000, 0x80000000] ∧
        (p.1.1 0).report = some ⟨"flight_ctrl", 0x80000000, 0, 0x80000000, 10, 2, 2⟩)) = true ∧
    ¬ (DeadlineReport.mk "flight_ctrl" 0x80000000 0 0x80000000 10 2 2).Right
      [0x80000000, 0x80000000] 10 :=
  ⟨by decide +kernel, fun h => absurd h.min_le (by decide)⟩

end TamgaOs
