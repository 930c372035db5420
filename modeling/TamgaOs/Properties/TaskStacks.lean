import TamgaOs.Kernel.TaskStack
import TamgaOs.Properties.ContextSwitch

/-!
# The stacks of the tasks stay apart

A task pushes words on its own stack one after the other, so that it meets the guard before it
leaves its stack. Between the choice of the next task and the switch the MPU guards the stack of the
next task already, and the outgoing task must have room there.

## Main definitions

* `TaskStacks.noteLow`: the lowest word that each task has used so far.
* `TaskStacks.Roomy`, `TaskStacks.Plain`: the conditions on the steps.
* `TaskStacks.Sound`, `TaskStacks.Marked`: what every step keeps.

## Main results

* `schedTaskCreateStack_spec`: the stack of a new task.
* `taskStacks_isolated`: a task writes no word outside its own stack, and a fault is taken when its
  stack is used up.
* `stackMonitor_highWater`: the stack monitor reports the largest use so far.
* `stackCanaries_exact`: the canary check reports the first task that has used up its stack.
-/

namespace TamgaOs

/-! ### Reading a stack -/

theorem byteOf_toNat (w : BitVec 32) (i : ℕ) :
    (byteOf w i).toNat = w.toNat / 2 ^ (8 * i) % 2 ^ 8 := by
  rw [byteOf, BitVec.extractLsb'_toNat, Nat.shiftRight_eq_div_pow]

/-- A word consists of fill bytes exactly if it is the fill word. -/
theorem byteOf_eq_fill_iff (w : BitVec 32) :
    (∀ i < 4, byteOf w i = stackFillByte) ↔ w = stackFillWord := by
  constructor
  · intro h
    have hbyte : ∀ i < 4, w.toNat / 2 ^ (8 * i) % 2 ^ 8 = 0xA5 := fun i hi => by
      rw [← byteOf_toNat, h i hi]
      rfl
    have h0 := hbyte 0 (by omega)
    have h1 := hbyte 1 (by omega)
    have h2 := hbyte 2 (by omega)
    have h3 := hbyte 3 (by omega)
    have hlt := w.isLt
    apply BitVec.eq_of_toNat_eq
    change w.toNat = 0xA5A5A5A5
    omega
  · rintro rfl i hi
    interval_cases i <;> rfl

section Monitor

variable (mem : ℕ → BitVec 32) (base : ℕ)

/-- The monitor counts the words from the first one on that is not filled. -/
theorem stackMonitorGetUsedBytes_words :
    (stackMonitorGetUsedBytes mem base + 3) / 4 =
      stackRegionWords -
        scan (fun i => mem (base + stackScanStartIndex + i) == stackFillWord) stackRegionWords 0 := by
  have hdiv := scan_div (p := stackByteUntouched mem base) (n := stackRegionWords) (k := 4)
    (q := fun i => mem (base + stackScanStartIndex + i) == stackFillWord) (by omega) fun w => by
      rw [beq_iff_eq, ← byteOf_eq_fill_iff]
      refine forall_congr' fun i => forall_congr' fun hi => ?_
      have hquot : (4 * w + i) / 4 = w := by omega
      have hrem : (4 * w + i) % 4 = i := by omega
      rw [stackByteUntouched, hquot, hrem, beq_iff_eq]
  have hle : scan (stackByteUntouched mem base) (4 * stackRegionWords) 0 ≤ 4 * stackRegionWords := by
    simpa using scan_le (p := stackByteUntouched mem base) (n := 4 * stackRegionWords) (i := 0)
  rw [← hdiv]
  unfold stackMonitorGetUsedBytes
  dsimp only
  omega

/-- The percentage is of the whole stack, the guard included, and never reaches 99. -/
theorem stackMonitorGetUsedPercent_eq :
    (stackMonitorGetUsedPercent mem base).toNat = stackMonitorGetUsedBytes mem base * 100 / 2560 ∧
    stackMonitorGetUsedBytes mem base * 100 / 2560 ≤ 98 := by
  have hle : stackMonitorGetUsedBytes mem base ≤ 4 * 631 := Nat.sub_le ..
  have hmax : stackMonitorGetUsedBytes mem base * 100 / 2560 ≤ 98 := by omega
  refine ⟨?_, hmax⟩
  change (UInt8.ofNat (stackMonitorGetUsedBytes mem base * 100 / 2560)).toNat = _
  rw [UInt8.toNat_ofNat']
  exact Nat.mod_eq_of_lt (by omega)

end Monitor

/-! ### Preparing a stack -/

section Create

variable {base : ℕ}

/-- The frame of a new task is followed by filled words, the canary, and a guard that has not been
written. -/
theorem schedTaskCreateStack_spec (mem : ℕ → BitVec 32) (func : BitVec 32) (hbase : base % 8 = 0)
    (s : Fin 16 → BitVec 32) :
    (schedTaskCreateStack mem base func).2 = base + 623 ∧
    Cpu.Holds (schedTaskCreateStack mem base func).1 (base + 623)
      (initialContext s (base + 632)) ∧
    HardwareFrame (schedTaskCreateStack mem base func).1 (base + 632) func ∧
    (∀ a, base + 9 ≤ a → a < base + 623 →
      (schedTaskCreateStack mem base func).1 a = stackFillWord) ∧
    (schedTaskCreateStack mem base func).1 (base + 8) = taskStackCanaryValue ∧
    ∀ a, (a < base + 8 ∨ base + 640 ≤ a) → (schedTaskCreateStack mem base func).1 a = mem a := by
  have heven : base + 640 - (base + 640) % 2 = base + 640 := by omega
  have hwords : 17 ≤ base + 640 - (base + 640) % 2 := by omega
  obtain ⟨hsp, hholds, hframe, hother⟩ := taskStackInit_spec mem func hwords s
  rw [heven] at hsp hholds hframe hother
  have hsp' : (taskStackInit mem (base + taskStackSize) func).2 = base + 623 := hsp
  have hmem : ∀ a, (schedTaskCreateStack mem base func).1 a =
      if base + 9 ≤ a ∧ a < base + 623 then stackFillWord
      else Function.update (taskStackInit mem (base + 640) func).1 (base + 8)
        taskStackCanaryValue a := by
    intro a
    unfold schedTaskCreateStack stackMonitorFill
    dsimp only
    rw [hsp', if_neg (by unfold stackScanStartIndex; omega)]
    have hindex : base + (base + 623 - base) = base + 623 := by omega
    rw [hindex]
    rfl
  have hkept : ∀ a, base + 623 ≤ a →
      (schedTaskCreateStack mem base func).1 a = (taskStackInit mem (base + 640) func).1 a := by
    intro a ha
    rw [hmem, if_neg (by omega), Function.update_of_ne (by omega)]
  refine ⟨hsp', hholds.congr fun a ha _ => hkept a ha, ?_, fun a ha ha' => ?_, ?_, fun a ha => ?_⟩
  · have hsame : ∀ i, (schedTaskCreateStack mem base func).1 (base + 632 + i) =
        (taskStackInit mem (base + 640) func).1 (base + 632 + i) := fun i => hkept _ (by omega)
    exact ⟨fun i hi => (hsame i).trans (hframe.r0 i hi), (hsame 5).trans hframe.lr,
      (hsame 6).trans hframe.pc, (hsame 7).trans hframe.xpsr⟩
  · rw [hmem, if_pos ⟨ha, ha'⟩]
  · rw [hmem, if_neg (by omega), Function.update_self]
  · rw [hmem, if_neg (by omega), Function.update_of_ne (by omega)]
    exact hother a (by omega)

end Create

namespace TaskStacks

variable {L : StackLayout} {func : TaskPtr → BitVec 32} {n : ℕ}

/-- Nobody has used the stack of the task since its creation. -/
structure Prepared (L : StackLayout) (p : (ℕ → BitVec 32) × (TaskPtr → ℕ)) (t : TaskPtr) : Prop where
  sp : p.2 t = L.base t + 623
  frame : p.1 (L.base t + 623) = 0
  fill : ∀ a, L.base t + 9 ≤ a → a < L.base t + 623 → p.1 a = stackFillWord
  canary : p.1 (L.base t + 8) = taskStackCanaryValue

theorem Prepared.create_self (p : (ℕ → BitVec 32) × (TaskPtr → ℕ)) (t : TaskPtr) :
    Prepared L (create L func p t) t := by
  obtain ⟨hsp, hholds, -, hfill, hcanary, -⟩ :=
    schedTaskCreateStack_spec p.1 (func t) (L.aligned t) fun _ => 0
  exact ⟨(Function.update_self ..).trans hsp, hholds.r 0, hfill, hcanary⟩

theorem Prepared.create_of_ne {p : (ℕ → BitVec 32) × (TaskPtr → ℕ)} {t u : TaskPtr}
    (h : Prepared L p t) (hne : t ≠ u) : Prepared L (create L func p u) t := by
  obtain ⟨-, -, -, -, -, hother⟩ :=
    schedTaskCreateStack_spec p.1 (func u) (L.aligned u) fun _ => 0
  have hkept : ∀ a, L.base t + 8 ≤ a → a < L.base t + 640 →
      (create L func p u).1 a = p.1 a := by
    intro a ha ha'
    have hdis := L.disjoint t u hne
    unfold taskStackSize at hdis
    exact hother a (by omega)
  refine ⟨(Function.update_of_ne hne ..).trans h.sp, ?_, fun a ha ha' => ?_, ?_⟩
  · rw [hkept _ (by omega) (by omega)]
    exact h.frame
  · rw [hkept a (by omega) (by omega)]
    exact h.fill a ha ha'
  · rw [hkept _ (by omega) (by omega)]
    exact h.canary

/-- After the creation of the tasks `ts`. -/
theorem prepared_foldl (ts : List TaskPtr) (t : TaskPtr) :
    ∀ p, t ∈ ts ∨ Prepared L p t → Prepared L (ts.foldl (create L func) p) t := by
  induction ts with
  | nil => exact fun p h => h.resolve_left List.not_mem_nil
  | cons u ts ih =>
    intro p h
    refine ih _ ?_
    by_cases hu : t = u
    · subst hu
      exact .inr (.create_self p t)
    · rcases h with h | h
      · exact .inl ((List.mem_cons.1 h).resolve_left hu)
      · exact .inr (h.create_of_ne hu)

/-! ### The run -/

/-- The lowest word that each task has used so far. -/
def noteLow (L : StackLayout) (s : TaskStacks) (act : StackAction) (_ : List Empty)
    (low : TaskPtr → ℕ) : TaskPtr → ℕ :=
  match act with
  | .push _ =>
    if s.InGuard L (s.sp s.current - 1) then low
    else Function.update low s.current (min (low s.current) (s.sp s.current - 1))
  | _ => low

/-- A push that the guard of the task does not watch has room, and only tasks that exist run. -/
def Roomy (L : StackLayout) (n : ℕ) (s : TaskStacks) : StackAction → Prop
  | .push _ => s.guarded = s.current ∨ L.base s.current + 8 < s.sp s.current
  | .commit t => t ∈ tasks n
  | .pop | .poke _ _ | .switch => True

instance (L : StackLayout) (n : ℕ) (s : TaskStacks) : DecidablePred (Roomy L n s)
  | .push _ => inferInstanceAs (Decidable (_ ∨ _))
  | .commit t => inferInstanceAs (Decidable (t ∈ tasks n))
  | .pop | .poke _ _ | .switch => inferInstanceAs (Decidable True)

/-- The words stored are neither the fill word nor the canary. -/
def Plain : StackAction → Prop
  | .push w | .poke _ w => w ≠ stackFillWord ∧ w ≠ taskStackCanaryValue
  | .pop | .commit _ | .switch => True

instance : DecidablePred Plain
  | .push w | .poke _ w =>
    inferInstanceAs (Decidable (w ≠ stackFillWord ∧ w ≠ taskStackCanaryValue))
  | .pop | .commit _ | .switch => inferInstanceAs (Decidable True)

/-- The words of its stack that a task may store to. -/
def Window (L : StackLayout) (t : TaskPtr) (a : ℕ) : Prop := L.base t + 8 ≤ a ∧ a < L.base t + 640

/-- What holds after every step; `low` is the lowest word that each task has used. -/
structure Sound (L : StackLayout) (n : ℕ) (s : TaskStacks) (low : TaskPtr → ℕ) : Prop where
  current : s.current ∈ tasks n
  guarded : s.guarded ∈ tasks n
  le_low : ∀ t ∈ tasks n, L.base t + 8 ≤ low t
  low_le_sp : ∀ t ∈ tasks n, low t ≤ s.sp t
  low_le : ∀ t ∈ tasks n, low t ≤ L.base t + 623
  sp_le : ∀ t ∈ tasks n, s.sp t ≤ L.base t + 640
  fill : ∀ t ∈ tasks n, ∀ a, L.base t + 9 ≤ a → a < low t → s.mem a = stackFillWord
  canary : ∀ t ∈ tasks n, L.base t + 8 < low t → s.mem (L.base t + 8) = taskStackCanaryValue
  fault : s.faulted = true → s.guarded = s.current ∧ s.sp s.current = L.base s.current + 8

variable {s s' : TaskStacks} {low : TaskPtr → ℕ} {act : StackAction} {o : List Empty}
  {t₀ : TaskPtr} {p₀ : (ℕ → BitVec 32) × (TaskPtr → ℕ)}

theorem Sound.start (ht : t₀ ∈ tasks n) :
    Sound L n (start L func n p₀ t₀) (start L func n p₀ t₀).sp := by
  have hprep : ∀ t ∈ tasks n, Prepared L ((tasks n).foldl (create L func) p₀) t :=
    fun t h => prepared_foldl (tasks n) t p₀ (.inl h)
  have hsp : ∀ t ∈ tasks n, (TaskStacks.start L func n p₀ t₀).sp t = L.base t + 623 :=
    fun t h => (hprep t h).sp
  refine ⟨ht, ht, fun t h => ?_, fun t _ => Nat.le_refl _, fun t h => (hsp t h).le, fun t h => ?_,
    fun t h a ha ha' => ?_, fun t h _ => (hprep t h).canary, fun hf => ?_⟩
  · rw [hsp t h]
    omega
  · rw [hsp t h]
    omega
  · exact (hprep t h).fill a ha ((hsp t h) ▸ ha')
  · cases hf

/-- The inversion of `step`. -/
theorem step_cases (h : s.step L act = some (s', o)) : s.faulted = false ∧
    ((∃ w, act = .push w ∧ s.InGuard L (s.sp s.current - 1) ∧ s' = { s with faulted := true }) ∨
    (∃ w, act = .push w ∧ ¬ s.InGuard L (s.sp s.current - 1) ∧ s' = { s with
      mem := Function.update s.mem (s.sp s.current - 1) w
      sp := Function.update s.sp s.current (s.sp s.current - 1) }) ∨
    (act = .pop ∧ s.sp s.current < L.base s.current + 640 ∧ s' = { s with
      sp := Function.update s.sp s.current (s.sp s.current + 1) }) ∨
    (∃ i w, act = .poke i w ∧ s.sp s.current + i < L.base s.current + 640 ∧ s' = { s with
      mem := Function.update s.mem (s.sp s.current + i) w }) ∨
    (∃ t, act = .commit t ∧ s' = { s with guarded := t }) ∨
    (act = .switch ∧ s' = { s with current := s.guarded })) := by
  unfold step at h
  by_cases hf : s.faulted = true
  · rw [if_pos hf] at h
    cases h
  rw [if_neg hf] at h
  refine ⟨eq_false_of_ne_true hf, ?_⟩
  cases act with
  | push w =>
    dsimp only at h
    split_ifs at h with hg
    · cases h
      exact .inl ⟨w, rfl, hg, rfl⟩
    · cases h
      exact .inr (.inl ⟨w, rfl, hg, rfl⟩)
  | pop =>
    dsimp only at h
    split_ifs at h with hlt
    cases h
    exact .inr (.inr (.inl ⟨rfl, hlt, rfl⟩))
  | poke i w =>
    dsimp only at h
    split_ifs at h with hlt
    cases h
    exact .inr (.inr (.inr (.inl ⟨i, w, rfl, hlt, rfl⟩)))
  | commit t =>
    cases h
    exact .inr (.inr (.inr (.inr (.inl ⟨t, rfl, rfl⟩))))
  | switch =>
    cases h
    exact .inr (.inr (.inr (.inr (.inr ⟨rfl, rfl⟩))))

/-- The windows of two tasks have no word in common. -/
theorem Window.unique {t u : TaskPtr} {a : ℕ} (ht : Window L t a) (hu : Window L u a) : t = u := by
  by_contra hne
  obtain ⟨hlo, hhi⟩ := ht
  obtain ⟨hlo', hhi'⟩ := hu
  have hdis := L.disjoint t u hne
  unfold taskStackSize at hdis
  omega

/-- The running task stores a word in its window and moves its stack pointer. -/
theorem Sound.store {a : ℕ} {w : BitVec 32} (hs : Sound L n s low) (sp : ℕ)
    (hf : s.faulted = false) (ha : Window L s.current a) (hlo : min (low s.current) a ≤ sp)
    (hhi : sp ≤ L.base s.current + 640) :
    Sound L n { s with mem := Function.update s.mem a w, sp := Function.update s.sp s.current sp }
      (Function.update low s.current (min (low s.current) a)) := by
  have hcur := hs.current
  have hlow : ∀ t, t ≠ s.current →
      Function.update low s.current (min (low s.current) a) t = low t :=
    fun t ht => Function.update_of_ne ht ..
  have hlow' : Function.update low s.current (min (low s.current) a) s.current =
      min (low s.current) a := Function.update_self ..
  have hmem : ∀ b, b ≠ a → Function.update s.mem a w b = s.mem b :=
    fun b hb => Function.update_of_ne hb ..
  have hsp : ∀ t, t ≠ s.current → Function.update s.sp s.current sp t = s.sp t :=
    fun t ht => Function.update_of_ne ht ..
  have hsp' : Function.update s.sp s.current sp s.current = sp := Function.update_self ..
  have hle := hs.le_low _ hcur
  obtain ⟨haw, haw'⟩ := ha
  refine ⟨hs.current, hs.guarded, fun t ht => ?_, fun t ht => ?_, fun t ht => ?_, fun t ht => ?_,
    fun t ht b hb hb' => ?_, fun t ht hlt => ?_, fun hf' => ?_⟩
  · by_cases hc : t = s.current
    · subst hc
      rw [hlow']
      omega
    · rw [hlow t hc]
      exact hs.le_low t ht
  · by_cases hc : t = s.current
    · subst hc
      dsimp only
      rw [hlow', hsp']
      exact hlo
    · dsimp only
      rw [hlow t hc, hsp t hc]
      exact hs.low_le_sp t ht
  · by_cases hc : t = s.current
    · subst hc
      rw [hlow']
      exact (Nat.min_le_left ..).trans (hs.low_le _ ht)
    · rw [hlow t hc]
      exact hs.low_le t ht
  · by_cases hc : t = s.current
    · subst hc
      dsimp only
      rw [hsp']
      exact hhi
    · dsimp only
      rw [hsp t hc]
      exact hs.sp_le t ht
  · by_cases hc : t = s.current
    · subst hc
      rw [hlow'] at hb'
      exact (hmem b (by omega)).trans (hs.fill _ ht b hb (by omega))
    · rw [hlow t hc] at hb'
      have hlt := hs.low_le t ht
      have hne : b ≠ a := by
        rintro rfl
        exact hc (Window.unique ⟨by omega, by omega⟩ ⟨haw, haw'⟩)
      exact (hmem b hne).trans (hs.fill t ht b hb hb')
  · by_cases hc : t = s.current
    · subst hc
      rw [hlow'] at hlt
      exact (hmem _ (by omega)).trans (hs.canary _ ht (by omega))
    · rw [hlow t hc] at hlt
      have hne : L.base t + 8 ≠ a := by
        rintro rfl
        exact hc (Window.unique ⟨Nat.le_refl _, by omega⟩ ⟨haw, haw'⟩)
      exact (hmem _ hne).trans (hs.canary t ht hlt)
  · exact absurd (hf'.symm.trans hf) (by decide)

/-- A push that is not refused stays in the window of the running task, and one that is refused
finds its stack used up. -/
theorem Sound.push_room {w : BitVec 32} (hs : Sound L n s low)
    (hok : Roomy L n s (.push w)) :
    (¬ s.InGuard L (s.sp s.current - 1) → L.base s.current + 8 < s.sp s.current) ∧
    (s.InGuard L (s.sp s.current - 1) →
      s.guarded = s.current ∧ s.sp s.current = L.base s.current + 8) := by
  have hcur := hs.current
  have hsp := (hs.le_low _ hcur).trans (hs.low_le_sp _ hcur)
  have hhi := hs.sp_le _ hcur
  rcases hok with hg | hroom
  · have hin : s.InGuard L (s.sp s.current - 1) ↔ s.sp s.current = L.base s.current + 8 := by
      unfold InGuard stackGuardSizeWords
      rw [hg]
      omega
    refine ⟨fun h => ?_, fun h => ⟨hg, hin.1 h⟩⟩
    rw [hin] at h
    omega
  · -- Another guard is in the MPU: it lies in the stack of another task.
    refine ⟨fun _ => hroom, fun h => ?_⟩
    obtain ⟨hlo, hlt⟩ := h
    unfold stackGuardSizeWords at hlt
    have hdis := L.disjoint s.guarded s.current
    unfold taskStackSize at hdis
    by_cases hg : s.guarded = s.current
    · rw [hg] at hlo hlt
      omega
    · have hd := hdis hg
      omega

theorem Sound.step (hs : Sound L n s low) (hok : Roomy L n s act)
    (h : s.step L act = some (s', o)) : Sound L n s' (noteLow L s act o low) := by
  have hcur := hs.current
  have hle := hs.low_le_sp _ hcur
  have hge := hs.le_low _ hcur
  have hhi := hs.sp_le _ hcur
  have hself : ∀ a, low s.current ≤ a →
      Function.update low s.current (min (low s.current) a) = low := fun a ha => by
    rw [Nat.min_eq_left ha, Function.update_eq_self]
  obtain ⟨hf, ⟨w, rfl, hg, rfl⟩ | ⟨w, rfl, hg, rfl⟩ | ⟨rfl, hlt, rfl⟩ | ⟨i, w, rfl, hlt, rfl⟩ |
    ⟨t, rfl, rfl⟩ | ⟨rfl, rfl⟩⟩ := step_cases h
  · obtain ⟨hguard, hsp⟩ := (hs.push_room hok).2 hg
    have hnote : noteLow L s (.push w) o low = low := if_pos hg
    rw [hnote]
    exact { hs with fault := fun _ => ⟨hguard, hsp⟩ }
  · have hroom := (hs.push_room hok).1 hg
    have hnote : noteLow L s (.push w) o low =
        Function.update low s.current (min (low s.current) (s.sp s.current - 1)) := if_neg hg
    rw [hnote]
    exact hs.store _ hf ⟨by omega, by omega⟩ (Nat.min_le_right ..) (by omega)
  · have hstore := hs.store (w := s.mem (s.sp s.current)) (s.sp s.current + 1) hf
      ⟨hge.trans hle, hlt⟩ (by omega) (by omega)
    rw [Function.update_eq_self, hself _ hle] at hstore
    exact hstore
  · have hstore := hs.store (w := w) (a := s.sp s.current + i) (s.sp s.current) hf
      ⟨by omega, hlt⟩ (by omega) hhi
    rw [Function.update_eq_self, hself _ (by omega)] at hstore
    exact hstore
  · exact { hs with guarded := hok, fault := fun h => absurd (h.symm.trans hf) (by decide) }
  · exact
      { hs with
        current := hs.guarded
        fault := fun h => absurd (h.symm.trans hf) (by decide) }

/-- The words that a task has used hold neither the fill word nor the canary. -/
def Marked (L : StackLayout) (n : ℕ) (s : TaskStacks) (low : TaskPtr → ℕ) : Prop :=
  ∀ t ∈ tasks n, ∀ a, low t ≤ a → a ≤ L.base t + 623 →
    s.mem a ≠ stackFillWord ∧ s.mem a ≠ taskStackCanaryValue

theorem Marked.start :
    Marked L n (start L func n p₀ t₀) (start L func n p₀ t₀).sp := by
  intro t h a ha ha'
  have hprep : Prepared L ((tasks n).foldl (create L func) p₀) t :=
    prepared_foldl (tasks n) t p₀ (.inl h)
  have hsp : (TaskStacks.start L func n p₀ t₀).sp t = L.base t + 623 := hprep.sp
  obtain rfl : a = L.base t + 623 := by omega
  have hframe : (TaskStacks.start L func n p₀ t₀).mem (L.base t + 623) = 0 := hprep.frame
  rw [hframe]
  exact ⟨by decide, by decide⟩

/-- The running task stores a word next to the words it has used, or among them. -/
theorem Marked.store {a : ℕ} {w : BitVec 32} (hm : Marked L n s low) (sp : TaskPtr → ℕ)
    (ha : Window L s.current a) (hnext : low s.current ≤ a + 1)
    (hw : w ≠ stackFillWord ∧ w ≠ taskStackCanaryValue) :
    Marked L n { s with mem := Function.update s.mem a w, sp := sp }
      (Function.update low s.current (min (low s.current) a)) := by
  intro t ht b hb hb'
  dsimp only
  by_cases hba : b = a
  · subst hba
    rw [Function.update_self]
    exact hw
  · rw [Function.update_of_ne hba]
    by_cases hc : t = s.current
    · subst hc
      rw [Function.update_self] at hb
      exact hm _ ht b (by omega) hb'
    · rw [Function.update_of_ne hc] at hb
      exact hm t ht b hb hb'

theorem Marked.step (hm : Marked L n s low) (hs : Sound L n s low) (hok : Roomy L n s act)
    (hplain : Plain act) (h : s.step L act = some (s', o)) :
    Marked L n s' (noteLow L s act o low) := by
  have hcur := hs.current
  have hle := hs.low_le_sp _ hcur
  have hge := hs.le_low _ hcur
  have hhi := hs.sp_le _ hcur
  obtain ⟨-, ⟨w, rfl, hg, rfl⟩ | ⟨w, rfl, hg, rfl⟩ | ⟨rfl, hlt, rfl⟩ | ⟨i, w, rfl, hlt, rfl⟩ |
    ⟨t, rfl, rfl⟩ | ⟨rfl, rfl⟩⟩ := step_cases h
  · have hnote : noteLow L s (.push w) o low = low := if_pos hg
    rw [hnote]
    exact hm
  · have hroom := (hs.push_room hok).1 hg
    have hnote : noteLow L s (.push w) o low =
        Function.update low s.current (min (low s.current) (s.sp s.current - 1)) := if_neg hg
    rw [hnote]
    exact hm.store _ ⟨by omega, by omega⟩ (by omega) hplain
  · exact hm
  · have hstore := hm.store (a := s.sp s.current + i) s.sp ⟨by omega, hlt⟩ (by omega) hplain
    rw [Nat.min_eq_left (by omega), Function.update_eq_self] at hstore
    exact hstore
  · exact hm
  · exact hm

/-- What the monitor and the canary of a task show. -/
theorem Sound.shown (hs : Sound L n s low) (hm : Marked L n s low) {t : TaskPtr}
    (ht : t ∈ tasks n) :
    (stackMonitorGetUsedBytes s.mem (L.base t) + 3) / 4 = min 631 (L.base t + 640 - low t) ∧
    (s.mem (L.base t + 8) ≠ taskStackCanaryValue ↔ low t = L.base t + 8) := by
  have hge := hs.le_low t ht
  have hle := hs.low_le t ht
  constructor
  · rw [stackMonitorGetUsedBytes_words]
    have hscan : scan (fun i => s.mem (L.base t + stackScanStartIndex + i) == stackFillWord)
        stackRegionWords 0 = low t - (L.base t + 9) := by
      have hregion : stackRegionWords = 631 := rfl
      rw [scan_eq_iff (Nat.zero_le _) (by omega)]
      refine ⟨fun l _ hl => ?_, fun _ => ?_⟩
      · rw [beq_iff_eq]
        exact hs.fill t ht _ (by unfold stackScanStartIndex; omega)
          (by unfold stackScanStartIndex; omega)
      · rw [beq_eq_false_iff_ne]
        exact (hm t ht _ (by unfold stackScanStartIndex; omega)
          (by unfold stackScanStartIndex; omega)).1
    rw [hscan]
    unfold stackRegionWords taskStackSize stackScanStartIndex
    omega
  · constructor
    · intro hne
      by_contra hlow
      exact hne (hs.canary t ht (by omega))
    · intro hlow
      exact (hm t ht _ (by omega) (by omega)).2

end TaskStacks

open TaskStacks

variable {L : StackLayout} {func : TaskPtr → BitVec 32} {n : ℕ} {t₀ : TaskPtr}
  {p₀ : (ℕ → BitVec 32) × (TaskPtr → ℕ)} {s : TaskStacks} {low : TaskPtr → ℕ} {out : List Empty}

theorem TaskStacks.sound_of_reach (ht : t₀ ∈ tasks n)
    (h : Run.Reach (Run.annotate (step L) (noteLow L)) (fun p act => Roomy L n p.1 act)
      (start L func n p₀ t₀, (start L func n p₀ t₀).sp) (s, low) out) : Sound L n s low := by
  refine h.invariant (I := fun p => Sound L n p.1 p.2) (.start ht) ?_
  rintro ⟨s, low⟩ ⟨s', low'⟩ act o hs hok hstep
  obtain ⟨hst, rfl⟩ := Run.annotate_eq_some.1 hstep
  exact hs.step hok hst

theorem TaskStacks.marked_of_reach (ht : t₀ ∈ tasks n)
    (h : Run.Reach (Run.annotate (step L) (noteLow L))
      (fun p act => Roomy L n p.1 act ∧ Plain act)
      (start L func n p₀ t₀, (start L func n p₀ t₀).sp) (s, low) out) :
    Sound L n s low ∧ Marked L n s low := by
  refine h.invariant (I := fun p => Sound L n p.1 p.2 ∧ Marked L n p.1 p.2)
    ⟨.start ht, .start⟩ ?_
  rintro ⟨s, low⟩ ⟨s', low'⟩ act o ⟨hs, hm⟩ ⟨hok, hplain⟩ hstep
  obtain ⟨hst, rfl⟩ := Run.annotate_eq_some.1 hstep
  exact ⟨hs.step hok hst, hm.step hs hok hplain hst⟩

/-- The running task changes no word outside its own stack above the guard, and when the MPU
refuses a push, the stack of the running task is used up down to its guard. -/
theorem taskStacks_isolated (ht : t₀ ∈ tasks n)
    (h : Run.Reach (step L) (Roomy L n) (start L func n p₀ t₀) s out) :
    (∀ act s' o, Roomy L n s act → s.step L act = some (s', o) →
      ∀ a, s'.mem a ≠ s.mem a → Window L s.current a) ∧
    (s.faulted = true → s.guarded = s.current ∧ s.sp s.current = L.base s.current + 8) := by
  obtain ⟨low, hlow⟩ : ∃ low, Run.Reach (Run.annotate (step L) (noteLow L))
      (fun p act => Roomy L n p.1 act) (start L func n p₀ t₀, (start L func n p₀ t₀).sp) (s, low)
      out := h.annotate _
  have hs := sound_of_reach ht hlow
  refine ⟨fun act s' o hok hstep a ha => ?_, hs.fault⟩
  have hle := hs.low_le_sp _ hs.current
  have hge := hs.le_low _ hs.current
  have hhi := hs.sp_le _ hs.current
  have hat : ∀ {b : ℕ} {w : BitVec 32}, Function.update s.mem b w a ≠ s.mem a → a = b :=
    fun hne => by
      by_contra hab
      exact hne (Function.update_of_ne hab ..)
  obtain ⟨-, ⟨w, rfl, hg, rfl⟩ | ⟨w, rfl, hg, rfl⟩ | ⟨rfl, hlt, rfl⟩ | ⟨i, w, rfl, hlt, rfl⟩ |
    ⟨t, rfl, rfl⟩ | ⟨rfl, rfl⟩⟩ := step_cases hstep
  · exact absurd rfl ha
  · obtain rfl := hat ha
    have hroom := (hs.push_room hok).1 hg
    exact ⟨by omega, by omega⟩
  · exact absurd rfl ha
  · obtain rfl := hat ha
    exact ⟨by omega, by omega⟩
  · exact absurd rfl ha
  · exact absurd rfl ha

/-- The stack monitor reports, in words, the largest part of its stack that the task has ever used,
up to the word above the canary; the percentage of the stack stays below 99. -/
theorem stackMonitor_highWater (ht : t₀ ∈ tasks n)
    (h : Run.Reach (Run.annotate (step L) (noteLow L))
      (fun p act => Roomy L n p.1 act ∧ Plain act)
      (start L func n p₀ t₀, (start L func n p₀ t₀).sp) (s, low) out)
    {t : TaskPtr} (htask : t ∈ tasks n) :
    (stackMonitorGetUsedBytes s.mem (L.base t) + 3) / 4 = min 631 (L.base t + 640 - low t) ∧
    (stackMonitorGetUsedPercent s.mem (L.base t)).toNat =
      stackMonitorGetUsedBytes s.mem (L.base t) * 100 / 2560 ∧
    (stackMonitorGetUsedPercent s.mem (L.base t)).toNat ≤ 98 := by
  obtain ⟨hs, hm⟩ := marked_of_reach ht h
  obtain ⟨heq, hle⟩ := stackMonitorGetUsedPercent_eq s.mem (L.base t)
  exact ⟨(hs.shown hm htask).1, heq, heq ▸ hle⟩

/-- The canary check reports the first task that has ever used its stack down to the guard, and 0xFF
if there is none; a push that the MPU refuses is such a use. -/
theorem stackCanaries_exact (ht : t₀ ∈ tasks n) (hn : n ≤ 12)
    (h : Run.Reach (Run.annotate (step L) (noteLow L))
      (fun p act => Roomy L n p.1 act ∧ Plain act)
      (start L func n p₀ t₀, (start L func n p₀ t₀).sp) (s, low) out) :
    (schedCheckStackCanaries L n s.mem = 0xFF ↔
      ∀ i < n, L.base (.tcb i) + 8 < low (.tcb i)) ∧
    (∀ i < n, schedCheckStackCanaries L n s.mem = i ↔
      low (.tcb i) = L.base (.tcb i) + 8 ∧ ∀ j < i, L.base (.tcb j) + 8 < low (.tcb j)) ∧
    (s.faulted = true → ∀ i < n, s.current = .tcb i → schedCheckStackCanaries L n s.mem ≤ i) := by
  obtain ⟨hs, hm⟩ := marked_of_reach ht h
  have htask : ∀ i < n, TaskPtr.tcb i ∈ tasks n := fun i hi =>
    List.mem_cons_of_mem _ (List.mem_map_of_mem (List.mem_range.2 hi))
  have hbad : ∀ i < n, (s.mem (L.base (.tcb i) + taskStackCanaryIndex) != taskStackCanaryValue) =
      true ↔ low (.tcb i) = L.base (.tcb i) + 8 := fun i hi => by
    rw [bne_iff_ne]
    exact (hs.shown hm (htask i hi)).2
  have hgood : ∀ i < n, (!(s.mem (L.base (.tcb i) + taskStackCanaryIndex) !=
      taskStackCanaryValue)) = true ↔ L.base (.tcb i) + 8 < low (.tcb i) := fun i hi => by
    have hle := hs.le_low _ (htask i hi)
    rw [Bool.not_eq_true', ← Bool.not_eq_true, hbad i hi]
    omega
  cases hfind : (List.range n).find? fun i =>
      s.mem (L.base (.tcb i) + taskStackCanaryIndex) != taskStackCanaryValue with
  | none =>
    have hr : schedCheckStackCanaries L n s.mem = 0xFF := by
      rw [schedCheckStackCanaries, hfind]
      rfl
    rw [List.find?_range_eq_none] at hfind
    have hall : ∀ i < n, L.base (.tcb i) + 8 < low (.tcb i) := fun i hi =>
      (hgood i hi).1 (hfind i hi)
    refine ⟨⟨fun _ => hall, fun _ => hr⟩, fun i hi => ⟨fun he => ?_, fun hlow => ?_⟩,
      fun hf i hi hc => ?_⟩
    · omega
    · have hlt := hall i hi
      omega
    · have hlt := hall i hi
      have hle := hs.low_le_sp _ (htask i hi)
      have hsp := (hs.fault hf).2
      rw [hc] at hsp
      omega
  | some k =>
    have hr : schedCheckStackCanaries L n s.mem = k := by
      rw [schedCheckStackCanaries, hfind]
      rfl
    rw [List.find?_range_eq_some] at hfind
    obtain ⟨hk, hkn, hbefore⟩ := hfind
    rw [List.mem_range] at hkn
    have hlow := (hbad k hkn).1 hk
    have hall : ∀ j < k, L.base (.tcb j) + 8 < low (.tcb j) := fun j hj =>
      (hgood j (hj.trans hkn)).1 (hbefore j hj)
    refine ⟨⟨fun he => ?_, fun hno => ?_⟩, fun i hi => ⟨fun he => ?_, fun hlow' => ?_⟩,
      fun hf i hi hc => ?_⟩
    · omega
    · have hlt := hno k hkn
      omega
    · obtain rfl : k = i := hr.symm.trans he
      exact ⟨hlow, hall⟩
    · rw [hr]
      rcases Nat.lt_trichotomy k i with hlt | heq | hgt
      · have hlt' := hlow'.2 k hlt
        omega
      · exact heq
      · have hlt' := hall i hgt
        omega
    · rw [hr]
      by_contra hgt
      have hlt := hall i (by omega)
      have hle := hs.low_le_sp _ (htask i hi)
      have hsp := (hs.fault hf).2
      rw [hc] at hsp
      omega

/-! ### A run of one task -/

/-- The stacks of the idle task and of all other tasks, one behind the other. -/
def contiguousBase : TaskPtr → ℕ
  | .idle => 0
  | .tcb i => 640 * (i + 1)

theorem contiguousBase_aligned (t : TaskPtr) : contiguousBase t % stackGuardSizeWords = 0 := by
  cases t with
  | idle => rfl
  | tcb i =>
    dsimp only [contiguousBase, stackGuardSizeWords]
    omega

theorem contiguousBase_disjoint (t u : TaskPtr) (hne : t ≠ u) :
    contiguousBase t + taskStackSize ≤ contiguousBase u ∨
      contiguousBase u + taskStackSize ≤ contiguousBase t := by
  cases t with
  | idle =>
    cases u with
    | idle => exact absurd rfl hne
    | tcb j =>
      dsimp only [contiguousBase, taskStackSize]
      omega
  | tcb i =>
    cases u with
    | idle =>
      dsimp only [contiguousBase, taskStackSize]
      omega
    | tcb j =>
      have hij : i ≠ j := fun he => hne (congrArg _ he)
      dsimp only [contiguousBase, taskStackSize]
      omega

/-- The layout of these stacks. -/
def StackLayout.contiguous : StackLayout :=
  ⟨contiguousBase, contiguousBase_aligned, contiguousBase_disjoint⟩

namespace TaskStacks

/-- A task is entered and saved, and the idle task is chosen and entered. -/
def shortRun : List StackAction := [.pop, .push 7, .push 8, .commit .idle, .switch, .poke 1 9]

/-- The state before this run. -/
def shortStart : TaskStacks :=
  start .contiguous (fun _ => 0x8000) 1 (fun _ => 0, fun _ => 0) (.tcb 0)

theorem shortRun_possible : (Run.exec (step .contiguous) shortStart shortRun).isSome = true := by
  decide +kernel

theorem shortRun_noted_possible :
    (Run.exec (Run.annotate (step .contiguous) (noteLow .contiguous)) (shortStart, shortStart.sp)
      shortRun).isSome = true := by
  decide +kernel

theorem shortRun_permitted :
    Run.Permitted (Run.annotate (step .contiguous) (noteLow .contiguous))
      (fun p act => Roomy .contiguous 1 p.1 act ∧ Plain act) (shortStart, shortStart.sp)
      shortRun := by
  decide +kernel

end TaskStacks

theorem taskStacks_isolated_shortRun :
    let s := ((Run.exec (step .contiguous) shortStart shortRun).get shortRun_possible).1
    s.current = .idle ∧ ∀ act s' o, Roomy .contiguous 1 s act →
      s.step .contiguous act = some (s', o) →
      ∀ a, s'.mem a ≠ s.mem a → Window .contiguous .idle a := by
  intro s
  have hcur : s.current = .idle := by decide +kernel
  have h := (taskStacks_isolated (L := .contiguous) (n := 1) (by decide)
    (Run.Reach.exec (by decide +kernel) shortRun_possible)).1
  rw [hcur] at h
  exact ⟨hcur, h⟩

theorem stackMonitor_highWater_shortRun :
    let s := ((Run.exec (Run.annotate (step .contiguous) (noteLow .contiguous))
      (shortStart, shortStart.sp) shortRun).get shortRun_noted_possible).1
    (stackMonitorGetUsedBytes s.1.mem 640 + 3) / 4 = 18 := by
  intro s
  have hlow : s.2 (.tcb 0) = 1262 := by decide +kernel
  have h := (stackMonitor_highWater (L := .contiguous) (n := 1) (by decide)
    (Run.Reach.exec shortRun_permitted shortRun_noted_possible) (t := .tcb 0) (by decide)).1
  change (stackMonitorGetUsedBytes s.1.mem 640 + 3) / 4 = min 631 (640 + 640 - s.2 (.tcb 0)) at h
  rw [h, hlow]
  rfl

theorem stackCanaries_exact_shortRun :
    let s := ((Run.exec (Run.annotate (step .contiguous) (noteLow .contiguous))
      (shortStart, shortStart.sp) shortRun).get shortRun_noted_possible).1
    schedCheckStackCanaries .contiguous 1 s.1.mem = 0xFF := by
  intro s
  have hlow : s.2 (.tcb 0) = 1262 := by decide +kernel
  have h := (stackCanaries_exact (L := .contiguous) (n := 1) (by decide) (by decide)
    (Run.Reach.exec shortRun_permitted shortRun_noted_possible)).1
  refine h.2 fun i hi => ?_
  have hi0 : i = 0 := by omega
  rw [hi0]
  exact (by decide : 640 * (0 + 1) + 8 < 1262).trans_eq hlow.symm

end TamgaOs
