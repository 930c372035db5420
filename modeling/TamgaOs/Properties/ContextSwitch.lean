import TamgaOs.Kernel.ContextSwitch
import TamgaOs.Library.Run
import Mathlib.Tactic.IntervalCases

/-!
# A context switch preserves every context

Between two context switches the current task changes its registers and all memory outside the
stacks of the other tasks, and `g_next_task` is chosen anew. A task that is not current has its
context in its own stack, where nobody else writes.

## Main definitions

* `Stacks`: where the stacks are; they are disjoint and the initial frames fit.
* `SwitchAction`, `Cpu.step`: what can happen; `Stacks.Allows`: a task keeps out of the other stacks,
  and its own stack has room for its context.
* `Cpu.Holds`: the saved words of a context.

## Main results

* `Cpu.save_frame`: what a switch writes.
* `Cpu.holds_save`, `Cpu.load_of_holds`: a context is saved and loaded.
* `contextSwitch_preserves`: every task is switched in with the context that it was switched out
  with, and for the first time with its initial frame.
-/

namespace TamgaOs

/-! ### One switch -/

namespace Cpu

variable {τ : Type*} {x : Cpu τ} {t u : τ} {c : Context}

/-- The words from `sp` on are those of the context `c`. -/
structure Holds (mem : ℕ → BitVec 32) (sp : ℕ) (c : Context) : Prop where
  r : ∀ i : Fin 8, mem (sp + i) = c.r i
  lr : mem (sp + 8) = c.lr
  s : usesFpu c.lr = true → ∀ i : Fin 16, mem (sp + 9 + i) = c.s i
  psp : c.psp = sp + frameWords c.lr

theorem Holds.congr {mem mem' : ℕ → BitVec 32} {sp : ℕ} (h : Holds mem sp c)
    (heq : ∀ a, sp ≤ a → a < c.psp → mem' a = mem a) : Holds mem' sp c := by
  have hpsp := h.psp
  unfold frameWords at hpsp
  refine ⟨fun i => ?_, ?_, fun hf i => ?_, h.psp⟩
  · rw [heq _ (by omega) (by split_ifs at hpsp <;> omega)]
    exact h.r i
  · rw [heq _ (by omega) (by split_ifs at hpsp <;> omega)]
    exact h.lr
  · rw [if_pos hf] at hpsp
    rw [heq _ (by omega) (by omega)]
    exact h.s hf i

/-- The registers that are equal to those of `c` when the context `c` is loaded. -/
structure Agrees (c' c : Context) : Prop where
  r : c'.r = c.r
  lr : c'.lr = c.lr
  psp : c'.psp = c.psp
  s : usesFpu c.lr = true → c'.s = c.s

theorem load_of_holds (h : Holds x.mem (x.sp t) c) : Agrees (x.load t).regs c := by
  refine ⟨funext h.r, h.lr, ?_, fun hf => funext fun i => ?_⟩
  · change x.sp t + frameWords (x.mem (x.sp t + 8)) = c.psp
    rw [h.lr, h.psp]
  · change (if usesFpu (x.mem (x.sp t + 8)) then fun i : Fin 16 => x.mem (x.sp t + 9 + i)
      else x.regs.s) i = c.s i
    rw [h.lr, if_pos hf]
    exact h.s hf i

/-- What is pushed for a task, in this order. -/
def savedWords (c : Context) : List (BitVec 32) :=
  (if usesFpu c.lr then (List.ofFn c.s).reverse else []) ++ c.lr :: (List.ofFn c.r).reverse

theorem length_savedWords (c : Context) : (savedWords c).length = frameWords c.lr := by
  unfold savedWords frameWords
  split_ifs <;> simp

theorem getElem?_savedWords_lr (c : Context) :
    (savedWords c)[frameWords c.lr - 9]? = some c.lr := by
  unfold savedWords frameWords
  split_ifs <;> simp

theorem getElem?_savedWords_r (c : Context) (i : Fin 8) :
    (savedWords c)[frameWords c.lr - 1 - i]? = some (c.r i) := by
  have hr := Words.getElem?_reverse_ofFn c.r i
  unfold savedWords frameWords
  split_ifs with hf
  · have hi : 25 - 1 - i.val = 16 + (8 - 1 - i.val + 1) := by omega
    rw [hi, List.getElem?_append_right (by rw [List.length_reverse, List.length_ofFn]; omega),
      List.length_reverse, List.length_ofFn, Nat.add_sub_cancel_left, List.getElem?_cons_succ, hr]
  · have hi : 9 - 1 - i.val = 8 - 1 - i.val + 1 := by omega
    rw [hi, List.nil_append, List.getElem?_cons_succ, hr]

theorem getElem?_savedWords_s (hf : usesFpu c.lr = true) (i : Fin 16) :
    (savedWords c)[16 - 1 - i.val]? = some (c.s i) := by
  unfold savedWords
  rw [if_pos hf, List.getElem?_append_left (by rw [List.length_reverse, List.length_ofFn]; omega)]
  exact Words.getElem?_reverse_ofFn c.s i

/-- The saved words of a context that has been pushed. -/
theorem holds_pushAll (mem : ℕ → BitVec 32) (hroom : frameWords c.lr ≤ c.psp) :
    Holds (Words.pushAll (mem, c.psp) (savedWords c)).1 (c.psp - frameWords c.lr) c := by
  have hlen : (savedWords c).length ≤ (mem, c.psp).2 := (length_savedWords c).trans_le hroom
  have hframe : 9 ≤ frameWords c.lr := by
    unfold frameWords
    split_ifs <;> omega
  refine ⟨fun i => ?_, ?_, fun hf i => ?_, (Nat.sub_add_cancel hroom).symm⟩
  · exact Words.pushAll_get hlen (getElem?_savedWords_r c i) (by dsimp only; omega)
  · exact Words.pushAll_get hlen (getElem?_savedWords_lr c) (by dsimp only; omega)
  · have hwords : frameWords c.lr = 25 := if_pos hf
    exact Words.pushAll_get hlen (getElem?_savedWords_s hf i) (by dsimp only; omega)

section Save

variable [DecidableEq τ]

theorem save_eq (ht : x.current = some t) :
    x.save = { x with
      mem := (Words.pushAll (x.mem, x.regs.psp) (savedWords x.regs)).1
      sp := Function.update x.sp t (x.regs.psp - frameWords x.regs.lr) } := by
  have hsnd : (Words.pushAll (x.mem, x.regs.psp) (savedWords x.regs)).2 = _ := Words.pushAll_snd
  rw [length_savedWords] at hsnd
  rw [← hsnd]
  unfold save savedWords
  rw [ht]
  dsimp only
  split_ifs
  · rw [Words.pushAll_append]
  · rw [List.nil_append]

theorem save_none (hx : x.current = none) : x.save = x := by
  unfold save
  rw [hx]

/-- A switch writes the words below PSP of the outgoing task, and the field `sp` of this task. -/
theorem save_frame : (∀ a, (∀ t, x.current = some t → frameWords x.regs.lr ≤ x.regs.psp ∧
      (a + frameWords x.regs.lr < x.regs.psp ∨ x.regs.psp ≤ a)) → x.save.mem a = x.mem a) ∧
    (∀ u, x.current ≠ some u → x.save.sp u = x.sp u) ∧
    x.save.regs = x.regs ∧ x.save.current = x.current ∧ x.save.next = x.next := by
  cases hx : x.current with
  | none =>
    rw [save_none hx]
    exact ⟨fun _ _ => rfl, fun _ _ => rfl, rfl, hx, rfl⟩
  | some t =>
    rw [save_eq hx]
    refine ⟨fun a ha => ?_, fun u hu => ?_, rfl, hx, rfl⟩
    swap
    · have hne : u ≠ t := fun he => hu (congrArg some he.symm)
      exact Function.update_of_ne hne ..
    obtain ⟨hroom, hlt | hle⟩ := ha t rfl
    · exact Words.pushAll_of_lt (by rw [length_savedWords]; exact hlt)
    · exact Words.pushAll_of_le (by rw [length_savedWords]; exact hroom) hle

/-- The context of the outgoing task is saved. -/
theorem holds_save (ht : x.current = some t) (hroom : frameWords x.regs.lr ≤ x.regs.psp) :
    Holds x.save.mem (x.save.sp t) x.regs := by
  rw [save_eq ht]
  dsimp only
  rw [Function.update_self]
  exact holds_pushAll x.mem hroom

end Save

end Cpu

/-! ### Tasks and their stacks -/

/-- Where the stacks of the tasks are: they are disjoint, and the initial frames fit. -/
structure Stacks (τ : Type*) where
  lo : τ → ℕ
  hi : τ → ℕ
  disjoint : ∀ t u, t ≠ u → hi t ≤ lo u ∨ hi u ≤ lo t
  large : ∀ t, lo t + 17 ≤ hi t - hi t % 2

/-- The address is in the stack of the task. -/
def Stacks.Mem {τ : Type*} (S : Stacks τ) (t : τ) (a : ℕ) : Prop := S.lo t ≤ a ∧ a < S.hi t

theorem Stacks.not_mem {τ : Type*} (S : Stacks τ) {t u : τ} (hne : t ≠ u) {a : ℕ}
    (h : S.Mem t a) : ¬ S.Mem u a := by
  rintro hu
  obtain ⟨hlo, hhi⟩ := h
  obtain ⟨hlo', hhi'⟩ := hu
  rcases S.disjoint t u hne with hle | hle <;> omega

/-- The words of the frame that the hardware pops at the first return to a task. -/
structure HardwareFrame (mem : ℕ → BitVec 32) (psp : ℕ) (func : BitVec 32) : Prop where
  r0 : ∀ i < 5, mem (psp + i) = 0
  lr : mem (psp + 5) = excReturn
  pc : mem (psp + 6) = func ||| 1
  xpsr : mem (psp + 7) = 0x01000000

/-- The context that `task_stack_init` builds. -/
def initialContext (s : Fin 16 → BitVec 32) (psp : ℕ) : Context := ⟨fun _ => 0, excReturn, s, psp⟩

/-- `task_stack_init` builds both parts of the frame. -/
theorem taskStackInit_spec (mem : ℕ → BitVec 32) {sp : ℕ} (func : BitVec 32)
    (hsp : 17 ≤ sp - sp % 2) (s : Fin 16 → BitVec 32) :
    (taskStackInit mem sp func).2 = sp - sp % 2 - 17 ∧
    Cpu.Holds (taskStackInit mem sp func).1 (sp - sp % 2 - 17)
      (initialContext s (sp - sp % 2 - 8)) ∧
    HardwareFrame (taskStackInit mem sp func).1 (sp - sp % 2 - 8) func ∧
    ∀ a, (a + 17 < sp - sp % 2 ∨ sp - sp % 2 ≤ a) → (taskStackInit mem sp func).1 a = mem a := by
  have hlen : (initialFrame func).length ≤ (mem, sp - sp % 2).2 := hsp
  have hfpu : frameWords excReturn = 9 := by decide
  have hget : ∀ {w : BitVec 32} {i a : ℕ}, (initialFrame func)[i]? = some w →
      a + i + 1 = sp - sp % 2 → (taskStackInit mem sp func).1 a = w :=
    fun hi ha => Words.pushAll_get hlen hi ha
  refine ⟨Words.pushAll_snd, ⟨fun i => hget (i := 16 - i) ?_ (by omega),
    hget (i := 8) rfl (by omega), fun hf => ?_, ?_⟩,
    ⟨fun i hi => hget (i := 7 - i) ?_ (by omega), hget (i := 2) rfl (by omega),
      hget (i := 1) rfl (by omega), hget (i := 0) rfl (by omega)⟩, fun a ha => ?_⟩
  · obtain ⟨i, hi⟩ := i
    change (initialFrame func)[16 - i]? = some 0
    interval_cases i <;> rfl
  · have hnone : usesFpu excReturn = false := by decide
    rw [show (initialContext s (sp - sp % 2 - 8)).lr = excReturn from rfl, hnone] at hf
    cases hf
  · change sp - sp % 2 - 8 = sp - sp % 2 - 17 + frameWords excReturn
    rw [hfpu]
    omega
  · interval_cases i <;> rfl
  · rcases ha with hlt | hle
    · exact Words.pushAll_of_lt hlt
    · exact Words.pushAll_of_le hlen hle

section Tasks

variable {τ : Type*} [DecidableEq τ]

/-- `task_stack_init` and the store to `sp`, for each task of the list: the entry function of a task
is `func`, and its stack ends at `hi`. -/
def createTasks (S : Stacks τ) (func : τ → BitVec 32) (x : Cpu τ) (ts : List τ) : Cpu τ :=
  ts.foldl (fun x t =>
    let (mem, sp) := taskStackInit x.mem (S.hi t) (func t)
    { x with mem := mem, sp := Function.update x.sp t sp }) x

/-- What can happen between the creation of the tasks and any later time. -/
inductive SwitchAction (τ : Type*)
  /-- `sched_start` enters the first task. -/
  | start (t : τ)
  /-- The current task, or the code before `sched_start`, computes: it leaves its registers, and the
  memory, so. -/
  | run (regs : Context) (mem : ℕ → BitVec 32)
  /-- `g_next_task = t`. -/
  | choose (t : τ)
  /-- `PendSV_Handler`. -/
  | pendSV

/-- The state after an action. -/
def Cpu.step (port : Port) (x : Cpu τ) : SwitchAction τ → Option (Cpu τ × List Empty)
  | .start t => if x.current = none then some (x.schedStartAsm port t, []) else none
  | .run regs mem => some ({ x with regs := regs, mem := mem }, [])
  | .choose t => some ({ x with next := t }, [])
  | .pendSV => some (x.pendSVHandler, [])

/-- A task writes no other stack, and when it is switched out PSP points into its stack, with room
for its context below. -/
def Stacks.Allows (S : Stacks τ) (x : Cpu τ) : SwitchAction τ → Prop
  | .run _ mem => ∀ t, x.current ≠ some t → ∀ a, S.Mem t a → mem a = x.mem a
  | .pendSV => ∀ t, x.current = some t →
      S.lo t + frameWords x.regs.lr ≤ x.regs.psp ∧ x.regs.psp ≤ S.hi t
  | .start _ | .choose _ => True

/-- The context with which each task has been switched out last. -/
def Cpu.noteSaved (x : Cpu τ) (a : SwitchAction τ) (_ : List Empty)
    (saved : τ → Option Context) : τ → Option Context :=
  match a, x.current with
  | .pendSV, some t => Function.update saved t (some x.regs)
  | _, _ => saved

/-- The task has its context in its own stack: the one with which it has been switched out last, or
the initial one. -/
structure Stored (S : Stacks τ) (func : τ → BitVec 32) (x : Cpu τ) (t : τ) (o : Option Context)
    (c : Context) : Prop where
  holds : Cpu.Holds x.mem (x.sp t) c
  lo_le : S.lo t ≤ x.sp t
  le_hi : c.psp ≤ S.hi t
  saved : ∀ c', o = some c' → c = c'
  initial : o = none → (∀ i, c.r i = 0) ∧ c.lr = excReturn ∧ c.psp + 8 ≤ S.hi t ∧
    HardwareFrame x.mem c.psp (func t)

variable {S : Stacks τ} {func : τ → BitVec 32} {x x' : Cpu τ} {t : τ} {o : Option Context}
  {c : Context}

omit [DecidableEq τ] in
/-- Nobody has written the stack of the task, or its field `sp`. -/
theorem Stored.congr (h : Stored S func x t o c) (hmem : ∀ a, S.Mem t a → x'.mem a = x.mem a)
    (hsp : x'.sp t = x.sp t) : Stored S func x' t o c := by
  have hpsp := h.holds.psp
  have hlo := h.lo_le
  have hhi := h.le_hi
  refine ⟨?_, hsp ▸ h.lo_le, h.le_hi, h.saved, fun ho => ?_⟩
  · rw [hsp]
    exact h.holds.congr fun a ha ha' => hmem a ⟨hlo.trans ha, ha'.trans_le hhi⟩
  · obtain ⟨hr, hlr, htop, hframe⟩ := h.initial ho
    have hsame : ∀ i < 8, x'.mem (c.psp + i) = x.mem (c.psp + i) := fun i hi =>
      hmem _ ⟨by omega, by omega⟩
    refine ⟨hr, hlr, htop, fun i hi => ?_, ?_, ?_, ?_⟩
    · rw [hsame i (by omega)]
      exact hframe.r0 i hi
    · rw [hsame 5 (by omega)]
      exact hframe.lr
    · rw [hsame 6 (by omega)]
      exact hframe.pc
    · rw [hsame 7 (by omega)]
      exact hframe.xpsr

/-- What is in the registers of a task that has just been switched in: the context with which it has
been switched out last, or, for the first time, the initial one. -/
def SwitchedIn (func : τ → BitVec 32) (x : Cpu τ) (t : τ) (o : Option Context) : Prop :=
  match o with
  | some c => Cpu.Agrees x.regs c
  | none => (∀ i, x.regs.r i = 0) ∧ x.regs.lr = excReturn ∧
      HardwareFrame x.mem x.regs.psp (func t)

omit [DecidableEq τ] in
theorem Stored.switchedIn_load (h : Stored S func x t o c) : SwitchedIn func (x.load t) t o := by
  have hag := Cpu.load_of_holds h.holds
  cases o with
  | some c' =>
    obtain rfl := h.saved c' rfl
    exact hag
  | none =>
    obtain ⟨hr, hlr, -, hframe⟩ := h.initial rfl
    refine ⟨fun i => ?_, hag.lr.trans hlr, ?_⟩
    · rw [hag.r]
      exact hr i
    · rw [hag.psp]
      exact hframe

omit [DecidableEq τ] in
/-- The first task is entered; it does not use the FPU yet. -/
theorem Stored.switchedIn_schedStartAsm (port : Port) (h : Stored S func x t o c) (ho : o = none) :
    SwitchedIn func (x.schedStartAsm port t) t o := by
  subst ho
  cases port with
  | cortexM7 =>
    have hsame : Stored S func { x with current := some t, next := t } t none c :=
      h.congr (fun _ _ => rfl) rfl
    exact hsame.switchedIn_load
  | cortexM4 =>
    obtain ⟨hr, hlr, -, hframe⟩ := h.initial rfl
    have hpsp : c.psp = x.sp t + 9 := by
      rw [h.holds.psp, hlr]
      rfl
    refine ⟨fun i => (h.holds.r i).trans (hr i), h.holds.lr.trans hlr, ?_⟩
    rw [hpsp] at hframe
    exact hframe

/-- Every task that is not current has its context in its stack. -/
def AllStored (S : Stacks τ) (func : τ → BitVec 32) (x : Cpu τ) (saved : τ → Option Context) : Prop :=
  ∀ t, x.current ≠ some t → ∃ c, Stored S func x t (saved t) c

/-- The tasks after their creation. -/
theorem allStored_createTasks (x : Cpu τ) {ts : List τ} (hts : ∀ t, t ∈ ts) :
    AllStored S func (createTasks S func x ts) fun _ => none := by
  have hfold : ∀ (ts : List τ) (x : Cpu τ) (t : τ), t ∈ ts ∨ (∃ c, Stored S func x t none c) →
      ∃ c, Stored S func (createTasks S func x ts) t none c := by
    intro ts
    induction ts with
    | nil => exact fun x t ht => ht.resolve_left List.not_mem_nil
    | cons u ts ih =>
      intro x t ht
      have hlarge := S.large u
      obtain ⟨hsp, hholds, hframe, hother⟩ :=
        taskStackInit_spec x.mem (func u) (show 17 ≤ S.hi u - S.hi u % 2 by omega) fun _ => 0
      refine ih _ t ?_
      by_cases htu : t = u
      · subst htu
        refine Or.inr ⟨initialContext (fun _ => 0) (S.hi t - S.hi t % 2 - 8), ⟨?_, ?_, ?_,
          (fun c' hc' => by cases hc'), fun _ => ⟨fun _ => rfl, rfl, ?_, hframe⟩⟩⟩
        · dsimp only
          rw [Function.update_self, hsp]
          exact hholds
        · dsimp only
          rw [Function.update_self, hsp]
          omega
        · change S.hi t - S.hi t % 2 - 8 ≤ S.hi t
          omega
        · change S.hi t - S.hi t % 2 - 8 + 8 ≤ S.hi t
          omega
      · refine (ht.imp_left fun hmem => (List.mem_cons.1 hmem).resolve_left htu).imp_right ?_
        rintro ⟨c, hc⟩
        refine ⟨c, hc.congr (fun a ha => hother a ?_) (Function.update_of_ne htu ..)⟩
        have hnot := S.not_mem htu ha
        unfold Stacks.Mem at hnot
        omega
  exact fun t _ => hfold ts x t (Or.inl (hts t))

/-- After the first part of `PendSV_Handler` every task has its context in its stack. -/
theorem stored_save {saved : τ → Option Context} (h : AllStored S func x saved)
    (hok : S.Allows x .pendSV) (t : τ) :
    ∃ c, Stored S func x.save t (x.noteSaved .pendSV [] saved t) c := by
  cases hx : x.current with
  | none =>
    rw [Cpu.save_none hx]
    simp only [Cpu.noteSaved, hx]
    exact h t (by simp [hx])
  | some u =>
    obtain ⟨hlo, hhi⟩ := hok u hx
    have hroom : frameWords x.regs.lr ≤ x.regs.psp := le_of_add_le_right hlo
    simp only [Cpu.noteSaved, hx]
    by_cases htu : t = u
    · subst htu
      rw [Function.update_self]
      have hholds := Cpu.holds_save hx hroom
      have hpsp := hholds.psp
      refine ⟨x.regs, hholds, by omega, hhi, fun c' hc' => ?_, fun ho => by cases ho⟩
      exact Option.some.inj hc'
    · rw [Function.update_of_ne htu]
      obtain ⟨c, hc⟩ := h t (by rw [hx]; exact fun he => htu (Option.some.inj he).symm)
      obtain ⟨hmem, hsp, -⟩ := Cpu.save_frame (x := x)
      refine ⟨c, hc.congr (fun a ha => hmem a fun v hv => ?_) (hsp t ?_)⟩
      · obtain rfl : u = v := Option.some.inj (hx.symm.trans hv)
        have hnot := S.not_mem htu ha
        unfold Stacks.Mem at hnot
        exact ⟨hroom, by omega⟩
      · rw [hx]
        exact fun he => htu (Option.some.inj he).symm

/-! ### Any sequence of switches -/

omit [DecidableEq τ] in
theorem AllStored.congr {saved : τ → Option Context} (h : AllStored S func x saved)
    (hcur : ∀ t, x'.current ≠ some t → x.current ≠ some t)
    (hmem : ∀ t, x'.current ≠ some t → ∀ a, S.Mem t a → x'.mem a = x.mem a)
    (hsp : x'.sp = x.sp) : AllStored S func x' saved := fun t ht => by
  obtain ⟨c, hc⟩ := h t (hcur t ht)
  exact ⟨c, hc.congr (hmem t ht) (congrFun hsp t)⟩

theorem AllStored.step {port : Port} {saved : τ → Option Context} {a : SwitchAction τ}
    {o : List Empty} (h : AllStored S func x saved) (hok : S.Allows x a)
    (hs : x.step port a = some (x', o)) : AllStored S func x' (x.noteSaved a o saved) := by
  cases a with
  | start t =>
    simp only [Cpu.step] at hs
    split_ifs at hs with hx
    cases hs
    refine h.congr (fun u hu => by simp [hx]) (fun u hu a _ => ?_) ?_ <;> cases port <;> rfl
  | run regs mem =>
    cases hs
    exact h.congr (fun u hu => hu) (fun u hu a ha => hok u hu a ha) rfl
  | choose t =>
    cases hs
    exact h.congr (fun u hu => hu) (fun u hu a _ => rfl) rfl
  | pendSV =>
    cases hs
    intro t ht
    obtain ⟨c, hc⟩ := stored_save h hok t
    exact ⟨c, hc.congr (fun a _ => rfl) rfl⟩

/-- Nothing has been saved before the first task runs. -/
theorem Cpu.noteSaved_of_none {port : Port} {saved : τ → Option Context} {a : SwitchAction τ}
    {o : List Empty} (h : x.current = none → ∀ t, saved t = none)
    (hs : x.step port a = some (x', o)) (hx' : x'.current = none) (t : τ) :
    x.noteSaved a o saved t = none := by
  cases a with
  | start u =>
    simp only [Cpu.step] at hs
    split_ifs at hs
    cases hs
    cases port <;> cases hx'
  | run | choose =>
    cases hs
    exact h hx' t
  | pendSV =>
    cases hs
    cases hx'

/-- From the creation of the tasks on, with any choice of the next task and whatever the tasks do
with their registers and outside the stacks of the others: a task that is switched in has the
context with which it has been switched out last, and for the first time the one that
`task_stack_init` has built; and a switch writes only below PSP of the outgoing task, and its field
`sp`. -/
theorem contextSwitch_preserves (port : Port) (S : Stacks τ) (func : τ → BitVec 32) {x₀ x : Cpu τ}
    {ts : List τ} {saved : τ → Option Context} {out : List Empty} (hts : ∀ t, t ∈ ts)
    (h : Run.Reach (Run.annotate (Cpu.step port) Cpu.noteSaved) (fun p a => S.Allows p.1 a)
      (createTasks S func x₀ ts, fun _ => none) (x, saved) out) :
    (∀ a x' o t, a = .pendSV ∨ a = .start t → S.Allows x a → x.step port a = some (x', o) →
      x'.current = some t → SwitchedIn func x' t (x.noteSaved a o saved t)) ∧
    (S.Allows x .pendSV →
      (∀ a, (∀ t, x.current = some t → a + frameWords x.regs.lr < x.regs.psp ∨ x.regs.psp ≤ a) →
        x.pendSVHandler.mem a = x.mem a) ∧
      (∀ t, x.current ≠ some t → x.pendSVHandler.sp t = x.sp t) ∧
      x.pendSVHandler.current = some x.next ∧ x.pendSVHandler.next = x.next) := by
  obtain ⟨hstored, hfirst⟩ : AllStored S func x saved ∧ (x.current = none → ∀ t, saved t = none) := by
    refine h.invariant (I := fun p => AllStored S func p.1 p.2 ∧
      (p.1.current = none → ∀ t, p.2 t = none))
      ⟨allStored_createTasks x₀ hts, fun _ _ => rfl⟩ ?_
    rintro ⟨x, saved⟩ ⟨x', saved'⟩ a o ⟨hI, hfirst⟩ hok hs
    obtain ⟨hst, rfl⟩ := Run.annotate_eq_some.1 hs
    refine ⟨hI.step hok hst, fun hx' t => ?_⟩
    exact Cpu.noteSaved_of_none hfirst hst hx' t
  refine ⟨fun a x' o t ha hok hs ht => ?_, fun hok => ?_⟩
  · rcases ha with rfl | rfl
    · cases hs
      obtain rfl : x.save.next = t := Option.some.inj ht
      obtain ⟨c, hc⟩ := stored_save hstored hok x.save.next
      have hsame : Stored S func { x.save with current := some x.save.next } x.save.next _ c :=
        hc.congr (fun _ _ => rfl) rfl
      exact hsame.switchedIn_load
    · simp only [Cpu.step] at hs
      split_ifs at hs with hx
      cases hs
      obtain ⟨c, hc⟩ := hstored t (by simp [hx])
      exact hc.switchedIn_schedStartAsm port (hfirst hx t)
  · obtain ⟨hmem, hsp, hregs, hcur, hnext⟩ := Cpu.save_frame (x := x)
    refine ⟨fun a ha => hmem a fun t ht => ⟨le_of_add_le_right (hok t ht).1, ha t ht⟩, hsp, ?_, hnext⟩
    exact congrArg some hnext

end Tasks

/-- Two stacks of 100 words. -/
def twoStacks : Stacks (Fin 2) where
  lo t := 100 * t.val
  hi t := 100 * t.val + 100
  disjoint t u hne := by omega
  large t := by omega

/-- A processor before the creation of its tasks. -/
def resetCpu : Cpu (Fin 2) where
  regs := ⟨fun _ => 0, 0, fun _ => 0, 0⟩
  mem _ := 0
  sp _ := 0
  current := none
  next := ⟨0, Nat.zero_lt_two⟩

/-- The first of two tasks has been entered. -/
def firstTask : Cpu (Fin 2) :=
  (createTasks twoStacks (fun _ => 0x1000) resetCpu (List.finRange 2)).schedStartAsm .cortexM7
    ⟨0, Nat.zero_lt_two⟩

/-- It computes, with the FPU. -/
def firstRegs : Context := ⟨fun i => i.val + 4, 0xFFFFFFED, fun i => i.val + 16, 90⟩

/-- The second task is switched in. -/
def secondTask : Cpu (Fin 2) :=
  Cpu.pendSVHandler { firstTask with regs := firstRegs, next := ⟨1, Nat.one_lt_two⟩ }

/-- The first task is switched in again, with the same registers. -/
theorem firstTask_preserved :
    Cpu.Agrees (Cpu.pendSVHandler { secondTask with next := 0 }).regs firstRegs := by
  have hstart : Run.Reach (Run.annotate (Cpu.step .cortexM7) Cpu.noteSaved)
      (fun p a => twoStacks.Allows p.1 a)
      (createTasks twoStacks (fun _ => 0x1000) resetCpu [0, 1], fun _ => none)
      (firstTask, fun _ => none) [] :=
    Run.Reach.init.step (a := SwitchAction.start 0) trivial rfl
  have hrun := hstart.step (a := SwitchAction.run firstRegs firstTask.mem) (fun _ _ _ _ => rfl) rfl
  have hchoose := hrun.step (a := SwitchAction.choose 1) trivial rfl
  have hfirst : ∀ t : Fin 2, some 0 = some t → twoStacks.lo t + frameWords firstRegs.lr ≤ 90 ∧
      90 ≤ twoStacks.hi t := by decide
  have hout := hchoose.step (a := SwitchAction.pendSV) hfirst rfl
  have hswitch := hout.step (a := SwitchAction.choose 0) trivial rfl
  have hsecond : ∀ t : Fin 2, some 1 = some t →
      twoStacks.lo t + frameWords secondTask.regs.lr ≤ secondTask.regs.psp ∧
        secondTask.regs.psp ≤ twoStacks.hi t := by decide
  have hin := (contextSwitch_preserves .cortexM7 twoStacks _ (by decide) hswitch).1 .pendSV _ _ 0
    (Or.inl rfl) hsecond rfl rfl
  exact hin

end TamgaOs
