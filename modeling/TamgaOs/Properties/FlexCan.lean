import TamgaOs.Drivers.FlexCan
import TamgaOs.Library.Run

/-!
# What a transmission reports

`flexcan_transmit` gives up after a number of polls and leaves its frame in the mailbox and, when the
controller has been a moment late, its completion flag. The calls of the driver are numbered, and a
record keeps what happens to the frame of each of them.

## Main definitions

* `CanEvent`, `CanRecord`, `FlexCan.recorded`: the driver with its history.
* `CanRecord.Truthful`: the calls have reported what has happened to their frames.
* `FlexCan.Prompt`: the controller sends a frame in time or never.

## Main results

* `flexcan_truthful`: along the runs of a prompt controller.
* `flexcan_reports_stale`: a frame is late, and the next call reports its completion.
-/

namespace TamgaOs

/-- What happens to the call with a number. -/
inductive CanEvent
  | called (n : ℕ) (f : CanFrame)
  | sent (n : ℕ) (x : CanContents)
  | returned (n : ℕ) (r : ℤ)

/-- The number of the call. -/
def CanEvent.call : CanEvent → ℕ
  | called n _ | sent n _ | returned n _ => n

/-- The history of the driver. -/
structure CanRecord where
  /-- The calls so far. A call that is running has this number. -/
  calls : ℕ := 0
  /-- The call that has filled the mailbox. -/
  owner : ℕ := 0
  events : List CanEvent := []

namespace CanRecord

/-- A report of the driver or the controller. -/
def event (r : CanRecord) : CanObs → CanEvent
  | .called f => .called r.calls f
  | .sent x => .sent r.owner x
  | .returned v => .returned r.calls v

/-- Every call has a number of its own. A frame is sent once at most, for the call that has passed it.
A call that has returned 0 has been sent; after one that has returned -1, no frame of it or of a call
before it is sent. -/
structure Truthful (r : CanRecord) : Prop where
  numbered : r.events.Pairwise fun e e' => ∀ n f f', e = .called n f → e' ≠ .called n f'
  own : ∀ n x, .sent n x ∈ r.events → ∃ f, .called n f ∈ r.events ∧ x = f.encode
  once : r.events.Pairwise fun e e' => ∀ n x x', e = .sent n x → e' ≠ .sent n x'
  success : ∀ n, .returned n 0 ∈ r.events → ∃ x, .sent n x ∈ r.events
  final : r.events.Pairwise fun e e' => ∀ n m x, e = .returned n (-1) → e' = .sent m x → n < m

end CanRecord

namespace FlexCan

/-- The record after a step. -/
def note (s : FlexCan) (a : CanAction) (o : List CanObs) (r : CanRecord) : CanRecord :=
  let r := match a, s.ctl with
    | .call _, _ => { r with calls := r.calls + 1 }
    | .exec _, some .writeCs => { r with owner := r.calls }
    | _, _ => r
  { r with events := r.events ++ o.map r.event }

/-- The driver with its history. -/
def recorded : FlexCan × CanRecord → CanAction → Option ((FlexCan × CanRecord) × List CanObs) :=
  Run.annotate step note

/-- The controller sends a frame only while the call that has filled the mailbox polls the flag, and
not as late as the last poll. -/
def Prompt (s : FlexCan) : CanAction → Prop
  | .call _ => True
  | .exec _ => s.ctl = some (.waitFlag 0) → s.iflag = false
  | .send => ∃ t, s.ctl = some (.waitFlag t)

/-- The part of the mailbox that is filled at a program point. -/
def Filled (s : FlexCan) : TransmitCtl → Prop
  | .writeWord0 => s.mailbox.id = s.frame.stdId
  | .writeWord1 => s.mailbox.id = s.frame.stdId ∧ s.mailbox.word0 = s.frame.word0
  | .writeCs => s.mailbox.id = s.frame.stdId ∧ s.mailbox.word0 = s.frame.word0 ∧
    s.mailbox.word1 = s.frame.word1
  | _ => True

/-- What is known about the frame of the call at a program point: outside of the polling loop and the
statement after it the flag is clear, and in the loop it tells whether the frame has been sent. -/
def Progress (s : FlexCan) (r : CanRecord) : TransmitCtl → Prop
  | .waitFlag _ =>
    (s.code = canTxData ∧ s.iflag = false ∧ r.owner = r.calls ∧ s.mailbox = s.frame.encode ∧
      ∀ x, .sent r.calls x ∉ r.events) ∨
    (s.code = canTxInactive ∧ ∃ x, .sent r.calls x ∈ r.events)
  | .clearFlag => ∃ x, .sent r.calls x ∈ r.events
  | .succeed => s.iflag = false ∧ ∃ x, .sent r.calls x ∈ r.events
  | .giveUp => s.iflag = false
  | c => s.iflag = false ∧ s.Filled c ∧ ∀ x, .sent r.calls x ∉ r.events

/-- The driver agrees with its history. -/
structure Recorded (s : FlexCan) (r : CanRecord) : Prop where
  truthful : r.Truthful
  le : ∀ e ∈ r.events, e.call ≤ r.calls
  idle : s.ctl = none → s.iflag = false
  running : ∀ c, s.ctl = some c → .called r.calls s.frame ∈ r.events ∧
    (∀ v, .returned r.calls v ∉ r.events) ∧ s.Progress r c

variable {s s' : FlexCan} {r r' : CanRecord} {a : CanAction} {o : List CanObs} {c : TransmitCtl}

/-! ### The history -/

theorem recorded_eq_some (h : recorded (s, r) a = some ((s', r'), o)) :
    s.step a = some (s', o) ∧ r' = note s a o r := Run.annotate_eq_some.1 h

end FlexCan

namespace CanRecord

variable {r : CanRecord} {f : CanFrame} {x : CanContents} {v : ℤ}

/-- The history goes on with one event. -/
def add (r : CanRecord) (e : CanEvent) : CanRecord := { r with events := r.events ++ [e] }

theorem mem_add {e e' : CanEvent} : e' ∈ (r.add e).events ↔ e' ∈ r.events ∨ e' = e := by
  simp [add]

theorem pairwise_add {R : CanEvent → CanEvent → Prop} {e : CanEvent} (h : r.events.Pairwise R)
    (hlast : ∀ e' ∈ r.events, R e' e) : (r.add e).events.Pairwise R := by
  refine List.pairwise_append.2 ⟨h, List.pairwise_singleton R e, fun e' he' e'' he'' => ?_⟩
  rw [List.mem_singleton.1 he'']
  exact hlast e' he'

theorem Truthful.called (h : r.Truthful) {n : ℕ} (hn : ∀ e ∈ r.events, e.call < n) (f : CanFrame) :
    (r.add (.called n f)).Truthful := by
  refine ⟨pairwise_add h.numbered ?_, ?_, pairwise_add h.once ?_, ?_, pairwise_add h.final ?_⟩
  · rintro e he m g g' rfl hm
    cases hm
    exact Nat.lt_irrefl _ (hn _ he)
  · intro m y hm
    obtain ⟨g, hg, hy⟩ := h.own m y ((mem_add.1 hm).resolve_right (by simp))
    exact ⟨g, mem_add.2 (Or.inl hg), hy⟩
  · rintro e - m y y' - hm
    cases hm
  · intro m hm
    obtain ⟨y, hy⟩ := h.success m ((mem_add.1 hm).resolve_right (by simp))
    exact ⟨y, mem_add.2 (Or.inl hy)⟩
  · rintro e - m k y - hm
    cases hm

theorem Truthful.sent (h : r.Truthful) {n : ℕ} (hcalled : .called n f ∈ r.events)
    (hnot : ∀ y, .sent n y ∉ r.events) (hopen : ∀ m v, .returned m v ∈ r.events → m < n) :
    (r.add (.sent n f.encode)).Truthful := by
  refine ⟨pairwise_add h.numbered ?_, ?_, pairwise_add h.once ?_, ?_, pairwise_add h.final ?_⟩
  · rintro e - m g g' - hm
    cases hm
  · intro m y hm
    rcases mem_add.1 hm with hm | hm
    · obtain ⟨g, hg, hy⟩ := h.own m y hm
      exact ⟨g, mem_add.2 (Or.inl hg), hy⟩
    · cases hm
      exact ⟨f, mem_add.2 (Or.inl hcalled), rfl⟩
  · rintro e he m y y' rfl hm
    cases hm
    exact hnot y he
  · intro m hm
    obtain ⟨y, hy⟩ := h.success m ((mem_add.1 hm).resolve_right (by simp))
    exact ⟨y, mem_add.2 (Or.inl hy)⟩
  · rintro e he m k y rfl hm
    cases hm
    exact hopen m _ he

theorem Truthful.returned (h : r.Truthful) {n : ℕ} (hsent : v = 0 → ∃ x, .sent n x ∈ r.events) :
    (r.add (.returned n v)).Truthful := by
  refine ⟨pairwise_add h.numbered ?_, ?_, pairwise_add h.once ?_, ?_, pairwise_add h.final ?_⟩
  · rintro e - m g g' - hm
    cases hm
  · intro m y hm
    obtain ⟨g, hg, hy⟩ := h.own m y ((mem_add.1 hm).resolve_right (by simp))
    exact ⟨g, mem_add.2 (Or.inl hg), hy⟩
  · rintro e - m y y' - hm
    cases hm
  · intro m hm
    rcases mem_add.1 hm with hm | hm
    · obtain ⟨y, hy⟩ := h.success m hm
      exact ⟨y, mem_add.2 (Or.inl hy)⟩
    · cases hm
      obtain ⟨y, hy⟩ := hsent rfl
      exact ⟨y, mem_add.2 (Or.inl hy)⟩
  · rintro e - m k y - hm
    cases hm

end CanRecord

namespace FlexCan

variable {s s' : FlexCan} {r r' : CanRecord} {a : CanAction} {o : List CanObs} {c c' : TransmitCtl}

/-! ### One step -/

/-- The call goes on, and nothing has happened to its frame. -/
theorem Recorded.goes_on (h : s.Recorded r) (hc : s.ctl = some c) (hframe : s'.frame = s.frame)
    (hc' : s'.ctl = some c') (hevents : r'.events = r.events) (hcalls : r'.calls = r.calls)
    (hprogress : s'.Progress r' c') : s'.Recorded r' := by
  obtain ⟨hcalled, hopen, -⟩ := h.running c hc
  obtain ⟨⟨hnumbered, hown, honce, hsuccess, hfinal⟩, hle, -⟩ := h
  refine ⟨⟨?_, ?_, ?_, ?_, ?_⟩, ?_, fun hnone => ?_, fun d hd => ?_⟩
  · rwa [hevents]
  · rwa [hevents]
  · rwa [hevents]
  · rwa [hevents]
  · rwa [hevents]
  · rwa [hevents, hcalls]
  · rw [hc'] at hnone
    cases hnone
  · obtain rfl : c' = d := Option.some.inj (hc'.symm.trans hd)
    rw [hevents, hcalls, hframe]
    exact ⟨hcalled, hopen, hprogress⟩

/-- The call returns. -/
theorem Recorded.returns (h : s.Recorded r) {v : ℤ} (hflag : s.iflag = false)
    (hsent : v = 0 → ∃ x, .sent r.calls x ∈ r.events) :
    ({ s with ctl := none } : FlexCan).Recorded (r.add (.returned r.calls v)) := by
  refine ⟨h.truthful.returned hsent, fun e he => ?_, fun _ => hflag, fun d hd => by cases hd⟩
  rcases CanRecord.mem_add.1 he with he | rfl
  · exact h.le e he
  · exact Nat.le_refl _

theorem note_quiet {bit : Bool} (hc : s.ctl = some c) (hne : c ≠ .writeCs) :
    note s (.exec bit) [] r = r := by
  unfold note
  rw [hc]
  cases c with
  | writeCs => exact absurd rfl hne
  | _ => simp

theorem Recorded.exec {bit : Bool} (h : s.Recorded r) (hc : s.ctl = some c)
    (hok : s.Prompt (.exec bit)) :
    (s.execStep bit c).1.Recorded (note s (.exec bit) (s.execStep bit c).2 r) := by
  obtain ⟨hcalled, hopen, hprogress⟩ := h.running c hc
  cases c with
  | busOff =>
    rw [show (s.execStep bit .busOff).2 = [] from rfl, note_quiet hc (by simp)]
    obtain ⟨hflag, -, hnot⟩ := hprogress
    cases bit <;> exact h.goes_on hc rfl rfl rfl rfl ⟨hflag, trivial, hnot⟩
  | freeze t =>
    rw [show (s.execStep bit (.freeze t)).2 = [] from rfl, note_quiet hc (by simp)]
    obtain ⟨hflag, -, hnot⟩ := hprogress
    simp only [execStep]
    split_ifs <;> exact h.goes_on hc rfl rfl rfl rfl ⟨hflag, trivial, hnot⟩
  | inactivate =>
    rw [show (s.execStep bit .inactivate).2 = [] from rfl, note_quiet hc (by simp)]
    exact h.goes_on hc rfl rfl rfl rfl hprogress
  | unfreeze t =>
    rw [show (s.execStep bit (.unfreeze t)).2 = [] from rfl, note_quiet hc (by simp)]
    obtain ⟨hflag, -, hnot⟩ := hprogress
    simp only [execStep]
    split_ifs <;> exact h.goes_on hc rfl rfl rfl rfl ⟨hflag, trivial, hnot⟩
  | waitInactive t =>
    rw [show (s.execStep bit (.waitInactive t)).2 = [] from rfl, note_quiet hc (by simp)]
    obtain ⟨hflag, -, hnot⟩ := hprogress
    simp only [execStep]
    split_ifs
    · exact h.goes_on hc rfl rfl rfl rfl ⟨hflag, trivial, hnot⟩
    · exact h.goes_on hc rfl rfl rfl rfl hflag
    · exact h.goes_on hc rfl rfl rfl rfl ⟨hflag, trivial, hnot⟩
  | writeId =>
    rw [show (s.execStep bit .writeId).2 = [] from rfl, note_quiet hc (by simp)]
    obtain ⟨hflag, -, hnot⟩ := hprogress
    exact h.goes_on hc rfl rfl rfl rfl ⟨hflag, rfl, hnot⟩
  | writeWord0 =>
    rw [show (s.execStep bit .writeWord0).2 = [] from rfl, note_quiet hc (by simp)]
    obtain ⟨hflag, hid, hnot⟩ := hprogress
    exact h.goes_on hc rfl rfl rfl rfl ⟨hflag, ⟨hid, rfl⟩, hnot⟩
  | writeWord1 =>
    rw [show (s.execStep bit .writeWord1).2 = [] from rfl, note_quiet hc (by simp)]
    obtain ⟨hflag, ⟨hid, hword⟩, hnot⟩ := hprogress
    exact h.goes_on hc rfl rfl rfl rfl ⟨hflag, ⟨hid, hword, rfl⟩, hnot⟩
  | writeCs =>
    have hnote : note s (.exec bit) (s.execStep bit .writeCs).2 r = { r with owner := r.calls } := by
      unfold note
      rw [hc]
      simp [execStep]
    obtain ⟨hflag, ⟨hid, hword0, hword1⟩, hnot⟩ := hprogress
    rw [hnote]
    refine h.goes_on hc rfl rfl rfl rfl (Or.inl ⟨rfl, hflag, rfl, ?_, hnot⟩)
    show CanContents.mk s.mailbox.id s.mailbox.word0 s.mailbox.word1 s.frame.dlcBits = s.frame.encode
    rw [hid, hword0, hword1]
    rfl
  | waitFlag t =>
    rw [show (s.execStep bit (.waitFlag t)).2 = [] from rfl, note_quiet hc (by simp)]
    simp only [execStep]
    split_ifs with hpoll hzero
    · exact h.goes_on hc rfl rfl rfl rfl hprogress
    · subst hzero
      exact h.goes_on hc rfl rfl rfl rfl (hok hc)
    · -- the flag is set, so that the frame has been sent
      rcases hprogress with ⟨-, hflag, -⟩ | ⟨-, hsent⟩
      · exact absurd ⟨hflag, hzero⟩ hpoll
      · exact h.goes_on hc rfl rfl rfl rfl hsent
  | clearFlag =>
    rw [show (s.execStep bit .clearFlag).2 = [] from rfl, note_quiet hc (by simp)]
    exact h.goes_on hc rfl rfl rfl rfl ⟨rfl, hprogress⟩
  | succeed =>
    have hnote : note s (.exec bit) (s.execStep bit .succeed).2 r = r.add (.returned r.calls 0) := by
      unfold note
      rw [hc]
      rfl
    rw [hnote]
    exact h.returns hprogress.1 fun _ => hprogress.2
  | giveUp =>
    have hnote : note s (.exec bit) (s.execStep bit .giveUp).2 r =
        r.add (.returned r.calls (-1)) := by
      unfold note
      rw [hc]
      rfl
    rw [hnote]
    exact h.returns hprogress fun hv => by cases hv

theorem Recorded.step (h : s.Recorded r) (hok : s.Prompt a)
    (hs : recorded (s, r) a = some ((s', r'), o)) : s'.Recorded r' := by
  obtain ⟨hstep, rfl⟩ := recorded_eq_some hs
  cases a with
  | call f =>
    simp only [FlexCan.step] at hstep
    split at hstep
    · rename_i hnone
      cases hstep
      have hnote : note s (.call f) [.called f] r =
          CanRecord.add { r with calls := r.calls + 1 } (.called (r.calls + 1) f) := rfl
      have hlt : ∀ e ∈ r.events, e.call < r.calls + 1 := fun e he => Nat.lt_succ_of_le (h.le e he)
      have htruthful : CanRecord.Truthful { r with calls := r.calls + 1 } :=
        ⟨h.truthful.numbered, h.truthful.own, h.truthful.once, h.truthful.success, h.truthful.final⟩
      rw [hnote]
      refine ⟨htruthful.called hlt f, fun e he => ?_, fun hc => (by cases hc), fun c hc => ?_⟩
      · rcases CanRecord.mem_add.1 he with he | rfl
        · exact Nat.le_of_lt (hlt e he)
        · exact Nat.le_refl _
      · cases hc
        refine ⟨CanRecord.mem_add.2 (Or.inr rfl), fun v hv => ?_, h.idle hnone, trivial,
          fun x hx => ?_⟩
        · exact Nat.lt_irrefl _ (hlt _ ((CanRecord.mem_add.1 hv).resolve_right (by simp)))
        · exact Nat.lt_irrefl _ (hlt _ ((CanRecord.mem_add.1 hx).resolve_right (by simp)))
    · cases hstep
  | exec bit =>
    simp only [FlexCan.step] at hstep
    split at hstep
    · cases hstep
    · rename_i c hc
      have he := Option.some.inj hstep
      obtain rfl : (s.execStep bit c).1 = s' := congrArg Prod.fst he
      obtain rfl : (s.execStep bit c).2 = o := congrArg Prod.snd he
      exact h.exec hc hok
  | send =>
    simp only [FlexCan.step] at hstep
    split_ifs at hstep with hcode
    cases hstep
    obtain ⟨t, hc⟩ := hok
    obtain ⟨hcalled, hopen, hprogress⟩ := h.running _ hc
    rcases hprogress with ⟨-, -, howner, hmailbox, hnot⟩ | ⟨hinactive, -⟩
    · have hnote : note s .send [.sent s.mailbox] r = r.add (.sent r.calls s.frame.encode) := by
        rw [← hmailbox, ← howner]
        unfold note
        rfl
      rw [hnote]
      have hlt : ∀ m v, .returned m v ∈ r.events → m < r.calls := fun m v hm =>
        Nat.lt_of_le_of_ne (h.le _ hm) fun he => hopen v (he ▸ hm)
      refine ⟨h.truthful.sent hcalled hnot hlt, fun e he => ?_, fun hnone => ?_, fun d hd => ?_⟩
      · rcases CanRecord.mem_add.1 he with he | rfl
        · exact h.le e he
        · exact Nat.le_refl _
      · rw [show s.ctl = none from hnone] at hc
        cases hc
      · obtain rfl : .waitFlag t = d := Option.some.inj (hc.symm.trans hd)
        refine ⟨CanRecord.mem_add.2 (Or.inl hcalled), fun v hv => ?_,
          Or.inr ⟨rfl, _, CanRecord.mem_add.2 (Or.inr rfl)⟩⟩
        exact hopen v ((CanRecord.mem_add.1 hv).resolve_right (by simp))
    · rw [hcode] at hinactive
      exact absurd hinactive (by decide)

theorem recorded_init : init.Recorded {} :=
  ⟨⟨.nil, fun _ _ h => (by cases h), .nil, fun _ h => (by cases h), .nil⟩, fun _ h => (by cases h),
    fun _ => rfl, fun _ h => (by cases h)⟩

end FlexCan

open FlexCan in
/-- Transmissions report what has happened to their frames when the controller is prompt. -/
theorem flexcan_truthful {s : FlexCan} {r : CanRecord} {out : List CanObs}
    (h : Run.Reach recorded (fun p a => p.1.Prompt a) (init, {}) (s, r) out) : r.Truthful := by
  have hinv : (s, r).1.Recorded (s, r).2 := by
    refine h.invariant (I := fun p => p.1.Recorded p.2) recorded_init ?_
    rintro ⟨s, r⟩ ⟨s', r'⟩ a o hI hok hs
    exact hI.step hok hs
  exact hinv.truthful

namespace FlexCan

instance (s : FlexCan) (a : CanAction) : Decidable (s.Prompt a) :=
  match a with
  | .call _ => .isTrue trivial
  | .exec _ => inferInstanceAs (Decidable (s.ctl = some (.waitFlag 0) → s.iflag = false))
  | .send =>
    match hc : s.ctl with
    | some (.waitFlag t) => .isTrue ⟨t, hc⟩
    | none | some .busOff | some (.freeze _) | some .inactivate | some (.unfreeze _)
    | some (.waitInactive _) | some .writeId | some .writeWord0 | some .writeWord1
    | some .writeCs | some .clearFlag | some .succeed | some .giveUp =>
      .isFalse fun ⟨_, ht⟩ => by
        rw [hc] at ht
        cases ht

/-- The loop that waits for `IFLAG1` runs while the flag is clear. -/
theorem reach_polls {ok : FlexCan × CanRecord → CanAction → Prop} {p₀ : FlexCan × CanRecord}
    {s : FlexCan} {r : CanRecord} {out : List CanObs} (h : Run.Reach recorded ok p₀ (s, r) out)
    (hok : ∀ p a, ok p a) {t : ℕ} (hflag : s.iflag = false) :
    ∀ k, s.ctl = some (.waitFlag (t + k)) →
      Run.Reach recorded ok p₀ (s.goto (.waitFlag t), r) out := by
  intro k
  induction k generalizing t with
  | zero =>
    intro hc
    rwa [goto, ← Nat.add_zero t, ← hc]
  | succ k ih =>
    intro hc
    have hbefore : Run.Reach recorded ok p₀ (s.goto (.waitFlag (t + 1)), r) out :=
      ih (by rw [hc, Nat.add_assoc, Nat.add_comm 1 k])
    have hpoll : recorded (s.goto (.waitFlag (t + 1)), r) (.exec false) =
        some ((s.goto (.waitFlag t), r), []) := by
      refine Run.annotate_eq_some.2 ⟨?_, (note_quiet rfl (by simp)).symm⟩
      simp [step, execStep, goto, hflag]
    have hafter := hbefore.step (hok _ _) hpoll
    rwa [List.append_nil] at hafter

/-- A frame that is sent. -/
def someFrame : CanFrame := ⟨0x123, 8, fun _ => 0⟩

/-- A call, up to its first poll of the flag. -/
def begin : List CanAction := .call someFrame :: List.replicate 6 (.exec false)

/-- The frame is sent at the second poll. -/
def sendPromptly : List CanAction :=
  begin ++ [.exec false, .send] ++ List.replicate 3 (.exec false)

theorem sendPromptly_possible : (Run.exec recorded (init, {}) sendPromptly).isSome = true := by
  decide +kernel

theorem begin_possible : (Run.exec recorded (init, {}) begin).isSome = true := by decide +kernel

/-- The first poll of the first call. -/
def polling : FlexCan × CanRecord := ((Run.exec recorded (init, {}) begin).get begin_possible).1

/-- The last poll of the first call. -/
def lastPoll : FlexCan × CanRecord := (polling.1.goto (.waitFlag 0), polling.2)

/-- The first call gives up, and then its frame is sent. The second call finds the flag set at its
first poll. -/
def sendLate : List CanAction :=
  [.exec false, .exec false, .send] ++ begin ++ List.replicate 3 (.exec false)

theorem sendLate_possible : (Run.exec recorded lastPoll sendLate).isSome = true := by decide +kernel

end FlexCan

open FlexCan in
theorem sendPromptly_truthful :
    let r := (Run.exec recorded (init, {}) sendPromptly).get sendPromptly_possible
    r.1.2.Truthful ∧ r.1.1.ctl = none := by
  intro r
  have hrun : Run.Reach recorded (fun p a => p.1.Prompt a) (init, {}) (r.1.1, r.1.2) r.2 :=
    .exec (by decide +kernel) sendPromptly_possible
  exact ⟨flexcan_truthful hrun, by decide +kernel⟩

open FlexCan in
/-- The frame of the first call is sent after the call has returned -1, and the second call returns 0
while its own frame is still in the mailbox. -/
theorem flexcan_reports_stale :
    let r := (Run.exec recorded lastPoll sendLate).get sendLate_possible
    (∃ out, Run.Reach recorded (fun _ _ => True) (init, {}) r.1 out) ∧ r.1.1.code = canTxData ∧
      ¬r.1.2.Truthful := by
  intro r
  have hpolling : Run.Reach recorded (fun _ _ => True) (init, {}) polling
      ((Run.exec recorded (init, {}) begin).get begin_possible).2 :=
    .exec (.of_forall _ fun _ _ _ => trivial) begin_possible
  have hlast : Run.Reach recorded (fun _ _ => True) (init, {}) lastPoll
      ((Run.exec recorded (init, {}) begin).get begin_possible).2 :=
    reach_polls (t := 0) (k := flexcanTimeout) hpolling (fun _ _ => trivial) (by decide +kernel)
      (by decide +kernel)
  refine ⟨⟨_, hlast.continue_exec (.of_forall _ fun _ _ _ => trivial) sendLate_possible⟩,
    by decide +kernel, fun h => ?_⟩
  have hevents : r.1.2.events = [.called 1 someFrame, .returned 1 (-1), .sent 1 someFrame.encode,
      .called 2 someFrame, .returned 2 0] := rfl
  obtain ⟨x, hx⟩ := h.success 2 (by rw [hevents]; simp)
  rw [hevents] at hx
  simp at hx

end TamgaOs
