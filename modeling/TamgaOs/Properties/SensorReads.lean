import Mathlib.Data.Nat.Basic
import Mathlib.Order.Basic
import Mathlib.Tactic.SplitIfs
import TamgaOs.Properties.I2c

/-!
# What a slave sends is what is read

A call of `i2c_read` that returns 0 has stored the bytes that the controller has received since the
transfer began, all of them and in order, whatever the slave and other masters did before. A slave may
stall, so that the call times out; a byte can be taken for one of a later transfer only when it comes
nevertheless, after `i2c_read` has given up on it.

## Main definitions

* `I2c.Punctual`: the condition on the steps.
* `I2c.noteByte`: the bytes that have been received since the last transfer began.
* `I2c.Filled`, `I2c.Received`: what the buffer and the data register hold.

## Main results

* `i2c_read_delivers`: for every call of `i2c_read`.
-/

namespace TamgaOs

/-- The call waits for a byte, and has not given up on it. -/
def I2cCtl.awaitsByte : I2cCtl → Bool
  | .waitRxne _ t => t ≠ 0
  | .load _ => true
  | _ => false

namespace I2c

/-- No byte comes after `i2c_read` has given up on it. -/
def Punctual (s : I2c) : I2cAction → Prop
  | .byte _ => s.ctl.any I2cCtl.awaitsByte = true
  | _ => True

instance (s : I2c) (a : I2cAction) : Decidable (s.Punctual a) :=
  match a with
  | .byte _ => inferInstanceAs (Decidable (_ = _))
  | .write .. | .read .. | .exec | .ack | .nack | .stop | .line _ => .isTrue trivial

/-- The bytes that have been received since the last transfer of `i2c_read` began. -/
def noteByte (s : I2c) (a : I2cAction) (_ : List I2cObs) (bs : List UInt8) : List UInt8 :=
  match a with
  | .exec => if s.ctl = some .readStart then [] else bs
  | .byte b => bs ++ [b]
  | _ => bs

/-- `len` of `i2c_read`. -/
def toRead (s : I2c) : ℕ := (s.readLen.getD 0).toNat

/-- The first `i` bytes are in the buffer, and the next one may be in the data register. -/
structure Filled (s : I2c) (bs : List UInt8) (i : ℕ) : Prop where
  loaded : ∀ j < i, bs[j]? = some (s.buf j)
  count : bs.length = i + s.rxne.toNat
  next : s.rxne = true → bs[i]? = some s.rxdr

/-- What holds at a program point. Only while `i2c_read` waits for it there is a byte that has not been
read. -/
def Loads (s : I2c) (bs : List UInt8) : I2cCtl → Prop
  | .waitRxne i t => i < s.toRead ∧ s.Filled bs i ∧ (t = 0 → s.rxne = false)
  | .load i => i < s.toRead ∧ s.Filled bs i ∧ s.rxne = true
  | .readWaitStop _ | .readClearStop | .readFinish => s.Filled bs s.toRead ∧ s.rxne = false
  | .readReturn r => s.rxne = false ∧ (0 ≤ r → s.Filled bs s.toRead)
  | _ => s.rxne = false

/-- The invariant. -/
structure Received (s : I2c) (bs : List UInt8) : Prop where
  idle : s.ctl = none → s.rxne = false
  loads : ∀ c, s.ctl = some c → s.Loads bs c

variable {s s' : I2c} {bs : List UInt8} {a : I2cAction} {o : List I2cObs} {c : I2cCtl} {i : ℕ} {b : UInt8}

/-! ### The controller -/

/-- What is known about the bytes does not depend on what the controller does. -/
theorem Filled.same (h : s.Filled bs i) (hrxne : s'.rxne = s.rxne) (hrxdr : s'.rxdr = s.rxdr)
    (hbuf : s'.buf = s.buf) : s'.Filled bs i := by
  refine ⟨fun j hj => ?_, ?_, fun hx => ?_⟩
  · rw [hbuf]
    exact h.loaded j hj
  · rw [hrxne]
    exact h.count
  · rw [hrxdr]
    exact h.next (hrxne.symm.trans hx)

/-- A step that changes what the controller does, and receives nothing. -/
theorem Received.controller (h : s.Received bs) (hctl : s'.ctl = s.ctl) (hrxne : s'.rxne = s.rxne)
    (hrxdr : s'.rxdr = s.rxdr) (hbuf : s'.buf = s.buf) (hlen : s'.readLen = s.readLen) :
    s'.Received bs := by
  have hread : s'.toRead = s.toRead := by rw [toRead, hlen]; rfl
  have hfilled {i : ℕ} (hf : s.Filled bs i) : s'.Filled bs i := hf.same hrxne hrxdr hbuf
  refine ⟨fun hnone => hrxne.trans (h.idle (hctl.symm.trans hnone)), fun c hc => ?_⟩
  have hloads := h.loads c (hctl.symm.trans hc)
  cases c with
  | waitRxne i t =>
    exact ⟨hread ▸ hloads.1, hfilled hloads.2.1, fun ht => hrxne.trans (hloads.2.2 ht)⟩
  | load i => exact ⟨hread ▸ hloads.1, hfilled hloads.2.1, hrxne.trans hloads.2.2⟩
  | readWaitStop t | readClearStop | readFinish =>
    refine ⟨?_, hrxne.trans hloads.2⟩
    rw [hread]
    exact hfilled hloads.1
  | readReturn r =>
    refine ⟨hrxne.trans hloads.1, fun hr => ?_⟩
    rw [hread]
    exact hfilled (hloads.2 hr)
  | _ => exact hrxne.trans hloads

/-- A byte that is received is the next one. -/
theorem Filled.byte (h : s.Filled bs i) (hs : s.byteStep b = some s') : s'.Filled (bs ++ [b]) i := by
  unfold byteStep at hs
  split at hs
  · split at hs
    · cases hs
    · rename_i hrxne
      cases hs
      have hcount : bs.length = i := by
        have hcount := h.count
        rw [Bool.not_eq_true] at hrxne
        rwa [hrxne, Bool.toNat_false, Nat.add_zero] at hcount
      refine ⟨fun j hj => ?_, ?_, fun _ => ?_⟩
      · rw [List.getElem?_append_left (by omega)]
        exact h.loaded j hj
      · rw [List.length_append, hcount]
        rfl
      · rw [List.getElem?_append_right (by omega), hcount, Nat.sub_self]
        rfl
  · cases hs

theorem Received.byte (h : s.Received bs) (hok : s.Punctual (.byte b))
    (hs : s.byteStep b = some s') : s'.Received (bs ++ [b]) := by
  obtain ⟨-, heq⟩ := byteStep_eq hs
  have hctl : s'.ctl = s.ctl := by rw [heq]
  have hread : s'.toRead = s.toRead := by rw [heq]; rfl
  have hrxne : s'.rxne = true := by rw [heq]
  obtain ⟨c, hc, hawaits⟩ := (Option.any_eq_true _ _).1 hok
  have hloads := h.loads c hc
  refine ⟨fun hnone => ?_, fun c' hc' => ?_⟩
  · cases (hctl.symm.trans hnone).symm.trans hc
  · obtain rfl := Option.some.inj ((hctl.symm.trans hc').symm.trans hc)
    cases c' with
    | waitRxne i t =>
      refine ⟨hread ▸ hloads.1, hloads.2.1.byte hs, fun ht => ?_⟩
      exact absurd ht (of_decide_eq_true hawaits)
    | load i => exact ⟨hread ▸ hloads.1, hloads.2.1.byte hs, hrxne⟩
    | _ => cases hawaits

/-! ### The driver -/

/-- The program points at which `i2c_read` has bytes. -/
def holdsBytes : I2cCtl → Bool
  | .waitRxne _ _ | .load _ | .readWaitStop _ | .readClearStop | .readFinish => true
  | .readReturn r => 0 ≤ r
  | _ => false

theorem loads_of_rxne (h : s.rxne = false) (hc : holdsBytes c = false) : s.Loads bs c := by
  cases c with
  | waitRxne | load | readWaitStop | readClearStop | readFinish => cases hc
  | readReturn r => exact ⟨h, fun hr => absurd hr (of_decide_eq_false hc)⟩
  | _ => exact h

theorem received_goto (h : s.rxne = false) (hc : holdsBytes c = false) : (s.goto c).Received bs where
  idle _ := h
  loads c' hc' := by
    cases hc'
    exact loads_of_rxne (s := s.goto c) h hc

/-- The test of the loop of `i2c_read`. -/
theorem Filled.nextRead {len : UInt8} (h : s.Filled bs i) (hrxne : s.rxne = false)
    (hlen : len.toNat = s.toRead) (hi : i ≤ s.toRead) : (s.nextRead len i).Received bs := by
  have hfilled (c : I2cCtl) : (s.goto c).Filled bs i := h.same rfl rfl rfl
  rw [I2c.nextRead, hlen]
  refine ⟨fun hnone => absurd hnone (Option.some_ne_none _), fun c hc => ?_⟩
  split_ifs at hc with hlt
  · cases hc
    exact ⟨hlt, hfilled _, fun _ => hrxne⟩
  · cases hc
    obtain rfl : i = s.toRead := Nat.le_antisymm hi (Nat.le_of_not_lt hlt)
    exact ⟨hfilled _, hrxne⟩

theorem received_nextByte (h : s.rxne = false) : (s.nextByte i).Received bs := by
  rw [I2c.nextByte]
  split_ifs <;> exact received_goto h rfl

/-- A byte is taken from the data register. -/
theorem Filled.load (h : s.Filled bs i) (hrxne : s.rxne = true) (hi : i < s.toRead) :
    (s.execStep (.load i)).1.Received bs := by
  refine Filled.nextRead (s := { s with buf := Function.update s.buf i s.rxdr, rxne := false })
    ⟨fun j hj => ?_, ?_, fun hf => absurd hf Bool.false_ne_true⟩ rfl rfl hi
  · rcases Nat.lt_succ_iff_lt_or_eq.1 hj with hlt | rfl
    · dsimp only
      rw [Function.update_of_ne (Nat.ne_of_lt hlt)]
      exact h.loaded j hlt
    · dsimp only
      rw [Function.update_self]
      exact h.next hrxne
  · have hcount := h.count
    rwa [hrxne] at hcount

/-- The transfer begins. -/
theorem received_readStart (h : s.rxne = false) : (s.execStep .readStart).1.Received [] := by
  refine Filled.nextRead ⟨fun j hj => absurd hj (Nat.not_lt_zero j), ?_, fun hx => ?_⟩ h rfl
    (Nat.zero_le _)
  · change 0 = 0 + s.rxne.toNat
    rw [h]
    rfl
  · exact absurd (h.symm.trans hx) (by decide)

theorem Loads.exec (hc : s.Loads bs c) (hctl : s.ctl = some c) :
    (s.execStep c).1.Received (s.noteByte .exec (s.execStep c).2 bs) := by
  have hnote (hne : c ≠ .readStart) (o : List I2cObs) : s.noteByte .exec o bs = bs := by
    rw [noteByte, hctl]
    exact if_neg fun heq => hne (Option.some.inj heq)
  cases c with
  | readStart =>
    have hstart : s.noteByte .exec (s.execStep .readStart).2 bs = [] := by
      rw [noteByte, hctl]
      rfl
    rw [hstart]
    exact received_readStart hc
  | waitBusy t | waitTx i t | testT i t | checkNack i | nackStop t | waitStop t =>
    rw [hnote I2cCtl.noConfusion]
    refine received_goto hc ?_
    split_ifs <;> rfl
  | readBusy t =>
    rw [hnote I2cCtl.noConfusion]
    refine received_goto hc ?_
    split_ifs <;> rfl
  | start =>
    rw [hnote I2cCtl.noConfusion]
    exact received_nextByte (s := s.begin _) hc
  | nackClear | abort | clearStop | finish =>
    rw [hnote I2cCtl.noConfusion]
    exact received_goto hc rfl
  | store i =>
    rw [hnote I2cCtl.noConfusion]
    refine received_nextByte ?_
    rw [writeTxdr_eq]
    exact hc
  | writeReturn r =>
    rw [hnote I2cCtl.noConfusion]
    refine ⟨fun _ => hc, fun c hsome => ?_⟩
    obtain ⟨len, -, rfl⟩ := Option.map_eq_some_iff.1 hsome
    refine loads_of_rxne hc ?_
    split_ifs <;> rfl
  | waitRxne i t =>
    rw [hnote I2cCtl.noConfusion]
    obtain ⟨hi, hfilled, hlate⟩ := hc
    refine ⟨fun hnone => absurd hnone (Option.some_ne_none _), fun c hsome => ?_⟩
    change some _ = _ at hsome
    split_ifs at hsome with hzero hrxne
    · -- the wait has run out
      cases hsome
      exact loads_of_rxne (s := s.goto _) (hlate hzero) rfl
    · cases hsome
      exact ⟨hi, hfilled.same rfl rfl rfl, hrxne⟩
    · cases hsome
      exact ⟨hi, hfilled.same rfl rfl rfl, fun _ => Bool.eq_false_iff.2 hrxne⟩
  | load i =>
    rw [hnote I2cCtl.noConfusion]
    exact hc.2.1.load hc.2.2 hc.1
  | readWaitStop t =>
    rw [hnote I2cCtl.noConfusion]
    obtain ⟨hfilled, hrxne⟩ := hc
    refine ⟨fun hnone => absurd hnone (Option.some_ne_none _), fun c hsome => ?_⟩
    change some _ = _ at hsome
    split_ifs at hsome with hzero hstop
    · cases hsome
      exact ⟨hrxne, fun hr => absurd hr (by decide)⟩
    · cases hsome
      exact ⟨hfilled.same rfl rfl rfl, hrxne⟩
    · cases hsome
      exact ⟨hfilled.same rfl rfl rfl, hrxne⟩
  | readClearStop =>
    rw [hnote I2cCtl.noConfusion]
    obtain ⟨hfilled, hrxne⟩ := hc
    refine ⟨fun hnone => absurd hnone (Option.some_ne_none _), fun c hsome => ?_⟩
    cases hsome
    exact ⟨hfilled.same rfl rfl rfl, hrxne⟩
  | readFinish =>
    rw [hnote I2cCtl.noConfusion]
    obtain ⟨hfilled, hrxne⟩ := hc
    refine ⟨fun hnone => absurd hnone (Option.some_ne_none _), fun c hsome => ?_⟩
    cases hsome
    exact ⟨hrxne, fun _ => hfilled.same rfl rfl rfl⟩
  | readReturn r =>
    rw [hnote I2cCtl.noConfusion]
    exact ⟨fun _ => hc.1, fun _ hsome => absurd hsome.symm (Option.some_ne_none _)⟩

theorem received_init : init.Received [] :=
  ⟨fun _ => rfl, fun _ hsome => absurd hsome.symm (Option.some_ne_none _)⟩

/-- Every step that meets the condition preserves the invariant. -/
theorem Received.step (h : s.Received bs) (hok : s.Punctual a) (hs : s.step a = some (s', o)) :
    s'.Received (s.noteByte a o bs) := by
  cases a with
  | write addr data len =>
    simp only [I2c.step] at hs
    split at hs
    · rename_i hctl
      cases hs
      exact received_goto (s := { s with addr, data, len, readLen := none }) (h.idle hctl) rfl
    · cases hs
  | read addr reg len =>
    simp only [I2c.step] at hs
    split at hs
    · rename_i hctl
      cases hs
      exact received_goto (s := { s with addr, data := fun _ => reg, len := 1, readLen := some len })
        (h.idle hctl) rfl
    · cases hs
  | exec =>
    obtain ⟨c, hctl, heq⟩ := exec_eq hs
    have hexec := (h.loads c hctl).exec hctl
    rwa [heq] at hexec
  | ack =>
    obtain ⟨s₁, hs₁, heq⟩ := Option.map_eq_some_iff.mp hs
    cases heq
    have heq := (ackStep_eq hs₁).2.2
    exact h.controller (by rw [heq]) (by rw [heq]) (by rw [heq]) (by rw [heq]) (by rw [heq])
  | nack =>
    obtain ⟨s₁, hs₁, heq⟩ := Option.map_eq_some_iff.mp hs
    cases heq
    have heq := (nackStep_eq hs₁).2.2
    exact h.controller (by rw [heq]) (by rw [heq]) (by rw [heq]) (by rw [heq]) (by rw [heq])
  | byte b =>
    obtain ⟨s₁, hs₁, heq⟩ := Option.map_eq_some_iff.mp hs
    cases heq
    exact h.byte hok hs₁
  | stop =>
    simp only [I2c.step] at hs
    split at hs
    · cases hs
      exact h.controller rfl rfl rfl rfl rfl
    · cases hs
  | line busy =>
    simp only [I2c.step] at hs
    split at hs
    · cases hs
      exact h.controller rfl rfl rfl rfl rfl
    · cases hs

/-- What is in the buffer when all bytes have been read. -/
theorem Filled.eq_ofFn (h : s.Filled bs s.toRead) (hrxne : s.rxne = false) :
    bs = (List.range s.toRead).map s.buf := by
  have hlength : bs.length = s.toRead := by
    have hcount := h.count
    rwa [hrxne, Bool.toNat_false, Nat.add_zero] at hcount
  refine List.ext_getElem? fun j => ?_
  rcases Nat.lt_or_ge j s.toRead with hj | hj
  · rw [h.loaded j hj, List.getElem?_map, List.getElem?_range hj]
    rfl
  · rw [List.getElem?_eq_none (by omega), List.getElem?_eq_none (by simpa using hj)]

end I2c

open I2c in
/-- In every run in which no byte comes after `i2c_read` has given up on it, whether calls time out or
not, a call of `i2c_read` that returns 0 has stored the bytes that have been received since its transfer
began. -/
theorem i2c_read_delivers {s s' : I2c} {bs : List UInt8} {a : I2cAction} {out o : List I2cObs}
    (h : Run.Reach (Run.annotate step noteByte) (fun p a => Punctual p.1 a) (init, []) (s, bs) out)
    (hs : s.step a = some (s', o)) (hr : .returned .read 0 ∈ o) :
    bs = (List.range s.toRead).map s'.buf := by
  have hreceived : s.Received bs := by
    refine h.invariant (I := fun p => Received p.1 p.2) received_init ?_
    rintro ⟨s, bs⟩ ⟨s', bs'⟩ a o hI hok hs
    obtain ⟨hstep, rfl⟩ := Run.annotate_eq_some.1 hs
    exact hI.step hok hstep
  obtain ⟨c, hctl, rfl, ⟨hfn, -⟩ | ⟨-, rfl⟩⟩ := returned_cases hs hr
  · cases hfn
  · have hloads := hreceived.loads _ hctl
    exact (hloads.2 (Int.le_refl 0)).eq_ofFn hloads.1

namespace I2c

/-- A read of two bytes from register 5, up to the return. The slave acknowledges everything. -/
def readTwo : List I2cAction :=
  [.read 0x50 5 2, .exec, .exec, .ack, .exec, .exec, .exec, .exec, .ack, .stop, .exec, .exec, .exec,
    .exec, .exec, .exec, .ack, .byte 0xAB, .exec, .exec, .byte 0xCD, .exec, .exec, .stop, .exec,
    .exec, .exec]

theorem readTwo_possible :
    (Run.exec (Run.annotate step noteByte) (init, []) readTwo).isSome = true := by decide +kernel

end I2c

open I2c in
theorem i2c_read_delivers_two :
    let p := ((Run.exec (Run.annotate step noteByte) (init, []) readTwo).get readTwo_possible).1
    p.1.ctl = some (.readReturn 0) ∧ p.2 = [0xAB, 0xCD] ∧
      p.2 = (List.range p.1.toRead).map (p.1.execStep (.readReturn 0)).1.buf := by
  intro p
  have hrun : Run.Reach (Run.annotate step noteByte) (fun p a => Punctual p.1 a) (init, []) p
      ((Run.exec (Run.annotate step noteByte) (init, []) readTwo).get readTwo_possible).2 :=
    .exec (by decide +kernel) readTwo_possible
  have hctl : p.1.ctl = some (.readReturn 0) := by decide +kernel
  have hs : p.1.step .exec = some (p.1.execStep (.readReturn 0)) := by
    unfold step
    rw [hctl]
  exact ⟨hctl, by decide +kernel, i2c_read_delivers hrun hs (List.mem_singleton_self _)⟩

end TamgaOs
