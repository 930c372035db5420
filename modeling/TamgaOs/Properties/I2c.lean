import Mathlib.Tactic.SplitIfs
import TamgaOs.Drivers.I2c
import TamgaOs.Library.Run

/-!
# How an I2C transaction ends

Every exit of `i2c_write` and `i2c_read` should leave `CR2` at 0 and no flag pending. The exits differ
in which flags they clear, so that it matters when the slave refuses a byte and when the stop comes.

## Main definitions

* `I2c.Clean`: the controller as a transaction should leave it.
* `I2cCtl.pollsNack`, `I2cCtl.awaitsStop`: the program points at which a flag will still be seen.
* `I2c.Heeded`: the condition on the steps of the controller and of the driver.
* `I2c.Expected`: what holds at a program point.

## Main results

* `i2c_ends_clean`: along the runs whose steps meet the condition.
* `i2c_last_nack`: the last byte of a write is refused, and the call reports success.
-/

namespace TamgaOs

namespace I2cCtl

/-- `i2c_write` will poll `NACKF` before it returns, and take it for a missing acknowledgement. After
the poll that leaves `t == 0` it takes it for a timeout. -/
def pollsNack (len : ℕ) : I2cCtl → Bool
  | waitTx _ t => t ≠ 1
  | testT _ t => t ≠ 0
  | checkNack _ => true
  | store i => i + 1 < len
  | _ => false

/-- The call will see or clear `STOPF` before it returns. -/
def awaitsStop : I2cCtl → Bool
  | testT _ t | waitStop t | readWaitStop t => t ≠ 0
  | waitTx _ _ | checkNack _ | store _ | nackStop _ | nackClear | waitRxne _ _ | load _ => true
  | _ => false

/-- A wait of `i2c_read` has run out. -/
def runsOut : I2cCtl → Bool
  | waitRxne _ t | readWaitStop t => t = 0
  | _ => false

/-- `NACKF` may be set. -/
def mayNack (len : ℕ) (c : I2cCtl) : Bool :=
  match c with
  | nackStop _ | nackClear => true
  | _ => c.pollsNack len

/-- `STOPF` may be set. -/
def mayStop (c : I2cCtl) : Bool :=
  match c with
  | clearStop | readClearStop => true
  | _ => c.awaitsStop

/-- The bytes of `i2c_write` are being sent. -/
def transfers : I2cCtl → Bool
  | waitTx _ _ | testT _ _ | checkNack _ | store _ | waitStop _ => true
  | _ => false

/-- `CR2` is 0. -/
def released : I2cCtl → Bool
  | waitBusy _ | start | writeReturn _ | readBusy _ | readStart | readReturn _ => true
  | _ => false

/-- All bytes of `i2c_write` have been sent. -/
def succeeds : I2cCtl → Bool
  | clearStop | finish => true
  | writeReturn r => r = 0
  | _ => false

/-- The controller is idle. -/
def rests : I2cCtl → Bool
  | start | readStart => true
  | c => c.succeeds

variable {c : I2cCtl} {len : ℕ}

theorem mayNack_of_pollsNack (h : c.pollsNack len = true) : c.mayNack len = true := by
  cases c <;> first | exact h | rfl

theorem mayStop_of_awaitsStop (h : c.awaitsStop = true) : c.mayStop = true := by
  cases c <;> first | exact h | rfl

theorem rests_of_succeeds (h : c.succeeds = true) : c.rests = true := by
  cases c <;> first | exact h | rfl

end I2cCtl

namespace I2c

/-- `CR2` is 0 and no flag is pending. -/
def Clean (s : I2c) : Prop := s.cr2 = {} ∧ s.nackf = false ∧ s.stopf = false

instance (s : I2c) : Decidable s.Clean := inferInstanceAs (Decidable (_ ∧ _))

/-- The slave refuses a byte only when `i2c_write` will notice, the stop comes only when the call will
notice, and no wait of `i2c_read` runs out. -/
def Heeded (s : I2c) : I2cAction → Prop
  | .nack => s.ctl.any (I2cCtl.pollsNack s.len.toNat) = true
  | .stop => s.ctl.any I2cCtl.awaitsStop = true
  | .exec => s.ctl.any I2cCtl.runsOut = false
  | _ => True

instance (s : I2c) (a : I2cAction) : Decidable (s.Heeded a) := by
  cases a <;> unfold Heeded <;> infer_instance

/-- The bytes that have been acknowledged are those that the controller has sent, unless one has been
refused. -/
def Transfer (s : I2c) : Prop :=
  s.cr2.autoend = true ∧
    match s.phase with
    | .address read n =>
      read = false ∧ n = s.len.toNat ∧ s.acks = 0 ∧ s.nackf = false ∧ s.stopf = false
    | .send n => s.acks + n = s.len.toNat + 1 ∧ s.nackf = false ∧ s.stopf = false
    | .shift n => s.acks + n = s.len.toNat ∧ s.nackf = false ∧ s.stopf = false
    | .stop => s.stopf = false ∧ (s.nackf = false → s.acks = s.len.toNat + 1)
    | .idle => s.stopf = true ∧ (s.nackf = false → s.acks = s.len.toNat + 1)
    | .receive _ | .complete => False

/-- What holds at a program point. -/
structure Expected (s : I2c) (c : I2cCtl) : Prop where
  transfer : c.transfers = true → s.Transfer
  nackf : c.mayNack s.len.toNat = false → s.nackf = false
  stopf : c.mayStop = false → s.stopf = false
  cr2 : c.released = true → s.cr2 = {}
  idle : c.rests = true → s.phase = .idle
  acks : c.succeeds = true → s.acks = s.len.toNat + 1

/-- The bus is busy during a transfer; between the calls the controller is clean. -/
structure Sound (s : I2c) : Prop where
  busy : s.phase ≠ .idle → s.busy = true
  clean : s.ctl = none → s.Clean
  expected : ∀ c, s.ctl = some c → s.Expected c

variable {s s' : I2c} {a : I2cAction} {o : List I2cObs} {c : I2cCtl} {n : ℕ}

/-! ### The controller -/

theorem Transfer.sendNext (h : s.cr2.autoend = true) (hacks : s.acks + n = s.len.toNat + 1)
    (hnackf : s.nackf = false) (hstopf : s.stopf = false) : (s.sendNext n).Transfer := by
  cases n with
  | zero =>
    have hlast : s.lastPhase = .stop := if_pos h
    rw [I2c.sendNext, hlast]
    exact ⟨h, hstopf, fun _ => hacks⟩
  | succ n =>
    unfold I2c.sendNext
    split_ifs
    · have hacks' : s.acks + n = s.len.toNat := by omega
      exact ⟨h, hacks', hnackf, hstopf⟩
    · exact ⟨h, hacks, hnackf, hstopf⟩

theorem Transfer.ack (h : s.Transfer) (hs : s.ackStep = some s') : s'.Transfer := by
  obtain ⟨hauto, h⟩ := h
  unfold ackStep at hs
  split at hs
  · rename_i n hphase
    rw [hphase] at h
    obtain ⟨-, rfl, hacks, hnackf, hstopf⟩ := h
    have hacks' : s.acks + 1 + s.len.toNat = s.len.toNat + 1 := by omega
    cases hs
    exact .sendNext hauto hacks' hnackf hstopf
  · rename_i n hphase
    rw [hphase] at h
    cases h.1
  · rename_i n hphase
    rw [hphase] at h
    obtain ⟨hacks, hnackf, hstopf⟩ := h
    have hacks' : s.acks + 1 + n = s.len.toNat + 1 := by omega
    cases hs
    exact .sendNext hauto hacks' hnackf hstopf
  · cases hs

theorem Transfer.nack (h : s.Transfer) (hs : s.nackStep = some s') : s'.Transfer := by
  obtain ⟨hauto, h⟩ := h
  unfold nackStep at hs
  split at hs
  · rename_i read n hphase
    rw [hphase] at h
    cases hs
    exact ⟨hauto, h.2.2.2.2, fun h => by cases h⟩
  · rename_i n hphase
    rw [hphase] at h
    cases hs
    exact ⟨hauto, h.2.2, fun h => by cases h⟩
  · cases hs

theorem Transfer.writeTxdr (h : s.Transfer) (b : UInt8) : (s.writeTxdr b).Transfer := by
  obtain ⟨hauto, h⟩ := h
  unfold I2c.writeTxdr
  split
  · rename_i n hphase
    rw [hphase] at h
    have hacks : s.acks + n = s.len.toNat := by omega
    exact ⟨hauto, hacks, h.2⟩
  · exact ⟨hauto, h⟩

/-- The stop has been sent when `STOPF` is seen. -/
theorem Transfer.stopped (h : s.Transfer) (hstopf : s.stopf = true) (hnackf : s.nackf = false) :
    s.phase = .idle ∧ s.acks = s.len.toNat + 1 := by
  obtain ⟨-, h⟩ := h
  split at h
  · exact absurd (hstopf.symm.trans h.2.2.2.2) (by decide)
  · exact absurd (hstopf.symm.trans h.2.2) (by decide)
  · exact absurd (hstopf.symm.trans h.2.2) (by decide)
  · exact absurd (hstopf.symm.trans h.1) (by decide)
  · rename_i hphase
    exact ⟨hphase, h.2 hnackf⟩
  · exact h.elim
  · exact h.elim

theorem Transfer.stopf_of_txis (h : s.Transfer) (htxis : s.txis = true) : s.stopf = false := by
  obtain ⟨-, h⟩ := h
  unfold txis at htxis
  split at htxis
  · rename_i n hphase
    rw [hphase] at h
    exact h.2.2
  · cases htxis

/-- A step of the controller preserves the invariant when it sets only flags that the call will
notice. -/
theorem Sound.controller (h : s.Sound) (hctl : s'.ctl = s.ctl) (hlen : s'.len = s.len)
    (hcr2 : s.cr2 = {} → s'.cr2 = {}) (hbusy : s'.phase ≠ .idle → s'.busy = true)
    (hnackf : s'.nackf = s.nackf ∨ s.ctl.any (I2cCtl.pollsNack s.len.toNat) = true)
    (hstopf : s'.stopf = s.stopf ∨ s.ctl.any I2cCtl.awaitsStop = true)
    (hidle : s.phase = .idle → s'.phase = .idle ∧ s'.acks = s.acks)
    (htransfer : s.Transfer → s'.Transfer) : s'.Sound where
  busy := hbusy
  clean hnone := by
    rw [hctl] at hnone
    rw [hnone] at hnackf hstopf
    obtain ⟨hcr2', hnackf', hstopf'⟩ := h.clean hnone
    refine ⟨hcr2 hcr2', ?_, ?_⟩
    · exact (hnackf.resolve_right Bool.false_ne_true).trans hnackf'
    · exact (hstopf.resolve_right Bool.false_ne_true).trans hstopf'
  expected c hsome := by
    rw [hctl] at hsome
    rw [hsome] at hnackf hstopf
    have hc := h.expected c hsome
    refine ⟨fun ht => htransfer (hc.transfer ht), fun hn => ?_, fun hst => ?_,
      fun hr => hcr2 (hc.cr2 hr), fun hr => (hidle (hc.idle hr)).1, fun hsucc => ?_⟩
    · rw [hlen] at hn
      refine (hnackf.resolve_right fun hpolls => ?_).trans (hc.nackf hn)
      exact absurd ((I2cCtl.mayNack_of_pollsNack hpolls).symm.trans hn) (by decide)
    · refine (hstopf.resolve_right fun hawaits => ?_).trans (hc.stopf hst)
      exact absurd ((I2cCtl.mayStop_of_awaitsStop hawaits).symm.trans hst) (by decide)
    · rw [(hidle (hc.idle (I2cCtl.rests_of_succeeds hsucc))).2, hlen]
      exact hc.acks hsucc

/-- Sending changes what the controller does, and `TXDR`. -/
theorem sendNext_eq (n : ℕ) :
    s.sendNext n = { s with phase := (s.sendNext n).phase, txdr := (s.sendNext n).txdr } := by
  cases n with
  | zero => rfl
  | succ n =>
    unfold sendNext
    split_ifs <;> rfl

theorem writeTxdr_eq (b : UInt8) :
    s.writeTxdr b = { s with phase := (s.writeTxdr b).phase, txdr := (s.writeTxdr b).txdr } := by
  unfold writeTxdr
  split <;> rfl

/-- What an acknowledgement leaves as it is. -/
theorem ackStep_eq (hs : s.ackStep = some s') :
    s.phase ≠ .idle ∧ (s'.cr2 = s.cr2 ∨ s'.cr2 = { s.cr2 with start := false }) ∧
      s' = { s with cr2 := s'.cr2, phase := s'.phase, txdr := s'.txdr, acks := s'.acks } := by
  unfold ackStep at hs
  split at hs
  · rename_i n hphase
    cases hs
    rw [sendNext_eq]
    exact ⟨by simp [hphase], .inr rfl, rfl⟩
  · rename_i n hphase
    cases hs
    exact ⟨by simp [hphase], .inr rfl, rfl⟩
  · rename_i n hphase
    cases hs
    rw [sendNext_eq]
    exact ⟨by simp [hphase], .inl rfl, rfl⟩
  · cases hs

theorem nackStep_eq (hs : s.nackStep = some s') :
    s.phase ≠ .idle ∧ (s'.cr2 = s.cr2 ∨ s'.cr2 = { s.cr2 with start := false }) ∧
      s' = { s with cr2 := s'.cr2, phase := .stop, nackf := true } := by
  unfold nackStep at hs
  split at hs
  · rename_i read n hphase
    cases hs
    exact ⟨by simp [hphase], .inr rfl, rfl⟩
  · rename_i n hphase
    cases hs
    exact ⟨by simp [hphase], .inl rfl, rfl⟩
  · cases hs

theorem byteStep_eq {b : UInt8} (hs : s.byteStep b = some s') :
    (∃ n, s.phase = .receive n) ∧ s' = { s with rxdr := b, rxne := true, phase := s'.phase } := by
  unfold byteStep at hs
  split at hs
  · rename_i n hphase
    split at hs
    · cases hs
    · cases hs
      exact ⟨⟨n + 1, hphase⟩, rfl⟩
  · cases hs

theorem cr2_of_clearStart (h : s'.cr2 = s.cr2 ∨ s'.cr2 = { s.cr2 with start := false })
    (hcr2 : s.cr2 = {}) : s'.cr2 = {} := by
  obtain h | h := h
  · exact h.trans hcr2
  · rw [h, hcr2]

theorem Sound.ack (h : s.Sound) (hs : s.ackStep = some s') : s'.Sound := by
  obtain ⟨hphase, hcr2, heq⟩ := ackStep_eq hs
  have hbusy : s'.busy = true := by rw [heq]; exact h.busy hphase
  exact h.controller (by rw [heq]) (by rw [heq]) (cr2_of_clearStart hcr2) (fun _ => hbusy)
    (.inl (by rw [heq])) (.inl (by rw [heq])) (fun hidle => absurd hidle hphase) fun ht => ht.ack hs

theorem Sound.nack (h : s.Sound) (hs : s.nackStep = some s')
    (hok : s.ctl.any (I2cCtl.pollsNack s.len.toNat) = true) : s'.Sound := by
  obtain ⟨hphase, hcr2, heq⟩ := nackStep_eq hs
  have hbusy : s'.busy = true := by rw [heq]; exact h.busy hphase
  exact h.controller (by rw [heq]) (by rw [heq]) (cr2_of_clearStart hcr2) (fun _ => hbusy)
    (.inr hok) (.inl (by rw [heq])) (fun hidle => absurd hidle hphase) fun ht => ht.nack hs

theorem Sound.byte {b : UInt8} (h : s.Sound) (hs : s.byteStep b = some s') : s'.Sound := by
  obtain ⟨⟨n, hn⟩, heq⟩ := byteStep_eq hs
  have hphase : s.phase ≠ .idle := by simp [hn]
  have hbusy : s'.busy = true := by rw [heq]; exact h.busy hphase
  refine h.controller (by rw [heq]) (by rw [heq]) (fun hcr2 => by rw [heq]; exact hcr2)
    (fun _ => hbusy) (.inl (by rw [heq])) (.inl (by rw [heq])) (fun hidle => absurd hidle hphase)
    fun ht => ?_
  -- a transfer of `i2c_write` receives nothing
  have hreceive := ht.2
  rw [hn] at hreceive
  exact hreceive.elim

theorem Sound.stop (h : s.Sound) (hphase : s.phase = .stop)
    (hok : s.ctl.any I2cCtl.awaitsStop = true) :
    { s with phase := .idle, stopf := true, busy := false }.Sound := by
  refine h.controller rfl rfl id (fun hidle => absurd rfl hidle) (.inl rfl) (.inr hok)
    (fun hidle => ?_) fun ht => ?_
  · rw [hphase] at hidle
    cases hidle
  · have hstop := ht.2
    rw [hphase] at hstop
    exact ⟨ht.1, rfl, hstop.2⟩

theorem Sound.line (h : s.Sound) (hphase : s.phase = .idle) (busy : Bool) :
    { s with busy }.Sound :=
  h.controller rfl rfl id (fun hidle => absurd hphase hidle) (.inl rfl) (.inl rfl)
    (fun hidle => ⟨hidle, rfl⟩) id

/-! ### The driver -/

/-- The call goes on to `c`. -/
theorem Sound.goto (hbusy : s.phase ≠ .idle → s.busy = true) (hc : s.Expected c) :
    (s.goto c).Sound where
  busy := hbusy
  clean hnone := by cases hnone
  expected c' hc' := by
    cases hc'
    exact ⟨hc.transfer, hc.nackf, hc.stopf, hc.cr2, hc.idle, hc.acks⟩

/-- The bus is free, so that the controller is idle. -/
theorem Sound.idle (h : s.Sound) (hbusy : ¬s.busy = true) : s.phase = .idle :=
  Decidable.byContradiction fun hphase => hbusy (h.busy hphase)

/-- A clean controller meets a statement that expects neither a transfer nor a success. -/
theorem Expected.of_clean (hclean : s.Clean) (htransfer : c.transfers = false)
    (hidle : c.rests = true → s.phase = .idle) (hsucceeds : c.succeeds = false) : s.Expected c := by
  obtain ⟨hcr2, hnackf, hstopf⟩ := hclean
  refine ⟨fun h => ?_, fun _ => hnackf, fun _ => hstopf, fun _ => hcr2, hidle, fun h => ?_⟩
  · exact absurd (htransfer.symm.trans h) Bool.false_ne_true
  · exact absurd (hsucceeds.symm.trans h) Bool.false_ne_true

theorem Expected.waitBusy {t : ℕ} (hc : s.Expected (.waitBusy t)) (h : s.Sound) :
    (s.execStep (.waitBusy t)).1.Sound := by
  have hclean : s.Clean := ⟨hc.cr2 rfl, hc.nackf rfl, hc.stopf rfl⟩
  refine .goto h.busy ?_
  split_ifs with ht hbusy
  · exact .of_clean hclean rfl nofun rfl
  · exact .of_clean hclean rfl nofun rfl
  · exact .of_clean hclean rfl (fun _ => h.idle hbusy) rfl

theorem Expected.readBusy {t : ℕ} (hc : s.Expected (.readBusy t)) (h : s.Sound) :
    (s.execStep (.readBusy t)).1.Sound := by
  have hclean : s.Clean := ⟨hc.cr2 rfl, hc.nackf rfl, hc.stopf rfl⟩
  refine .goto h.busy ?_
  split_ifs with ht hbusy
  · exact .of_clean hclean rfl nofun rfl
  · exact .of_clean hclean rfl nofun rfl
  · exact .of_clean hclean rfl (fun _ => h.idle hbusy) rfl

/-- The loop of `i2c_write` is entered, or goes on, with a transfer under way. -/
theorem Sound.nextByte {i : ℕ} (hbusy : s.phase ≠ .idle → s.busy = true) (ht : s.Transfer)
    (hnackf : s.len.toNat ≤ i → s.nackf = false) : (s.nextByte i).Sound := by
  refine .goto hbusy ?_
  split_ifs with hi
  · exact ⟨fun _ => ht, nofun, nofun, nofun, nofun, nofun⟩
  · exact ⟨fun _ => ht, fun _ => hnackf (by omega), nofun, nofun, nofun, nofun⟩

theorem Sound.nextRead {len : UInt8} {i : ℕ} (hbusy : s.phase ≠ .idle → s.busy = true)
    (hnackf : s.nackf = false) : (s.nextRead len i).Sound := by
  refine .goto hbusy ?_
  split_ifs with hi
  · exact ⟨nofun, fun _ => hnackf, nofun, nofun, nofun, nofun⟩
  · exact ⟨nofun, fun _ => hnackf, nofun, nofun, nofun, nofun⟩

theorem Expected.start (hc : s.Expected .start) : (s.execStep .start).1.Sound :=
  .nextByte (fun _ => rfl) ⟨rfl, rfl, rfl, rfl, hc.nackf rfl, hc.stopf rfl⟩ fun _ => hc.nackf rfl

theorem Expected.waitTx {i t : ℕ} (hc : s.Expected (.waitTx i t)) (h : s.Sound) :
    (s.execStep (.waitTx i t)).1.Sound := by
  have ht := hc.transfer rfl
  refine .goto h.busy ?_
  split_ifs with hzero hseen
  · exact ⟨fun _ => ht, nofun, nofun, nofun, nofun, nofun⟩
  · -- after the poll that leaves `t == 0` the wait is taken for a timeout
    have hnackf (hone : t = 1) : s.nackf = false :=
      hc.nackf (by rw [hone]; rfl)
    refine ⟨fun _ => ht, fun hlast => ?_, fun hlast => ?_, nofun, nofun, nofun⟩
    · have hone : t = 1 := by
        simp [I2cCtl.mayNack, I2cCtl.pollsNack] at hlast
        omega
      exact hnackf hone
    · have hone : t = 1 := by
        simp [I2cCtl.mayStop, I2cCtl.awaitsStop] at hlast
        omega
      rw [hnackf hone, Bool.false_or] at hseen
      exact ht.stopf_of_txis hseen
  · rw [Bool.not_eq_true, Bool.or_eq_false_iff] at hseen
    exact ⟨fun _ => ht, fun _ => hseen.1, nofun, nofun, nofun, nofun⟩

theorem Expected.testT {i t : ℕ} (hc : s.Expected (.testT i t)) (h : s.Sound) :
    (s.execStep (.testT i t)).1.Sound := by
  refine .goto h.busy ?_
  split_ifs with hzero
  · subst hzero
    exact ⟨nofun, fun _ => hc.nackf rfl, fun _ => hc.stopf rfl, nofun, nofun, nofun⟩
  · exact ⟨fun _ => hc.transfer rfl, nofun, nofun, nofun, nofun, nofun⟩

theorem Expected.checkNack {i : ℕ} (hc : s.Expected (.checkNack i)) (h : s.Sound) :
    (s.execStep (.checkNack i)).1.Sound := by
  refine .goto h.busy ?_
  split_ifs with hnackf
  · exact ⟨nofun, nofun, nofun, nofun, nofun, nofun⟩
  · rw [Bool.not_eq_true] at hnackf
    exact ⟨fun _ => hc.transfer rfl, fun _ => hnackf, nofun, nofun, nofun, nofun⟩

theorem Expected.store {i : ℕ} (hc : s.Expected (.store i)) (h : s.Sound) :
    (s.execStep (.store i)).1.Sound := by
  rw [execStep]
  have heq := s.writeTxdr_eq (s.data i)
  refine .nextByte (fun hphase => ?_) ((hc.transfer rfl).writeTxdr _) fun hlast => ?_
  · rw [heq]
    exact h.busy fun hidle => hphase (by rw [I2c.writeTxdr, hidle])
  · rw [heq] at hlast ⊢
    exact hc.nackf (decide_eq_false (Nat.not_lt.mpr hlast))

theorem Expected.waitStop {t : ℕ} (hc : s.Expected (.waitStop t)) (h : s.Sound) :
    (s.execStep (.waitStop t)).1.Sound := by
  have hnackf := hc.nackf rfl
  refine .goto h.busy ?_
  split_ifs with hzero hstopf
  · subst hzero
    exact ⟨nofun, fun _ => hnackf, fun _ => hc.stopf rfl, nofun, nofun, nofun⟩
  · obtain ⟨hphase, hacks⟩ := (hc.transfer rfl).stopped hstopf hnackf
    exact ⟨nofun, fun _ => hnackf, nofun, nofun, fun _ => hphase, fun _ => hacks⟩
  · rw [Bool.not_eq_true] at hstopf
    exact ⟨fun _ => hc.transfer rfl, fun _ => hnackf, fun _ => hstopf, nofun, nofun, nofun⟩

theorem Expected.readWaitStop {t : ℕ} (hc : s.Expected (.readWaitStop t)) (h : s.Sound)
    (ht : t ≠ 0) : (s.execStep (.readWaitStop t)).1.Sound := by
  have hnackf := hc.nackf rfl
  refine .goto h.busy ?_
  rw [if_neg ht]
  split_ifs with hstopf
  · exact ⟨nofun, fun _ => hnackf, nofun, nofun, nofun, nofun⟩
  · rw [Bool.not_eq_true] at hstopf
    exact ⟨nofun, fun _ => hnackf, fun _ => hstopf, nofun, nofun, nofun⟩

theorem Expected.waitRxne {i t : ℕ} (hc : s.Expected (.waitRxne i t)) (h : s.Sound)
    (ht : t ≠ 0) : (s.execStep (.waitRxne i t)).1.Sound := by
  have hnackf := hc.nackf rfl
  refine .goto h.busy ?_
  rw [if_neg ht]
  split_ifs
  · exact ⟨nofun, fun _ => hnackf, nofun, nofun, nofun, nofun⟩
  · exact ⟨nofun, fun _ => hnackf, nofun, nofun, nofun, nofun⟩

/-- A return of `i2c_write`, to its caller or to `i2c_read`. -/
theorem Expected.writeReturn {r : ℤ} (hc : s.Expected (.writeReturn r)) (h : s.Sound) :
    (s.execStep (.writeReturn r)).1.Sound := by
  have hclean : s.Clean := ⟨hc.cr2 rfl, hc.nackf rfl, hc.stopf rfl⟩
  refine ⟨h.busy, fun _ => hclean, fun c hsome => ?_⟩
  obtain ⟨len, -, rfl⟩ := Option.map_eq_some_iff.mp hsome
  split_ifs
  · exact .of_clean hclean rfl nofun rfl
  · exact .of_clean hclean rfl nofun rfl

/-- A statement preserves the invariant when no wait of `i2c_read` has run out. -/
theorem Expected.exec (hc : s.Expected c) (h : s.Sound) (hok : c.runsOut = false) :
    (s.execStep c).1.Sound := by
  cases c with
  | waitBusy t => exact hc.waitBusy h
  | start => exact hc.start
  | waitTx i t => exact hc.waitTx h
  | testT i t => exact hc.testT h
  | checkNack i => exact hc.checkNack h
  | nackStop t =>
    refine .goto h.busy ?_
    split_ifs
    · exact ⟨nofun, nofun, nofun, nofun, nofun, nofun⟩
    · exact ⟨nofun, nofun, nofun, nofun, nofun, nofun⟩
  | nackClear => exact .goto h.busy ⟨nofun, fun _ => rfl, fun _ => rfl, nofun, nofun, nofun⟩
  | abort =>
    exact .goto h.busy ⟨nofun, fun _ => hc.nackf rfl, fun _ => hc.stopf rfl, fun _ => rfl, nofun,
      nofun⟩
  | store i => exact hc.store h
  | waitStop t => exact hc.waitStop h
  | clearStop =>
    exact .goto h.busy ⟨nofun, fun _ => hc.nackf rfl, fun _ => rfl, nofun, fun _ => hc.idle rfl,
      fun _ => hc.acks rfl⟩
  | finish =>
    exact .goto h.busy ⟨nofun, fun _ => hc.nackf rfl, fun _ => hc.stopf rfl, fun _ => rfl,
      fun _ => hc.idle rfl, fun _ => hc.acks rfl⟩
  | writeReturn r => exact hc.writeReturn h
  | readBusy t => exact hc.readBusy h
  | readStart => exact .nextRead (fun _ => rfl) (hc.nackf rfl)
  | waitRxne i t => exact hc.waitRxne h (of_decide_eq_false hok)
  | load i => exact .nextRead h.busy (hc.nackf rfl)
  | readWaitStop t => exact hc.readWaitStop h (of_decide_eq_false hok)
  | readClearStop =>
    exact .goto h.busy ⟨nofun, fun _ => hc.nackf rfl, fun _ => rfl, nofun, nofun, nofun⟩
  | readFinish =>
    exact .goto h.busy ⟨nofun, fun _ => hc.nackf rfl, fun _ => hc.stopf rfl, fun _ => rfl, nofun,
      nofun⟩
  | readReturn r =>
    exact ⟨h.busy, fun _ => ⟨hc.cr2 rfl, hc.nackf rfl, hc.stopf rfl⟩, fun c hsome => by cases hsome⟩

theorem Sound.exec (h : s.Sound) (hctl : s.ctl = some c) (hok : c.runsOut = false) :
    (s.execStep c).1.Sound :=
  (h.expected c hctl).exec h hok

/-- A call that is started between two calls. -/
theorem Sound.call (h : s.Sound) (hctl : s.ctl = none) {addr len : UInt8} {data : ℕ → UInt8}
    {readLen : Option UInt8} :
    { s with addr, data, len, readLen, ctl := some (.waitBusy i2cTimeout) }.Sound := by
  refine ⟨h.busy, nofun, fun c hsome => ?_⟩
  cases hsome
  exact .of_clean (h.clean hctl) rfl nofun rfl

theorem sound_init : init.Sound :=
  ⟨fun h => absurd rfl h, fun _ => ⟨rfl, rfl, rfl⟩, nofun⟩

theorem exec_eq (hs : s.step .exec = some (s', o)) :
    ∃ c, s.ctl = some c ∧ s.execStep c = (s', o) := by
  simp only [I2c.step] at hs
  split at hs
  · cases hs
  · rename_i c hctl
    exact ⟨c, hctl, Option.some.inj hs⟩

/-- Every step that meets the condition preserves the invariant. -/
theorem Sound.step (h : s.Sound) (hok : s.Heeded a) (hs : s.step a = some (s', o)) : s'.Sound := by
  cases a with
  | write addr data len =>
    simp only [I2c.step] at hs
    split at hs
    · rename_i hctl
      cases hs
      exact h.call hctl
    · cases hs
  | read addr reg len =>
    simp only [I2c.step] at hs
    split at hs
    · rename_i hctl
      cases hs
      exact h.call hctl
    · cases hs
  | exec =>
    obtain ⟨c, hctl, heq⟩ := exec_eq hs
    have hruns : s.ctl.any I2cCtl.runsOut = false := hok
    rw [hctl, Option.any_some] at hruns
    have hexec := h.exec hctl hruns
    rwa [heq] at hexec
  | ack =>
    obtain ⟨s₁, hs₁, heq⟩ := Option.map_eq_some_iff.mp hs
    cases heq
    exact h.ack hs₁
  | nack =>
    obtain ⟨s₁, hs₁, heq⟩ := Option.map_eq_some_iff.mp hs
    cases heq
    exact h.nack hs₁ hok
  | byte b =>
    obtain ⟨s₁, hs₁, heq⟩ := Option.map_eq_some_iff.mp hs
    cases heq
    exact h.byte hs₁
  | stop =>
    simp only [I2c.step] at hs
    split at hs
    · rename_i hphase
      cases hs
      exact h.stop hphase hok
    · cases hs
  | line busy =>
    simp only [I2c.step] at hs
    split at hs
    · rename_i hphase
      cases hs
      exact h.line hphase busy
    · cases hs

theorem returned_mem {fn : I2cFn} {r : ℤ} (hr : I2cObs.returned fn r ∈ (s.execStep c).2) :
    fn = .write ∧ c = .writeReturn r ∨ fn = .read ∧ c = .readReturn r := by
  cases c <;> simp_all [execStep]

/-- Only the return statements report. -/
theorem returned_cases {fn : I2cFn} {r : ℤ} (hs : s.step a = some (s', o))
    (hr : I2cObs.returned fn r ∈ o) :
    ∃ c, s.ctl = some c ∧ s' = (s.execStep c).1 ∧
      (fn = .write ∧ c = .writeReturn r ∨ fn = .read ∧ c = .readReturn r) := by
  cases a with
  | exec =>
    obtain ⟨c, hctl, heq⟩ := exec_eq hs
    exact ⟨c, hctl, by rw [heq], returned_mem (by rwa [heq])⟩
  | write addr data len | read addr reg len | stop | line busy =>
    simp only [I2c.step] at hs
    split at hs <;> cases hs
    cases hr
  | ack | nack | byte b =>
    obtain ⟨s₁, hs₁, heq⟩ := Option.map_eq_some_iff.mp hs
    cases heq
    cases hr

theorem reach_sound {out : List I2cObs} (h : Run.Reach I2c.step Heeded init s out) : s.Sound :=
  h.invariant (I := Sound) sound_init fun _ _ _ _ hI hok hs => hI.step hok hs

end I2c

open I2c in
/-- Every return leaves the controller clean, and `i2c_write` returns 0 only when the address and all
bytes have been acknowledged. -/
theorem i2c_ends_clean {s s' : I2c} {a : I2cAction} {out o : List I2cObs}
    (h : Run.Reach step Heeded init s out) (hs : s.step a = some (s', o)) :
    ∀ fn r, .returned fn r ∈ o →
      s'.Clean ∧ (fn = .write → r = 0 → s'.acks = s'.len.toNat + 1) := by
  intro fn r hr
  obtain ⟨c, hctl, rfl, ⟨rfl, rfl⟩ | ⟨rfl, rfl⟩⟩ := returned_cases hs hr
  · have hc := (reach_sound h).expected _ hctl
    refine ⟨⟨hc.cr2 rfl, hc.nackf rfl, hc.stopf rfl⟩, fun _ hzero => ?_⟩
    exact hc.acks (decide_eq_true hzero)
  · have hc := (reach_sound h).expected _ hctl
    exact ⟨⟨hc.cr2 rfl, hc.nackf rfl, hc.stopf rfl⟩, nofun⟩

namespace I2c

/-- A write of one byte, up to the store of the byte. The address is acknowledged. -/
def writeOne : List I2cAction :=
  [.write 0x50 (fun _ => 7) 1, .exec, .exec, .ack, .exec, .exec, .exec, .exec]

/-- The slave acknowledges the byte, and the call is about to return. -/
def byteTaken : List I2cAction := writeOne ++ [.ack, .stop, .exec, .exec, .exec]

/-- The slave refuses the byte, and the call is about to return. -/
def byteRefused : List I2cAction := writeOne ++ [.nack, .stop, .exec, .exec, .exec]

theorem byteTaken_possible : (Run.exec step init byteTaken).isSome = true := by decide +kernel

theorem byteRefused_possible : (Run.exec step init byteRefused).isSome = true := by decide +kernel

end I2c

open I2c in
theorem byteTaken_ends_clean :
    let s := ((Run.exec step init byteTaken).get byteTaken_possible).1
    s.ctl = some (.writeReturn 0) ∧ (s.execStep (.writeReturn 0)).1.Clean ∧
      (s.execStep (.writeReturn 0)).1.acks = 2 := by
  intro s
  have hrun : Run.Reach step Heeded init s ((Run.exec step init byteTaken).get byteTaken_possible).2 :=
    .exec (by decide +kernel) byteTaken_possible
  have hctl : s.ctl = some (.writeReturn 0) := by decide +kernel
  have hs : s.step .exec = some (s.execStep (.writeReturn 0)) := by
    unfold step
    rw [hctl]
  obtain ⟨hclean, hacks⟩ := i2c_ends_clean hrun hs .write 0 (List.mem_singleton_self _)
  refine ⟨hctl, hclean, (hacks rfl rfl).trans ?_⟩
  decide +kernel

open I2c in
/-- `i2c_write` returns 0 for a byte that the slave has refused, and leaves `NACKF` set. -/
theorem i2c_last_nack :
    let s := ((Run.exec step init byteRefused).get byteRefused_possible).1
    Run.Reach step (fun _ _ => True) init s
        ((Run.exec step init byteRefused).get byteRefused_possible).2 ∧
      (s.execStep (.writeReturn 0)).2 = [.returned .write 0] ∧ s.ctl = some (.writeReturn 0) ∧
      s.acks = 1 ∧ s.len = 1 ∧ (s.execStep (.writeReturn 0)).1.nackf = true := by
  intro s
  refine ⟨.exec (.of_forall _ fun _ _ _ => trivial) byteRefused_possible, rfl, ?_, ?_, ?_, ?_⟩ <;>
    decide +kernel

end TamgaOs
