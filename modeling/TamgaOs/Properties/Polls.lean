import TamgaOs.Drivers.FdCan
import TamgaOs.Drivers.I2cPolls

/-!
# What a polling loop reports

`fdcan_transmit` and `i2c_write` test the counter of a polling loop afterwards, and take 0 for a
timeout. A post-decremented counter is 0 when the condition has been seen in the last poll; when it has
never been seen the counter has wrapped.

## Main definitions

* `FdcanTimely`, `I2cTimely`: a timeout is reported exactly when it happens.
* `I2cByteLoop`: the byte loops that a call of `i2c_write` enters.

## Main results

* `polls_timely_iff`: the readings for which this holds.
* `polls_wrapped`: a full FIFO, and a controller that never asks for a byte.
-/

namespace TamgaOs

/-! ### The TX FIFO of the FDCAN -/

section Fdcan

variable {txfqs : ℕ → UInt32} {frame : CanFrame}

/-- The TX FIFO is seen not to be full within the budget. -/
def TxFifoSeen (txfqs : ℕ → UInt32) : Prop := ∃ k < fdcanTimeout, txFifoReady (txfqs k) = true

/-- A call of `fdcan_transmit` proceeds when it has seen room in the TX FIFO within its budget. Otherwise
it returns -1 and writes nothing. -/
structure FdcanTimely (txfqs : ℕ → UInt32) (frame : CanFrame) : Prop where
  proceeds : TxFifoSeen txfqs →
    fdcanTransmit txfqs frame = ([.txBuf frame.fdcanElement, .txbar 1], 0)
  timesOut : ¬ TxFifoSeen txfqs → fdcanTransmit txfqs frame = ([], -1)

theorem not_txFifoSeen : ¬ TxFifoSeen txfqs ↔ ∀ k < fdcanTimeout, txFifoReady (txfqs k) = false := by
  simp [TxFifoSeen]

/-- The counter is 0 when there is room in the reading after the budget. -/
theorem spin_txFifoReady :
    Poll.spin (fun n => txFifoReady (txfqs n)) (2 ^ 32 - 1) fdcanTimeout 0 = 0 ↔
      ¬ TxFifoSeen txfqs ∧ txFifoReady (txfqs fdcanTimeout) = true := by
  rw [Poll.spin_eq_zero_iff (by omega), not_txFifoSeen]
  simp only [Nat.zero_add]

theorem fdcanTransmit_of_late (h : ¬ TxFifoSeen txfqs)
    (hlast : txFifoReady (txfqs fdcanTimeout) = true) : fdcanTransmit txfqs frame = ([], -1) := by
  rw [fdcanTransmit, if_pos (spin_txFifoReady.2 ⟨h, hlast⟩)]

theorem fdcanTransmit_of_not_late
    (h : ¬ (¬ TxFifoSeen txfqs ∧ txFifoReady (txfqs fdcanTimeout) = true)) :
    fdcanTransmit txfqs frame = ([.txBuf frame.fdcanElement, .txbar 1], 0) := by
  rw [fdcanTransmit, if_neg (mt spin_txFifoReady.1 h)]
  rfl

theorem fdcanTimely_iff :
    FdcanTimely txfqs frame ↔ ∃ k ≤ fdcanTimeout, txFifoReady (txfqs k) = true := by
  constructor
  · intro h
    by_cases hseen : TxFifoSeen txfqs
    · obtain ⟨k, hk, hready⟩ := hseen
      exact ⟨k, hk.le, hready⟩
    · refine ⟨fdcanTimeout, le_rfl, ?_⟩
      by_contra hlast
      have hfail := h.timesOut hseen
      rw [fdcanTransmit_of_not_late fun hlate => hlast hlate.2] at hfail
      simp at hfail
  · rintro ⟨k, hk, hready⟩
    refine ⟨fun hseen => fdcanTransmit_of_not_late fun hlate => hlate.1 hseen, fun hseen => ?_⟩
    have hlast : k = fdcanTimeout := by
      by_contra hne
      exact hseen ⟨k, lt_of_le_of_ne hk hne, hready⟩
    exact fdcanTransmit_of_late hseen (hlast ▸ hready)

end Fdcan

/-! ### The byte loops of `i2c_write` -/

section I2c

variable {isr : ℕ → UInt32} {addr : UInt8} {data : ℕ → UInt8} {len : UInt8} {i j k n t : ℕ}

/-- Pass `k` of a byte loop whose first reading is the one with number `n` sees `NACKF` or `TXIS`. -/
def i2cReady (isr : ℕ → UInt32) (n k : ℕ) : Bool :=
  i2cFlag i2cIsrNackf (isr (n + 2 * k)) || i2cFlag i2cIsrTxis (isr (n + 2 * k + 1))

/-- The loop sees `NACKF` or `TXIS` within the budget. -/
def I2cSeen (isr : ℕ → UInt32) (n : ℕ) : Prop := ∃ k < i2cTimeout, i2cReady isr n k = true

theorem not_i2cSeen : ¬ I2cSeen isr n ↔ ∀ k < i2cTimeout, i2cReady isr n k = false := by
  simp [I2cSeen]

/-- The loop of byte `i` of `i2c_write` is entered, and its first reading is the one with number `n`. -/
inductive I2cByteLoop (isr : ℕ → UInt32) (len : UInt8) : ℕ → ℕ → Prop
  | first {n : ℕ} (hwait : i2cWait isr i2cIsrBusy false i2cTimeout 0 = (true, n))
      (hlen : 0 < len.toNat) : I2cByteLoop isr len 0 n
  | next {i n : ℕ} (h : I2cByteLoop isr len i n) (ht : (i2cPoll isr i2cTimeout n).1 ≠ 0)
      (hnack : i2cFlag i2cIsrNackf (isr (i2cPoll isr i2cTimeout n).2) = false)
      (hlen : i + 1 < len.toNat) : I2cByteLoop isr len (i + 1) ((i2cPoll isr i2cTimeout n).2 + 1)

/-- The bytes that a call writes to `TXDR`. -/
def i2cSent (r : List I2cWrite × ℤ) : List UInt8 := r.1.filterMap I2cWrite.sent

/-- When the loop of byte `i` has seen `NACKF` or `TXIS` within its budget the call proceeds: it sends
the byte, or it clears the `NACK`. Otherwise it returns -1 and does not send the byte. -/
structure I2cTimely (isr : ℕ → UInt32) (addr : UInt8) (data : ℕ → UInt8) (len : UInt8) (i n : ℕ) :
    Prop where
  proceeds : I2cSeen isr n → i < (i2cSent (i2cWrite isr addr data len)).length ∨
    .icr true true ∈ (i2cWrite isr addr data len).1
  timesOut : ¬ I2cSeen isr n → (i2cWrite isr addr data len).2 = -1 ∧
    (i2cSent (i2cWrite isr addr data len)).length = i

theorem i2cPoll_fst : ∀ t j, (i2cPoll isr t (n + 2 * j)).1 =
    Poll.count (i2cReady isr n) (2 ^ 32 - 1) t j := by
  intro t
  induction t with
  | zero => exact fun _ => rfl
  | succ t ih =>
    intro j
    rw [i2cPoll, Poll.count, i2cReady, ← ih (j + 1), show n + 2 * (j + 1) = n + 2 * j + 2 by omega]
    split_ifs <;> simp_all

/-- Every pass that sees nothing makes two readings. -/
theorem i2cPoll_snd : ∀ t j, (∀ k < t, i2cReady isr n (j + k) = false) →
    (i2cPoll isr t (n + 2 * j)).2 = n + 2 * (j + t) := by
  intro t
  induction t with
  | zero => exact fun _ _ => rfl
  | succ t ih =>
    intro j hunseen
    obtain ⟨hj, hrest⟩ := Poll.unseen_succ_iff.1 hunseen
    rw [i2cReady, Bool.or_eq_false_iff] at hj
    rw [i2cPoll, if_neg (by simp [hj.1]), if_neg (by simp [hj.2]),
      show n + 2 * j + 2 = n + 2 * (j + 1) by omega, ih (j + 1) hrest]
    omega

/-- The counter is 0 after a loop that has seen the condition in its last pass. -/
theorem i2cPoll_eq_zero_iff : (i2cPoll isr i2cTimeout n).1 = 0 ↔
    (∀ k < i2cTimeout - 1, i2cReady isr n k = false) ∧ i2cReady isr n (i2cTimeout - 1) = true := by
  have hfst : (i2cPoll isr i2cTimeout n).1 =
      Poll.count (i2cReady isr n) (2 ^ 32 - 1) (i2cTimeout - 1 + 1) 0 :=
    i2cPoll_fst i2cTimeout 0
  rw [hfst, Poll.count_eq_zero_iff (by omega)]
  simp only [Nat.zero_add]

/-- What a call has written before it enters the loop of byte `i`. -/
theorem I2cByteLoop.exists_writes (addr : UInt8) (data : ℕ → UInt8)
    (h : I2cByteLoop isr len i n) : i < len.toNat ∧
    ∃ pre : List I2cWrite, i2cWrite isr addr data len =
        (pre ++ (i2cSend isr data i (len.toNat - i) n).1, (i2cSend isr data i (len.toNat - i) n).2) ∧
      (pre.filterMap I2cWrite.sent).length = i ∧ .icr true true ∉ pre := by
  induction h with
  | first hwait hlen =>
    refine ⟨hlen, [.cr2 { sadd := addr.toNat, nbytes := len.toNat, autoend := true, start := true }],
      ?_, rfl, by simp⟩
    rw [i2cWrite, hwait]
    rfl
  | @next i n _ ht hnack hlen ih =>
    obtain ⟨-, pre, hwrite, hsent, hicr⟩ := ih
    refine ⟨hlen, pre ++ [.txdr (data i)], ?_, ?_, by simp [hicr]⟩
    · rw [hwrite, show len.toNat - i = len.toNat - (i + 1) + 1 by omega, i2cSend]
      simp [ht, hnack]
    · simp [hsent, I2cWrite.sent]

theorem I2cByteLoop.timely_iff (h : I2cByteLoop isr len i n) :
    I2cTimely isr addr data len i n ↔ (∃ k < i2cTimeout - 1, i2cReady isr n k = true) ∨
      ((∀ k < i2cTimeout, i2cReady isr n k = false) ∧
        i2cFlag i2cIsrNackf (isr (n + 2 * i2cTimeout)) = true) := by
  obtain ⟨hi, pre, hwrite, hsent, hicr⟩ := h.exists_writes addr data
  rw [show len.toNat - i = len.toNat - (i + 1) + 1 by omega, i2cSend] at hwrite
  by_cases ht : (i2cPoll isr i2cTimeout n).1 = 0
  · -- The condition is seen in the last pass, and the call takes it for a timeout.
    simp only [ht, if_true] at hwrite
    obtain ⟨hunseen, hlast⟩ := i2cPoll_eq_zero_iff.1 ht
    have hT : i2cTimeout - 1 < i2cTimeout := by decide
    constructor
    · intro h
      have hproceeds := h.proceeds ⟨i2cTimeout - 1, hT, hlast⟩
      simp [hwrite, i2cSent, hsent, hicr, I2cWrite.sent] at hproceeds
    · rintro (⟨k, hk, hready⟩ | ⟨hnever, -⟩)
      · simp [hunseen k hk] at hready
      · simp [hnever _ hT] at hlast
  · simp only [ht, if_false] at hwrite
    by_cases hseen : I2cSeen isr n
    · refine iff_of_true ⟨fun _ => ?_, fun h => absurd hseen h⟩ (Or.inl ?_)
      · split_ifs at hwrite
        · exact Or.inr (by simp [hwrite])
        · exact Or.inl (by simp [hwrite, i2cSent, hsent, I2cWrite.sent])
      · -- It is seen before the last pass: the counter would be 0 otherwise.
        by_contra hnot
        obtain ⟨k, hk, hready⟩ := hseen
        have hunseen : ∀ j < i2cTimeout - 1, i2cReady isr n j = false := by simpa using hnot
        have hlast : k = i2cTimeout - 1 := by
          by_contra hne
          simp [hunseen k (by omega)] at hready
        exact ht (i2cPoll_eq_zero_iff.2 ⟨hunseen, hlast ▸ hready⟩)
    · have hpos : (i2cPoll isr i2cTimeout n).2 = n + 2 * (0 + i2cTimeout) :=
        i2cPoll_snd i2cTimeout 0 (by simpa using not_i2cSeen.1 hseen)
      rw [Nat.zero_add] at hpos
      rw [hpos] at hwrite
      by_cases hnack : i2cFlag i2cIsrNackf (isr (n + 2 * i2cTimeout)) = true
      · refine iff_of_true ⟨fun h => absurd h hseen, fun _ => ?_⟩
          (Or.inr ⟨not_i2cSeen.1 hseen, hnack⟩)
        simp [hwrite, hnack, i2cSent, hsent, I2cWrite.sent]
      · refine iff_of_false (fun h => ?_) ?_
        · have hlen := (h.timesOut hseen).2
          simp [hwrite, hnack, i2cSent, hsent, I2cWrite.sent] at hlen
        · rintro (⟨k, hk, hready⟩ | ⟨-, h⟩)
          · exact hseen ⟨k, by omega, hready⟩
          · exact hnack h

theorem polls_timely_iff (txfqs : ℕ → UInt32) (frame : CanFrame) (isr : ℕ → UInt32) (addr : UInt8)
    (data : ℕ → UInt8) (len : UInt8) (i n : ℕ) :
    (FdcanTimely txfqs frame ↔ ∃ k ≤ fdcanTimeout, txFifoReady (txfqs k) = true) ∧
    (I2cByteLoop isr len i n →
      (I2cTimely isr addr data len i n ↔ (∃ k < i2cTimeout - 1, i2cReady isr n k = true) ∨
        ((∀ k < i2cTimeout, i2cReady isr n k = false) ∧
          i2cFlag i2cIsrNackf (isr (n + 2 * i2cTimeout)) = true))) :=
  ⟨fdcanTimely_iff, I2cByteLoop.timely_iff⟩

/-- The bus is free, and the controller is ready for a byte at once. -/
theorem polls_timely_ready : I2cTimely (fun _ => i2cIsrTxis) 0x76 (fun _ => 0xD0) 1 0 1 :=
  ((polls_timely_iff (fun _ => 0) ⟨0x123, 8, fun _ => 0⟩ (fun _ => i2cIsrTxis) 0x76 (fun _ => 0xD0)
    1 0 1).2 (.first (by decide) (by decide))).2 (Or.inl ⟨0, by decide, by decide⟩)

/-- The TX FIFO stays full, and the frame overwrites the one that waits; the controller never asks for a
byte, and the byte is sent. -/
theorem polls_wrapped : ¬ FdcanTimely (fun _ => (1 : UInt32) <<< 21) ⟨0x123, 8, fun _ => 0⟩ ∧
    I2cByteLoop (fun _ => 0) 1 0 1 ∧ ¬ I2cTimely (fun _ => 0) 0x76 (fun _ => 0xD0) 1 0 1 := by
  have hloop : I2cByteLoop (fun _ => 0) 1 0 1 := .first (by decide) (by decide)
  refine ⟨fun h => ?_, hloop, fun h => ?_⟩
  · obtain ⟨-, -, hready⟩ := fdcanTimely_iff.1 h
    exact absurd hready (by decide)
  · rcases hloop.timely_iff.1 h with ⟨k, -, hready⟩ | ⟨-, hnack⟩
    · have hzero : i2cReady (fun _ => 0) 1 k = false := by simp [i2cReady, i2cFlag]
      rw [hzero] at hready
      cases hready
    · exact absurd hnack (by decide)

end I2c

end TamgaOs
