import TamgaOs.Drivers.CanWords

/-!
# Frames on the bus

The words of a transmit element and of a receive element stand for the same thing on the bus: an
identifier, a length code and eight bytes. The FDCAN takes byte `i` from bit `8 * (i % 4)` of a word, and
FlexCAN from bit `24 - 8 * (i % 4)`.

## Main definitions

* `CanWire`: a frame on the bus.
* `FdCanElement.wire`, `FlexCanMailbox.wire`: what the controllers make of their words.
* `CanFrame.InRange`: the documented range of a frame.

## Main results

* `can_frames_survive_iff`: encoding and decoding, and the frames that a decoder returns.
-/

namespace TamgaOs

/-- `n` bits of a word, from bit `lo` on. -/
def bitField (w : UInt32) (lo n : ℕ) : ℕ := w.toNat / 2 ^ lo % 2 ^ n

/-- A frame on the bus. -/
@[ext] structure CanWire where
  id : ℕ
  dlc : ℕ
  data : Fin 8 → ℕ

/-- The frame with these contents. -/
def CanWire.frame (w : CanWire) : CanFrame :=
  ⟨UInt32.ofNat w.id, UInt8.ofNat w.dlc, fun i => UInt8.ofNat (w.data i)⟩

namespace CanFrame

variable (f : CanFrame)

/-- `id` and `dlc` are as documented. -/
def InRange : Prop := f.id.toNat < 2 ^ 11 ∧ f.dlc.toNat ≤ 8

instance : Decidable f.InRange := inferInstanceAs (Decidable (_ ∧ _))

/-- What the drivers mean by a frame. -/
def wire : CanWire := ⟨f.id.toNat % 2 ^ 11, f.dlc.toNat % 2 ^ 4, fun i => (f.data i).toNat⟩

theorem wire_frame (h : f.InRange) : f.wire.frame = f := by
  obtain ⟨id, dlc, data⟩ := f
  obtain ⟨hid, hdlc⟩ : id.toNat < 2 ^ 11 ∧ dlc.toNat ≤ 8 := h
  simp only [wire, CanWire.frame, CanFrame.mk.injEq]
  refine ⟨?_, ?_, ?_⟩
  · rw [Nat.mod_eq_of_lt hid, UInt32.ofNat_toNat]
  · rw [Nat.mod_eq_of_lt (by omega), UInt8.ofNat_toNat]
  · simp only [UInt8.ofNat_toNat]

end CanFrame

/-! ### The words of the controllers -/

/-- The FDCAN takes byte `i` from bit `8 * (i % 4)` of word `i / 4`. -/
def FdCanElement.wire (e : FdCanElement) : CanWire where
  id := bitField e.hdr0 18 11
  dlc := bitField e.hdr1 16 4
  data i := bitField (if i.val / 4 = 0 then e.data0 else e.data1) (8 * (i.val % 4)) 8

/-- FlexCAN takes byte `i` from bit `24 - 8 * (i % 4)` of word `i / 4`. -/
def FlexCanMailbox.wire (m : FlexCanMailbox) : CanWire where
  id := bitField m.id 18 11
  dlc := bitField m.cs 16 4
  data i := bitField (if i.val / 4 = 0 then m.word0 else m.word1) (24 - 8 * (i.val % 4)) 8

section Words

variable {b0 b1 b2 b3 : UInt8} (w : UInt32) {lo n : ℕ}

theorem toNat_fdcanWord : (fdcanWord b0 b1 b2 b3).toNat =
    b3.toNat * 2 ^ 24 + b2.toNat * 2 ^ 16 + b1.toNat * 2 ^ 8 + b0.toNat := by
  have h0 := b0.toNat_lt
  have h1 := b1.toNat_lt
  have h2 := b2.toNat_lt
  have h3 := b3.toNat_lt
  have hor (a b k : ℕ) (hb : b < 2 ^ k) : b ||| a * 2 ^ k = a * 2 ^ k + b := by
    rw [Nat.or_comm, ← Nat.shiftLeft_eq, Nat.shiftLeft_add_eq_or_of_lt hb]
  simp only [fdcanWord, UInt32.toNat_or, UInt32.toNat_shiftLeft, UInt8.toNat_toUInt32,
    Nat.shiftLeft_eq, UInt32.reduceToNat, Nat.reduceMod]
  rw [Nat.mod_eq_of_lt (by omega), Nat.mod_eq_of_lt (by omega), Nat.mod_eq_of_lt (by omega),
    hor _ _ 8 h0, hor _ _ 16 (by omega), hor _ _ 24 (by omega)]
  omega

/-- The two word formats differ in the order of the bytes. -/
theorem canWord_eq_fdcanWord : canWord b0 b1 b2 b3 = fdcanWord b3 b2 b1 b0 := by
  have hzero : b3.toUInt32 <<< 0 = b3.toUInt32 := UInt32.shiftLeft_zero
  rw [canWord, fdcanWord, hzero, UInt32.or_comm _ b3.toUInt32, UInt32.or_assoc b3.toUInt32,
    UInt32.or_assoc b3.toUInt32, UInt32.or_comm (_ ||| _) (b2.toUInt32 <<< 8),
    UInt32.or_comm (b0.toUInt32 <<< 24), UInt32.or_assoc (b2.toUInt32 <<< 8)]

theorem canByte_eq (lo : ℕ) (hlo : lo < 32) :
    canByte w (UInt32.ofNat lo) = UInt8.ofNat (bitField w lo 8) := by
  apply UInt8.toNat_inj.1
  simp only [canByte, bitField, UInt32.toNat_toUInt8, UInt32.toNat_shiftRight, UInt32.toNat_ofNat',
    UInt8.toNat_ofNat', Nat.shiftRight_eq_div_pow]
  rw [Nat.mod_eq_of_lt (show lo < 2 ^ 32 by omega), Nat.mod_eq_of_lt hlo, Nat.mod_mod]

/-- A field that is shifted down first and masked afterwards. -/
theorem shiftRight_and_eq (lo n : ℕ) (hlo : lo < 32) (hn : n ≤ 32) :
    w >>> UInt32.ofNat lo &&& UInt32.ofNat (2 ^ n - 1) = UInt32.ofNat (bitField w lo n) := by
  apply UInt32.toNat_inj.1
  have hpow : 2 ^ n ≤ 2 ^ 32 := Nat.pow_le_pow_right (by omega) hn
  have hpos : 0 < 2 ^ n := Nat.two_pow_pos n
  have hlt : bitField w lo n < 2 ^ 32 := lt_of_lt_of_le (Nat.mod_lt _ hpos) hpow
  simp only [UInt32.toNat_and, UInt32.toNat_shiftRight, UInt32.toNat_ofNat',
    Nat.shiftRight_eq_div_pow]
  rw [Nat.mod_eq_of_lt (show lo < 2 ^ 32 by omega), Nat.mod_eq_of_lt hlo,
    Nat.mod_eq_of_lt (show 2 ^ n - 1 < 2 ^ 32 by omega), Nat.and_two_pow_sub_one_eq_mod,
    Nat.mod_eq_of_lt hlt, bitField]

theorem toNat_and_pow (n : ℕ) (hn : n ≤ 32) :
    (w &&& UInt32.ofNat (2 ^ n - 1)).toNat = w.toNat % 2 ^ n := by
  have hpow : 2 ^ n ≤ 2 ^ 32 := Nat.pow_le_pow_right (by omega) hn
  have hpos : 0 < 2 ^ n := Nat.two_pow_pos n
  rw [UInt32.toNat_and, UInt32.toNat_ofNat', Nat.mod_eq_of_lt (by omega),
    Nat.and_two_pow_sub_one_eq_mod]

end Words

/-- `fdcan_receive` returns the frame on the bus. -/
theorem FdCanElement.frame_eq (e : FdCanElement) : e.frame = e.wire.frame := by
  simp only [FdCanElement.frame, CanWire.frame, FdCanElement.wire, CanFrame.mk.injEq]
  refine ⟨shiftRight_and_eq e.hdr0 18 11 (by omega) (by omega), ?_, ?_⟩
  · rw [← UInt32.toUInt8_ofNat', ← shiftRight_and_eq e.hdr1 16 4 (by omega) (by omega)]
    rfl
  · exact funext fun
    | 0 => canByte_eq e.data0 0 (by omega)
    | 1 => canByte_eq e.data0 8 (by omega)
    | 2 => canByte_eq e.data0 16 (by omega)
    | 3 => canByte_eq e.data0 24 (by omega)
    | 4 => canByte_eq e.data1 0 (by omega)
    | 5 => canByte_eq e.data1 8 (by omega)
    | 6 => canByte_eq e.data1 16 (by omega)
    | 7 => canByte_eq e.data1 24 (by omega)

/-- `flexcan_receive` returns the frame on the bus. -/
theorem FlexCanMailbox.frame_eq (m : FlexCanMailbox) : m.frame = m.wire.frame := by
  simp only [FlexCanMailbox.frame, CanWire.frame, FlexCanMailbox.wire, CanFrame.mk.injEq]
  refine ⟨?_, ?_, ?_⟩
  · rw [UInt32.shiftRight_and, ← shiftRight_and_eq m.id 18 11 (by omega) (by omega)]
    rfl
  · rw [UInt32.shiftRight_and, ← UInt32.toUInt8_ofNat',
      ← shiftRight_and_eq m.cs 16 4 (by omega) (by omega)]
    rfl
  · exact funext fun
    | 0 => canByte_eq m.word0 24 (by omega)
    | 1 => canByte_eq m.word0 16 (by omega)
    | 2 => canByte_eq m.word0 8 (by omega)
    | 3 => canByte_eq m.word0 0 (by omega)
    | 4 => canByte_eq m.word1 24 (by omega)
    | 5 => canByte_eq m.word1 16 (by omega)
    | 6 => canByte_eq m.word1 8 (by omega)
    | 7 => canByte_eq m.word1 0 (by omega)

/-! ### The words of the drivers -/

/-- A field of `n` bits that has been shifted up. -/
theorem bitField_shiftLeft {w : UInt32} {a : ℕ} (lo n : ℕ) (hw : w.toNat = a % 2 ^ n) (hlo : lo < 32)
    (hn : lo + n ≤ 32) : bitField (w <<< UInt32.ofNat lo) lo n = a % 2 ^ n := by
  have hlt : a % 2 ^ n < 2 ^ n := Nat.mod_lt _ (Nat.two_pow_pos n)
  have hshift : a % 2 ^ n * 2 ^ lo < 2 ^ 32 := by
    calc a % 2 ^ n * 2 ^ lo < 2 ^ n * 2 ^ lo := Nat.mul_lt_mul_of_pos_right hlt (Nat.two_pow_pos lo)
      _ = 2 ^ (lo + n) := by rw [← Nat.pow_add, Nat.add_comm]
      _ ≤ 2 ^ 32 := Nat.pow_le_pow_right (by omega) hn
  rw [bitField, UInt32.toNat_shiftLeft, UInt32.toNat_ofNat',
    Nat.mod_eq_of_lt (show lo < 2 ^ 32 by omega), Nat.mod_eq_of_lt hlo, hw, Nat.shiftLeft_eq,
    Nat.mod_eq_of_lt hshift, Nat.mul_div_cancel _ (Nat.two_pow_pos lo), Nat.mod_mod]

theorem bitField_or (v w : UInt32) (lo n : ℕ) :
    bitField (v ||| w) lo n = bitField v lo n ||| bitField w lo n := by
  simp only [bitField, UInt32.toNat_or, ← Nat.shiftRight_eq_div_pow,
    ← Nat.and_two_pow_sub_one_eq_mod, Nat.shiftRight_or_distrib, Nat.and_or_distrib_right]

/-- The bytes of a word, read from bit 0 on. -/
theorem bitField_fdcanWord {b0 b1 b2 b3 : UInt8} :
    bitField (fdcanWord b0 b1 b2 b3) 0 8 = b0.toNat ∧ bitField (fdcanWord b0 b1 b2 b3) 8 8 = b1.toNat ∧
      bitField (fdcanWord b0 b1 b2 b3) 16 8 = b2.toNat ∧
      bitField (fdcanWord b0 b1 b2 b3) 24 8 = b3.toNat := by
  have h0 := b0.toNat_lt
  have h1 := b1.toNat_lt
  have h2 := b2.toNat_lt
  have h3 := b3.toNat_lt
  simp only [bitField, toNat_fdcanWord]
  refine ⟨?_, ?_, ?_, ?_⟩ <;> omega

namespace CanFrame

variable (f : CanFrame)

theorem toNat_dlcBits : f.dlcBits.toUInt32.toNat = f.dlc.toNat % 2 ^ 4 := by
  rw [UInt8.toNat_toUInt32, dlcBits, UInt8.toNat_and]
  exact Nat.and_two_pow_sub_one_eq_mod _ 4

/-- `fdcan_transmit` writes the frame. -/
theorem wire_fdcanElement : f.fdcanElement.wire = f.wire := by
  obtain ⟨h0, h1, h2, h3⟩ := @bitField_fdcanWord (f.data 0) (f.data 1) (f.data 2) (f.data 3)
  obtain ⟨h4, h5, h6, h7⟩ := @bitField_fdcanWord (f.data 4) (f.data 5) (f.data 6) (f.data 7)
  refine CanWire.ext ?_ ?_ ?_
  · have hid : (f.id &&& 0x7FF).toNat = f.id.toNat % 2 ^ 11 := toNat_and_pow f.id 11 (by omega)
    exact bitField_shiftLeft 18 11 hid (by omega) (by omega)
  · have hdlc : (f.dlc &&& 0xF).toUInt32.toNat = f.dlc.toNat % 2 ^ 4 := f.toNat_dlcBits
    exact bitField_shiftLeft 16 4 hdlc (by omega) (by omega)
  · exact funext fun
    | 0 => h0 | 1 => h1 | 2 => h2 | 3 => h3 | 4 => h4 | 5 => h5 | 6 => h6 | 7 => h7

/-- `flexcan_transmit` writes the frame. -/
theorem wire_flexcanMailbox : f.flexcanMailbox.wire = f.wire := by
  obtain ⟨h0, h1, h2, h3⟩ := @bitField_fdcanWord (f.data 3) (f.data 2) (f.data 1) (f.data 0)
  obtain ⟨h4, h5, h6, h7⟩ := @bitField_fdcanWord (f.data 7) (f.data 6) (f.data 5) (f.data 4)
  simp only [← canWord_eq_fdcanWord] at h0 h1 h2 h3 h4 h5 h6 h7
  refine CanWire.ext ?_ ?_ ?_
  · have hid : (f.id &&& 0x7FF &&& 0x7FF).toNat = f.id.toNat % 2 ^ 11 := by
      rw [UInt32.and_assoc, UInt32.and_self]
      exact toNat_and_pow f.id 11 (by omega)
    have hmask : canIdStdMask = (0x7FF : UInt32) <<< 18 := by decide
    have hword : f.flexcanMailbox.id = (f.id &&& 0x7FF &&& 0x7FF) <<< 18 := by
      rw [flexcanMailbox, canIdStd, hmask, stdId, ← UInt32.shiftLeft_and]
    calc bitField f.flexcanMailbox.id 18 11
        = bitField ((f.id &&& 0x7FF &&& 0x7FF) <<< 18) 18 11 := by rw [hword]
      _ = f.id.toNat % 2 ^ 11 := bitField_shiftLeft 18 11 hid (by omega) (by omega)
  · have hdlc : (f.dlcBits.toUInt32 &&& 0xF).toNat = f.dlc.toNat % 2 ^ 4 := by
      have hmod := toNat_and_pow f.dlcBits.toUInt32 4 (by omega)
      rw [f.toNat_dlcBits, Nat.mod_mod] at hmod
      exact hmod
    have hbits : canCsCode (UInt32.ofNat canTxData) ||| canCsSrrMask = 0xC400000 := by decide
    have hmask : canCsDlcMask = (0xF : UInt32) <<< 16 := by decide
    have hword : f.flexcanMailbox.cs = (0xC400000 : UInt32) ||| (f.dlcBits.toUInt32 &&& 0xF) <<< 16 := by
      rw [flexcanMailbox, hbits, canCsDlc, hmask, UInt32.shiftLeft_and]
    have hcode : bitField 0xC400000 16 4 = 0 := by decide
    calc bitField f.flexcanMailbox.cs 16 4
        = bitField 0xC400000 16 4 ||| bitField ((f.dlcBits.toUInt32 &&& 0xF) <<< 16) 16 4 := by
          rw [hword, bitField_or]
      _ = bitField ((f.dlcBits.toUInt32 &&& 0xF) <<< 16) 16 4 := by rw [hcode, Nat.zero_or]
      _ = f.dlc.toNat % 2 ^ 4 := bitField_shiftLeft 16 4 hdlc (by omega) (by omega)
  · exact funext fun
    | 0 => h3 | 1 => h2 | 2 => h1 | 3 => h0 | 4 => h7 | 5 => h6 | 6 => h5 | 7 => h4

end CanFrame

/-- A frame on the bus is returned in its documented range unless its length code exceeds 8. -/
theorem CanWire.inRange_frame_iff {w : CanWire} (hid : w.id < 2 ^ 11) (hdlc : w.dlc < 2 ^ 4) :
    w.frame.InRange ↔ w.dlc ≤ 8 := by
  rw [CanFrame.InRange, CanWire.frame, UInt32.toNat_ofNat_of_lt' (by rw [UInt32.size]; omega),
    UInt8.toNat_ofNat_of_lt' (by rw [UInt8.size]; omega)]
  exact and_iff_right hid

theorem can_frames_survive_iff (f : CanFrame) (e : FdCanElement) (m : FlexCanMailbox) :
    (f.InRange → f.fdcanElement.frame = f ∧ f.flexcanMailbox.frame = f ∧
      (m.wire = f.fdcanElement.wire → m.frame = f) ∧
      (e.wire = f.flexcanMailbox.wire → e.frame = f)) ∧
    (e.frame.InRange ↔ bitField e.hdr1 16 4 ≤ 8) ∧
    (m.frame.InRange ↔ bitField m.cs 16 4 ≤ 8) := by
  refine ⟨fun hf => ⟨?_, ?_, fun hm => ?_, fun he => ?_⟩, ?_, ?_⟩
  · rw [FdCanElement.frame_eq, f.wire_fdcanElement, f.wire_frame hf]
  · rw [FlexCanMailbox.frame_eq, f.wire_flexcanMailbox, f.wire_frame hf]
  · rw [FlexCanMailbox.frame_eq, hm, f.wire_fdcanElement, f.wire_frame hf]
  · rw [FdCanElement.frame_eq, he, f.wire_flexcanMailbox, f.wire_frame hf]
  · rw [FdCanElement.frame_eq]
    exact CanWire.inRange_frame_iff (Nat.mod_lt _ (Nat.two_pow_pos 11)) (Nat.mod_lt _ (Nat.two_pow_pos 4))
  · rw [FlexCanMailbox.frame_eq]
    exact CanWire.inRange_frame_iff (Nat.mod_lt _ (Nat.two_pow_pos 11)) (Nat.mod_lt _ (Nat.two_pow_pos 4))

theorem can_frames_survive_eight :
    (CanFrame.fdcanElement ⟨0x123, 8, fun i => UInt8.ofNat i⟩).frame =
      ⟨0x123, 8, fun i => UInt8.ofNat i⟩ :=
  ((can_frames_survive_iff ⟨0x123, 8, fun i => UInt8.ofNat i⟩ ⟨0, 0, 0, 0⟩ ⟨0, 0, 0, 0⟩).1
    (by decide)).1

/-- A peer sends the length code 15, and both drivers return it. -/
theorem can_length_unclamped :
    (fdcanReceive 1 0 fun _ => ⟨0, 0xF0000, 0, 0⟩).1.map CanFrame.dlc = some 15 ∧
    ¬ (FdCanElement.frame ⟨0, 0xF0000, 0, 0⟩).InRange ∧
    (flexcanReceive 0x10 ⟨0xF0000, 0, 0, 0⟩).1.map CanFrame.dlc = some 15 ∧
    ¬ (FlexCanMailbox.frame ⟨0xF0000, 0, 0, 0⟩).InRange := by
  decide

end TamgaOs
