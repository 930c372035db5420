import Mathlib.Algebra.Group.Nat.Defs
import Mathlib.Data.Int.Notation
import Mathlib.Data.Nat.Notation
import Mathlib.Tactic.Common

/-!
# Transmission with FlexCAN

`k64f/flexcan.c`: `flexcan_transmit`, with the mailbox that it fills and the controller that empties
it at any later moment. The texts that the function prints are left out.

## Main definitions

* `CanFrame`, `CanFrame.encode`: `flexcan_frame_t`, and what a mailbox is filled with.
* `TransmitCtl`: the program points of `flexcan_transmit`.
* `FlexCan`, `CanAction`, `FlexCan.step`: the driver and the controller.
-/

namespace TamgaOs

/-- `flexcan_frame_t`. -/
structure CanFrame where
  id : UInt32
  dlc : UInt8
  data : Fin 8 → UInt8

/-- The contents of a mailbox: `ID`, `WORD0`, `WORD1`, and `DLC` in `CS`. -/
structure CanContents where
  id : UInt32
  word0 : UInt32
  word1 : UInt32
  dlc : UInt8
  deriving DecidableEq

/-- Four bytes in a word of a mailbox. -/
def canWord (b0 b1 b2 b3 : UInt8) : UInt32 :=
  b0.toUInt32 <<< 24 ||| b1.toUInt32 <<< 16 ||| b2.toUInt32 <<< 8 ||| b3.toUInt32 <<< 0

namespace CanFrame

variable (f : CanFrame)

/-- `frame->id & 0x7FF`. -/
def stdId : UInt32 := f.id &&& 0x7FF

/-- `data[0]` to `data[3]` in a word that `pack` puts together. -/
def lowBytes (pack : UInt8 → UInt8 → UInt8 → UInt8 → UInt32) : UInt32 :=
  pack (f.data 0) (f.data 1) (f.data 2) (f.data 3)

/-- `data[4]` to `data[7]` in a word that `pack` puts together. -/
def highBytes (pack : UInt8 → UInt8 → UInt8 → UInt8 → UInt32) : UInt32 :=
  pack (f.data 4) (f.data 5) (f.data 6) (f.data 7)

/-- `WORD0`. -/
def word0 : UInt32 := f.lowBytes canWord

/-- `WORD1`. -/
def word1 : UInt32 := f.highBytes canWord

/-- `frame->dlc & 0xF`. -/
def dlcBits : UInt8 := f.dlc &&& 0xF

/-- What a mailbox is filled with. -/
def encode : CanContents := ⟨f.stdId, f.word0, f.word1, f.dlcBits⟩

end CanFrame

/-- `CAN_MB_CODE_TX_INACTIVE`. -/
def canTxInactive : ℕ := 0x8

/-- `CAN_MB_CODE_TX_DATA`. -/
def canTxData : ℕ := 0xC

/-- `FLEXCAN_TIMEOUT`. -/
def flexcanTimeout : ℕ := 100000

/-- The program points of `flexcan_transmit`; `t` is the counter of a loop. -/
inductive TransmitCtl
  /-- The test of `flexcan_recover_from_busoff`. -/
  | busOff
  /-- The loop that waits for the freeze mode. -/
  | freeze (t : ℕ)
  /-- `MB[0].CS = CAN_CS_CODE(CAN_MB_CODE_TX_INACTIVE)`. -/
  | inactivate
  /-- The loop that waits for the end of the freeze mode. -/
  | unfreeze (t : ℕ)
  /-- The loop that waits for `CODE`. -/
  | waitInactive (t : ℕ)
  | writeId
  | writeWord0
  | writeWord1
  | writeCs
  /-- The loop that waits for `IFLAG1`. -/
  | waitFlag (t : ℕ)
  /-- `IFLAG1 = 1`. -/
  | clearFlag
  /-- `return 0`. -/
  | succeed
  /-- `return -1`, in both places. -/
  | giveUp
  deriving DecidableEq

/-- The mailbox 0, the flag, and the call that is running. -/
structure FlexCan where
  /-- `CODE` in `MB[0].CS`. -/
  code : ℕ
  mailbox : CanContents
  /-- Bit 0 of `IFLAG1`. -/
  iflag : Bool
  frame : CanFrame
  ctl : Option TransmitCtl

/-- What can happen next. -/
inductive CanAction
  /-- `flexcan_transmit` is called. -/
  | call (f : CanFrame)
  /-- The next statement of the call. The argument is the bit that it reads from `ESR1` (bus off) or
  from `MCR` (frozen). -/
  | exec (bit : Bool)
  /-- The controller sends the frame in the mailbox. -/
  | send

/-- What a step reports. -/
inductive CanObs
  | called (f : CanFrame)
  | sent (x : CanContents)
  | returned (r : ℤ)

namespace FlexCan

variable (s : FlexCan)

/-- After `flexcan_init`. -/
def init : FlexCan where
  code := canTxInactive
  mailbox := ⟨0, 0, 0, 0⟩
  iflag := false
  frame := ⟨0, 0, fun _ => 0⟩
  ctl := none

/-- The call goes on to another program point. -/
def goto (c : TransmitCtl) : FlexCan := { s with ctl := some c }

/-- The next statement of the call. -/
def execStep (bit : Bool) : TransmitCtl → FlexCan × List CanObs
  | .busOff => (s.goto (if bit then .freeze flexcanTimeout else .waitInactive flexcanTimeout), [])
  | .freeze t => (s.goto (if !bit && t ≠ 0 then .freeze (t - 1) else .inactivate), [])
  | .inactivate =>
    ({ s with code := canTxInactive, mailbox := { s.mailbox with dlc := 0 } }.goto
      (.unfreeze flexcanTimeout), [])
  | .unfreeze t =>
    (s.goto (if bit && t ≠ 0 then .unfreeze (t - 1) else .waitInactive flexcanTimeout), [])
  | .waitInactive t =>
    (s.goto (if s.code ≠ canTxInactive ∧ t ≠ 0 then .waitInactive (t - 1)
      else if t = 0 then .giveUp else .writeId), [])
  | .writeId => ({ s with mailbox := { s.mailbox with id := s.frame.stdId } }.goto .writeWord0, [])
  | .writeWord0 =>
    ({ s with mailbox := { s.mailbox with word0 := s.frame.word0 } }.goto .writeWord1, [])
  | .writeWord1 =>
    ({ s with mailbox := { s.mailbox with word1 := s.frame.word1 } }.goto .writeCs, [])
  | .writeCs =>
    ({ s with code := canTxData, mailbox := { s.mailbox with dlc := s.frame.dlcBits } }.goto
      (.waitFlag flexcanTimeout), [])
  | .waitFlag t =>
    (s.goto (if s.iflag = false ∧ t ≠ 0 then .waitFlag (t - 1)
      else if t = 0 then .giveUp else .clearFlag), [])
  | .clearFlag => ({ s with iflag := false }.goto .succeed, [])
  | .succeed => ({ s with ctl := none }, [.returned 0])
  | .giveUp => ({ s with ctl := none }, [.returned (-1)])

/-- A step. -/
def step (s : FlexCan) : CanAction → Option (FlexCan × List CanObs)
  | .call f =>
    match s.ctl with
    | none => some ({ s with frame := f, ctl := some .busOff }, [.called f])
    | some _ => none
  | .exec bit =>
    match s.ctl with
    | none => none
    | some c => some (s.execStep bit c)
  | .send =>
    if s.code = canTxData then
      some ({ s with code := canTxInactive, iflag := true }, [.sent s.mailbox])
    else none

end FlexCan

end TamgaOs
