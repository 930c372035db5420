import TamgaOs.Drivers.FdCan

/-!
# The words of a FlexCAN mailbox

`k64f/flexcan.c`: the words that `flexcan_transmit` writes to its mailbox, and `flexcan_receive`. The
bit fields are those of `boards/k64f/mmio_deviation.h`.

## Main definitions

* `FlexCanMailbox`: the words of a mailbox.
* `CanFrame.flexcanMailbox`: what `flexcan_transmit` writes.
* `flexcanReceive`: the frame that is read.
-/

namespace TamgaOs

/-- `FLEXCAN0->MB[i]`. -/
structure FlexCanMailbox where
  cs : UInt32
  id : UInt32
  word0 : UInt32
  word1 : UInt32
  deriving DecidableEq

/-- `CAN_CS_CODE`. -/
def canCsCode (x : UInt32) : UInt32 := x <<< 24 &&& 0xF000000

/-- `CAN_CS_SRR_MASK`. -/
def canCsSrrMask : UInt32 := 0x400000

/-- `CAN_CS_DLC_MASK`. -/
def canCsDlcMask : UInt32 := 0xF0000

/-- `CAN_CS_DLC`. -/
def canCsDlc (x : UInt32) : UInt32 := x <<< 16 &&& canCsDlcMask

/-- `CAN_ID_STD_MASK`. -/
def canIdStdMask : UInt32 := 0x1FFC0000

/-- `CAN_ID_STD`. -/
def canIdStd (x : UInt32) : UInt32 := x <<< 18 &&& canIdStdMask

/-- The words that `flexcan_transmit` writes. -/
def CanFrame.flexcanMailbox (f : CanFrame) : FlexCanMailbox where
  cs := canCsCode (UInt32.ofNat canTxData) ||| canCsSrrMask ||| canCsDlc f.dlcBits.toUInt32
  id := canIdStd f.stdId
  word0 := f.word0
  word1 := f.word1

/-- The frame that `flexcan_receive` reads from a mailbox. -/
def FlexCanMailbox.frame (m : FlexCanMailbox) : CanFrame where
  id := (m.id &&& canIdStdMask) >>> 18
  dlc := ((m.cs &&& canCsDlcMask) >>> 16).toUInt8
  data := ![canByte m.word0 24, canByte m.word0 16, canByte m.word0 8, canByte m.word0 0,
    canByte m.word1 24, canByte m.word1 16, canByte m.word1 8, canByte m.word1 0]

/-- `flexcan_rx_pending` for a reading of `IFLAG1`: the bit of the mailbox 4. -/
def flexcanRxPending (iflag1 : UInt32) : Bool := (iflag1 &&& (1 : UInt32) <<< 4) != 0

/-- `flexcan_receive`: the frame, what is written to `IFLAG1`, and the result. -/
def flexcanReceive (iflag1 : UInt32) (mb : FlexCanMailbox) : Option CanFrame × List UInt32 × ℤ :=
  if flexcanRxPending iflag1 then (some mb.frame, [(1 : UInt32) <<< 4], 0) else (none, [], -1)

end TamgaOs
