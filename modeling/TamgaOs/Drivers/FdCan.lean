import TamgaOs.Drivers.FlexCan
import TamgaOs.Library.Poll
import Mathlib.Data.Fin.VecNotation

/-!
# The FDCAN driver

`stm32h753zi/fdcan.c`: `fdcan_transmit` and `fdcan_receive`, as functions of what they read from the
controller.

## Main definitions

* `FdCanElement`: `fdcan_msg_t`.
* `fdcanTransmit`: the writes to the controller, and the result.
* `fdcanReceive`: the frame that is read.
-/

namespace TamgaOs

/-- `fdcan_msg_t`: an element of the message RAM. -/
structure FdCanElement where
  hdr0 : UInt32
  hdr1 : UInt32
  data0 : UInt32
  data1 : UInt32
  deriving DecidableEq

/-- `FDCAN_TIMEOUT`. -/
def fdcanTimeout : ℕ := 100000

/-- A write to the controller. -/
inductive FdCanWrite
  /-- The four words of `TX_BUF_ELEM` in the message RAM. -/
  | txBuf (e : FdCanElement)
  | txbar (v : UInt32)
  | rxf0a (v : UInt32)
  deriving DecidableEq

/-- Four bytes in a data word of an element. -/
def fdcanWord (b0 b1 b2 b3 : UInt8) : UInt32 :=
  b0.toUInt32 ||| b1.toUInt32 <<< 8 ||| b2.toUInt32 <<< 16 ||| b3.toUInt32 <<< 24

/-- The element that `fdcan_transmit` writes. -/
def CanFrame.fdcanElement (f : CanFrame) : FdCanElement where
  hdr0 := (f.id &&& 0x7FF) <<< 18
  hdr1 := (f.dlc &&& 0xF).toUInt32 <<< 16
  data0 := f.lowBytes fdcanWord
  data1 := f.highBytes fdcanWord

/-- Bit 21 of a reading of `FDCAN1_TXFQS` is clear: the TX FIFO is not full. -/
def txFifoReady (txfqs : UInt32) : Bool := (txfqs &&& (1 : UInt32) <<< 21) == 0

/-- `fdcan_transmit`; `txfqs` are the readings of `FDCAN1_TXFQS`. -/
def fdcanTransmit (txfqs : ℕ → UInt32) (frame : CanFrame) : List FdCanWrite × ℤ :=
  if Poll.spin (fun n => txFifoReady (txfqs n)) (2 ^ 32 - 1) fdcanTimeout 0 = 0 then ([], -1)
  else ([.txBuf frame.fdcanElement, .txbar ((1 : UInt32) <<< 0)], 0)

/-- A byte of a data word. -/
def canByte (w shift : UInt32) : UInt8 := (w >>> shift).toUInt8

/-- The frame that `fdcan_receive` reads from an element. -/
def FdCanElement.frame (e : FdCanElement) : CanFrame where
  id := (e.hdr0 >>> 18) &&& 0x7FF
  dlc := ((e.hdr1 >>> 16) &&& 0xF).toUInt8
  data := ![canByte e.data0 0, canByte e.data0 8, canByte e.data0 16, canByte e.data0 24,
    canByte e.data1 0, canByte e.data1 8, canByte e.data1 16, canByte e.data1 24]

/-- `fdcan_rx_pending` for a reading of `FDCAN1_RXF0S`. -/
def fdcanRxPending (rxf0s : UInt32) : UInt8 := ((rxf0s >>> 0) &&& 0x7F).toUInt8

/-- `fdcan_receive` with two readings of `FDCAN1_RXF0S`; `elem` is the RX FIFO in the message RAM. -/
def fdcanReceive (rxf0s rxf0s' : UInt32) (elem : UInt32 → FdCanElement) :
    Option CanFrame × List FdCanWrite × ℤ :=
  if fdcanRxPending rxf0s = 0 then (none, [], -1)
  else
    let getIdx := (rxf0s' >>> 8) &&& 0x3F
    (some (elem getIdx).frame, [.rxf0a getIdx], 0)

end TamgaOs
