import Mathlib.Algebra.Group.Nat.Defs
import Mathlib.Data.Int.Notation
import Mathlib.Data.Nat.Notation
import Mathlib.Logic.Function.Basic
import TamgaOs.Library.Run

/-!
# The Ethernet rings

`stm32h753zi/eth.c`: the two descriptor rings that `eth_init` sets up, `eth_receive`, `eth_transmit`
and the DMA, which completes the descriptors with `OWN` set in ring order. One call of each function
runs at a time; the DMA may act between any two of their statements, at any pace. The tail pointers only
wake it up and are left out.

## Main definitions

* `EthDes3`, `EthDescriptor`: the fields of a descriptor.
* `EthRx`, `EthRx.step`: the receive ring, `eth_receive` and the reception of frames.
* `EthTx`, `EthTx.step`: the transmit ring, `eth_transmit` and the transmission of frames.
* `Eth.step`: both side by side.
-/

namespace TamgaOs

/-- `ETH_NUM_TX_DESC`. -/
def ethNumTxDesc : ℕ := 2

/-- `ETH_NUM_RX_DESC`. -/
def ethNumRxDesc : ℕ := 4

/-- `ETH_BUF_SIZE`. -/
def ethBufSize : ℕ := 1536

/-- The bound of the polling loop in `eth_transmit`. -/
def ethTimeout : ℕ := 100000

/-- The fields of `des2`. -/
structure EthDes2 where
  /-- Bit 31. -/
  ioc : Bool := false
  /-- Bits 13 to 0: the length of the buffer. -/
  len : ℕ := 0
  deriving DecidableEq

/-- The fields of `des3`. -/
structure EthDes3 where
  /-- Bit 31: the descriptor belongs to the DMA. -/
  own : Bool := false
  /-- Bit 30. -/
  ioc : Bool := false
  /-- Bit 29: the first descriptor of a frame. -/
  fd : Bool := false
  /-- Bit 28: the last descriptor of a frame. -/
  ld : Bool := false
  /-- Bit 24. -/
  buf1v : Bool := false
  /-- Bits 14 to 0: the length of the frame. -/
  len : ℕ := 0
  deriving DecidableEq

/-- `eth_descriptor_t`. The address in `des0` is relative to the start of the buffers. -/
structure EthDescriptor where
  des0 : ℕ := 0
  des1 : ℕ := 0
  des2 : EthDes2 := {}
  des3 : EthDes3 := {}
  deriving DecidableEq

/-! ### Reception -/

/-- The program points of `eth_receive`. -/
inductive EthRxCtl
  /-- `if ((d->des3 & (1UL << 31U)) != 0U)`. -/
  | testOwn
  /-- `pkt_len` is read and bounded by `max_len`. -/
  | readLen
  /-- `memcpy` has copied `j` bytes. -/
  | copy (j : ℕ)
  /-- `d->des3 = (1UL << 31U) | (1UL << 30U) | (1UL << 24U)`. -/
  | giveBack
  /-- `s_rx_index` is advanced. -/
  | advance
  | ret (r : ℤ)
  deriving DecidableEq

/-- What a call of `eth_receive` that returns 0 leaves with its caller. -/
structure EthReceived where
  maxLen : UInt16
  outLen : ℕ
  bytes : List UInt8
  deriving DecidableEq

/-- The receive ring and the call that is running. -/
structure EthRx where
  /-- `s_rx_desc`. -/
  desc : ℕ → EthDescriptor
  /-- The memory from the start of `s_rx_buf` on. -/
  mem : ℕ → UInt8
  /-- `s_rx_index`. -/
  index : ℕ
  /-- The descriptor that the DMA completes next. -/
  pos : ℕ
  /-- The frame that is coming in, and how many of its bytes have been stored. -/
  frame : Option (List UInt8 × ℕ)
  maxLen : UInt16
  pktLen : ℕ
  outLen : ℕ
  /-- The bytes that have been copied to the caller. -/
  buf : List UInt8
  ctl : Option EthRxCtl

/-- What can happen next. -/
inductive EthRxAction
  | receive (maxLen : UInt16)
  /-- The next statement of the call. -/
  | exec
  /-- A frame comes in. -/
  | arrive (f : List UInt8)
  /-- The DMA completes a descriptor. It writes the length of the frame into the last one, and `len`
  into those before. -/
  | complete (len : ℕ)

/-- What a step reports. -/
inductive EthRxObs
  /-- The last descriptor of a frame is complete. -/
  | arrived (f : List UInt8)
  /-- `eth_receive` returns 0. -/
  | received (r : EthReceived)
  /-- `eth_receive` returns -1. -/
  | empty
  /-- `memcpy` reads a byte. -/
  | read (addr : ℕ)
  /-- A descriptor is written by the driver. -/
  | wroteDesc (i : ℕ)
  deriving DecidableEq

namespace EthRx

variable (s : EthRx)

/-- After `eth_init`, which leaves `s_rx_index` as it is. -/
def init (index : ℕ) (mem : ℕ → UInt8) : EthRx where
  desc i := { des0 := i * ethBufSize, des3 := { own := true, ioc := true, buf1v := true } }
  mem := mem
  index := index
  pos := 0
  frame := none
  maxLen := 0
  pktLen := 0
  outLen := 0
  buf := []
  ctl := none

/-- The call goes on to another program point. -/
def goto (c : EthRxCtl) : EthRx := { s with ctl := some c }

/-- `s_rx_desc[s_rx_index].des3`. -/
def des3 : EthDes3 := (s.desc s.index).des3

/-- `des3` of a descriptor is written. -/
def setDes3 (i : ℕ) (v : EthDes3) : EthRx :=
  { s with desc := Function.update s.desc i { s.desc i with des3 := v } }

/-- The next statement of `eth_receive`. -/
def execStep : EthRxCtl → EthRx × List EthRxObs
  | .testOwn => (s.goto (if s.des3.own then .ret (-1) else .readLen), [])
  | .readLen =>
    let pktLen := s.des3.len % 2 ^ 15
    ({ s with pktLen := if s.maxLen.toNat < pktLen then s.maxLen.toNat else pktLen, buf := [] }.goto
      (.copy 0), [])
  | .copy j =>
    let addr := s.index * ethBufSize + j
    if j < s.pktLen then
      ({ s with buf := s.buf ++ [s.mem addr] }.goto (.copy (j + 1)), [.read addr])
    else ({ s with outLen := s.pktLen }.goto .giveBack, [])
  | .giveBack =>
    ((s.setDes3 s.index { own := true, ioc := true, buf1v := true }).goto .advance,
      [.wroteDesc s.index])
  | .advance => ({ s with index := (s.index + 1) % ethNumRxDesc }.goto (.ret 0), [])
  | .ret r =>
    ({ s with ctl := none }, [if r = 0 then .received ⟨s.maxLen, s.outLen, s.buf⟩ else .empty])

/-- The memory after the DMA has stored bytes at `addr`. -/
def store (addr : ℕ) (bytes : List UInt8) : ℕ → UInt8 := fun a =>
  if addr ≤ a then bytes.getD (a - addr) (s.mem a) else s.mem a

/-- The DMA completes the next descriptor with the next bytes of the frame. -/
def completeStep (len : ℕ) : Option (EthRx × List EthRxObs) :=
  match s.frame with
  | none => none
  | some (f, off) =>
    let d := s.desc s.pos
    if d.des3.own then
      if f.length ≤ off + ethBufSize then
        some ({ s.setDes3 s.pos { fd := off = 0, ld := true, len := f.length } with
          mem := s.store d.des0 (f.drop off)
          pos := (s.pos + 1) % ethNumRxDesc
          frame := none }, [.arrived f])
      else
        some ({ s.setDes3 s.pos { fd := off = 0, ld := false, len := len % 2 ^ 15 } with
          mem := s.store d.des0 ((f.drop off).take ethBufSize)
          pos := (s.pos + 1) % ethNumRxDesc
          frame := some (f, off + ethBufSize) }, [])
    else none

/-- A step. The length of a frame has 15 bits. -/
def step (s : EthRx) : EthRxAction → Option (EthRx × List EthRxObs)
  | .receive maxLen =>
    match s.ctl with
    | none => some ({ s with maxLen, ctl := some .testOwn }, [])
    | some _ => none
  | .exec =>
    match s.ctl with
    | none => none
    | some c => some (s.execStep c)
  | .arrive f =>
    if s.frame = none ∧ f.length < 2 ^ 15 then some ({ s with frame := some (f, 0) }, []) else none
  | .complete len => s.completeStep len

end EthRx

/-! ### Transmission -/

/-- The program points of `eth_transmit`. -/
inductive EthTxCtl
  /-- The loop that waits for `OWN` to be clear; `t` is `timeout`. -/
  | waitOwn (t : ℕ)
  /-- `memcpy` has copied `j` bytes. -/
  | copy (j : ℕ)
  /-- The four stores to the descriptor. -/
  | des0
  | des1
  | des2
  | des3
  /-- `s_tx_index` is advanced. -/
  | advance
  | ret (r : ℤ)
  deriving DecidableEq

/-- The transmit ring and the call that is running. -/
structure EthTx where
  /-- `s_tx_desc`. -/
  desc : ℕ → EthDescriptor
  /-- The memory from the start of `s_tx_buf` on. -/
  mem : ℕ → UInt8
  /-- `s_tx_index`. -/
  index : ℕ
  /-- The descriptor that the DMA completes next. -/
  pos : ℕ
  data : ℕ → UInt8
  len : UInt16
  ctl : Option EthTxCtl

/-- What can happen next. -/
inductive EthTxAction
  | transmit (data : ℕ → UInt8) (len : UInt16)
  /-- The next statement of the call. -/
  | exec
  /-- The DMA completes a descriptor. -/
  | complete

/-- What a step reports. -/
inductive EthTxObs
  /-- `eth_transmit` returns 0. -/
  | accepted (f : List UInt8)
  /-- `eth_transmit` returns -1. -/
  | rejected
  /-- A frame is sent. -/
  | sent (f : List UInt8)
  /-- A descriptor is written by the driver. -/
  | wroteDesc (i : ℕ)
  /-- `memcpy` writes a byte. -/
  | wroteBuf (addr : ℕ)
  deriving DecidableEq

namespace EthTx

variable (s : EthTx)

/-- After `eth_init`, which leaves `s_tx_index` as it is. -/
def init (index : ℕ) (mem : ℕ → UInt8) : EthTx where
  desc i := { des0 := i * ethBufSize }
  mem := mem
  index := index
  pos := 0
  data _ := 0
  len := 0
  ctl := none

/-- The call goes on to another program point. -/
def goto (c : EthTxCtl) : EthTx := { s with ctl := some c }

/-- A descriptor is written. -/
def setDesc (i : ℕ) (d : EthDescriptor) : EthTx := { s with desc := Function.update s.desc i d }

/-- The frame that the running call has been given. -/
def payload : List UInt8 := (List.range s.len.toNat).map s.data

/-- The bytes that a descriptor refers to. -/
def slot (i : ℕ) : List UInt8 :=
  (List.range (s.desc i).des2.len).map fun j => s.mem ((s.desc i).des0 + j)

/-- The next statement of `eth_transmit`. -/
def execStep : EthTxCtl → EthTx × List EthTxObs
  | .waitOwn t =>
    (s.goto (if (s.desc s.index).des3.own then
      if t - 1 = 0 then .ret (-1) else .waitOwn (t - 1) else .copy 0), [])
  | .copy j =>
    let addr := s.index * ethBufSize + j
    if j < s.len.toNat then
      ({ s with mem := Function.update s.mem addr (s.data j) }.goto (.copy (j + 1)),
        [.wroteBuf addr])
    else (s.goto .des0, [])
  | .des0 =>
    ((s.setDesc s.index { s.desc s.index with des0 := s.index * ethBufSize }).goto .des1,
      [.wroteDesc s.index])
  | .des1 =>
    ((s.setDesc s.index { s.desc s.index with des1 := 0 }).goto .des2, [.wroteDesc s.index])
  | .des2 =>
    ((s.setDesc s.index { s.desc s.index with des2 := ⟨true, s.len.toNat % 2 ^ 14⟩ }).goto .des3,
      [.wroteDesc s.index])
  | .des3 =>
    ((s.setDesc s.index { s.desc s.index with
      des3 := { own := true, fd := true, ld := true, len := s.len.toNat % 2 ^ 15 } }).goto .advance,
      [.wroteDesc s.index])
  | .advance => ({ s with index := (s.index + 1) % ethNumTxDesc }.goto (.ret 0), [])
  | .ret r => ({ s with ctl := none }, [if r = 0 then .accepted s.payload else .rejected])

/-- The DMA sends the next frame and clears `OWN`. -/
def completeStep : Option (EthTx × List EthTxObs) :=
  let d := s.desc s.pos
  if d.des3.own then
    some ({ s.setDesc s.pos { d with des3 := { d.des3 with own := false } } with
      pos := (s.pos + 1) % ethNumTxDesc }, [.sent (s.slot s.pos)])
  else none

/-- A step. A frame that is too long for a buffer is rejected at once. -/
def step (s : EthTx) : EthTxAction → Option (EthTx × List EthTxObs)
  | .transmit data len =>
    match s.ctl with
    | none =>
      some ({ s with
        data, len
        ctl := some (if ethBufSize < len.toNat then .ret (-1) else .waitOwn ethTimeout) }, [])
    | some _ => none
  | .exec =>
    match s.ctl with
    | none => none
    | some c => some (s.execStep c)
  | .complete => s.completeStep

end EthTx

/-! ### Both rings -/

namespace Eth

/-- The driver after `eth_init`. -/
def init (rxIndex txIndex : ℕ) (rxMem txMem : ℕ → UInt8) : EthRx × EthTx :=
  (EthRx.init rxIndex rxMem, EthTx.init txIndex txMem)

/-- A step of either ring. -/
def step : EthRx × EthTx → EthRxAction ⊕ EthTxAction →
    Option ((EthRx × EthTx) × List (EthRxObs ⊕ EthTxObs)) :=
  Run.interleave EthRx.step EthTx.step

end Eth

end TamgaOs
