import TamgaOs.Library.IndexRing

/-!
# The transmitter of the K64F UART

`k64f/uart.c`: the tasks put bytes into a ring with `uart_putc`, and the interrupt handler moves them
to the data register. A task may be preempted between any two statements; the update of `UART0->C2`
in `uart_putc` is a load and a store. The handler is not interrupted by tasks.

## Main definitions

* `PutcPoint`: the program points of `uart_putc`.
* `UartTransmitter`, `UartTransmitter.putcStep`, `UartTransmitter.irqTx`: the ring and the register,
  a statement of `uart_putc`, and the part of the handler for `TDRE`.
* `UartTx`, `UartAction`, `UartTx.step`: the transmitter with any number of tasks.
* `UartTx.pending`: the bytes that the ring holds.
-/

namespace TamgaOs

/-- `UART_TX_BUF_SIZE`. -/
def uartTxSize : ℕ := 256

/-- The program points of `uart_putc(c)` after `next_head = (s_tx_head + 1) % UART_TX_BUF_SIZE`. -/
inductive PutcPoint
  /-- `while (next_head == s_tx_tail) {}`. -/
  | wait (nextHead : ℕ) (c : UInt8)
  /-- `s_tx_buf[s_tx_head] = c`. -/
  | store (nextHead : ℕ) (c : UInt8)
  /-- `s_tx_head = next_head`. -/
  | publish (nextHead : ℕ) (c : UInt8)
  /-- The load of `UART0->C2 |= (1 << 7)`. -/
  | load
  /-- Its store, of the value loaded with bit 7. -/
  | enable (c2 : UInt8)
  deriving DecidableEq

/-- The byte of a call, as long as the ring does not hold it. -/
def PutcPoint.byte : PutcPoint → Option UInt8
  | wait _ c | store _ c | publish _ c => some c
  | load | enable _ => none

/-- The next statement is the store to `s_tx_head`. -/
def PutcPoint.publishes : PutcPoint → Bool
  | publish _ _ => true
  | wait _ _ | store _ _ | load | enable _ => false

/-- What `uart_putc` and the handler share. -/
structure UartTransmitter where
  /-- `s_tx_buf`, `s_tx_head`, `s_tx_tail`. -/
  tx : IndexRing UInt8
  /-- `UART0->C2`. -/
  c2 : UInt8

namespace UartTransmitter

variable (u : UartTransmitter)

/-- After `uart_init`, which does not clear the cells: `TE`, `RE` and `RIE` are set. -/
def init (buf : ℕ → UInt8) : UartTransmitter := ⟨⟨buf, 0, 0⟩, 0x08 ||| 0x04 ||| 0x20⟩

/-- The transmit interrupt is enabled: bit 7 of `UART0->C2`. -/
def tie : Bool := u.c2 &&& 0x80 != 0

/-- The first statement of `uart_putc`. -/
def putcFirst (c : UInt8) : PutcPoint := .wait (IndexRing.succ uartTxSize u.tx.head) c

/-- The next statement of `uart_putc`, and where the call goes on. -/
def putcStep : PutcPoint → UartTransmitter × Option PutcPoint
  | .wait nextHead c =>
    (u, some (if nextHead = u.tx.tail then .wait nextHead c else .store nextHead c))
  | .store nextHead c => ({ u with tx := u.tx.store c }, some (.publish nextHead c))
  | .publish nextHead _ => ({ u with tx := u.tx.publish nextHead }, some .load)
  | .load => (u, some (.enable (u.c2 ||| 0x80)))
  | .enable c2 => ({ u with c2 := c2 }, none)

/-- The part of the handler for `TDRE`, with the byte that is written to `UART0->D`. -/
def irqTx (tdre : Bool) : UartTransmitter × List UInt8 :=
  if tdre then
    if u.tx.tail ≠ u.tx.head then ({ u with tx := u.tx.consume uartTxSize }, [u.tx.cell u.tx.tail])
    else ({ u with c2 := u.c2 &&& 0x7F }, [])
  else (u, [])

end UartTransmitter

/-- The transmitter, and where each task is in `uart_putc`. -/
structure UartTx (τ : Type*) extends UartTransmitter where
  ctl : τ → Option PutcPoint

/-- What can happen next. -/
inductive UartAction (τ : Type*)
  /-- A task calls `uart_putc` and executes its first statement. -/
  | putc (t : τ) (c : UInt8)
  /-- The next statement of a task in `uart_putc`. -/
  | exec (t : τ)
  /-- `UART0_RX_TX_IRQHandler`, for the transmitter or the receiver, with `TDRE` as it reads it. -/
  | irq (tdre : Bool)

namespace UartTx

variable {τ : Type*} [DecidableEq τ] (s : UartTx τ)

/-- After `uart_init`. -/
def init : UartTx τ := ⟨.init fun _ => 0, fun _ => none⟩

/-- A task goes on to another program point. -/
def goto (t : τ) (c : Option PutcPoint) : UartTx τ := { s with ctl := Function.update s.ctl t c }

/-- The next statement of `uart_putc`. -/
def putcStep (t : τ) (p : PutcPoint) : UartTx τ :=
  { s with toUartTransmitter := (s.toUartTransmitter.putcStep p).1 }.goto t
    (s.toUartTransmitter.putcStep p).2

/-- A step, with the byte that is written to `UART0->D`. -/
def step (s : UartTx τ) : UartAction τ → Option (UartTx τ × List UInt8)
  | .putc t c =>
    match s.ctl t with
    | none => some (s.goto t (some (s.putcFirst c)), [])
    | some _ => none
  | .exec t =>
    match s.ctl t with
    | none => none
    | some p => some (s.putcStep t p, [])
  | .irq tdre =>
    some ({ s with toUartTransmitter := (s.irqTx tdre).1 }, (s.irqTx tdre).2)

/-- The bytes that the ring holds, oldest first. -/
def pending : List UInt8 := s.tx.items uartTxSize

/-- The byte that a task has passed and not published yet. -/
def unpublished (t : τ) : List UInt8 := ((s.ctl t).bind PutcPoint.byte).toList

end UartTx

end TamgaOs
