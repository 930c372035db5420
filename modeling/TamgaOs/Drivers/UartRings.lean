import TamgaOs.Drivers.Uart

/-!
# Both rings of the K64F UART

`k64f/uart.c` with one task that puts bytes and one that gets them. Either task may be interrupted,
and left for the other one, between any two statements. The handler runs to its end, for whatever
flags it reads.

## Main definitions

* `GetcPoint`: the program points of `uart_getc`.
* `K64fUart`, `K64fUart.step`: the driver with the two tasks, and the handler.
-/

namespace TamgaOs

/-- `UART_RX_BUF_SIZE`. -/
def uartRxSize : ℕ := 64

/-- The program points of `uart_getc`. -/
inductive GetcPoint
  /-- `while (s_rx_head == s_rx_tail) {}`. -/
  | wait
  /-- `c = s_rx_buf[s_rx_tail]`. -/
  | fetch
  /-- `s_rx_tail = (s_rx_tail + 1) % UART_RX_BUF_SIZE`. -/
  | advance (c : UInt8)
  /-- `return c`. -/
  | done (c : UInt8)
  deriving DecidableEq

/-- The driver, and where the two tasks are. -/
structure K64fUart extends UartTransmitter where
  /-- `s_rx_buf`, `s_rx_head`, `s_rx_tail`. -/
  rx : IndexRing UInt8
  putc : Option PutcPoint
  getc : Option GetcPoint

/-- What can happen next. -/
inductive K64fUartAction
  /-- The one task calls `uart_putc` and executes its first statement. -/
  | putc (c : UInt8)
  /-- Its next statement. -/
  | putcExec
  /-- The other task calls `uart_getc`. -/
  | getc
  /-- Its next statement. -/
  | getcExec
  /-- `UART0_RX_TX_IRQHandler`, with `TDRE` as it reads it, and the byte in `UART0->D` if it reads
  `RDRF`. -/
  | irq (tdre : Bool) (rdrf : Option UInt8)

/-- What is seen from outside: a byte is written to `UART0->D`, `uart_getc` returns a byte. -/
inductive K64fUartObs
  | sent (b : UInt8)
  | returned (b : UInt8)
  deriving DecidableEq

namespace K64fUart

variable (s : K64fUart)

/-- After `uart_init`, which does not clear the cells. -/
def init (txBuf rxBuf : ℕ → UInt8) : K64fUart where
  toUartTransmitter := .init txBuf
  rx := ⟨rxBuf, 0, 0⟩
  putc := none
  getc := none

/-- The next statement of `uart_putc`. -/
def putcStep (p : PutcPoint) : K64fUart :=
  { s with
    toUartTransmitter := (s.toUartTransmitter.putcStep p).1
    putc := (s.toUartTransmitter.putcStep p).2 }

/-- The next statement of `uart_getc`, and what it returns. -/
def getcStep : GetcPoint → K64fUart × List K64fUartObs
  | .wait => if s.rx.head = s.rx.tail then (s, []) else ({ s with getc := some .fetch }, [])
  | .fetch => ({ s with getc := some (.advance (s.rx.cell s.rx.tail)) }, [])
  | .advance c => ({ s with rx := s.rx.consume uartRxSize, getc := some (.done c) }, [])
  | .done c => ({ s with getc := none }, [.returned c])

/-- The part of the handler for `TDRE`. -/
def transmit (tdre : Bool) : K64fUart × List K64fUartObs :=
  ({ s with toUartTransmitter := (s.irqTx tdre).1 }, (s.irqTx tdre).2.map .sent)

/-- The part for `RDRF`. -/
def irqRx : Option UInt8 → K64fUart
  | some byte =>
    if IndexRing.succ uartRxSize s.rx.head ≠ s.rx.tail then
      { s with rx := (s.rx.store byte).publish (IndexRing.succ uartRxSize s.rx.head) }
    else s
  | none => s

/-- A step, with what is seen of it. -/
def step (s : K64fUart) : K64fUartAction → Option (K64fUart × List K64fUartObs)
  | .putc c =>
    match s.putc with
    | none => some ({ s with putc := some (s.putcFirst c) }, [])
    | some _ => none
  | .putcExec => s.putc.map fun p => (s.putcStep p, [])
  | .getc =>
    match s.getc with
    | none => some ({ s with getc := some .wait }, [])
    | some _ => none
  | .getcExec => s.getc.map s.getcStep
  | .irq tdre rdrf => some ((s.transmit tdre).1.irqRx rdrf, (s.transmit tdre).2)

end K64fUart

end TamgaOs
