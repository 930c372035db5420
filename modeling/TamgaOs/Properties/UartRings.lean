import TamgaOs.Drivers.UartRings
import TamgaOs.Library.Run

/-!
# The two rings of the console as queues

With one task on each side, the tasks and the handler share an index only as its reader: the head of
the transmit ring is moved by `uart_putc` alone, its tail by the handler alone, and the receive ring
is the mirror image. The invariant says at every program point what the comparison made before still
guarantees.

## Main definitions

* `UartTraffic`, `K64fUart.recorded`: the driver with the bytes put, sent, kept and returned so far.
* `K64fUart.TxSound`, `K64fUart.RxSound`: the invariants of the two rings.
* `K64fUart.Lossless`: the rings as seen from outside.

## Main results

* `uart_rings_lossless`: in every run.
-/

namespace TamgaOs

/-- The bytes so far. -/
structure UartTraffic where
  /-- Passed to `uart_putc`. -/
  put : List UInt8 := []
  /-- Written to `UART0->D`. -/
  sent : List UInt8 := []
  /-- Received while fewer than 63 bytes were unread. -/
  kept : List UInt8 := []
  /-- Returned by `uart_getc`. -/
  returned : List UInt8 := []

def K64fUartAction.putByte : K64fUartAction → Option UInt8
  | .putc c => some c
  | .putcExec | .getc | .getcExec | .irq _ _ => none

def K64fUartAction.arrived : K64fUartAction → Option UInt8
  | .irq _ rdrf => rdrf
  | .putc _ | .putcExec | .getc | .getcExec => none

def K64fUartObs.sentByte : K64fUartObs → Option UInt8
  | sent b => some b
  | returned _ => none

def K64fUartObs.returnedByte : K64fUartObs → Option UInt8
  | sent _ => none
  | returned b => some b

/-- The byte of a call of `uart_getc`, when the ring does not hold it any more. -/
def GetcPoint.byte : GetcPoint → Option UInt8
  | done c => some c
  | wait | fetch | advance _ => none

namespace K64fUart

/-- The bytes that the receive ring holds. -/
def unread (s : K64fUart) : List UInt8 := s.rx.items uartRxSize

/-- The bytes that the transmit ring holds. -/
def unsent (s : K64fUart) : List UInt8 := s.tx.items uartTxSize

/-- The bytes after a step. -/
def note (s : K64fUart) (a : K64fUartAction) (o : List K64fUartObs) (g : UartTraffic) :
    UartTraffic where
  put := g.put ++ a.putByte.toList
  sent := g.sent ++ o.filterMap K64fUartObs.sentByte
  kept := g.kept ++ if s.unread.length < 63 then a.arrived.toList else []
  returned := g.returned ++ o.filterMap K64fUartObs.returnedByte

/-- The driver with the bytes so far. -/
def recorded : K64fUart × UartTraffic → K64fUartAction →
    Option ((K64fUart × UartTraffic) × List K64fUartObs) :=
  Run.annotate step note

/-- The byte of a call of `uart_putc` that the ring does not hold yet. -/
def unput (s : K64fUart) : List UInt8 := (s.putc.bind PutcPoint.byte).toList

/-- The byte of a call of `uart_getc` that the ring does not hold any more. -/
def held (s : K64fUart) : List UInt8 := (s.getc.bind GetcPoint.byte).toList

/-- What `uart_putc` has read is still so. -/
def PutcRight (s : K64fUart) : PutcPoint → Prop
  | .wait n _ => n = IndexRing.succ uartTxSize s.tx.head
  | .store n _ => n = IndexRing.succ uartTxSize s.tx.head ∧ n ≠ s.tx.tail
  | .publish n c =>
    n = IndexRing.succ uartTxSize s.tx.head ∧ n ≠ s.tx.tail ∧ s.tx.cell s.tx.head = c
  | .load => True
  | .enable c2 => c2 = 0xAC

/-- What `uart_getc` has read is still so. -/
def GetcRight (s : K64fUart) : GetcPoint → Prop
  | .wait | .done _ => True
  | .fetch => s.rx.head ≠ s.rx.tail
  | .advance c => s.rx.head ≠ s.rx.tail ∧ s.rx.cell s.rx.tail = c

/-- The bytes put are those sent, those in the ring and the one of the call; and a byte in the ring
will be sent. -/
structure TxSound (s : K64fUart) (put sent : List UInt8) : Prop where
  inRange : s.tx.InRange uartTxSize
  point : ∀ p, s.putc = some p → s.PutcRight p
  order : sent ++ s.unsent ++ s.unput = put
  /-- No other bit of `UART0->C2` changes. -/
  c2 : s.c2 = 0x2C ∨ s.c2 = 0xAC
  served : s.unsent ≠ [] → s.tie = true ∨ ∃ p, s.putc = some p ∧ p.byte = none

/-- The bytes kept are those returned, the one of the call and those in the ring. -/
structure RxSound (s : K64fUart) (kept returned : List UInt8) : Prop where
  inRange : s.rx.InRange uartRxSize
  point : ∀ p, s.getc = some p → s.GetcRight p
  order : returned ++ s.held ++ s.unread = kept

variable {s s' : K64fUart} {put sent kept returned : List UInt8} {c b : UInt8}

/-! ### The transmit ring -/

namespace TxSound

/-- The receive ring and the task that gets are of no concern. -/
theorem congr (h : s.TxSound put sent) (htx : s'.tx = s.tx) (hc2 : s'.c2 = s.c2)
    (hputc : s'.putc = s.putc) : s'.TxSound put sent := by
  obtain ⟨⟨tx, c2⟩, rx, putc, getc⟩ := s
  obtain ⟨⟨tx', c2'⟩, rx', putc', getc'⟩ := s'
  cases htx
  cases hc2
  cases hputc
  refine ⟨h.inRange, fun p hp => ?_, h.order, h.c2, h.served⟩
  have hpoint := h.point p hp
  cases p <;> exact hpoint

theorem putc (h : s.TxSound put sent) (hp : s.putc = none) :
    { s with putc := some (s.putcFirst c) }.TxSound (put ++ [c]) sent where
  inRange := h.inRange
  point p hp := Option.some.inj hp ▸ rfl
  order := by
    have horder := h.order
    rw [unput, hp, Option.bind_none, Option.toList_none, List.append_nil] at horder
    rw [← horder]
    rfl
  c2 := h.c2
  served hne := by
    rcases h.served hne with htie | ⟨p, hp', -⟩
    · exact Or.inl htie
    · rw [hp] at hp'
      cases hp'

/-- The call goes on to another program point. -/
theorem goto (h : s.TxSound put sent) {p q : PutcPoint} (hp : s.putc = some p)
    (hq : s.PutcRight q) (hbyte : q.byte = p.byte) :
    { s with putc := some q }.TxSound put sent where
  inRange := h.inRange
  point r hr := by
    obtain rfl := Option.some.inj hr
    cases q <;> exact hq
  order := by
    rw [← h.order, unput, unput, hp, Option.bind_some, Option.bind_some, hbyte]
    rfl
  c2 := h.c2
  served hne := by
    refine (h.served hne).imp_right ?_
    rintro ⟨r, hr, hnone⟩
    obtain rfl := Option.some.inj (hp.symm.trans hr)
    exact ⟨q, rfl, hbyte.trans hnone⟩

theorem putcStep (h : s.TxSound put sent) {p : PutcPoint} (hp : s.putc = some p) :
    (s.putcStep p).TxSound put sent := by
  have hpoint := h.point p hp
  have horder := h.order
  rw [unput, hp, Option.bind_some] at horder
  cases p with
  | wait n c =>
    change { s with putc := some (if n = s.tx.tail then .wait n c else .store n c) }.TxSound put sent
    split_ifs with hfull
    · exact h.goto hp hpoint rfl
    · exact h.goto hp ⟨hpoint, hfull⟩ rfl
  | store n c =>
    have hstored : { s with tx := s.tx.store c }.TxSound put sent := by
      have hsame : (s.tx.store c).items uartTxSize = s.unsent := IndexRing.items_store h.inRange c
      refine ⟨⟨h.inRange.head, h.inRange.tail⟩, fun q hq => ?_, ?_, h.c2,
        fun hne => h.served (hsame ▸ hne)⟩
      · obtain rfl := Option.some.inj (hp.symm.trans hq)
        exact hpoint
      · rw [← h.order, unsent, hsame]
        rfl
    exact hstored.goto hp ⟨hpoint.1, hpoint.2, IndexRing.cell_store⟩ rfl
  | publish n c =>
    obtain ⟨rfl, hroom, hcell⟩ := hpoint
    have hpushed := IndexRing.items_publish h.inRange hroom
    rw [hcell] at hpushed
    refine ⟨h.inRange.publish (IndexRing.succ_lt h.inRange.head), fun q hq => ?_, ?_, h.c2,
      fun _ => Or.inr ⟨.load, rfl, rfl⟩⟩
    · obtain rfl := Option.some.inj hq
      trivial
    · rw [← horder, unsent]
      change sent ++ (s.tx.publish _).items uartTxSize ++ [] = sent ++ s.unsent ++ [c]
      rw [hpushed, ← List.append_assoc]
      exact List.append_nil _
  | load =>
    have hc2 : s.c2 ||| 0x80 = 0xAC := by rcases h.c2 with hc2 | hc2 <;> rw [hc2] <;> rfl
    exact h.goto hp hc2 rfl
  | enable c2 =>
    obtain rfl := hpoint
    refine ⟨h.inRange, fun q hq => ?_, horder, Or.inr rfl, fun _ => Or.inl ?_⟩
    · cases hq
    · show ((0xAC : UInt8) &&& 0x80 != 0) = true
      decide

/-- The handler sends the first byte, or disables the interrupt because there is none. -/
theorem transmit (h : s.TxSound put sent) (tdre : Bool) :
    (s.transmit tdre).1.TxSound put
      (sent ++ (s.transmit tdre).2.filterMap K64fUartObs.sentByte) := by
  unfold K64fUart.transmit UartTransmitter.irqTx
  split_ifs with htdre hne
  · have hpopped : s.unsent = s.tx.cell s.tx.tail :: (s.tx.consume uartTxSize).items uartTxSize :=
      IndexRing.items_consume h.inRange (Ne.symm hne)
    refine ⟨h.inRange.consume, fun p hp => ?_, ?_, h.c2,
      fun _ => h.served (by rw [hpopped]; exact List.cons_ne_nil _ _)⟩
    · have hpoint := h.point p hp
      -- the next tail is the next head only when the ring is empty
      have hroom : IndexRing.succ uartTxSize s.tx.head ≠ IndexRing.succ uartTxSize s.tx.tail :=
        fun he => hne ((IndexRing.succ_inj h.inRange.head h.inRange.tail).1 he).symm
      cases p with
      | wait n c => exact hpoint
      | store n c => exact ⟨hpoint.1, hpoint.1 ▸ hroom⟩
      | publish n c => exact ⟨hpoint.1, hpoint.1 ▸ hroom, hpoint.2.2⟩
      | load => trivial
      | enable c2 => exact hpoint
    · rw [← h.order, hpopped]
      simp [unsent, K64fUartObs.sentByte, unput]
  · have hempty : s.unsent = [] := (IndexRing.items_eq_nil_iff h.inRange).2 (not_not.1 hne).symm
    refine ⟨h.inRange, fun p hp => ?_, ?_, ?_, fun hne => absurd hempty hne⟩
    · have hpoint := h.point p hp
      cases p <;> exact hpoint
    · change sent ++ [] ++ s.unsent ++ s.unput = put
      rw [List.append_nil]
      exact h.order
    · left
      rcases h.c2 with hc2 | hc2 <;> simp only [hc2] <;> rfl
  · simpa using h

end TxSound

/-! ### The receive ring -/

namespace RxSound

theorem congr (h : s.RxSound kept returned) (hrx : s'.rx = s.rx) (hgetc : s'.getc = s.getc) :
    s'.RxSound kept returned := by
  obtain ⟨⟨tx, c2⟩, rx, putc, getc⟩ := s
  obtain ⟨⟨tx', c2'⟩, rx', putc', getc'⟩ := s'
  cases hrx
  cases hgetc
  refine ⟨h.inRange, fun p hp => ?_, h.order⟩
  have hpoint := h.point p hp
  cases p <;> exact hpoint

theorem getc (h : s.RxSound kept returned) (hp : s.getc = none) :
    { s with getc := some .wait }.RxSound kept returned where
  inRange := h.inRange
  point p hp := Option.some.inj hp ▸ trivial
  order := by
    rw [← h.order, held, held, hp]
    rfl

theorem getcStep (h : s.RxSound kept returned) {p : GetcPoint} (hp : s.getc = some p) :
    (s.getcStep p).1.RxSound kept
      (returned ++ (s.getcStep p).2.filterMap K64fUartObs.returnedByte) := by
  have hpoint := h.point p hp
  have horder := h.order
  rw [held, hp, Option.bind_some] at horder
  cases p with
  | wait =>
    rw [K64fUart.getcStep]
    split_ifs with hempty
    · simpa using h
    · refine ⟨h.inRange, fun q hq => ?_, ?_⟩
      · obtain rfl := Option.some.inj hq
        exact hempty
      · rw [List.filterMap_nil, List.append_nil]
        exact horder
  | fetch =>
    refine ⟨h.inRange, fun q hq => ?_, ?_⟩
    · obtain rfl := Option.some.inj hq
      exact ⟨hpoint, rfl⟩
    · rw [K64fUart.getcStep, List.filterMap_nil, List.append_nil]
      exact horder
  | advance c =>
    obtain ⟨hne, rfl⟩ := hpoint
    have hpopped : s.unread = s.rx.cell s.rx.tail :: (s.rx.consume uartRxSize).items uartRxSize :=
      IndexRing.items_consume h.inRange hne
    refine ⟨h.inRange.consume, fun q hq => ?_, ?_⟩
    · obtain rfl := Option.some.inj hq
      trivial
    · rw [← horder, hpopped]
      simp [K64fUart.getcStep, held, unread, GetcPoint.byte]
  | done c =>
    refine ⟨h.inRange, fun q hq => ?_, ?_⟩
    · cases hq
    · rw [← horder]
      simp [K64fUart.getcStep, held, unread, GetcPoint.byte, K64fUartObs.returnedByte]

/-- The comparison of the handler asks whether 63 bytes are unread. -/
theorem full_iff (h : s.RxSound kept returned) :
    IndexRing.succ uartRxSize s.rx.head = s.rx.tail ↔ ¬ s.unread.length < 63 := by
  have hlt := IndexRing.count_lt h.inRange
  rw [← IndexRing.length_items] at hlt
  rw [IndexRing.full_iff h.inRange, unread]
  unfold uartRxSize at *
  omega

/-- A byte that arrives is stored behind the others, or dropped. -/
theorem unread_irqRx (h : s.RxSound kept returned) (b : UInt8) :
    (s.irqRx (some b)).unread = s.unread ++ if s.unread.length < 63 then [b] else [] := by
  by_cases hroom : s.unread.length < 63
  · have hin : (s.rx.store b).InRange uartRxSize := ⟨h.inRange.head, h.inRange.tail⟩
    have hfree : IndexRing.succ uartRxSize s.rx.head ≠ s.rx.tail :=
      fun he => h.full_iff.1 he hroom
    rw [K64fUart.irqRx, if_pos hfree, if_pos hroom]
    have hpushed := IndexRing.items_publish hin hfree
    rw [IndexRing.items_store h.inRange, IndexRing.head_store, IndexRing.cell_store] at hpushed
    exact hpushed
  · rw [K64fUart.irqRx, if_neg (not_not.2 (h.full_iff.2 hroom)), if_neg hroom, List.append_nil]

theorem irqRx (h : s.RxSound kept returned) (rdrf : Option UInt8) :
    (s.irqRx rdrf).RxSound
      (kept ++ if s.unread.length < 63 then rdrf.toList else []) returned := by
  cases rdrf with
  | none => simpa [K64fUart.irqRx] using h
  | some b =>
    have hunread := h.unread_irqRx b
    have hheld : (s.irqRx (some b)).held = s.held := by
      unfold K64fUart.irqRx
      split_ifs <;> rfl
    refine ⟨?_, fun p hp => ?_, ?_⟩
    · unfold K64fUart.irqRx
      split_ifs
      · exact ⟨IndexRing.succ_lt h.inRange.head, h.inRange.tail⟩
      · exact h.inRange
    · unfold K64fUart.irqRx at hp ⊢
      split_ifs at hp ⊢ with hroom
      · have hpoint := h.point p hp
        cases p with
        | wait | done c => trivial
        | fetch => exact hroom
        | advance c =>
          refine ⟨hroom, ?_⟩
          rw [← hpoint.2]
          exact IndexRing.cell_store_of_ne hpoint.1.symm
      · exact h.point p hp
    · rw [hunread, hheld, ← List.append_assoc, h.order]
      rfl

end RxSound

/-! ### The handler and the tasks -/

theorem transmit_returned (s : K64fUart) (tdre : Bool) :
    (s.transmit tdre).2.filterMap K64fUartObs.returnedByte = [] := by
  unfold transmit
  rw [List.filterMap_map]
  exact List.filterMap_eq_nil_iff.2 fun _ _ => rfl

theorem irqRx_keeps (s : K64fUart) (rdrf : Option UInt8) :
    (s.irqRx rdrf).tx = s.tx ∧ (s.irqRx rdrf).c2 = s.c2 ∧ (s.irqRx rdrf).putc = s.putc := by
  unfold irqRx
  split
  · split_ifs <;> exact ⟨rfl, rfl, rfl⟩
  · exact ⟨rfl, rfl, rfl⟩

theorem getcStep_keeps (s : K64fUart) (p : GetcPoint) :
    (s.getcStep p).1.tx = s.tx ∧ (s.getcStep p).1.c2 = s.c2 ∧ (s.getcStep p).1.putc = s.putc ∧
      (s.getcStep p).2.filterMap K64fUartObs.sentByte = [] := by
  unfold getcStep
  split
  · split_ifs <;> exact ⟨rfl, rfl, rfl, rfl⟩
  all_goals exact ⟨rfl, rfl, rfl, rfl⟩

/-- Both invariants, for the bytes so far. -/
structure Sound (s : K64fUart) (g : UartTraffic) : Prop where
  tx : s.TxSound g.put g.sent
  rx : s.RxSound g.kept g.returned

theorem Sound.step {g g' : UartTraffic} {a : K64fUartAction} {o : List K64fUartObs}
    (h : s.Sound g) (hs : recorded (s, g) a = some ((s', g'), o)) : s'.Sound g' := by
  obtain ⟨hstep, rfl⟩ := Run.annotate_eq_some.1 hs
  cases a with
  | putc c =>
    simp only [K64fUart.step] at hstep
    split at hstep
    · rename_i hp
      cases hstep
      have hrx : { s with putc := some (s.putcFirst c) }.RxSound g.kept g.returned :=
        h.rx.congr rfl rfl
      refine ⟨?_, ?_⟩
      · simpa [note, K64fUartAction.putByte] using h.tx.putc hp
      · simpa [note, K64fUartAction.arrived] using hrx
    · cases hstep
  | putcExec =>
    obtain ⟨p, hp, he⟩ := Option.map_eq_some_iff.1 hstep
    cases he
    have hrx : (s.putcStep p).RxSound g.kept g.returned := h.rx.congr rfl rfl
    refine ⟨?_, ?_⟩
    · simpa [note, K64fUartAction.putByte] using h.tx.putcStep hp
    · simpa [note, K64fUartAction.arrived] using hrx
  | getc =>
    simp only [K64fUart.step] at hstep
    split at hstep
    · rename_i hp
      cases hstep
      have htx : { s with getc := some .wait }.TxSound g.put g.sent := h.tx.congr rfl rfl rfl
      refine ⟨?_, ?_⟩
      · simpa [note, K64fUartAction.putByte] using htx
      · simpa [note, K64fUartAction.arrived] using h.rx.getc hp
    · cases hstep
  | getcExec =>
    obtain ⟨p, hp, he⟩ := Option.map_eq_some_iff.1 hstep
    obtain ⟨htx, hc2, hputc, hsent⟩ := s.getcStep_keeps p
    rw [he] at htx hc2 hputc hsent
    have hrx := h.rx.getcStep hp
    rw [he] at hrx
    refine ⟨?_, ?_⟩
    · simpa [note, K64fUartAction.putByte, hsent] using h.tx.congr htx hc2 hputc
    · simpa [note, K64fUartAction.arrived] using hrx
  | irq tdre rdrf =>
    cases hstep
    obtain ⟨htx, hc2, hputc⟩ := (s.transmit tdre).1.irqRx_keeps rdrf
    have hsame : (s.transmit tdre).1.RxSound g.kept g.returned := h.rx.congr rfl rfl
    have hrx : ((s.transmit tdre).1.irqRx rdrf).RxSound
        (g.kept ++ if s.unread.length < 63 then rdrf.toList else []) g.returned :=
      hsame.irqRx rdrf
    refine ⟨?_, ?_⟩
    · simpa [note, K64fUartAction.putByte] using (h.tx.transmit tdre).congr htx hc2 hputc
    · simpa [note, K64fUartAction.arrived, s.transmit_returned] using hrx

theorem Sound.init (txBuf rxBuf : ℕ → UInt8) : (init txBuf rxBuf).Sound {} := by
  have htx : (K64fUart.init txBuf rxBuf).tx.InRange uartTxSize :=
    ⟨Nat.zero_lt_succ _, Nat.zero_lt_succ _⟩
  have hrx : (K64fUart.init txBuf rxBuf).rx.InRange uartRxSize :=
    ⟨Nat.zero_lt_succ _, Nat.zero_lt_succ _⟩
  have hunsent : (K64fUart.init txBuf rxBuf).unsent = [] := (IndexRing.items_eq_nil_iff htx).2 rfl
  have hunread : (K64fUart.init txBuf rxBuf).unread = [] := (IndexRing.items_eq_nil_iff hrx).2 rfl
  refine ⟨⟨htx, fun p hp => ?_, ?_, Or.inl rfl, fun hne => absurd hunsent hne⟩,
    ⟨hrx, fun p hp => ?_, ?_⟩⟩
  · cases hp
  · rw [hunsent]
    rfl
  · cases hp
  · rw [hunread]
    rfl

theorem sound_of_reach {txBuf rxBuf : ℕ → UInt8} {g : UartTraffic} {out : List K64fUartObs}
    (h : Run.Reach recorded (fun _ _ => True) (K64fUart.init txBuf rxBuf, {}) (s, g) out) :
    s.Sound g := by
  refine h.invariant (I := fun p => p.1.Sound p.2) (.init txBuf rxBuf) ?_
  rintro ⟨s, g⟩ ⟨s', g'⟩ a o hI - hs
  exact hI.step hs

/-- The rings as seen from outside. -/
structure Lossless (s : K64fUart) (g : UartTraffic) : Prop where
  /-- The bytes put have been sent, in this order, or are in the ring, or in the call. -/
  transmitted : g.sent ++ s.unsent ++ s.unput = g.put
  /-- The bytes kept have been returned, in this order, or are in the call, or unread. -/
  received : g.returned ++ s.held ++ s.unread = g.kept
  /-- A byte arrives. -/
  arrival : ∀ tdre b s' o, s.step (.irq tdre (some b)) = some (s', o) →
    (s.unread.length < 63 → s'.unread = s.unread ++ [b]) ∧
      (¬ s.unread.length < 63 → s'.rx = s.rx)
  unread_le : s.unread.length ≤ 63
  txInRange : s.tx.InRange uartTxSize
  rxInRange : s.rx.InRange uartRxSize
  /-- No byte is stuck. -/
  served : s.unsent ≠ [] → s.putc = none → s.tie = true

theorem Sound.lossless {g : UartTraffic} (h : s.Sound g) : s.Lossless g where
  transmitted := h.tx.order
  received := h.rx.order
  arrival tdre b s' o hs := by
    cases hs
    have hrx : (s.transmit tdre).1.RxSound g.kept g.returned := h.rx.congr rfl rfl
    refine ⟨fun hroom => ?_, fun hfull => ?_⟩
    · rw [hrx.unread_irqRx]
      exact congrArg _ (if_pos hroom)
    · rw [irqRx, if_neg (not_not.2 (hrx.full_iff.2 hfull))]
      rfl
  unread_le := by
    have hlt := IndexRing.count_lt h.rx.inRange
    rw [← IndexRing.length_items] at hlt
    exact Nat.le_of_lt_succ hlt
  txInRange := h.tx.inRange
  rxInRange := h.rx.inRange
  served hne hp := by
    rcases h.tx.served hne with htie | ⟨p, hp', -⟩
    · exact htie
    · rw [hp] at hp'
      cases hp'

end K64fUart

open K64fUart in
/-- One task puts bytes, one gets bytes, and the handler comes at any point. -/
theorem uart_rings_lossless {txBuf rxBuf : ℕ → UInt8} {s : K64fUart} {g : UartTraffic}
    {out : List K64fUartObs}
    (h : Run.Reach recorded (fun _ _ => True) (init txBuf rxBuf, {}) (s, g) out) : s.Lossless g :=
  (sound_of_reach h).lossless

namespace K64fUart

/-- The handler finds the ring empty between the load of `UART0->C2` and its store, and comes once
more before the byte put next is stored. -/
def echo : List K64fUartAction :=
  [.putc 97, .putcExec, .putcExec, .putcExec, .putcExec, .irq true (some 98), .irq true none,
    .putcExec, .getc, .getcExec, .getcExec, .putc 99, .irq true (some 100), .putcExec, .putcExec,
    .getcExec, .getcExec, .putcExec]

theorem echo_possible :
    (Run.exec recorded (init (fun _ => 0) (fun _ => 0), {}) echo).isSome = true := by
  decide +kernel

end K64fUart

open K64fUart in
theorem uart_rings_lossless_echo :
    let r := (Run.exec recorded (init (fun _ => 0) (fun _ => 0), {}) echo).get echo_possible
    r.1.1.Lossless r.1.2 ∧ r.1.1.unsent = [99] ∧ r.1.1.unread = [100] ∧
      r.2 = [.sent 97, .returned 98] := by
  intro r
  have hrun : Run.Reach recorded (fun _ _ => True) (init (fun _ => 0) (fun _ => 0), {})
      (r.1.1, r.1.2) r.2 := .exec (.of_forall _ fun _ _ _ => trivial) echo_possible
  exact ⟨uart_rings_lossless hrun, by decide +kernel, by decide +kernel, by decide +kernel⟩

end TamgaOs
