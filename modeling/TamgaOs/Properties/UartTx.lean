import TamgaOs.Drivers.Uart
import TamgaOs.Library.Run
import Mathlib.Data.Fintype.Basic

/-!
# The byte stream of the console

Several tasks put bytes into the transmit ring. `uart_putc` reads the head twice and stores to it
without any protection, so that a task may use a head that another one has moved since.

## Main definitions

* `UartTx.recorded`: the transmitter with the bytes that every task has passed.
* `UartTx.Uncorrupted`: what has been sent and what the ring holds is an interleaving of them.
* `UartTx.OwnsHead`: the condition on the store of a byte.

## Main results

* `uart_uncorrupted`: along the runs whose stores meet the condition.
* `uart_loses`: two tasks read the same head.
-/

namespace TamgaOs

/-- The rest of the call enables the interrupt. -/
def PutcPoint.enables : PutcPoint → Bool
  | load => true
  | enable c2 => c2 &&& 0x80 != 0
  | wait _ _ | store _ _ | publish _ _ => false

namespace UartTx

variable {τ : Type*} [DecidableEq τ]

/-- The bytes passed to `uart_putc` so far. -/
def pass (_ : UartTx τ) (a : UartAction τ) (_ : List UInt8) (passed : τ → List UInt8) :
    τ → List UInt8 :=
  match a with
  | .putc t c => Function.update passed t (passed t ++ [c])
  | _ => passed

/-- The transmitter with the bytes that the tasks have passed. -/
def recorded : UartTx τ × (τ → List UInt8) → UartAction τ →
    Option ((UartTx τ × (τ → List UInt8)) × List UInt8) :=
  Run.annotate step pass

/-- The bytes sent, and after them the bytes in the ring, are an interleaving of the bytes that the
tasks have passed and published; and a byte in the ring will be sent. -/
structure Uncorrupted (s : UartTx τ) (passed : τ → List UInt8) (sent : List UInt8) : Prop where
  interleaved : ∃ order : List (τ × UInt8), sent ++ s.pending = order.map Prod.snd ∧
    ∀ t, passed t = (order.filter fun p => p.1 = t).map Prod.snd ++ s.unpublished t
  served : s.pending ≠ [] → s.tie = true ∨ ∃ t, ∃ p ∈ s.ctl t, p.enables = true

/-- When a task stores its byte, the head is still the one that it has read, there is still room, and
no other task has stored a byte to the same cell that is not published yet. -/
def OwnsHead (s : UartTx τ) : UartAction τ → Prop
  | .exec t =>
    match s.ctl t with
    | some (.store nextHead _) => nextHead = IndexRing.succ uartTxSize s.tx.head ∧
      nextHead ≠ s.tx.tail ∧ ∀ u n c, s.ctl u ≠ some (.publish n c)
    | _ => True
  | _ => True

/-- One task at most is about to publish a byte, which is in the cell at the head; a task that has
published one will enable the interrupt. -/
structure Coherent (s : UartTx τ) : Prop where
  inRange : s.tx.InRange uartTxSize
  publish : ∀ t n c, s.ctl t = some (.publish n c) →
    n = IndexRing.succ uartTxSize s.tx.head ∧ n ≠ s.tx.tail ∧ s.tx.cell s.tx.head = c
  unique : ∀ t u n c n' c', s.ctl t = some (.publish n c) → s.ctl u = some (.publish n' c') → t = u
  enables : ∀ t, ∀ p ∈ s.ctl t, p.byte = none → p.enables = true

variable {s s' : UartTx τ} {passed : τ → List UInt8} {sent : List UInt8} {t : τ} {c : UInt8}
  {n : ℕ}

omit [DecidableEq τ] in
/-- The invariant does not depend on `UART0->C2`. -/
theorem Coherent.withC2 (h : s.Coherent) (c2 : UInt8) : { s with c2 := c2 }.Coherent :=
  ⟨h.inRange, h.publish, h.unique, h.enables⟩

/-! ### One step -/

theorem goto_ctl (s : UartTx τ) (t : τ) (x : Option PutcPoint) (u : τ) :
    (s.goto t x).ctl u = if u = t then x else s.ctl u := by
  by_cases hu : u = t
  · subst hu
    simp [goto]
  · simp [goto, hu]

theorem unpublished_goto (s : UartTx τ) (t : τ) (x : Option PutcPoint) (u : τ) :
    (s.goto t x).unpublished u = if u = t then (x.bind PutcPoint.byte).toList else s.unpublished u := by
  unfold unpublished
  rw [goto_ctl]
  split_ifs <;> rfl

/-- A task goes on with the same byte. -/
theorem unpublished_goto_same {x : Option PutcPoint}
    (hx : (x.bind PutcPoint.byte).toList = s.unpublished t) (u : τ) :
    (s.goto t x).unpublished u = s.unpublished u := by
  rw [unpublished_goto]
  split_ifs with hu
  · rw [hx, hu]
  · rfl

/-- A task goes on to a program point other than the publication. -/
theorem Coherent.goto (h : s.Coherent) {x : Option PutcPoint}
    (hx : ∀ p ∈ x, p.publishes = false ∧ (p.byte = none → p.enables = true)) :
    (s.goto t x).Coherent := by
  have hctl : ∀ u n c, (s.goto t x).ctl u = some (.publish n c) → s.ctl u = some (.publish n c) := by
    intro u n c hu
    rw [goto_ctl] at hu
    split_ifs at hu
    · cases (hx _ hu).1
    · exact hu
  refine ⟨h.inRange, fun u n c hu => h.publish u n c (hctl u n c hu),
    fun u v n c n' c' hu hv => h.unique u v n c n' c' (hctl u n c hu) (hctl v n' c' hv),
    fun u p hp => ?_⟩
  rw [goto_ctl] at hp
  split_ifs at hp
  · exact (hx p hp).2
  · exact h.enables u p hp

/-- A byte is stored to the cell at the head by the only task that is about to publish one. -/
theorem Coherent.store (h : s.Coherent) (hn : n = IndexRing.succ uartTxSize s.tx.head)
    (hroom : n ≠ s.tx.tail) (halone : ∀ u n' c', s.ctl u ≠ some (.publish n' c')) :
    ({ s with tx := s.tx.store c }.goto t (some (.publish n c))).Coherent := by
  have hctl : ∀ u n' c', ({ s with tx := s.tx.store c }.goto t (some (.publish n c))).ctl u =
      some (.publish n' c') → u = t ∧ n' = n ∧ c' = c := by
    intro u n' c' hu
    rw [goto_ctl] at hu
    split_ifs at hu with hut
    · cases hu
      exact ⟨hut, rfl, rfl⟩
    · exact absurd hu (halone u n' c')
  refine ⟨⟨h.inRange.head, h.inRange.tail⟩, fun u n' c' hu => ?_,
    fun u v n₁ c₁ n₂ c₂ hu hv => ?_, fun u p hp => ?_⟩
  · obtain ⟨-, rfl, rfl⟩ := hctl u n' c' hu
    exact ⟨hn, hroom, IndexRing.cell_store⟩
  · exact (hctl u n₁ c₁ hu).1.trans (hctl v n₂ c₂ hv).1.symm
  · rw [goto_ctl] at hp
    split_ifs at hp
    · cases hp
      nofun
    · exact h.enables u p hp

theorem Coherent.published (h : s.Coherent) (ht : s.ctl t = some (.publish n c)) :
    ({ s with tx := s.tx.publish n }.goto t (some .load)).Coherent := by
  have hnone : ∀ u n' c', ({ s with tx := s.tx.publish n }.goto t (some .load)).ctl u ≠
      some (.publish n' c') := by
    intro u n' c' hu
    rw [goto_ctl] at hu
    split_ifs at hu with hut
    · cases hu
    · exact hut (h.unique u t n' c' n c hu ht)
  obtain ⟨rfl, -, -⟩ := h.publish t n c ht
  refine ⟨h.inRange.publish (IndexRing.succ_lt h.inRange.head),
    fun u n' c' hu => absurd hu (hnone u n' c'), fun u _ n' c' _ _ hu => absurd hu (hnone u n' c'),
    fun u p hp => ?_⟩
  rw [goto_ctl] at hp
  split_ifs at hp
  · cases hp
    exact fun _ => rfl
  · exact h.enables u p hp

omit [DecidableEq τ] in
theorem Coherent.pop (h : s.Coherent) (hne : s.tx.tail ≠ s.tx.head) :
    { s with tx := s.tx.consume uartTxSize }.Coherent := by
  refine ⟨h.inRange.consume, fun u n c hu => ?_, h.unique, h.enables⟩
  obtain ⟨rfl, -, hcell⟩ := h.publish u n c hu
  -- the next tail is the next head only when the ring is empty
  exact ⟨rfl, fun he => hne ((IndexRing.succ_inj h.inRange.head h.inRange.tail).1 he).symm, hcell⟩

/-- The value that is stored to `UART0->C2` has bit 7. -/
theorem enables_or (c2 : UInt8) : (PutcPoint.enable (c2 ||| 0x80)).enables = true := by
  have hbit : (c2 ||| 0x80) &&& 0x80 = 0x80 := by
    refine UInt8.toBitVec_inj.1 (BitVec.eq_of_getLsbD_eq fun i _ => ?_)
    rw [UInt8.toBitVec_and, UInt8.toBitVec_or, BitVec.getLsbD_and, BitVec.getLsbD_or]
    cases c2.toBitVec.getLsbD i <;> simp
  exact (congrArg (· != 0) hbit).trans rfl

/-- The published bytes are as they were. -/
theorem Uncorrupted.same (h : s.Uncorrupted passed sent) (hpending : s'.pending = s.pending)
    (hunpublished : ∀ u, s'.unpublished u = s.unpublished u)
    (hserved : (s.tie = true ∨ ∃ u, ∃ p ∈ s.ctl u, p.enables = true) →
      s'.tie = true ∨ ∃ u, ∃ p ∈ s'.ctl u, p.enables = true) : s'.Uncorrupted passed sent := by
  obtain ⟨⟨order, hsent, hpassed⟩, hwas⟩ := h
  refine ⟨⟨order, by rw [hpending, hsent], fun u => by rw [hunpublished, hpassed]⟩, fun hne => ?_⟩
  exact hserved (hwas (hpending ▸ hne))

/-- A task that is not about to enable the interrupt leaves the others that are. -/
theorem enables_goto {x : Option PutcPoint} (ht : ∀ p ∈ s.ctl t, p.enables = false)
    (h : ∃ u, ∃ p ∈ s.ctl u, p.enables = true) :
    ∃ u, ∃ p ∈ (s.goto t x).ctl u, p.enables = true := by
  obtain ⟨u, p, hu, hp⟩ := h
  refine ⟨u, p, ?_, hp⟩
  have hut : u ≠ t := by
    rintro rfl
    exact absurd hp (by simp [ht p hu])
  rw [goto_ctl, if_neg hut]
  exact hu

theorem Uncorrupted.putc (h : s.Uncorrupted passed sent) (ht : s.ctl t = none) :
    (s.goto t (some (.wait n c))).Uncorrupted (Function.update passed t (passed t ++ [c])) sent := by
  obtain ⟨⟨order, hsent, hpassed⟩, hserved⟩ := h
  refine ⟨⟨order, hsent, fun u => ?_⟩, fun hne => ?_⟩
  · rw [unpublished_goto]
    by_cases hu : u = t
    · subst hu
      rw [Function.update_self, if_pos rfl, hpassed, unpublished, ht]
      simp [PutcPoint.byte]
    · rw [Function.update_of_ne hu, if_neg hu, hpassed]
  · exact (hserved hne).imp_right (enables_goto (by simp [ht]))

/-- The byte that is published is behind all others. -/
theorem Uncorrupted.published (h : s.Uncorrupted passed sent) (hc : s.Coherent)
    (ht : s.ctl t = some (.publish n c)) :
    ({ s with tx := s.tx.publish n }.goto t (some .load)).Uncorrupted passed sent := by
  obtain ⟨⟨order, hsent, hpassed⟩, -⟩ := h
  obtain ⟨rfl, hroom, hcell⟩ := hc.publish t n c ht
  have hpushed := IndexRing.items_publish hc.inRange hroom
  refine ⟨⟨order ++ [(t, c)], ?_, fun u => ?_⟩, fun _ => Or.inr ⟨t, .load, by simp [goto], rfl⟩⟩
  · show sent ++ (s.tx.publish _).items uartTxSize = _
    rw [hpushed, ← List.append_assoc, hcell, List.map_append, ← hsent]
    rfl
  · rw [unpublished_goto, hpassed, List.filter_append, List.map_append]
    by_cases hu : u = t
    · subst hu
      simp [unpublished, ht, PutcPoint.byte]
    · rw [if_neg hu]
      simp [Ne.symm hu, unpublished]

theorem Uncorrupted.pop (h : s.Uncorrupted passed sent) (hc : s.Coherent)
    (hne : s.tx.tail ≠ s.tx.head) :
    { s with tx := s.tx.consume uartTxSize }.Uncorrupted passed
      (sent ++ [s.tx.cell s.tx.tail]) := by
  obtain ⟨⟨order, hsent, hpassed⟩, hserved⟩ := h
  have hpop : s.pending = s.tx.cell s.tx.tail :: (s.tx.consume uartTxSize).items uartTxSize :=
    IndexRing.items_consume hc.inRange hne.symm
  refine ⟨⟨order, ?_, hpassed⟩, fun _ => hserved (by rw [hpop]; exact List.cons_ne_nil _ _)⟩
  rw [List.append_assoc, ← hsent, hpop]
  rfl

/-- A statement of `uart_putc`. -/
theorem uncorrupted_putcStep {p : PutcPoint} (hc : s.Coherent) (h : s.Uncorrupted passed sent)
    (hok : s.OwnsHead (.exec t)) (ht : s.ctl t = some p) :
    (s.putcStep t p).Coherent ∧ (s.putcStep t p).Uncorrupted passed sent := by
  have hbyte : s.unpublished t = p.byte.toList := by rw [unpublished, ht, Option.bind_some]
  cases p with
  | wait n c =>
    let q : PutcPoint := if n = s.tx.tail then .wait n c else .store n c
    have hq : q.publishes = false ∧ q.byte = some c := by
      unfold q
      split_ifs <;> exact ⟨rfl, rfl⟩
    have hgoto : (s.goto t (some q)).Coherent := hc.goto fun r hr => by
      cases hr
      exact ⟨hq.1, fun hnone => absurd (hq.2.symm.trans hnone) (Option.some_ne_none c)⟩
    have hsame : (some q).bind PutcPoint.byte = some c := hq.2
    have hpublished : ∀ u, (s.goto t (some q)).unpublished u = s.unpublished u :=
      unpublished_goto_same (by rw [hbyte, hsame]; rfl)
    refine ⟨hgoto, h.same rfl hpublished (Or.imp_right (enables_goto ?_))⟩
    simp [ht, PutcPoint.enables]
  | store n c =>
    simp only [OwnsHead, ht] at hok
    obtain ⟨hn, hroom, halone⟩ := hok
    refine ⟨hc.store hn hroom halone, h.same (IndexRing.items_store hc.inRange c)
      (unpublished_goto_same (s := { s with tx := s.tx.store c }) hbyte.symm)
      (Or.imp_right (enables_goto (s := { s with tx := s.tx.store c }) ?_))⟩
    simp [ht, PutcPoint.enables]
  | publish n c => exact ⟨hc.published ht, h.published hc ht⟩
  | load =>
    have hbit : (PutcPoint.enable (s.c2 ||| 0x80)).enables = true := enables_or s.c2
    refine ⟨hc.goto fun r hr => ?_, h.same rfl (unpublished_goto_same hbyte.symm) fun _ =>
      Or.inr ⟨t, .enable (s.c2 ||| 0x80), by simp [goto, putcStep, UartTransmitter.putcStep], hbit⟩⟩
    cases hr
    exact ⟨rfl, fun _ => hbit⟩
  | enable c2 =>
    refine ⟨(hc.withC2 c2).goto (x := none) (by simp), h.same rfl
      (unpublished_goto_same (s := { s with c2 := c2 }) hbyte.symm) fun _ => Or.inl ?_⟩
    exact hc.enables t _ ht rfl

/-- The part of the handler for the transmitter. -/
theorem uncorrupted_irqTx (hc : s.Coherent) (h : s.Uncorrupted passed sent) (tdre : Bool) :
    { s with toUartTransmitter := (s.irqTx tdre).1 }.Coherent ∧
      { s with toUartTransmitter := (s.irqTx tdre).1 }.Uncorrupted passed
        (sent ++ (s.irqTx tdre).2) := by
  unfold UartTransmitter.irqTx
  split_ifs with htdre hne
  · exact ⟨hc.pop hne, h.pop hc hne⟩
  · have hempty : s.pending = [] := (IndexRing.items_eq_nil_iff hc.inRange).2 (not_not.1 hne).symm
    rw [List.append_nil]
    exact ⟨hc.withC2 _, h.interleaved, fun hne => absurd hempty hne⟩
  · rw [List.append_nil]
    exact ⟨hc, h⟩

theorem uncorrupted_step {a : UartAction τ} {passed' : τ → List UInt8} {o : List UInt8}
    (hc : s.Coherent) (h : s.Uncorrupted passed sent) (hok : s.OwnsHead a)
    (hs : recorded (s, passed) a = some ((s', passed'), o)) :
    s'.Coherent ∧ s'.Uncorrupted passed' (sent ++ o) := by
  obtain ⟨hstep, rfl⟩ := Run.annotate_eq_some.1 hs
  cases a with
  | putc t c =>
    simp only [step] at hstep
    split at hstep
    · rename_i ht
      cases hstep
      rw [List.append_nil]
      exact ⟨hc.goto (by simp [UartTransmitter.putcFirst, PutcPoint.publishes, PutcPoint.byte]),
        h.putc ht⟩
    · cases hstep
  | exec t =>
    simp only [step] at hstep
    split at hstep
    · cases hstep
    · rename_i p ht
      cases hstep
      rw [List.append_nil]
      exact uncorrupted_putcStep hc h hok ht
  | irq tdre =>
    cases hstep
    exact uncorrupted_irqTx hc h tdre

omit [DecidableEq τ] in
theorem coherent_init : (init : UartTx τ).Coherent :=
  ⟨⟨Nat.zero_lt_succ _, Nat.zero_lt_succ _⟩, fun _ _ _ h => (by cases h),
    fun _ _ _ _ _ _ h => (by cases h), fun _ _ h => (by cases h)⟩

omit [DecidableEq τ] in
theorem pending_init : (init : UartTx τ).pending = [] :=
  (IndexRing.items_eq_nil_iff coherent_init.inRange).2 rfl

theorem uncorrupted_init : (init : UartTx τ).Uncorrupted (fun _ => []) [] :=
  ⟨⟨[], pending_init, fun _ => rfl⟩, fun h => absurd pending_init h⟩

omit [DecidableEq τ] in
theorem no_publish_iff : (∀ u, ∀ x ∈ s.ctl u, x.publishes = false) ↔
    ∀ u n c, s.ctl u ≠ some (.publish n c) := by
  constructor
  · intro h u n c hu
    cases h u _ hu
  · intro h u x hx
    cases x with
    | publish n c => exact absurd hx (h u n c)
    | wait | store | load | enable => rfl

instance [Fintype τ] (s : UartTx τ) (a : UartAction τ) : Decidable (s.OwnsHead a) := by
  unfold OwnsHead
  split
  · split
    · have : Decidable (∀ u n c, s.ctl u ≠ some (.publish n c)) := decidable_of_iff _ no_publish_iff
      infer_instance
    · infer_instance
  · infer_instance

end UartTx

open UartTx in
/-- Whatever the number of tasks, the console sends an interleaving of their bytes as long as no task
stores a byte with a head that is not its own any more. -/
theorem uart_uncorrupted {τ : Type*} [DecidableEq τ] {s : UartTx τ} {passed : τ → List UInt8}
    {sent : List UInt8}
    (h : Run.Reach recorded (fun p a => p.1.OwnsHead a) (init, fun _ => []) (s, passed) sent) :
    s.Uncorrupted passed sent := by
  have hinv : (s, passed).1.Coherent ∧ (s, passed).1.Uncorrupted (s, passed).2 sent := by
    refine h.induct (I := fun p sent => p.1.Coherent ∧ p.1.Uncorrupted p.2 sent)
      ⟨coherent_init, uncorrupted_init⟩ ?_
    rintro ⟨s, passed⟩ ⟨s', passed'⟩ a out o - ⟨hc, hu⟩ hok hs
    exact uncorrupted_step hc hu hok hs
  exact hinv.2

namespace UartTx

/-- A whole call of `uart_putc` that does not have to wait. -/
def putc (t : τ) (c : UInt8) : List (UartAction τ) :=
  [.putc t c, .exec t, .exec t, .exec t, .exec t, .exec t]

/-- The second task comes between the publication of the first one and its store to `C2`. -/
def twoPuts : List (UartAction (Fin 2)) :=
  (putc ⟨0, Nat.zero_lt_two⟩ 97).take 4 ++ putc ⟨1, Nat.one_lt_two⟩ 98 ++
    [.irq true, .exec ⟨0, Nat.zero_lt_two⟩, .exec ⟨0, Nat.zero_lt_two⟩]

/-- The second task puts its byte after the first one has read the head. -/
def sameHead : List (UartAction (Fin 2)) :=
  (putc ⟨0, Nat.zero_lt_two⟩ 97).take 1 ++ putc ⟨1, Nat.one_lt_two⟩ 98 ++
    (putc ⟨0, Nat.zero_lt_two⟩ 97).drop 1

theorem twoPuts_possible : (Run.exec recorded (init, fun _ => []) twoPuts).isSome = true := by
  decide +kernel

theorem sameHead_possible : (Run.exec recorded (init, fun _ => []) sameHead).isSome = true := by
  decide +kernel

end UartTx

open UartTx in
theorem twoPuts_uncorrupted :
    let r := (Run.exec recorded (init, fun _ => []) twoPuts).get twoPuts_possible
    r.1.1.Uncorrupted r.1.2 r.2 ∧ r.2 = [97] ∧ r.1.1.pending = [98] := by
  intro r
  have hrun : Run.Reach recorded (fun p a => p.1.OwnsHead a) (init, fun _ => [])
      (r.1.1, r.1.2) r.2 := .exec (by decide +kernel) twoPuts_possible
  exact ⟨uart_uncorrupted hrun, by decide +kernel, by decide +kernel⟩

open UartTx in
/-- One of two bytes is lost: nothing has been sent, and the ring holds one byte. -/
theorem uart_loses :
    let r := (Run.exec recorded (init, fun _ => []) sameHead).get sameHead_possible
    Run.Reach recorded (fun _ _ => True) (init, fun _ => []) r.1 r.2 ∧
      (∀ t, r.1.1.ctl t = none) ∧ ¬r.1.1.Uncorrupted r.1.2 r.2 := by
  intro r
  refine ⟨.exec (.of_forall _ fun _ _ _ => trivial) sameHead_possible, by decide +kernel, ?_⟩
  rintro ⟨⟨order, hsent, hpassed⟩, -⟩
  have hone : order.length = 1 := by
    have hlength := congrArg List.length hsent
    rw [List.length_map] at hlength
    rw [← hlength]
    decide +kernel
  obtain ⟨p, rfl⟩ := List.length_eq_one_iff.1 hone
  have hidle : ∀ t, r.1.1.unpublished t = [] := by decide +kernel
  have hlong : ∀ t, (r.1.2 t).length = 1 := by decide +kernel
  have htask : ∀ t, p.1 = t := by
    intro t
    have ht := hlong t
    rw [hpassed t, hidle t, List.append_nil, List.length_map] at ht
    by_contra hne
    rw [List.filter_cons_of_neg (by simpa using hne)] at ht
    cases ht
  exact absurd ((htask 0).symm.trans (htask 1)) (by decide)

end TamgaOs
