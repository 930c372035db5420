import TamgaOs.Properties.EthReceive
import TamgaOs.Properties.EthTransmit

/-!
# The Ethernet rings deliver in order

Both rings side by side, for any interleaving of the DMA with `eth_receive` and `eth_transmit`. The
driver does not look at the flags for the first and the last descriptor of a frame, nor does it bound
the length of a frame by that of a buffer when it copies, so that every frame has to fit in one.

## Main definitions

* `Eth.Fits`: the condition that every frame that comes in fits in one buffer.
* `Eth.Permitted`: an access of the driver stays in its own buffer and leaves alone what belongs to
  the DMA.

## Main results

* `eth_rings_deliver`: along the runs whose steps meet the condition.
* `eth_receives_twice`: a frame of two descriptors is returned twice.
-/

namespace TamgaOs

namespace Eth

/-- A frame that comes in fits in one buffer. -/
def Fits (_ : EthRx × EthTx) : EthRxAction ⊕ EthTxAction → Prop
  | .inl a => EthRx.Fits a
  | .inr _ => True

instance (p : EthRx × EthTx) (a : EthRxAction ⊕ EthTxAction) : Decidable (Fits p a) := by
  cases a <;> unfold Fits <;> infer_instance

/-- An access of the driver stays in its own buffer and leaves alone what belongs to the DMA. -/
def Permitted (p : EthRx × EthTx) : EthRxObs ⊕ EthTxObs → Prop
  | .inl x => p.1.Permitted x
  | .inr x => p.2.Permitted x

end Eth

open Eth in
/-- The frames are delivered once, in order and from their own buffers, in both directions. -/
theorem eth_rings_deliver {rxMem txMem : ℕ → UInt8} {p : EthRx × EthTx}
    {out : List (EthRxObs ⊕ EthTxObs)} (h : Run.Reach step Fits (init 0 0 rxMem txMem) p out) :
    p.1.Delivers (out.filterMap Sum.getLeft?) ∧ p.2.Sends (out.filterMap Sum.getRight?) ∧
      ∀ a p' o, step p a = some (p', o) → ∀ x ∈ o, Permitted p x := by
  obtain ⟨n, hrx⟩ := EthRx.reach_sound (h.left fun _ _ hok => hok)
  have hright : Run.Reach EthTx.step (fun _ _ => True) (EthTx.init 0 txMem) p.2
      (out.filterMap Sum.getRight?) := h.right fun _ _ _ => trivial
  obtain ⟨m, htx⟩ := EthTx.reach_sound hright
  refine ⟨hrx.delivers, htx.sends, fun a p' o hs x hx => ?_⟩
  cases a with
  | inl a =>
    obtain ⟨r, hr, heq⟩ := Option.map_eq_some_iff.mp hs
    cases heq
    obtain ⟨y, hy, rfl⟩ := List.mem_map.mp hx
    exact hrx.permitted hr y hy
  | inr a =>
    obtain ⟨r, hr, heq⟩ := Option.map_eq_some_iff.mp hs
    cases heq
    obtain ⟨y, hy, rfl⟩ := List.mem_map.mp hx
    exact htx.permitted hr y hy

namespace Eth

/-- After `eth_init`, with cleared buffers. -/
def cleared : EthRx × EthTx := init 0 0 (fun _ => 0) fun _ => 0

/-- A call of `eth_receive` with a buffer of 64 bytes that copies `n` of them. -/
def receive (n : ℕ) : List (EthRxAction ⊕ EthTxAction) :=
  .inl (.receive 64) :: List.replicate (n + 6) (.inl .exec)

/-- A call of `eth_transmit` with `n` bytes that finds a free descriptor. -/
def transmit (n : UInt16) : List (EthRxAction ⊕ EthTxAction) :=
  .inr (.transmit (fun _ => 1) n) :: List.replicate (n.toNat + 8) (.inr .exec)

/-- A frame comes in while another is sent. -/
def bothWays : List (EthRxAction ⊕ EthTxAction) :=
  .inl (.arrive (List.replicate 60 7)) :: transmit 60 ++ .inl (.complete 0) :: receive 60 ++
    [.inr .complete]

/-- A frame comes in that takes two descriptors. -/
def longFrame : List (EthRxAction ⊕ EthTxAction) :=
  [.inl (.arrive (List.replicate 1537 7)), .inl (.complete 1537), .inl (.complete 0)] ++
    receive 64 ++ receive 64

theorem bothWays_possible : (Run.exec step cleared bothWays).isSome = true := by decide +kernel

theorem longFrame_possible : (Run.exec step cleared longFrame).isSome = true := by decide +kernel

end Eth

open Eth in
theorem bothWays_deliver :
    let r := (Run.exec step cleared bothWays).get bothWays_possible
    r.1.1.Delivers (r.2.filterMap Sum.getLeft?) ∧ r.1.2.Sends (r.2.filterMap Sum.getRight?) ∧
      EthRx.received (r.2.filterMap Sum.getLeft?) = [⟨64, 60, List.replicate 60 7⟩] ∧
      EthTx.sent (r.2.filterMap Sum.getRight?) = [List.replicate 60 1] := by
  intro r
  have hrun : Run.Reach step Fits cleared r.1 r.2 := .exec (by decide +kernel) bothWays_possible
  obtain ⟨hdelivers, hsends, -⟩ := eth_rings_deliver hrun
  exact ⟨hdelivers, hsends, by decide +kernel, by decide +kernel⟩

open Eth in
/-- `eth_receive` returns 0 for each descriptor of a frame of 1537 bytes. -/
theorem eth_receives_twice :
    let r := (Run.exec step cleared longFrame).get longFrame_possible
    Run.Reach step (fun _ _ => True) cleared r.1 r.2 ∧
      (EthRx.arrived (r.2.filterMap Sum.getLeft?)).length = 1 ∧
      (EthRx.received (r.2.filterMap Sum.getLeft?)).length = 2 ∧
      ¬r.1.1.Delivers (r.2.filterMap Sum.getLeft?) := by
  intro r
  have harrived : (EthRx.arrived (r.2.filterMap Sum.getLeft?)).length = 1 := by decide +kernel
  have hreceived : (EthRx.received (r.2.filterMap Sum.getLeft?)).length = 2 := by decide +kernel
  refine ⟨.exec (.of_forall _ fun _ _ _ => trivial) longFrame_possible, harrived, hreceived, ?_⟩
  rintro ⟨done, rest, horder, hdone, -⟩
  have hlength := hdone.length_eq
  rw [EthRx.delivered, List.length_append, hreceived] at hlength
  rw [horder, List.length_append] at harrived
  omega

end TamgaOs
