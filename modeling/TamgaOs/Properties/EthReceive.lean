import Mathlib.Data.List.Forall2
import Mathlib.Data.List.GetD
import Mathlib.Tactic.SplitIfs
import TamgaOs.Drivers.Eth
import TamgaOs.Library.MarkedRing

/-!
# The receive ring delivers each frame once

The `OWN` bits mark the descriptors that the DMA has given up. They hold the frames that `eth_receive`
has not returned yet, provided that every frame fits in one buffer: `eth_receive` takes every
descriptor for a whole frame.

## Main definitions

* `EthRx.Delivers`: no frame is lost, duplicated or overtaken.
* `EthRx.Permitted`: an access of `eth_receive` stays in its frame and leaves alone what belongs to the
  DMA.
* `EthRx.Fits`: the condition that every frame fits in one buffer.
* `EthRx.Sound`: the frames in the ring.

## Main results

* `EthRx.reach_sound`, `EthRx.Sound.delivers`, `EthRx.Sound.permitted`.
-/

namespace TamgaOs

/-- The call has returned the start of the frame, as far as its buffer goes. -/
def EthReceived.Copied (f : List UInt8) (r : EthReceived) : Prop :=
  r.bytes = f.take r.maxLen.toNat ∧ r.outLen = r.bytes.length

namespace EthRx

/-- The frames that have been received, in order of arrival. -/
def arrived (out : List EthRxObs) : List (List UInt8) :=
  out.filterMap fun
    | .arrived f => some f
    | _ => none

/-- What `eth_receive` has returned. -/
def received (out : List EthRxObs) : List EthReceived :=
  out.filterMap fun
    | .received r => some r
    | _ => none

@[simp] theorem arrived_append (out o : List EthRxObs) :
    arrived (out ++ o) = arrived out ++ arrived o := List.filterMap_append

@[simp] theorem received_append (out o : List EthRxObs) :
    received (out ++ o) = received out ++ received o := List.filterMap_append

/-- The call has given its descriptor back and is about to return 0. -/
def given : Option EthRxCtl → Bool
  | some .advance => true
  | some (.ret r) => r = 0
  | _ => false

/-- What `eth_receive` has returned, with the call that is about to return. -/
def delivered (s : EthRx) (out : List EthRxObs) : List EthReceived :=
  received out ++ if given s.ctl then [⟨s.maxLen, s.outLen, s.buf⟩] else []

/-- The frames that have been received are those returned, in order, and those still in the ring. When
the next descriptor belongs to the DMA there are none in the ring. -/
def Delivers (s : EthRx) (out : List EthRxObs) : Prop :=
  ∃ done rest, arrived out = done ++ rest ∧
    List.Forall₂ EthReceived.Copied done (s.delivered out) ∧
    (s.ctl = none → s.des3.own = true → rest = [])

/-- The first descriptor that has not been given back. -/
def head (s : EthRx) : ℕ :=
  match s.ctl with
  | some .advance => (s.index + 1) % ethNumRxDesc
  | _ => s.index

/-- The frame in a buffer. -/
def slot (s : EthRx) (i : ℕ) : List UInt8 :=
  (List.range (s.desc i).des3.len).map fun j => s.mem (i * ethBufSize + j)

/-- The frames in the ring. -/
def pending (s : EthRx) (count : ℕ) : List (List UInt8) :=
  Ring.contents ethNumRxDesc s.head count s.slot

/-- What holds at a program point. -/
def Expected (s : EthRx) : EthRxCtl → Prop
  | .readLen => s.des3.own = false
  | .copy j =>
    s.des3.own = false ∧ s.pktLen = min s.des3.len s.maxLen.toNat ∧ j ≤ s.pktLen ∧
      s.buf = (s.slot s.index).take j
  | .giveBack =>
    s.des3.own = false ∧ EthReceived.Copied (s.slot s.index) ⟨s.maxLen, s.outLen, s.buf⟩
  | .testOwn | .advance | .ret _ => True

/-- The ring holds `count` frames, one in each descriptor that the DMA has given up. -/
structure Sound (s : EthRx) (out : List EthRxObs) (count : ℕ) : Prop where
  marked : Ring.Marked ethNumRxDesc s.head s.pos count fun i => !(s.desc i).des3.own
  index : s.index < ethNumRxDesc
  des0 : ∀ i, (s.desc i).des0 = i * ethBufSize
  len : ∀ i, (s.desc i).des3.len ≤ ethBufSize
  frame : ∀ f off, s.frame = some (f, off) → off = 0 ∧ f.length ≤ ethBufSize
  call : ∀ c, s.ctl = some c → s.Expected c
  order : ∃ done, arrived out = done ++ s.pending count ∧
    List.Forall₂ EthReceived.Copied done (s.delivered out)

variable {s s' : EthRx} {out o : List EthRxObs} {count : ℕ}

@[simp] theorem length_slot (i : ℕ) : (s.slot i).length = (s.desc i).des3.len := by
  simp [slot]

theorem slot_congr {i : ℕ} (hdesc : s'.desc i = s.desc i)
    (hmem : ∀ j < (s.desc i).des3.len, s'.mem (i * ethBufSize + j) = s.mem (i * ethBufSize + j)) :
    s'.slot i = s.slot i := by
  unfold slot
  rw [hdesc]
  exact List.map_congr_left fun j hj => hmem j (List.mem_range.mp hj)

theorem setDes3_of_ne {i j : ℕ} (v : EthDes3) (h : i ≠ j) : (s.setDes3 j v).desc i = s.desc i :=
  Function.update_of_ne h ..

theorem setDes3_self (i : ℕ) (v : EthDes3) :
    (s.setDes3 i v).desc i = { s.desc i with des3 := v } := Function.update_self ..

theorem head_eq (h : s.ctl ≠ some .advance) : s.head = s.index := by
  unfold head
  split
  · contradiction
  · rfl

theorem delivered_eq (h : given s.ctl = false) : s.delivered out = received out := by
  rw [delivered, h]
  exact List.append_nil _

/-- A step that leaves the ring as it is. -/
theorem Sound.keep (h : s.Sound out count) (hdesc : s'.desc = s.desc) (hmem : s'.mem = s.mem)
    (hpos : s'.pos = s.pos) (hindex : s'.index < ethNumRxDesc) (hhead : s'.head = s.head)
    (hframe : ∀ f off, s'.frame = some (f, off) → off = 0 ∧ f.length ≤ ethBufSize)
    (hcall : ∀ c, s'.ctl = some c → s'.Expected c) (harrived : arrived o = [])
    (hdelivered : s'.delivered (out ++ o) = s.delivered out) : s'.Sound (out ++ o) count where
  marked := by rw [hhead, hpos, hdesc]; exact h.marked
  index := hindex
  des0 := by rw [hdesc]; exact h.des0
  len := by rw [hdesc]; exact h.len
  frame := hframe
  call := hcall
  order := by
    have hpending : s'.pending count = s.pending count := by
      unfold pending slot
      rw [hhead, hdesc, hmem]
    rw [arrived_append, harrived, List.append_nil, hpending, hdelivered]
    exact h.order

/-- A statement of the call before the descriptor is given back. -/
theorem Sound.goto {c c' : EthRxCtl} (h : s.Sound out count) (hctl : s.ctl = some c)
    {pktLen outLen : ℕ} {buf : List UInt8} (hc : given (some c) = false)
    (hc' : given (some c') = false) (hreceived : received o = []) (harrived : arrived o = [])
    (hcall : ({ s with pktLen, outLen, buf }.goto c').Expected c') :
    ({ s with pktLen, outLen, buf }.goto c').Sound (out ++ o) count := by
  have hadvance : s.ctl ≠ some .advance := by
    rintro hadvance
    rw [hadvance, Option.some.injEq] at hctl
    rw [← hctl] at hc
    cases hc
  have hadvance' : ({ s with pktLen, outLen, buf }.goto c').ctl ≠ some .advance := by
    intro heq
    cases heq
    cases hc'
  refine h.keep rfl rfl rfl h.index ((head_eq hadvance').trans (head_eq hadvance).symm) h.frame ?_
    harrived ?_
  · intro c'' hsome
    cases hsome
    exact hcall
  · rw [delivered_eq hc', delivered_eq (hctl ▸ hc), received_append, hreceived, List.append_nil]

/-! ### `eth_receive` -/

/-- `memcpy` copies the next byte of the frame. -/
theorem take_slot_succ {i j : ℕ} (h : j < (s.desc i).des3.len) :
    (s.slot i).take j ++ [s.mem (i * ethBufSize + j)] = (s.slot i).take (j + 1) := by
  have hj : j < (s.slot i).length := by rwa [length_slot]
  have hbyte : (s.slot i)[j] = s.mem (i * ethBufSize + j) := by simp [slot]
  rw [← hbyte, List.take_append_getElem hj]

theorem Sound.testOwn (h : s.Sound out count) (hctl : s.ctl = some .testOwn) :
    (s.execStep .testOwn).1.Sound (out ++ (s.execStep .testOwn).2) count := by
  unfold execStep
  split_ifs with hown
  · exact h.goto hctl rfl rfl rfl rfl trivial
  · exact h.goto hctl rfl rfl rfl rfl (eq_false_of_ne_true hown)

theorem Sound.readLen (h : s.Sound out count) (hctl : s.ctl = some .readLen) :
    (s.execStep .readLen).1.Sound (out ++ (s.execStep .readLen).2) count := by
  have hown : s.des3.own = false := h.call _ hctl
  refine h.goto hctl rfl rfl rfl rfl ⟨hown, ?_, Nat.zero_le _, rfl⟩
  have hlen : s.des3.len % 2 ^ 15 = s.des3.len :=
    Nat.mod_eq_of_lt (Nat.lt_of_le_of_lt (h.len s.index) (by decide))
  show (if s.maxLen.toNat < s.des3.len % 2 ^ 15 then s.maxLen.toNat else s.des3.len % 2 ^ 15) =
    min s.des3.len s.maxLen.toNat
  rw [hlen]
  split_ifs <;> omega

theorem Sound.copy {j : ℕ} (h : s.Sound out count) (hctl : s.ctl = some (.copy j)) :
    (s.execStep (.copy j)).1.Sound (out ++ (s.execStep (.copy j)).2) count := by
  obtain ⟨hown, hpkt, hj, hbuf⟩ := h.call _ hctl
  simp only [execStep]
  split_ifs with hlt
  · refine h.goto hctl rfl rfl rfl rfl ⟨hown, hpkt, hlt, ?_⟩
    have hlen : j < s.des3.len := Nat.lt_of_lt_of_le hlt (hpkt ▸ Nat.min_le_left ..)
    show s.buf ++ _ = _
    rw [hbuf]
    exact take_slot_succ hlen
  · refine h.goto hctl rfl rfl rfl rfl ⟨hown, ?_, ?_⟩
    · have hjlen : j = min s.des3.len s.maxLen.toNat := by omega
      have hlength : (s.slot s.index).length = s.des3.len := length_slot _
      show s.buf = (s.slot s.index).take s.maxLen.toNat
      rw [hbuf, List.take_eq_take_iff]
      omega
    · have hlength : (s.slot s.index).length = s.des3.len := length_slot _
      show s.pktLen = s.buf.length
      rw [hbuf, List.length_take]
      omega

/-- The call gives up the first frame of the ring, and returns it. -/
theorem Sound.giveBack (h : s.Sound out count) (hctl : s.ctl = some .giveBack) :
    ∃ count', (s.execStep .giveBack).1.Sound (out ++ (s.execStep .giveBack).2) count' := by
  obtain ⟨hown, hcopied⟩ := h.call _ hctl
  have hhead : s.head = s.index := head_eq (by rw [hctl]; nofun)
  have hmark : (!(s.desc s.head).des3.own) = true := by
    rw [hhead]
    exact congrArg not hown
  obtain ⟨m, rfl⟩ := Nat.exists_eq_succ_of_ne_zero (h.marked.pos hmark).ne'
  obtain ⟨done, harrived, hdone⟩ := h.order
  have hother (i : ℕ) (hi : i ≠ s.head) :
      (s.execStep .giveBack).1.desc i = s.desc i :=
    setDes3_of_ne _ (hhead ▸ hi)
  have hself : (s.execStep .giveBack).1.desc s.index =
      { s.desc s.index with des3 := { own := true, ioc := true, buf1v := true } } :=
    setDes3_self ..
  have hmarked : Ring.Marked ethNumRxDesc ((s.head + 1) % ethNumRxDesc) s.pos m
      fun i => !((s.execStep .giveBack).1.desc i).des3.own :=
    h.marked.pop (by rw [hhead, hself]; rfl) fun i hi => by rw [hother i hi]
  have hpending : s.pending (m + 1) = s.slot s.index :: (s.execStep .giveBack).1.pending m := by
    rw [pending, Ring.contents_pop, Nat.mod_eq_of_lt h.marked.head_lt, hhead]
    refine congrArg (s.slot s.index :: ·) (Ring.contents_congr fun j hj => ?_).symm
    have hne : ((s.index + 1) % ethNumRxDesc + j) % ethNumRxDesc ≠ s.head := by
      have hcycle : (s.index + 1 + j) % ethNumRxDesc ≠ s.index % ethNumRxDesc :=
        Ring.index_ne_head hj h.marked.count_le
      rw [hhead]
      rwa [Nat.mod_eq_of_lt h.index, ← Nat.mod_add_mod] at hcycle
    exact slot_congr (hother _ hne) fun _ _ => rfl
  refine ⟨m, by rwa [hhead] at hmarked, h.index, fun i => ?_, fun i => ?_, h.frame, ?_,
    done ++ [s.slot s.index], ?_, ?_⟩
  · by_cases hi : i = s.index
    · rw [hi, hself]
      exact h.des0 s.index
    · rw [hother i (hhead ▸ hi)]
      exact h.des0 i
  · by_cases hi : i = s.index
    · rw [hi, hself]
      exact Nat.zero_le _
    · rw [hother i (hhead ▸ hi)]
      exact h.len i
  · intro c hsome
    cases hsome
    trivial
  · rw [arrived_append, harrived, hpending]
    exact (List.append_nil _).trans (List.append_cons ..)
  · rw [delivered_eq (by rw [hctl]; rfl)] at hdone
    have hdelivered : (s.execStep .giveBack).1.delivered (out ++ (s.execStep .giveBack).2) =
        received out ++ [⟨s.maxLen, s.outLen, s.buf⟩] := by
      rw [delivered, received_append]
      exact congrArg (· ++ _) (List.append_nil _)
    rw [hdelivered]
    exact List.rel_append hdone (.cons hcopied .nil)

theorem Sound.advance (h : s.Sound out count) (hctl : s.ctl = some .advance) :
    (s.execStep .advance).1.Sound (out ++ (s.execStep .advance).2) count := by
  refine h.keep rfl rfl rfl (Nat.mod_lt _ (by decide)) ?_ h.frame ?_ rfl ?_
  · unfold head
    rw [hctl]
    rfl
  · intro c hsome
    cases hsome
    trivial
  · unfold delivered
    rw [hctl, received_append]
    exact congrArg (· ++ _) (List.append_nil _)

theorem Sound.ret {r : ℤ} (h : s.Sound out count) (hctl : s.ctl = some (.ret r)) :
    (s.execStep (.ret r)).1.Sound (out ++ (s.execStep (.ret r)).2) count := by
  have hhead : s.head = s.index := head_eq (by rw [hctl]; nofun)
  refine h.keep rfl rfl rfl h.index hhead.symm h.frame nofun ?_ ?_
  · show arrived [if r = 0 then _ else _] = []
    split_ifs <;> rfl
  · rw [delivered_eq rfl, received_append, delivered, hctl]
    refine congrArg (received out ++ ·) ?_
    show received [if r = 0 then _ else _] = if decide (r = 0) = true then _ else _
    by_cases hr : r = 0
    · rw [if_pos hr, if_pos (decide_eq_true hr)]
      rfl
    · rw [if_neg hr, if_neg (by simpa using hr)]
      rfl

theorem Sound.exec {c : EthRxCtl} (h : s.Sound out count) (hctl : s.ctl = some c) :
    ∃ count', (s.execStep c).1.Sound (out ++ (s.execStep c).2) count' := by
  cases c with
  | testOwn => exact ⟨count, h.testOwn hctl⟩
  | readLen => exact ⟨count, h.readLen hctl⟩
  | copy j => exact ⟨count, h.copy hctl⟩
  | giveBack => exact h.giveBack hctl
  | advance => exact ⟨count, h.advance hctl⟩
  | ret r => exact ⟨count, h.ret hctl⟩

/-! ### The DMA -/

/-- The bytes of another buffer stay. -/
theorem store_of_ne {i j a : ℕ} {bytes : List UInt8} (hi : i ≠ j) (ha : a < ethBufSize)
    (hbytes : bytes.length ≤ ethBufSize) :
    s.store (j * ethBufSize) bytes (i * ethBufSize + a) = s.mem (i * ethBufSize + a) := by
  unfold store
  split_ifs with hle
  · refine List.getD_eq_default _ _ ?_
    unfold ethBufSize at *
    omega
  · rfl

theorem store_self {j a : ℕ} {bytes : List UInt8} (ha : a < bytes.length) :
    s.store (j * ethBufSize) bytes (j * ethBufSize + a) = bytes[a] := by
  unfold store
  rw [if_pos (Nat.le_add_right ..), Nat.add_sub_cancel_left]
  exact List.getD_eq_getElem _ _ ha

/-- What holds at a program point does not depend on the descriptors of the DMA. -/
theorem Expected.congr {c : EthRxCtl} (h : s.Expected c) (hindex : s'.index = s.index)
    (hmaxLen : s'.maxLen = s.maxLen) (hpktLen : s'.pktLen = s.pktLen)
    (houtLen : s'.outLen = s.outLen) (hbuf : s'.buf = s.buf)
    (hdesc : s.des3.own = false → s'.desc s.index = s.desc s.index ∧ s'.slot s.index = s.slot s.index) :
    s'.Expected c := by
  cases c with
  | readLen =>
    obtain ⟨hdesc, -⟩ := hdesc h
    show s'.des3.own = false
    rw [des3, hindex, hdesc]
    exact h
  | copy j =>
    obtain ⟨hdesc, hslot⟩ := hdesc h.1
    have hdes3 : s'.des3 = s.des3 := by rw [des3, hindex, hdesc, des3]
    show s'.des3.own = false ∧ s'.pktLen = min s'.des3.len s'.maxLen.toNat ∧ j ≤ s'.pktLen ∧
      s'.buf = (s'.slot s'.index).take j
    rw [hdes3, hindex, hmaxLen, hpktLen, hbuf, hslot]
    exact h
  | giveBack =>
    obtain ⟨hdesc, hslot⟩ := hdesc h.1
    have hdes3 : s'.des3 = s.des3 := by rw [des3, hindex, hdesc, des3]
    show s'.des3.own = false ∧
      EthReceived.Copied (s'.slot s'.index) ⟨s'.maxLen, s'.outLen, s'.buf⟩
    rw [hdes3, hindex, hmaxLen, houtLen, hbuf, hslot]
    exact h
  | testOwn | advance | ret r => trivial

/-- The next descriptor has been completed with a whole frame. -/
def filled (s : EthRx) (f : List UInt8) : EthRx :=
  { s.setDes3 s.pos { fd := true, ld := true, len := f.length } with
    mem := s.store (s.desc s.pos).des0 (f.drop 0)
    pos := (s.pos + 1) % ethNumRxDesc
    frame := none }

/-- A frame that fits in one buffer takes one descriptor. -/
theorem Sound.completeStep_eq {len : ℕ} (h : s.Sound out count)
    (hs : s.completeStep len = some (s', o)) :
    ∃ f, f.length ≤ ethBufSize ∧ (s.desc s.pos).des3.own = true ∧ s' = s.filled f ∧
      o = [.arrived f] := by
  unfold completeStep at hs
  split at hs
  · cases hs
  · rename_i f off hframe
    obtain ⟨rfl, hfits⟩ := h.frame f off hframe
    have hlast : f.length ≤ 0 + ethBufSize := by rwa [Nat.zero_add]
    simp only [hlast, if_true] at hs
    split at hs
    · rename_i hown
      cases hs
      exact ⟨f, hfits, hown, rfl, rfl⟩
    · cases hs

/-- The DMA fills the next descriptor with a frame. -/
theorem Sound.filled {f : List UInt8} (h : s.Sound out count) (hfits : f.length ≤ ethBufSize)
    (hown : (s.desc s.pos).des3.own = true) :
    (s.filled f).Sound (out ++ [.arrived f]) (count + 1) := by
  obtain ⟨done, harrived, hdone⟩ := h.order
  have hother (i : ℕ) (hi : i ≠ s.pos) : (s.filled f).desc i = s.desc i := setDes3_of_ne _ hi
  have hself : (s.filled f).desc s.pos =
      { s.desc s.pos with des3 := { fd := true, ld := true, len := f.length } } := setDes3_self ..
  have hmem : (s.filled f).mem = s.store (s.pos * ethBufSize) f := by
    rw [EthRx.filled, h.des0, List.drop_zero]
  have hslot (i : ℕ) (hi : i ≠ s.pos) : (s.filled f).slot i = s.slot i := by
    refine slot_congr (hother i hi) fun j hj => ?_
    rw [hmem]
    exact store_of_ne hi (Nat.lt_of_lt_of_le hj (h.len i)) hfits
  have hnew : (s.filled f).slot s.pos = f := by
    refine List.ext_getElem (by rw [length_slot, hself]) fun j _ hj => ?_
    simp only [slot, List.getElem_map, List.getElem_range, hmem]
    exact store_self hj
  have hroom : count < ethNumRxDesc := h.marked.room (congrArg not hown)
  have hpending : (s.filled f).pending (count + 1) = s.pending count ++ [f] := by
    have hhead : (s.filled f).head = s.head := rfl
    rw [pending, Ring.contents_succ, hhead, ← h.marked.tail_eq, hnew]
    refine congrArg (· ++ [f]) (Ring.contents_congr fun j hj => hslot _ ?_)
    rw [h.marked.tail_eq]
    exact Ring.index_ne_tail hj hroom
  refine ⟨h.marked.push hroom (by rw [hself]; rfl) fun i hi => by rw [hother i hi], h.index,
    fun i => ?_, fun i => ?_, nofun, fun c hc => ?_, done, ?_, ?_⟩
  · by_cases hi : i = s.pos
    · rw [hi, hself]
      exact h.des0 s.pos
    · rw [hother i hi]
      exact h.des0 i
  · by_cases hi : i = s.pos
    · rw [hi, hself]
      exact hfits
    · rw [hother i hi]
      exact h.len i
  · -- a descriptor that the call has been given up is not the one the DMA completes
    refine (h.call c hc).congr rfl rfl rfl rfl rfl fun hfree => ?_
    have hne : s.index ≠ s.pos := by
      intro heq
      rw [des3, heq, hown] at hfree
      cases hfree
    exact ⟨hother _ hne, hslot _ hne⟩
  · rw [arrived_append, harrived, hpending, List.append_assoc]
    rfl
  · have hdelivered : (s.filled f).delivered (out ++ [.arrived f]) = s.delivered out := by
      unfold delivered
      rw [received_append]
      exact congrArg (· ++ _) (List.append_nil _)
    rwa [hdelivered]

theorem Sound.complete {len : ℕ} (h : s.Sound out count) (hs : s.completeStep len = some (s', o)) :
    ∃ count', s'.Sound (out ++ o) count' := by
  obtain ⟨f, hfits, hown, rfl, rfl⟩ := h.completeStep_eq hs
  exact ⟨count + 1, h.filled hfits hown⟩

/-! ### Runs -/

/-- A frame that comes in fits in one buffer. -/
def Fits : EthRxAction → Prop
  | .arrive f => f.length ≤ ethBufSize
  | _ => True

instance (a : EthRxAction) : Decidable (Fits a) := by
  cases a <;> unfold Fits <;> infer_instance

theorem sound_init (mem : ℕ → UInt8) : (init 0 mem).Sound [] 0 where
  marked := ⟨Nat.zero_le _, Nat.zero_lt_succ _, rfl, fun _ _ => rfl⟩
  index := Nat.zero_lt_succ _
  des0 _ := rfl
  len _ := Nat.zero_le _
  frame := nofun
  call := nofun
  order := ⟨[], rfl, .nil⟩

theorem exec_eq (hs : s.step .exec = some (s', o)) :
    ∃ c, s.ctl = some c ∧ s.execStep c = (s', o) := by
  simp only [step] at hs
  split at hs
  · cases hs
  · rename_i c hctl
    exact ⟨c, hctl, Option.some.inj hs⟩

/-- Every step that meets the condition keeps the frames in order. -/
theorem Sound.step {a : EthRxAction} (h : s.Sound out count) (hok : Fits a)
    (hs : s.step a = some (s', o)) : ∃ count', s'.Sound (out ++ o) count' := by
  cases a with
  | receive maxLen =>
    simp only [EthRx.step] at hs
    split at hs
    · rename_i hctl
      cases hs
      have hhead : s.head = s.index := head_eq (by rw [hctl]; nofun)
      refine ⟨count, h.keep rfl rfl rfl h.index hhead.symm h.frame ?_ rfl ?_⟩
      · intro c hsome
        cases hsome
        trivial
      · rw [delivered_eq rfl, delivered_eq (by rw [hctl]; rfl), List.append_nil]
    · cases hs
  | exec =>
    obtain ⟨c, hctl, heq⟩ := exec_eq hs
    have hexec := h.exec hctl
    rwa [heq] at hexec
  | arrive f =>
    simp only [EthRx.step] at hs
    split at hs
    · cases hs
      refine ⟨count, h.keep rfl rfl rfl h.index rfl ?_ h.call rfl (by rw [List.append_nil]; rfl)⟩
      intro f' off hframe
      cases hframe
      exact ⟨rfl, hok⟩
    · cases hs
  | complete len => exact h.complete hs

theorem reach_sound {mem : ℕ → UInt8} (h : Run.Reach EthRx.step (fun _ a => Fits a) (init 0 mem) s out) :
    ∃ count, s.Sound out count :=
  h.induct (I := fun s out => ∃ count, s.Sound out count) ⟨0, sound_init mem⟩
    fun _ _ _ _ _ _ hI hok hs => by
      obtain ⟨count, hI⟩ := hI
      exact hI.step hok hs

theorem Sound.delivers (h : s.Sound out count) : s.Delivers out := by
  obtain ⟨done, harrived, hdone⟩ := h.order
  refine ⟨done, s.pending count, harrived, hdone, fun hctl hown => ?_⟩
  have hhead : s.head = s.index := head_eq (by rw [hctl]; nofun)
  have hzero : count = 0 := by
    by_contra hne
    have hmark := h.marked.mark_head (Nat.pos_of_ne_zero hne)
    rw [hhead, ← des3, hown] at hmark
    cases hmark
  rw [hzero]
  rfl

/-- `memcpy` reads a byte of the frame that the descriptor at `s_rx_index` holds, and only a descriptor
that the DMA has given up is written. -/
def Permitted (s : EthRx) : EthRxObs → Prop
  | .read addr =>
    s.des3.own = false ∧ s.index * ethBufSize ≤ addr ∧
      addr < s.index * ethBufSize + min s.des3.len ethBufSize
  | .wroteDesc i => i < ethNumRxDesc ∧ (s.desc i).des3.own = false
  | _ => True

theorem Sound.permitted_exec {c : EthRxCtl} (h : s.Sound out count) (hctl : s.ctl = some c) :
    ∀ x ∈ (s.execStep c).2, s.Permitted x := by
  intro x hx
  cases c with
  | copy j =>
    obtain ⟨hown, hpkt, -, -⟩ := h.call _ hctl
    simp only [execStep] at hx
    split_ifs at hx with hlt
    · rw [List.mem_singleton.mp hx]
      have hlen : s.des3.len ≤ ethBufSize := h.len s.index
      exact ⟨hown, Nat.le_add_right .., by omega⟩
    · cases hx
  | giveBack =>
    rw [List.mem_singleton.mp hx]
    exact ⟨h.index, (h.call _ hctl).1⟩
  | ret r =>
    rw [List.mem_singleton.mp hx]
    split_ifs <;> trivial
  | testOwn | readLen | advance => cases hx

theorem Sound.permitted {a : EthRxAction} (h : s.Sound out count) (hs : s.step a = some (s', o)) :
    ∀ x ∈ o, s.Permitted x := by
  cases a with
  | exec =>
    obtain ⟨c, hctl, heq⟩ := exec_eq hs
    have hexec := h.permitted_exec hctl
    rwa [heq] at hexec
  | complete len =>
    obtain ⟨f, -, -, -, rfl⟩ := h.completeStep_eq hs
    intro x hx
    rw [List.mem_singleton.mp hx]
    trivial
  | receive maxLen | arrive f =>
    simp only [EthRx.step] at hs
    split at hs
    · cases hs
      exact fun _ hx => by cases hx
    · cases hs

end EthRx

end TamgaOs
