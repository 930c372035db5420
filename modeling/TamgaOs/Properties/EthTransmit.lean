import Mathlib.Tactic.SplitIfs
import TamgaOs.Drivers.Eth
import TamgaOs.Library.MarkedRing

/-!
# The transmit ring sends each frame once

The `OWN` bits mark the descriptors that the DMA has been given. They hold the frames that `eth_transmit`
has accepted and that have not been sent yet.

## Main definitions

* `EthTx.Sends`: no frame is lost, duplicated or overtaken.
* `EthTx.Permitted`: `eth_transmit` leaves alone what belongs to the DMA.
* `EthTx.Sound`: the frames in the ring.

## Main results

* `EthTx.reach_sound`, `EthTx.Sound.sends`, `EthTx.Sound.permitted`.
-/

namespace TamgaOs

namespace EthTx

/-- The frames of the calls that have returned 0. -/
def accepted (out : List EthTxObs) : List (List UInt8) :=
  out.filterMap fun
    | .accepted f => some f
    | _ => none

/-- The frames that have been sent. -/
def sent (out : List EthTxObs) : List (List UInt8) :=
  out.filterMap fun
    | .sent f => some f
    | _ => none

@[simp] theorem accepted_append (out o : List EthTxObs) :
    accepted (out ++ o) = accepted out ++ accepted o := List.filterMap_append

@[simp] theorem sent_append (out o : List EthTxObs) : sent (out ++ o) = sent out ++ sent o :=
  List.filterMap_append

/-- The call has given its descriptor to the DMA and is about to return 0. -/
def given : Option EthTxCtl → Bool
  | some .advance => true
  | some (.ret r) => r = 0
  | _ => false

/-- The frames that have been accepted, with that of the call that is about to return. -/
def taken (s : EthTx) (out : List EthTxObs) : List (List UInt8) :=
  accepted out ++ if given s.ctl then [s.payload] else []

/-- The frames that have been accepted are those sent, in order, and those still in the ring. When the
next descriptor does not belong to the DMA there are none in the ring. -/
def Sends (s : EthTx) (out : List EthTxObs) : Prop :=
  ∃ rest, s.taken out = sent out ++ rest ∧ ((s.desc s.pos).des3.own = false → rest = [])

/-- The first descriptor that has not been given to the DMA. -/
def tail (s : EthTx) : ℕ :=
  match s.ctl with
  | some .advance => (s.index + 1) % ethNumTxDesc
  | _ => s.index

/-- The frames in the ring. -/
def queued (s : EthTx) (count : ℕ) : List (List UInt8) :=
  Ring.contents ethNumTxDesc s.pos count s.slot

/-- The first `n` bytes of the frame are in the buffer, and the descriptor is free. -/
def Stored (s : EthTx) (n : ℕ) : Prop :=
  s.len.toNat ≤ ethBufSize ∧ (s.desc s.index).des3.own = false ∧
    ∀ j < n, s.mem (s.index * ethBufSize + j) = s.data j

/-- What holds at a program point. -/
def Expected (s : EthTx) : EthTxCtl → Prop
  | .waitOwn _ => s.len.toNat ≤ ethBufSize
  | .copy j => s.Stored j ∧ j ≤ s.len.toNat
  | .des0 | .des1 | .des2 => s.Stored s.len.toNat
  | .des3 => s.Stored s.len.toNat ∧ (s.desc s.index).des2.len = s.len.toNat
  | .advance | .ret _ => True

/-- The ring holds `count` frames, one in each descriptor of the DMA. -/
structure Sound (s : EthTx) (out : List EthTxObs) (count : ℕ) : Prop where
  marked : Ring.Marked ethNumTxDesc s.pos s.tail count fun i => (s.desc i).des3.own
  index : s.index < ethNumTxDesc
  des0 : ∀ i, (s.desc i).des0 = i * ethBufSize
  len : ∀ i, (s.desc i).des2.len ≤ ethBufSize
  call : ∀ c, s.ctl = some c → s.Expected c
  order : s.taken out = sent out ++ s.queued count

variable {s s' : EthTx} {out o : List EthTxObs} {count : ℕ}

theorem tail_eq (h : s.ctl ≠ some .advance) : s.tail = s.index := by
  unfold tail
  split
  · contradiction
  · rfl

theorem taken_eq (h : given s.ctl = false) : s.taken out = accepted out := by
  rw [taken, h]
  exact List.append_nil _

theorem setDesc_of_ne {i j : ℕ} (d : EthDescriptor) (h : i ≠ j) :
    (s.setDesc j d).desc i = s.desc i := Function.update_of_ne h ..

theorem setDesc_self (i : ℕ) (d : EthDescriptor) : (s.setDesc i d).desc i = d :=
  Function.update_self ..

theorem slot_congr {i : ℕ} (hdes0 : (s'.desc i).des0 = (s.desc i).des0)
    (hlen : (s'.desc i).des2.len = (s.desc i).des2.len)
    (hmem : ∀ j < (s.desc i).des2.len, s'.mem ((s.desc i).des0 + j) = s.mem ((s.desc i).des0 + j)) :
    s'.slot i = s.slot i := by
  unfold slot
  rw [hdes0, hlen]
  exact List.map_congr_left fun j hj => hmem j (List.mem_range.mp hj)

/-- A step of the call that leaves the frames of the DMA as they are. -/
theorem Sound.keep (h : s.Sound out count)
    (hown : ∀ i, (s'.desc i).des3.own = (s.desc i).des3.own)
    (hdes0 : ∀ i, (s'.desc i).des0 = i * ethBufSize) (hlen : ∀ i, (s'.desc i).des2.len ≤ ethBufSize)
    (hslot : ∀ i, (s.desc i).des3.own = true → s'.slot i = s.slot i) (hpos : s'.pos = s.pos)
    (hindex : s'.index < ethNumTxDesc) (htail : s'.tail = s.tail)
    (hcall : ∀ c, s'.ctl = some c → s'.Expected c) (hsent : sent o = [])
    (htaken : s'.taken (out ++ o) = s.taken out) : s'.Sound (out ++ o) count where
  marked := by
    simp only [htail, hpos, hown]
    exact h.marked
  index := hindex
  des0 := hdes0
  len := hlen
  call := hcall
  order := by
    have hqueued : s'.queued count = s.queued count := by
      unfold queued
      rw [hpos]
      refine Ring.contents_congr fun j hj => hslot _ ?_
      have hcap := h.marked.count_le
      rw [h.marked.mark_eq j (Nat.lt_of_lt_of_le hj hcap)]
      exact decide_eq_true hj
    rw [sent_append, hsent, List.append_nil, hqueued, htaken]
    exact h.order

/-- A statement of the call before the descriptor is given to the DMA. -/
theorem Sound.statement {c c' : EthTxCtl} (h : s.Sound out count) (hctl : s.ctl = some c)
    (hctl' : s'.ctl = some c') (hc : given (some c) = false) (hc' : given (some c') = false)
    (hown : ∀ i, (s'.desc i).des3.own = (s.desc i).des3.own)
    (hdes0 : ∀ i, (s'.desc i).des0 = i * ethBufSize) (hlen : ∀ i, (s'.desc i).des2.len ≤ ethBufSize)
    (hslot : ∀ i, (s.desc i).des3.own = true → s'.slot i = s.slot i) (hpos : s'.pos = s.pos)
    (hindex : s'.index = s.index) (haccepted : accepted o = []) (hsent : sent o = [])
    (hcall : s'.Expected c') : s'.Sound (out ++ o) count := by
  have hadvance (t : EthTx) (c : EthTxCtl) (ht : t.ctl = some c) (hc : given (some c) = false) :
      t.tail = t.index := by
    refine tail_eq fun heq => ?_
    rw [ht] at heq
    cases heq
    cases hc
  refine h.keep hown hdes0 hlen hslot hpos (hindex ▸ h.index) ?_ ?_ hsent ?_
  · rw [hadvance s' c' hctl' hc', hadvance s c hctl hc, hindex]
  · intro c'' hsome
    rw [hctl'] at hsome
    cases hsome
    exact hcall
  · rw [taken_eq (hctl' ▸ hc'), taken_eq (hctl ▸ hc), accepted_append, haccepted, List.append_nil]

/-! ### `eth_transmit` -/

theorem Sound.waitOwn {t : ℕ} (h : s.Sound out count) (hctl : s.ctl = some (.waitOwn t)) :
    (s.execStep (.waitOwn t)).1.Sound (out ++ (s.execStep (.waitOwn t)).2) count := by
  have hlen : s.len.toNat ≤ ethBufSize := h.call _ hctl
  have hgoto {c' : EthTxCtl} (hc' : given (some c') = false) (hcall : (s.goto c').Expected c') :
      (s.goto c').Sound (out ++ []) count :=
    h.statement hctl rfl rfl hc' (fun _ => rfl) h.des0 h.len (fun _ _ => rfl) rfl rfl rfl rfl hcall
  by_cases hown : (s.desc s.index).des3.own = true
  · by_cases ht : t - 1 = 0
    · simp only [execStep, hown, ht, if_true]
      exact hgoto rfl trivial
    · simp only [execStep, hown, ht, if_true, if_false]
      exact hgoto rfl hlen
  · simp only [execStep, hown]
    exact hgoto rfl ⟨⟨hlen, eq_false_of_ne_true hown, fun j hj => absurd hj (Nat.not_lt_zero j)⟩,
      Nat.zero_le _⟩

/-- `memcpy` writes the next byte. The buffers of the DMA are others. -/
theorem Sound.copy {j : ℕ} (h : s.Sound out count) (hctl : s.ctl = some (.copy j)) :
    (s.execStep (.copy j)).1.Sound (out ++ (s.execStep (.copy j)).2) count := by
  obtain ⟨⟨hlen, hown, hmem⟩, hj⟩ := h.call _ hctl
  simp only [execStep]
  split_ifs with hlt
  · refine h.statement hctl rfl rfl rfl (fun _ => rfl) h.des0 h.len (fun i hi => ?_) rfl rfl rfl rfl ?_
    · have hne : i ≠ s.index := by
        rintro rfl
        rw [hown] at hi
        cases hi
      refine slot_congr rfl rfl fun k hk => Function.update_of_ne ?_ ..
      have hcap := h.len i
      rw [h.des0]
      unfold ethBufSize at *
      omega
    · refine ⟨⟨hlen, hown, fun k hk => ?_⟩, hlt⟩
      dsimp only [goto]
      rw [Function.update_apply]
      split_ifs with heq
      · rw [Nat.add_left_cancel heq]
      · exact hmem k (by omega)
  · refine h.statement hctl rfl rfl rfl (fun _ => rfl) h.des0 h.len (fun _ _ => rfl) rfl rfl rfl rfl ?_
    have hjlen : j = s.len.toNat := Nat.le_antisymm hj (Nat.le_of_not_lt hlt)
    exact ⟨hlen, hown, hjlen ▸ hmem⟩

theorem setDesc_index (d : EthDescriptor) (c : EthTxCtl) :
    ((s.setDesc s.index d).goto c).desc ((s.setDesc s.index d).goto c).index = d :=
  setDesc_self ..

theorem Stored.setDesc {n : ℕ} {d : EthDescriptor} (h : s.Stored n) (hown : d.des3.own = false)
    (c : EthTxCtl) : ((s.setDesc s.index d).goto c).Stored n :=
  ⟨h.1, by rwa [setDesc_index], h.2.2⟩

/-- One of the stores to the free descriptor before the last. -/
theorem Sound.store {c c' : EthTxCtl} {d : EthDescriptor} (h : s.Sound out count)
    (hctl : s.ctl = some c) (hc : given (some c) = false) (hc' : given (some c') = false)
    (hfree : (s.desc s.index).des3.own = false) (hown : d.des3.own = false)
    (hdes0 : d.des0 = s.index * ethBufSize) (hlen : d.des2.len ≤ ethBufSize)
    (hcall : ((s.setDesc s.index d).goto c').Expected c') :
    ((s.setDesc s.index d).goto c').Sound (out ++ [.wroteDesc s.index]) count := by
  have hother (i : ℕ) (hi : i ≠ s.index) : ((s.setDesc s.index d).goto c').desc i = s.desc i :=
    setDesc_of_ne d hi
  have hself : ((s.setDesc s.index d).goto c').desc s.index = d := setDesc_self ..
  refine h.statement hctl rfl hc hc' (fun i => ?_) (fun i => ?_) (fun i => ?_) (fun i hi => ?_) rfl
    rfl rfl rfl hcall
  · by_cases hi : i = s.index
    · rw [hi, hself, hown, hfree]
    · rw [hother i hi]
  · by_cases hi : i = s.index
    · rw [hi, hself, hdes0]
    · rw [hother i hi, h.des0]
  · by_cases hi : i = s.index
    · rw [hi, hself]
      exact hlen
    · rw [hother i hi]
      exact h.len i
  · have hne : i ≠ s.index := by
      rintro rfl
      rw [hfree] at hi
      cases hi
    exact slot_congr (by rw [hother i hne]) (by rw [hother i hne]) fun _ _ => rfl

/-- The call hands the frame to the DMA. -/
theorem Sound.des3 (h : s.Sound out count) (hctl : s.ctl = some .des3) :
    (s.execStep .des3).1.Sound (out ++ (s.execStep .des3).2) (count + 1) := by
  obtain ⟨⟨hlen, hfree, hmem⟩, hdes2⟩ := h.call _ hctl
  have htail : s.tail = s.index := tail_eq (by rw [hctl]; nofun)
  have hother (i : ℕ) (hi : i ≠ s.tail) : (s.execStep .des3).1.desc i = s.desc i :=
    setDesc_of_ne _ (htail ▸ hi)
  have hself : (s.execStep .des3).1.desc s.tail = { s.desc s.index with
      des3 := { own := true, fd := true, ld := true, len := s.len.toNat % 2 ^ 15 } } := by
    rw [htail]
    exact setDesc_self ..
  have hroom : count < ethNumTxDesc := h.marked.room (by rwa [htail])
  have hslot (i : ℕ) : (s.execStep .des3).1.slot i = s.slot i := by
    by_cases hi : i = s.tail
    · rw [hi]
      exact slot_congr (by rw [hself, htail]) (by rw [hself, htail]) fun _ _ => rfl
    · exact slot_congr (by rw [hother i hi]) (by rw [hother i hi]) fun _ _ => rfl
  have hpayload : s.slot s.index = s.payload := by
    unfold slot payload
    rw [hdes2, h.des0]
    exact List.map_congr_left fun j hj => hmem j (List.mem_range.mp hj)
  have hqueued : (s.execStep .des3).1.queued (count + 1) = s.queued count ++ [s.payload] := by
    have hpos : (s.execStep .des3).1.pos = s.pos := rfl
    rw [queued, Ring.contents_succ, hpos, ← h.marked.tail_eq, hslot, htail, hpayload]
    exact congrArg (· ++ [s.payload]) (Ring.contents_congr fun j _ => hslot _)
  refine ⟨?_, h.index, fun i => ?_, fun i => ?_, ?_, ?_⟩
  · have hpush : Ring.Marked ethNumTxDesc s.pos ((s.tail + 1) % ethNumTxDesc) (count + 1)
        fun i => ((s.execStep .des3).1.desc i).des3.own :=
      h.marked.push hroom (by rw [hself]) fun i hi => by rw [hother i hi]
    rwa [htail] at hpush
  · by_cases hi : i = s.tail
    · rw [hi, hself, htail]
      exact h.des0 s.index
    · rw [hother i hi]
      exact h.des0 i
  · by_cases hi : i = s.tail
    · rw [hi, hself]
      exact h.len s.index
    · rw [hother i hi]
      exact h.len i
  · intro c hsome
    cases hsome
    trivial
  · have horder := h.order
    rw [taken_eq (by rw [hctl]; rfl)] at horder
    rw [taken, accepted_append, sent_append, hqueued]
    show accepted out ++ [] ++ [s.payload] = sent out ++ [] ++ (s.queued count ++ [s.payload])
    rw [List.append_nil, List.append_nil, horder, List.append_assoc]

theorem Sound.advance (h : s.Sound out count) (hctl : s.ctl = some .advance) :
    (s.execStep .advance).1.Sound (out ++ (s.execStep .advance).2) count := by
  refine h.keep (fun _ => rfl) h.des0 h.len (fun _ _ => rfl) rfl (Nat.mod_lt _ (Nat.zero_lt_succ _))
    ?_ ?_ rfl ?_
  · unfold tail
    rw [hctl]
    rfl
  · intro c hsome
    cases hsome
    trivial
  · unfold taken
    rw [hctl, accepted_append]
    exact congrArg (· ++ _) (List.append_nil _)

theorem Sound.ret {r : ℤ} (h : s.Sound out count) (hctl : s.ctl = some (.ret r)) :
    (s.execStep (.ret r)).1.Sound (out ++ (s.execStep (.ret r)).2) count := by
  have htail : s.tail = s.index := tail_eq (by rw [hctl]; nofun)
  refine h.keep (fun _ => rfl) h.des0 h.len (fun _ _ => rfl) rfl h.index htail.symm nofun ?_ ?_
  · show sent [if r = 0 then _ else _] = []
    split_ifs <;> rfl
  · rw [taken_eq rfl, accepted_append, taken, hctl]
    refine congrArg (accepted out ++ ·) ?_
    show accepted [if r = 0 then _ else _] = if decide (r = 0) = true then _ else _
    by_cases hr : r = 0
    · rw [if_pos hr, if_pos (decide_eq_true hr)]
      rfl
    · rw [if_neg hr, if_neg (by simpa using hr)]
      rfl

theorem Sound.exec {c : EthTxCtl} (h : s.Sound out count) (hctl : s.ctl = some c) :
    ∃ count', (s.execStep c).1.Sound (out ++ (s.execStep c).2) count' := by
  cases c with
  | waitOwn t => exact ⟨count, h.waitOwn hctl⟩
  | copy j => exact ⟨count, h.copy hctl⟩
  | des0 =>
    have hc : s.Stored s.len.toNat := h.call _ hctl
    refine ⟨count, h.store hctl rfl rfl hc.2.1 hc.2.1 rfl (h.len _) (hc.setDesc ?_ _)⟩
    exact hc.2.1
  | des1 =>
    have hc : s.Stored s.len.toNat := h.call _ hctl
    refine ⟨count, h.store hctl rfl rfl hc.2.1 hc.2.1 (h.des0 _) (h.len _) (hc.setDesc ?_ _)⟩
    exact hc.2.1
  | des2 =>
    have hc : s.Stored s.len.toNat := h.call _ hctl
    have hlen : s.len.toNat % 2 ^ 14 = s.len.toNat :=
      Nat.mod_eq_of_lt (Nat.lt_of_le_of_lt hc.1 (by decide))
    refine ⟨count, h.store hctl rfl rfl hc.2.1 hc.2.1 (h.des0 _) (hlen.trans_le hc.1)
      ⟨hc.setDesc ?_ _, ?_⟩⟩
    · exact hc.2.1
    · rw [setDesc_index]
      exact hlen
  | des3 => exact ⟨count + 1, h.des3 hctl⟩
  | advance => exact ⟨count, h.advance hctl⟩
  | ret r => exact ⟨count, h.ret hctl⟩

/-! ### The DMA -/

/-- The next descriptor has been completed. -/
def completed (s : EthTx) : EthTx :=
  let d := s.desc s.pos
  { s.setDesc s.pos { d with des3 := { d.des3 with own := false } } with
    pos := (s.pos + 1) % ethNumTxDesc }

theorem completeStep_eq (hs : s.completeStep = some (s', o)) :
    (s.desc s.pos).des3.own = true ∧ s' = s.completed ∧ o = [.sent (s.slot s.pos)] := by
  simp only [completeStep] at hs
  split at hs
  · rename_i hown
    cases hs
    exact ⟨hown, rfl, rfl⟩
  · cases hs

theorem Stored.completed {n : ℕ} (h : s.Stored n)
    (hdesc : s.completed.desc s.index = s.desc s.index) : s.completed.Stored n :=
  ⟨h.1, (congrArg (·.des3.own) hdesc).trans h.2.1, h.2.2⟩

theorem Expected.completed {c : EthTxCtl} (h : s.Expected c)
    (hdesc : (s.desc s.index).des3.own = false → s.completed.desc s.index = s.desc s.index) :
    s.completed.Expected c := by
  cases c with
  | waitOwn t => exact h
  | copy j => exact ⟨h.1.completed (hdesc h.1.2.1), h.2⟩
  | des0 | des1 | des2 =>
    have hc : s.Stored s.len.toNat := h
    exact hc.completed (hdesc hc.2.1)
  | des3 =>
    have hindex := hdesc h.1.2.1
    exact ⟨h.1.completed hindex, (congrArg (·.des2.len) hindex).trans h.2⟩
  | advance | ret r => trivial

/-- The DMA sends the first frame of the ring. -/
theorem Sound.completed (h : s.Sound out count) (hown : (s.desc s.pos).des3.own = true) :
    ∃ count', s.completed.Sound (out ++ [.sent (s.slot s.pos)]) count' := by
  obtain ⟨m, rfl⟩ := Nat.exists_eq_succ_of_ne_zero (h.marked.pos hown).ne'
  have hother (i : ℕ) (hi : i ≠ s.pos) : s.completed.desc i = s.desc i := setDesc_of_ne _ hi
  have hself : s.completed.desc s.pos =
      { s.desc s.pos with des3 := { (s.desc s.pos).des3 with own := false } } := setDesc_self ..
  have hslot (i : ℕ) : s.completed.slot i = s.slot i := by
    by_cases hi : i = s.pos
    · rw [hi]
      exact slot_congr (by rw [hself]) (by rw [hself]) fun _ _ => rfl
    · exact slot_congr (by rw [hother i hi]) (by rw [hother i hi]) fun _ _ => rfl
  have hqueued : s.queued (m + 1) = s.slot s.pos :: s.completed.queued m := by
    rw [queued, Ring.contents_pop, Nat.mod_eq_of_lt h.marked.head_lt]
    exact congrArg (s.slot s.pos :: ·) (Ring.contents_congr fun j _ => hslot _).symm
  refine ⟨m, h.marked.pop (by rw [hself]) fun i hi => by rw [hother i hi], h.index, fun i => ?_,
    fun i => ?_, fun c hc => ?_, ?_⟩
  · by_cases hi : i = s.pos
    · rw [hi, hself]
      exact h.des0 s.pos
    · rw [hother i hi]
      exact h.des0 i
  · by_cases hi : i = s.pos
    · rw [hi, hself]
      exact h.len s.pos
    · rw [hother i hi]
      exact h.len i
  · -- the descriptor that the call may write is not the one the DMA completes
    have hne (hfree : (s.desc s.index).des3.own = false) : s.index ≠ s.pos := by
      intro heq
      rw [heq, hown] at hfree
      cases hfree
    exact (h.call c hc).completed fun hfree => hother _ (hne hfree)
  · have horder := h.order
    have htaken : s.completed.taken (out ++ [.sent (s.slot s.pos)]) = s.taken out := by
      rw [taken, accepted_append]
      exact congrArg (· ++ _) (List.append_nil _)
    rw [htaken, horder, hqueued, sent_append, List.append_assoc]
    rfl

/-! ### Runs -/

theorem sound_init (mem : ℕ → UInt8) : (init 0 mem).Sound [] 0 where
  marked := ⟨Nat.zero_le _, Nat.zero_lt_succ _, rfl, fun _ _ => rfl⟩
  index := Nat.zero_lt_succ _
  des0 _ := rfl
  len _ := Nat.zero_le _
  call := nofun
  order := rfl

theorem exec_eq (hs : s.step .exec = some (s', o)) :
    ∃ c, s.ctl = some c ∧ s.execStep c = (s', o) := by
  simp only [step] at hs
  split at hs
  · cases hs
  · rename_i c hctl
    exact ⟨c, hctl, Option.some.inj hs⟩

/-- Every step keeps the frames in order. -/
theorem Sound.step {a : EthTxAction} (h : s.Sound out count) (hs : s.step a = some (s', o)) :
    ∃ count', s'.Sound (out ++ o) count' := by
  cases a with
  | transmit data len =>
    simp only [EthTx.step] at hs
    split at hs
    · rename_i hctl
      cases hs
      have htail : s.tail = s.index := tail_eq (by rw [hctl]; nofun)
      split_ifs with hlen
      · refine ⟨count, h.keep (fun _ => rfl) h.des0 h.len (fun _ _ => rfl) rfl h.index htail.symm ?_ rfl
          ?_⟩
        · intro c hsome
          cases hsome
          trivial
        · rw [taken_eq rfl, taken_eq (by rw [hctl]; rfl), List.append_nil]
      · refine ⟨count, h.keep (fun _ => rfl) h.des0 h.len (fun _ _ => rfl) rfl h.index htail.symm ?_ rfl
          ?_⟩
        · intro c hsome
          cases hsome
          exact Nat.le_of_not_lt hlen
        · rw [taken_eq rfl, taken_eq (by rw [hctl]; rfl), List.append_nil]
    · cases hs
  | exec =>
    obtain ⟨c, hctl, heq⟩ := exec_eq hs
    have hexec := h.exec hctl
    rwa [heq] at hexec
  | complete =>
    obtain ⟨hown, rfl, rfl⟩ := completeStep_eq hs
    exact h.completed hown

theorem reach_sound {ok : EthTx → EthTxAction → Prop} {mem : ℕ → UInt8}
    (h : Run.Reach EthTx.step ok (init 0 mem) s out) : ∃ count, s.Sound out count :=
  h.induct (I := fun s out => ∃ count, s.Sound out count) ⟨0, sound_init mem⟩
    fun _ _ _ _ _ _ hI _ hs => by
      obtain ⟨count, hI⟩ := hI
      exact hI.step hs

theorem Sound.sends (h : s.Sound out count) : s.Sends out := by
  refine ⟨s.queued count, h.order, fun hown => ?_⟩
  have hzero : count = 0 := by
    by_contra hne
    have hmark := h.marked.mark_head (Nat.pos_of_ne_zero hne)
    rw [hown] at hmark
    cases hmark
  rw [hzero]
  rfl

/-- Only a descriptor or a buffer that the DMA has given up is written. -/
def Permitted (s : EthTx) : EthTxObs → Prop
  | .wroteDesc i => i < ethNumTxDesc ∧ (s.desc i).des3.own = false
  | .wroteBuf addr => addr / ethBufSize < ethNumTxDesc ∧
      (s.desc (addr / ethBufSize)).des3.own = false
  | _ => True

theorem Sound.permitted_exec {c : EthTxCtl} (h : s.Sound out count) (hctl : s.ctl = some c) :
    ∀ x ∈ (s.execStep c).2, s.Permitted x := by
  intro x hx
  cases c with
  | waitOwn t | advance => cases hx
  | copy j =>
    obtain ⟨⟨hlen, hown, -⟩, -⟩ := h.call _ hctl
    simp only [execStep] at hx
    split_ifs at hx with hlt
    · rw [List.mem_singleton.mp hx]
      have hindex : (s.index * ethBufSize + j) / ethBufSize = s.index := by
        unfold ethBufSize at *
        omega
      show (s.index * ethBufSize + j) / ethBufSize < _ ∧ _
      rw [hindex]
      exact ⟨h.index, hown⟩
    · cases hx
  | des0 | des1 | des2 =>
    rw [List.mem_singleton.mp hx]
    have hc : s.Stored s.len.toNat := h.call _ hctl
    exact ⟨h.index, hc.2.1⟩
  | des3 =>
    rw [List.mem_singleton.mp hx]
    exact ⟨h.index, (h.call _ hctl).1.2.1⟩
  | ret r =>
    rw [List.mem_singleton.mp hx]
    split_ifs <;> trivial

theorem Sound.permitted {a : EthTxAction} (h : s.Sound out count) (hs : s.step a = some (s', o)) :
    ∀ x ∈ o, s.Permitted x := by
  cases a with
  | exec =>
    obtain ⟨c, hctl, heq⟩ := exec_eq hs
    have hexec := h.permitted_exec hctl
    rwa [heq] at hexec
  | complete =>
    obtain ⟨-, -, rfl⟩ := completeStep_eq hs
    intro x hx
    rw [List.mem_singleton.mp hx]
    trivial
  | transmit data len =>
    simp only [EthTx.step] at hs
    split at hs
    · cases hs
      exact fun _ hx => by cases hx
    · cases hs

end EthTx

end TamgaOs
