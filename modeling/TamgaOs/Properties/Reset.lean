import TamgaOs.Library.CacheGeometry
import TamgaOs.Properties.MemoryInit
import Mathlib.Data.List.Nodup
import Mathlib.Data.List.ProdSigma
import Mathlib.Data.Nat.Find

/-!
# The reset handlers come to `main`

The K64F handler disables the watchdog and enables the FPU. The STM32H753ZI handler waits for its
supply, reads the geometry of the data cache and goes through its sets and ways from the last one
down, before it enables the caches. Both initialize the memory then.

## Main definitions

* `setRegs`, `storesOfSets`: the registers of the loop over the sets, and its stores.
* `disableWatchdog`, `configureSupply`, `selectCache`, `enableCaches`, `enableFpu`: the accesses of
  the straight parts.

## Main results

* `leads_ways`, `leads_sets`: the two loops over the cache.
* `leads_ready`: the loop over the supply.
* `k64f_reset`, `stm32_reset`: the whole handlers.
-/

namespace TamgaOs

open ByteMemory Thumb

open CacheGeometry

/-! ### The loops over the cache -/

section Caches

variable {l : Layout} {bus : Bus} {prog : List Instr} {m : Mem} {log : List Access}
  {g : BitVec 32} {t w : ℕ}

/-- The registers of the loop over the sets. -/
def setRegs (g : BitVec 32) (t : ℕ) : List (Reg × BitVec 32) :=
  [(.r2, BitVec.ofNat 32 t), (.r4, BitVec.ofNat 32 (ways g - 1)),
    (.r6, BitVec.ofNat 32 (32 - wayBits g)), (.r7, BitVec.ofNat 32 (lineBits g)), (.r11, dcisw)]

/-- What is stored for the ways of a set up to `n`, the last one first. -/
def storesOfSet (g : BitVec 32) (n t : ℕ) : List Access :=
  (List.range n).map fun w => .store dcisw (line g t w)

/-- What is stored for all sets up to `n`. -/
def storesOfSets (g : BitVec 32) (n : ℕ) : List Access :=
  (List.range n).flatMap (storesOfSet g (ways g))

theorem ways_le (g : BitVec 32) : ways g ≤ 2 ^ 10 := (g.extractLsb' 3 10).isLt

theorem sets_le (g : BitVec 32) : sets g ≤ 2 ^ 15 := (g.extractLsb' 13 15).isLt

theorem lineBits_lt (g : BitVec 32) : lineBits g < 12 :=
  Nat.add_lt_add_right (g.extractLsb' 0 3).isLt 4

/-- One way. -/
theorem leads_way (hcode : Placed prog 0 (stm32Reset l)) (hw : w < ways g) :
    Leads (step bus prog)
      (At 27 (Holds ((.r1, BitVec.ofNat 32 w) :: setRegs g t) m log))
      (At (if decide (1 ≤ w) then 27 else 33)
        (Holds ((.r1, BitVec.ofNat 32 w - 1) :: setRegs g t) m
          (.store dcisw (line g t w) :: log))) := by
  have hbody : Placed prog 27 [.lsl .r3 .r1 .r6, .lsl .r8 .r2 .r7, .orr .r3 .r3 .r8,
    .str .r3 .r11 0, .subs .r1 .r1 1] := hcode.slice 27 5
  have hbranch : Placed prog 32 [.bc .ge 27] := hcode.slice 32 1
  let P (s : State) : Prop := Holds ((.r1, BitVec.ofNat 32 w - 1) :: setRegs g t) m
    (.store dcisw (line g t w) :: log) s ∧ s.holds .ge = decide (1 ≤ w)
  have hpass : Leads (step bus prog) (At 27 (Holds ((.r1, BitVec.ofNat 32 w) :: setRegs g t) m log))
      (At 32 P) := by
    refine leads_straight hbody rfl fun s hs => ?_
    have h1 : s.reg .r1 = BitVec.ofNat 32 w := hs.reg 0 rfl
    have h2 : s.reg .r2 = BitVec.ofNat 32 t := hs.reg 1 rfl
    have h4 : s.reg .r4 = BitVec.ofNat 32 (ways g - 1) := hs.reg 2 rfl
    have h6 : s.reg .r6 = BitVec.ofNat 32 (32 - wayBits g) := hs.reg 3 rfl
    have h7 : s.reg .r7 = BitVec.ofNat 32 (lineBits g) := hs.reg 4 rfl
    have h11 : s.reg .r11 = dcisw := hs.reg 5 rfl
    have hways := ways_le g
    have hdevice : IsDevice (dcisw + 0) := by decide
    have hshift : (BitVec.ofNat 32 (32 - wayBits g)).toNat % 256 = 32 - wayBits g := by
      rw [BitVec.toNat_ofNat]
      omega
    have hlines := lineBits_lt g
    have hshift' : (BitVec.ofNat 32 (lineBits g)).toNat % 256 = lineBits g := by
      rw [BitVec.toNat_ofNat]
      omega
    have hword : (BitVec.ofNat 32 w).toNat = w := by
      rw [BitVec.toNat_ofNat]
      omega
    simp only [block, List.foldl_cons, List.foldl_nil, Instr.exec, State.set_reg, reduceCtorEq,
      if_true, if_false, h1, h2, h6, h7, h11, hshift, hshift', State.store_device hdevice,
      State.addLog_reg]
    refine ⟨⟨?_, hs.mem, ?_⟩, ?_⟩
    · simp [setRegs, h2, h4, h6, h7, h11]
    · simp [hs.log, line]
    · rw [State.set_holds, State.compare_ge (by omega) (by decide), hword]
      rfl
  exact (hpass.trans (leads_branch hbranch fun s hs => hs.2)).imp fun x hx => ⟨hx.1, hx.2.1⟩

/-- The ways from `w` down. -/
theorem leads_ways (hcode : Placed prog 0 (stm32Reset l)) (hw : w < ways g) :
    Leads (step bus prog)
      (At 27 (Holds ((.r1, BitVec.ofNat 32 w) :: setRegs g t) m log))
      (At 33 (Holds (setRegs g t) m (storesOfSet g (w + 1) t ++ log))) := by
  induction w generalizing log with
  | zero =>
    exact (leads_way hcode hw).imp fun x hx =>
      ⟨hx.1, fun p hp => hx.2.regs p (List.mem_cons_of_mem _ hp), hx.2.mem, hx.2.log⟩
  | succ w ih =>
    have hpass : Leads (step bus prog)
        (At 27 (Holds ((.r1, BitVec.ofNat 32 (w + 1)) :: setRegs g t) m log)) _ :=
      leads_way hcode hw
    rw [decide_eq_true (Nat.le_add_left 1 w), if_pos rfl] at hpass
    have hprev : BitVec.ofNat 32 (w + 1) - 1 = BitVec.ofNat 32 w := by bv_omega
    have hlog : storesOfSet g (w + 1) t ++ .store dcisw (line g t (w + 1)) :: log =
        storesOfSet g (w + 1 + 1) t ++ log := by
      rw [storesOfSet, storesOfSet, List.range_succ (n := w + 1), List.map_append,
        List.append_assoc]
      rfl
    rw [hprev] at hpass
    exact hlog ▸ hpass.trans (ih (Nat.lt_of_succ_lt hw))

/-- One set. -/
theorem leads_set (hcode : Placed prog 0 (stm32Reset l)) (ht : t < sets g) :
    Leads (step bus prog) (At 26 (Holds (setRegs g t) m log))
      (At (if decide (1 ≤ t) then 26 else 35)
        (Holds ((.r2, BitVec.ofNat 32 t - 1) :: (setRegs g t).tail) m
          (storesOfSet g (ways g) t ++ log))) := by
  have hfirst : Placed prog 26 [.movReg .r1 .r4] := hcode.slice 26 1
  have hlast : Placed prog 33 [.subs .r2 .r2 1] := hcode.slice 33 1
  have hbranch : Placed prog 34 [.bc .ge 26] := hcode.slice 34 1
  have hpos : ways g - 1 + 1 = ways g := Nat.succ_pred_eq_of_pos (Nat.succ_pos _)
  have hbegin : Leads (step bus prog) (At 26 (Holds (setRegs g t) m log))
      (At 27 (Holds ((.r1, BitVec.ofNat 32 (ways g - 1)) :: setRegs g t) m log)) := by
    refine leads_straight hfirst rfl fun s hs => ⟨?_, hs.mem, hs.log⟩
    have h2 := hs.reg 0 rfl
    have h4 := hs.reg 1 rfl
    have h6 := hs.reg 2 rfl
    have h7 := hs.reg 3 rfl
    have h11 := hs.reg 4 rfl
    simp [block, Instr.exec, setRegs, h2, h4, h6, h7, h11]
  have hways : Leads (step bus prog)
      (At 27 (Holds ((.r1, BitVec.ofNat 32 (ways g - 1)) :: setRegs g t) m log)) _ :=
    leads_ways hcode (Nat.lt_of_lt_of_eq (Nat.lt_succ_self _) hpos)
  rw [hpos] at hways
  let P (s : State) : Prop := Holds ((.r2, BitVec.ofNat 32 t - 1) :: (setRegs g t).tail) m
    (storesOfSet g (ways g) t ++ log) s ∧ s.holds .ge = decide (1 ≤ t)
  have hend : Leads (step bus prog) (At 33 (Holds (setRegs g t) m (storesOfSet g (ways g) t ++ log)))
      (At 34 P) := by
    refine leads_straight hlast rfl fun s hs => ⟨⟨?_, hs.mem, hs.log⟩, ?_⟩
    · have h2 := hs.reg 0 rfl
      have h4 := hs.reg 1 rfl
      have h6 := hs.reg 2 rfl
      have h7 := hs.reg 3 rfl
      have h11 := hs.reg 4 rfl
      simp [block, Instr.exec, setRegs, h2, h4, h6, h7, h11]
    · have h2 : s.reg .r2 = BitVec.ofNat 32 t := hs.reg 0 rfl
      have hsets := sets_le g
      have hword : (BitVec.ofNat 32 t).toNat = t := by
        rw [BitVec.toNat_ofNat]
        omega
      change ((s.compare (s.reg .r2) 1).set .r2 _).holds .ge = _
      rw [State.set_holds, h2, State.compare_ge (by omega) (by decide), hword]
      rfl
  refine (((hbegin.trans hways).trans hend).trans (leads_branch hbranch fun s hs => hs.2)).imp ?_
  exact fun x hx => ⟨hx.1, hx.2.1⟩

/-- The sets from `t` down. -/
theorem leads_sets (hcode : Placed prog 0 (stm32Reset l)) (ht : t < sets g) :
    Leads (step bus prog) (At 26 (Holds (setRegs g t) m log))
      (At 35 (Holds [] m (storesOfSets g (t + 1) ++ log))) := by
  induction t generalizing log with
  | zero =>
    refine (leads_set hcode ht).imp fun x hx => ⟨hx.1, by simp, hx.2.mem, ?_⟩
    rw [hx.2.log, storesOfSets]
    simp
  | succ t ih =>
    have hpass : Leads (step bus prog) (At 26 (Holds (setRegs g (t + 1)) m log)) _ :=
      leads_set hcode ht
    have hprev : BitVec.ofNat 32 (t + 1) - 1 = BitVec.ofNat 32 t := by bv_omega
    have hlog : storesOfSets g (t + 1) ++ (storesOfSet g (ways g) (t + 1) ++ log) =
        storesOfSets g (t + 1 + 1) ++ log := by
      rw [storesOfSets, storesOfSets, List.range_succ (n := t + 1), List.flatMap_append,
        List.append_assoc, List.flatMap_singleton]
    rw [decide_eq_true (Nat.le_add_left 1 t), if_pos rfl, hprev] at hpass
    exact hlog ▸ hpass.trans (ih (Nat.lt_of_succ_lt ht))

end Caches

/-! ### The handlers -/

section Handlers

variable {l : Layout} {bus : Bus} {m : Mem} {log : List Access}

theorem placed_self (prog : List Instr) : Placed prog 0 prog := fun j i hj => by
  rwa [Nat.zero_add]

/-- CPACR. -/
def cpacr : BitVec 32 := 0xE000ED88

/-- The FPU is enabled. -/
def enableFpu (bus : Bus) (log : List Access) : List Access :=
  .store cpacr (bus log cpacr ||| 0xF00000) :: .load cpacr (bus log cpacr) :: log

/-- The watchdog of the K64F is disabled. -/
def disableWatchdog (log : List Access) : List Access :=
  .storeHalf 0x40052000 0x0010 :: .storeHalf 0x4005200E 0xD928 :: .storeHalf 0x4005200E 0xC520 :: log

theorem leads_k64f : Leads (step bus (k64fReset l)) (At 0 (Holds [] m log))
    (At 14 (Holds [] m (enableFpu bus (disableWatchdog log)))) := by
  have hcode : Placed (k64fReset l) 0 [.ldrLit .r0 0x4005200E, .ldrLit .r1 0xC520, .strh .r1 .r0,
      .ldrLit .r1 0xD928, .strh .r1 .r0, .ldrLit .r0 0x40052000, .ldrLit .r1 0x0010, .strh .r1 .r0,
      .ldrLit .r0 0xE000ED88, .ldr .r1 .r0 0, .orrImm .r1 .r1 0xF00000, .str .r1 .r0 0, .dsb,
      .isb] := (placed_self (k64fReset l)).slice 0 14
  have hunlock : IsDevice 0x4005200E := by decide
  have hcontrol : IsDevice 0x40052000 := by decide
  have hcpacr : IsDevice (0xE000ED88 + 0) := by decide
  refine leads_straight hcode rfl fun s hs => ?_
  simp only [block, List.foldl_cons, List.foldl_nil, Instr.exec, State.set_reg, reduceCtorEq,
    if_true, if_false, State.storeHalf_device hunlock, State.storeHalf_device hcontrol,
    State.addLog_reg, State.load_device hcpacr, State.store_device hcpacr]
  refine ⟨by simp, hs.mem, ?_⟩
  rw [enableFpu, disableWatchdog, ← hs.log]
  rfl

/-- PWR_CSR1 and PWR_CR3. -/
def csr1 : BitVec 32 := 0x58024804

def cr3 : BitVec 32 := 0x5802480C

/-- The supply of the STM32H753ZI is configured. -/
def configureSupply (bus : Bus) (log : List Access) : List Access :=
  .store cr3 (bus log cr3 ||| 2) :: .load cr3 (bus log cr3) :: log

theorem leads_supply : Leads (step bus (stm32Reset l)) (At 0 (Holds [] m log))
    (At 4 (Holds [(.r1, 0x58024800)] m (configureSupply bus log))) := by
  have hcode : Placed (stm32Reset l) 0 [.ldrLit .r1 0x58024800, .ldr .r0 .r1 0x00C,
      .orrImm .r0 .r0 2, .str .r0 .r1 0x00C] := (placed_self (stm32Reset l)).slice 0 4
  have hcr3 : IsDevice (0x58024800 + 0x00C) := by decide
  refine leads_straight hcode rfl fun s hs => ?_
  simp only [block, List.foldl_cons, List.foldl_nil, Instr.exec, State.set_reg, reduceCtorEq,
    if_true, if_false, State.addLog_reg, State.load_device hcr3, State.store_device hcr3]
  refine ⟨by simp, hs.mem, ?_⟩
  rw [configureSupply, ← hs.log]
  rfl

/-- One look at the supply. -/
theorem leads_poll : Leads (step bus (stm32Reset l)) (At 4 (Holds [(.r1, 0x58024800)] m log))
    (At (if decide (bus log csr1 &&& 0x2000 = 0) then 4 else 7)
      (Holds [(.r1, 0x58024800)] m (polls bus csr1 log 1))) := by
  have hcode : Placed (stm32Reset l) 4 [.ldr .r0 .r1 0x004, .tst .r0 0x2000] :=
    (placed_self (stm32Reset l)).slice 4 2
  have hbranch : Placed (stm32Reset l) 6 [.bc .eq 4] := (placed_self (stm32Reset l)).slice 6 1
  let P (s : State) : Prop := Holds [(.r1, 0x58024800)] m (polls bus csr1 log 1) s ∧
    s.holds .eq = decide (bus log csr1 &&& 0x2000 = 0)
  have hlook : Leads (step bus (stm32Reset l)) (At 4 (Holds [(.r1, 0x58024800)] m log))
      (At 6 P) := by
    have hcsr1 : IsDevice (0x58024800 + 0x004) := by decide
    refine leads_straight hcode rfl fun s hs => ?_
    have h1 : s.reg .r1 = 0x58024800 := hs.reg 0 rfl
    simp only [block, List.foldl_cons, List.foldl_nil, Instr.exec, h1, State.load_device hcsr1,
      State.addLog_reg, State.set_reg, if_true]
    refine ⟨⟨?_, hs.mem, ?_⟩, ?_⟩
    · simp [h1]
    · rw [polls, polls, ← hs.log]
      rfl
    · rw [State.test_eq, ← hs.log]
      rfl
  exact (hlook.trans (leads_branch hbranch fun s hs => hs.2)).imp fun x hx => ⟨hx.1, hx.2.1⟩

theorem polls_succ (a : BitVec 32) (log : List Access) (k : ℕ) :
    polls bus a (polls bus a log 1) k = polls bus a log (k + 1) := by
  induction k with
  | zero => rfl
  | succ k ih =>
    change .load a (bus (polls bus a (polls bus a log 1) k) a) ::
      polls bus a (polls bus a log 1) k = _
    rw [ih]
    rfl

/-- The loop over the supply ends with the first poll that finds it ready. -/
theorem leads_ready {k : ℕ} (hwait : ∀ j < k, bus (polls bus csr1 log j) csr1 &&& 0x2000 = 0)
    (hk : bus (polls bus csr1 log k) csr1 &&& 0x2000 ≠ 0) :
    Leads (step bus (stm32Reset l)) (At 4 (Holds [(.r1, 0x58024800)] m log))
      (At 7 (Holds [] m (polls bus csr1 log (k + 1)))) := by
  have hpoll : Leads (step bus (stm32Reset l)) (At 4 (Holds [(.r1, 0x58024800)] m log)) _ :=
    leads_poll
  induction k generalizing log with
  | zero =>
    have hready : ¬bus log csr1 &&& 0x2000 = 0 := hk
    rw [decide_eq_false hready] at hpoll
    exact hpoll.imp fun x hx => ⟨hx.1, by simp, hx.2.mem, hx.2.log⟩
  | succ k ih =>
    have hbusy : bus log csr1 &&& 0x2000 = 0 := hwait 0 (Nat.succ_pos k)
    rw [decide_eq_true hbusy] at hpoll
    have hrest := @ih (polls bus csr1 log 1)
      (fun j hj => polls_succ csr1 log j ▸ hwait (j + 1) (Nat.succ_lt_succ hj))
      (polls_succ csr1 log k ▸ hk) leads_poll
    rw [polls_succ] at hrest
    exact hpoll.trans hrest

/-- The instruction cache is invalidated and the data cache selected. -/
def selectCache (log : List Access) : List Access := .store csselr 0 :: .store iciallu 0 :: log

theorem and_mask {n k : ℕ} (hk : k ≤ 31) (w : BitVec 32) :
    BitVec.ofNat 32 (2 ^ k - 1) &&& (w >>> n) = BitVec.ofNat 32 (w.extractLsb' n k).toNat := by
  have hpow : 2 ^ k < 2 ^ 32 := Nat.pow_lt_pow_right Nat.one_lt_two (by omega)
  refine BitVec.eq_of_toNat_eq ?_
  have hmod : (w.extractLsb' n k).toNat < 2 ^ 32 := Nat.lt_trans (w.extractLsb' n k).isLt hpow
  rw [BitVec.toNat_and, BitVec.toNat_ofNat, BitVec.toNat_ofNat, Nat.mod_eq_of_lt (by omega),
    Nat.mod_eq_of_lt hmod, Nat.and_comm, Nat.and_two_pow_sub_one_eq_mod, BitVec.extractLsb'_toNat,
    BitVec.toNat_ushiftRight]

theorem leads_geometry : Leads (step bus (stm32Reset l)) (At 7 (Holds [] m log))
    (fun x => ∃ g, g = bus (selectCache log) ccsidr ∧
      At 26 (Holds (setRegs g (sets g - 1)) m (.load ccsidr g :: selectCache log)) x) := by
  have hcode : Placed (stm32Reset l) 7 [.ldrLit .r11 iciallu, .mov .r0 0, .str .r0 .r11 0, .dsb,
      .isb, .mov .r0 0, .ldrLit .r11 csselr, .str .r0 .r11 0, .dsb, .ldrLit .r11 ccsidr,
      .ldr .r2 .r11 0, .andImm .r1 .r2 7, .addImm .r7 .r1 4, .mov .r1 0x3FF, .ands .r4 .r1 .r2 3,
      .mov .r1 0x7FFF, .ands .r2 .r1 .r2 13, .clz .r6 .r4, .ldrLit .r11 dcisw] :=
    (placed_self (stm32Reset l)).slice 7 19
  have hic : IsDevice (iciallu + 0) := by decide
  have hcs : IsDevice (csselr + 0) := by decide
  have hcc : IsDevice (ccsidr + 0) := by decide
  let g := bus (selectCache log) ccsidr
  have hlead : Leads (step bus (stm32Reset l)) (At 7 (Holds [] m log))
      (At 26 (Holds (setRegs g (sets g - 1)) m (.load ccsidr g :: selectCache log))) := by
    refine leads_straight hcode rfl fun s hs => ?_
    have hways : (0x3FF : BitVec 32) &&& (g >>> 3) = BitVec.ofNat 32 (ways g - 1) :=
      and_mask (k := 10) (by decide) g
    have hsets : (0x7FFF : BitVec 32) &&& (g >>> 13) = BitVec.ofNat 32 (sets g - 1) :=
      and_mask (k := 15) (by decide) g
    have hline : (g &&& 7) + 4 = BitVec.ofNat 32 (lineBits g) := by
      have hmask := and_mask (n := 0) (k := 3) (by decide) g
      rw [BitVec.ushiftRight_zero, BitVec.and_comm] at hmask
      rw [lineBits, BitVec.ofNat_add, ← hmask]
      rfl
    have hshift : 32 - (BitVec.ofNat 32 (ways g - 1)).toNat.size = 32 - wayBits g := by
      have hle := ways_le g
      rw [BitVec.toNat_ofNat, Nat.mod_eq_of_lt (by omega), wayBits, ← clog_succ]
      rfl
    have hload : bus (.store (csselr + 0) 0 :: .store (iciallu + 0) 0 :: s.log) (ccsidr + 0) =
        g := by
      rw [hs.log]
      rfl
    simp only [block, List.foldl_cons, List.foldl_nil, Instr.exec, State.set_reg, reduceCtorEq,
      if_true, if_false, State.store_device hic, State.store_device hcs, State.load_device hcc,
      State.addLog_reg, State.addLog_log, State.set_log, State.test_reg, hload, hways, hsets,
      hline, hshift]
    refine ⟨by simp [setRegs], hs.mem, ?_⟩
    rw [selectCache, ← hs.log]
    rfl
  exact hlead.imp fun x hx => ⟨g, rfl, hx⟩

/-- Both caches are enabled. -/
def enableCaches (bus : Bus) (log : List Access) : List Access :=
  .store ccr (bus log ccr ||| 0x10000 ||| 0x20000) :: .load ccr (bus log ccr) :: log

theorem leads_enable : Leads (step bus (stm32Reset l)) (At 35 (Holds [] m log))
    (At 50 (Holds [] m (enableFpu bus (enableCaches bus log)))) := by
  have hcode : Placed (stm32Reset l) 35 [.dsb, .isb, .ldrLit .r11 ccr, .ldr .r0 .r11 0,
      .orrImm .r0 .r0 0x10000, .orrImm .r0 .r0 0x20000, .str .r0 .r11 0, .dsb, .isb,
      .ldrLit .r0 0xE000ED88, .ldr .r1 .r0 0, .orrImm .r1 .r1 0xF00000, .str .r1 .r0 0, .dsb,
      .isb] := (placed_self (stm32Reset l)).slice 35 15
  have hccr : IsDevice (ccr + 0) := by decide
  have hcpacr : IsDevice (0xE000ED88 + 0) := by decide
  refine leads_straight hcode rfl fun s hs => ?_
  simp only [block, List.foldl_cons, List.foldl_nil, Instr.exec, State.set_reg, reduceCtorEq,
    if_true, if_false, State.load_device hccr, State.store_device hccr, State.addLog_reg,
    State.load_device hcpacr, State.store_device hcpacr]
  refine ⟨by simp, hs.mem, ?_⟩
  rw [enableFpu, enableCaches, ← hs.log]
  rfl

/-- The words for DCISW, in the order of the accesses, the last one first. -/
def lines (g : BitVec 32) : List (BitVec 32) :=
  (List.range (sets g)).flatMap fun t => (List.range (ways g)).map (line g t)

theorem storesOfSets_eq (g : BitVec 32) :
    storesOfSets g (sets g) = (lines g).map (.store dcisw) := by
  rw [storesOfSets, lines, List.map_flatMap]
  refine congrArg (List.flatMap · (List.range (sets g))) (funext fun t => ?_)
  rw [storesOfSet, List.map_map]
  rfl

theorem decode_lines {g : BitVec 32} (hg : Fits g) :
    (lines g).map (decode g) = List.range (sets g) ×ˢ List.range (ways g) := by
  rw [lines, List.map_flatMap]
  refine List.flatMap_congr fun t ht => ?_
  rw [List.map_map]
  exact List.map_congr_left fun w hw =>
    decode_line hg (List.mem_range.1 ht) (List.mem_range.1 hw)

end Handlers

/-- On the K64F the reset handler comes to the call of `main`, with the watchdog disabled, the FPU
enabled and the memory initialized. -/
theorem k64f_reset (l : Layout) (bus : Bus) (s : State) :
    ∃ x, Relation.ReflTransGen (fun x y => step bus (k64fReset l) x = some y) (0, s) x ∧
      (k64fReset l)[x.1]? = some .bl ∧ l.Initialized s.mem x.2.mem ∧
      x.2.log = enableFpu bus (disableWatchdog s.log) := by
  have hcode : Placed (k64fReset l) 14 (memoryInit l 14) := (placed_self (k64fReset l)).slice 14 17
  have hinit : Leads (step bus (k64fReset l))
      (At 14 (Holds [] s.mem (enableFpu bus (disableWatchdog s.log)))) _ := leads_memoryInit hcode
  obtain ⟨x, hx, hpc, hregs, hmem, hlog⟩ :=
    (leads_k64f.trans hinit) (0, s) ⟨rfl, by simp, rfl, rfl⟩
  refine ⟨x, hx, ?_, hmem ▸ l.initialized_initialized s.mem, hlog⟩
  rw [hpc]
  rfl

/-- On the STM32H753ZI, when the supply gets ready, the reset handler comes to the call of `main`,
with the memory initialized. It polls the supply until it is ready, and before it enables the caches
it invalidates every line of the data cache exactly once. -/
theorem stm32_reset (l : Layout) (bus : Bus) (s : State)
    (hready : ∃ k, bus (polls bus csr1 (configureSupply bus s.log) k) csr1 &&& 0x2000 ≠ 0) :
    ∃ (x : ℕ × State) (g : BitVec 32) (n : ℕ) (lines : List (BitVec 32)),
      Relation.ReflTransGen (fun x y => step bus (stm32Reset l) x = some y) (0, s) x ∧
      (stm32Reset l)[x.1]? = some .bl ∧ l.Initialized s.mem x.2.mem ∧
      bus (polls bus csr1 (configureSupply bus s.log) n) csr1 &&& 0x2000 ≠ 0 ∧
      (∀ j < n, bus (polls bus csr1 (configureSupply bus s.log) j) csr1 &&& 0x2000 = 0) ∧
      g = bus (selectCache (polls bus csr1 (configureSupply bus s.log) (n + 1))) ccsidr ∧
      x.2.log = enableFpu bus (enableCaches bus (lines.map (.store dcisw) ++ .load ccsidr g ::
        selectCache (polls bus csr1 (configureSupply bus s.log) (n + 1)))) ∧
      (Fits g → (lines.map (decode g)).Nodup ∧
        ∀ p, p ∈ lines.map (decode g) ↔ p.1 < sets g ∧ p.2 < ways g) := by
  let n := Nat.find hready
  have hn : bus (polls bus csr1 (configureSupply bus s.log) n) csr1 &&& 0x2000 ≠ 0 :=
    Nat.find_spec hready
  have hwait : ∀ j < n, bus (polls bus csr1 (configureSupply bus s.log) j) csr1 &&& 0x2000 = 0 :=
    fun j hj => not_not.1 (Nat.find_min hready hj)
  have hself := placed_self (stm32Reset l)
  have hcode : Placed (stm32Reset l) 50 (memoryInit l 50) := hself.slice 50 17
  obtain ⟨x, hx, hx'⟩ := (leads_supply.trans (leads_ready hwait hn)) (0, s) ⟨rfl, by simp, rfl, rfl⟩
  obtain ⟨y, hy, g, hg, hy'⟩ := leads_geometry x hx'
  have hpos : sets g - 1 + 1 = sets g := Nat.succ_pred_eq_of_pos (Nat.succ_pos _)
  have hsets : Leads (step bus (stm32Reset l)) (At 26 (Holds (setRegs g (sets g - 1)) s.mem
      (.load ccsidr g :: selectCache (polls bus csr1 (configureSupply bus s.log) (n + 1))))) _ :=
    leads_sets hself (Nat.lt_of_lt_of_eq (Nat.lt_succ_self _) hpos)
  rw [hpos] at hsets
  obtain ⟨z, hz, hpc, hregs, hmem, hlog⟩ :=
    ((hsets.trans leads_enable).trans (leads_memoryInit hcode)) y hy'
  refine ⟨z, g, n, lines g, (hx.trans hy).trans hz, ?_, hmem ▸ l.initialized_initialized s.mem, hn,
    hwait, hg, ?_, fun hfits => ?_⟩
  · rw [hpc]
    rfl
  · rw [hlog, storesOfSets_eq]
  · rw [decode_lines hfits]
    refine ⟨List.Nodup.product List.nodup_range List.nodup_range, fun p => ?_⟩
    rw [List.mem_product, List.mem_range, List.mem_range]

/-- Sixteen bytes of `.data` and 240 bytes of `.bss`. -/
def smallLayout : Layout where
  dataStart := 0x20000000
  dataEnd := 0x20000010
  dataLoad := 0x08001000
  bssStart := 0x20000010
  bssEnd := 0x20000100
  data_le := by decide
  data_dvd := by decide
  load_le := by decide
  bss_le := by decide
  bss_dvd := by decide
  data_bss := by decide
  ram := by decide

/-- A load of `PWR->CSR1`. -/
def readsSupply : Access → Bool
  | .load a _ => a = csr1
  | .store _ _ | .storeHalf _ _ => false

/-- A data cache with four ways of 128 sets, and a supply that is ready when it has been polled three
times. -/
def slowBus : Bus := fun log a =>
  if a = ccsidr then 0xF00FE019
  else if a = csr1 then if 3 ≤ log.countP readsSupply then 0x2000 else 0
  else 0

theorem stm32_reset_ready : ∃ (x : ℕ × State) (lines : List (BitVec 32)),
    (stm32Reset smallLayout)[x.1]? = some .bl ∧ smallLayout.Initialized (fun _ => 0xFF) x.2.mem ∧
    x.2.log = enableFpu slowBus (enableCaches slowBus (lines.map (.store dcisw) ++
      .load ccsidr 0xF00FE019 ::
        selectCache (polls slowBus csr1 (configureSupply slowBus []) 4))) ∧
    (lines.map (decode 0xF00FE019)).Nodup ∧
    ∀ p, p ∈ lines.map (decode 0xF00FE019) ↔ p.1 < 128 ∧ p.2 < 4 := by
  obtain ⟨x, g, n, lines, -, hcall, hmem, hn, hwait, rfl, hlog, hlines⟩ :=
    stm32_reset smallLayout slowBus
      { reg := fun _ => 0, negative := false, zero := false, overflow := false, mem := fun _ => 0xFF
        log := [] } ⟨3, by decide⟩
  obtain rfl : n = 3 := by
    rcases Nat.lt_trichotomy n 3 with hlt | he | hlt
    · have hbusy : ∀ j < 3, slowBus (polls slowBus csr1 (configureSupply slowBus []) j) csr1 &&&
          0x2000 = 0 := by decide
      exact absurd (hbusy n hlt) hn
    · exact he
    · exact absurd (hwait 3 hlt) (by decide)
  have hfits : Fits 0xF00FE019 := by
    unfold Fits lineBits setBits wayBits
    decide
  exact ⟨x, lines, hcall, hmem, hlog, hlines hfits⟩

end TamgaOs
