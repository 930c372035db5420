import TamgaOs.Boot.Reset

/-!
# The memory before `main`

Both reset handlers copy `.data` from the flash and zero `.bss`, in loops that compare addresses with
a sign. The loops end, the sections are initialized to their last word, and nothing else is touched:
what survives a reset does so in the other sections.

## Main definitions

* `Layout.initialized`: the memory when `main` is called.

## Main results

* `leads_data`, `leads_bss`: the two loops.
* `leads_memoryInit`: both together.
* `Layout.read_data`, `Layout.read_bss`, `Layout.initialized_of_outside`: what the memory holds then.
-/

namespace TamgaOs

open ByteMemory Thumb

section MemoryInit

variable {l : Layout} {bus : Bus} {prog : List Instr} {base : ℕ} {m : Mem} {log : List Access}

/-- The memory with `j` words of `.data`. -/
def Layout.copied (l : Layout) (m : Mem) (j : ℕ) : Mem :=
  write m l.dataStart (ByteMemory.read m l.dataLoad (4 * j))

/-- The memory with `j` words of `.bss`. -/
def Layout.zeroed (l : Layout) (m : Mem) (j : ℕ) : Mem :=
  write m l.bssStart (List.replicate (4 * j) 0)

/-- The length of `.data` in words. -/
def Layout.dataWords (l : Layout) : ℕ := (l.dataEnd.toNat - l.dataStart.toNat) / 4

def Layout.bssWords (l : Layout) : ℕ := (l.bssEnd.toNat - l.bssStart.toNat) / 4

theorem Layout.dataEnd_eq (l : Layout) : l.dataEnd.toNat = l.dataStart.toNat + 4 * l.dataWords := by
  have hle := l.data_le
  have hdvd := Nat.mul_div_cancel' l.data_dvd
  rw [dataWords, hdvd]
  omega

theorem Layout.bssEnd_eq (l : Layout) : l.bssEnd.toNat = l.bssStart.toNat + 4 * l.bssWords := by
  have hle := l.bss_le
  have hdvd := Nat.mul_div_cancel' l.bss_dvd
  rw [bssWords, hdvd]
  omega

/-- One more word of `.data`. -/
theorem Layout.copied_succ (l : Layout) {j : ℕ} (hj : j < l.dataWords) :
    write (l.copied m j) (l.dataStart + BitVec.ofNat 32 (4 * j))
      (ByteMemory.read (l.copied m j) (l.dataLoad + BitVec.ofNat 32 (4 * j)) 4) =
        l.copied m (j + 1) := by
  have hend := l.dataEnd_eq
  have hload := l.load_le
  have hlt := l.dataEnd.isLt
  have hread : ByteMemory.read (l.copied m j) (l.dataLoad + BitVec.ofNat 32 (4 * j)) 4 =
      ByteMemory.read m (l.dataLoad + BitVec.ofNat 32 (4 * j)) 4 := by
    refine read_write_of_apart fun i hi => ?_
    rw [length_read]
    bv_omega
  rw [hread, copied, copied, Nat.mul_succ, read_add]
  have happend := write_append m l.dataStart (ByteMemory.read m l.dataLoad (4 * j))
    (ByteMemory.read m (l.dataLoad + BitVec.ofNat 32 (4 * j)) 4)
    (by rw [length_read, length_read]; omega)
  rwa [length_read] at happend

theorem Layout.zeroed_succ (l : Layout) {j : ℕ} (hj : j < l.bssWords) :
    write (l.zeroed m j) (l.bssStart + BitVec.ofNat 32 (4 * j)) (le32 0) = l.zeroed m (j + 1) := by
  have hend := l.bssEnd_eq
  have hlt := l.bssEnd.isLt
  have happend := write_append m l.bssStart (List.replicate (4 * j) 0) (le32 0)
    (by rw [List.length_replicate]; change _ + 4 ≤ _; omega)
  rw [List.length_replicate] at happend
  have hzero : le32 0 = List.replicate 4 0 := by decide
  rw [zeroed, zeroed, happend, Nat.mul_succ, hzero, List.replicate_append_replicate]

/-- `j` words of `.data` have been copied. -/
def Copied (l : Layout) (m : Mem) (log : List Access) (j : ℕ) : State → Prop :=
  Holds [(.r0, l.dataStart + BitVec.ofNat 32 (4 * j)), (.r1, l.dataEnd),
    (.r2, l.dataLoad + BitVec.ofNat 32 (4 * j))] (l.copied m j) log

/-- One pass of the copy loop. -/
theorem leads_copy_pass (hcode : Placed prog base (memoryInit l base)) {j : ℕ}
    (hj : j < l.dataWords) :
    Leads (step bus prog) (At (base + 5) (Copied l m log j))
      (At (if j + 1 < l.dataWords then base + 5 else base + 9) (Copied l m log (j + 1))) := by
  have hloop : Placed prog (base + 5) [.ldrPost .r3 .r2 4, .strPost .r3 .r0 4, .cmp .r0 .r1] :=
    hcode.slice 5 3
  have hbranch : Placed prog (base + 8) [.bc .lt (base + 5)] := hcode.slice 8 1
  have hend := l.dataEnd_eq
  have hload := l.load_le
  have hdata := l.data_bss
  have hbss := l.bss_le
  have hram := l.ram
  let P (s : State) : Prop := Copied l m log (j + 1) s ∧
    s.holds .lt = decide (j + 1 < l.dataWords)
  have hbody : Leads (step bus prog) (At (base + 5) (Copied l m log j)) (At (base + 8) P) := by
    refine leads_straight hloop rfl fun s hs => ?_
    have h0 : s.reg .r0 = l.dataStart + BitVec.ofNat 32 (4 * j) := hs.reg 0 rfl
    have h1 : s.reg .r1 = l.dataEnd := hs.reg 1 rfl
    have h2 : s.reg .r2 = l.dataLoad + BitVec.ofNat 32 (4 * j) := hs.reg 2 rfl
    have hsource : ¬IsDevice (l.dataLoad + BitVec.ofNat 32 (4 * j)) := by
      unfold IsDevice
      bv_omega
    have htarget : ¬IsDevice (l.dataStart + BitVec.ofNat 32 (4 * j)) := by
      unfold IsDevice
      bv_omega
    have hword : le32 (ofLe 32 (ByteMemory.read (l.copied m j)
        (l.dataLoad + BitVec.ofNat 32 (4 * j)) 4)) = _ := le32_ofLe length_read
    have hcopied := l.copied_succ (m := m) hj
    have hnext (a : BitVec 32) :
        a + BitVec.ofNat 32 (4 * j) + 4 = a + BitVec.ofNat 32 (4 * (j + 1)) := by bv_omega
    have hlt : (l.dataStart + BitVec.ofNat 32 (4 * (j + 1))).toNat =
        l.dataStart.toNat + 4 * (j + 1) := by bv_omega
    simp only [block, List.foldl_cons, List.foldl_nil, Instr.exec, h0, h1, h2,
      State.load_mem hsource, State.store_mem htarget, hs.mem, State.set_reg, State.set_mem,
      State.setMem_reg, reduceCtorEq, if_true, if_false, hword, hcopied, hnext]
    refine ⟨⟨?_, rfl, hs.log⟩, ?_⟩
    · simp [h1]
    · rw [State.compare_lt (by omega) (by omega), hlt, hend]
      exact decide_eq_decide.2 (by omega)
  refine (hbody.trans (leads_branch hbranch fun s hs => hs.2)).imp ?_
  rintro ⟨pc, s⟩ ⟨rfl, hs⟩
  exact ⟨by simp only [decide_eq_true_eq], hs.1⟩

/-- The copy loop, with `k` words to go. -/
def copying (l : Layout) (base : ℕ) (m : Mem) (log : List Access) : ℕ → ℕ × State → Prop
  | 0 => At (base + 9) (Copied l m log l.dataWords)
  | k + 1 => fun x => k < l.dataWords ∧ At (base + 5) (Copied l m log (l.dataWords - (k + 1))) x

theorem leads_copying (hcode : Placed prog base (memoryInit l base)) (k : ℕ) :
    Leads (step bus prog) (copying l base m log (k + 1)) (copying l base m log k) := by
  rintro x ⟨hk, hx⟩
  obtain ⟨y, hxy, hy⟩ := leads_copy_pass hcode (j := l.dataWords - (k + 1)) (by omega) x hx
  refine ⟨y, hxy, ?_⟩
  cases k with
  | zero =>
    have hlast : l.dataWords - (0 + 1) + 1 = l.dataWords := by omega
    rw [hlast, if_neg (Nat.lt_irrefl _)] at hy
    exact hy
  | succ k =>
    have hmore : l.dataWords - (k + 1 + 1) + 1 = l.dataWords - (k + 1) := by omega
    rw [hmore, if_pos (by omega)] at hy
    exact ⟨by omega, hy⟩

/-- `.data` is copied. -/
theorem leads_data (hcode : Placed prog base (memoryInit l base)) :
    Leads (step bus prog) (At base (Holds [] m log))
      (At (base + 9) (Holds [] (l.copied m l.dataWords) log)) := by
  have hstart : Placed prog base
      [.ldrLit .r0 l.dataStart, .ldrLit .r1 l.dataEnd, .ldrLit .r2 l.dataLoad, .cmp .r0 .r1] :=
    hcode.slice 0 4
  have hbranch : Placed prog (base + 4) [.bc .eq (base + 9)] := hcode.slice 4 1
  let P (s : State) : Prop := Copied l m log 0 s ∧ s.holds .eq = decide (l.dataWords = 0)
  have hbegin : Leads (step bus prog) (At base (Holds [] m log)) (At (base + 4) P) := by
    refine leads_straight hstart rfl fun s hs => ?_
    have hend := l.dataEnd_eq
    refine ⟨⟨?_, hs.mem.trans write_nil.symm, hs.log⟩, ?_⟩
    · simp [block, Instr.exec]
    · have hflag : (block bus [.ldrLit .r0 l.dataStart, .ldrLit .r1 l.dataEnd,
          .ldrLit .r2 l.dataLoad, .cmp .r0 .r1] s).holds .eq =
            decide (l.dataStart = l.dataEnd) := State.compare_eq
      exact hflag.trans (decide_eq_decide.2 (by bv_omega))
  have hloop : Leads (step bus prog) (At (if decide (l.dataWords = 0) then base + 9 else base + 5) P)
      (At (base + 9) (Copied l m log l.dataWords)) := by
    cases hn : l.dataWords with
    | zero => exact Leads.of_imp fun x hx => ⟨hx.1, hx.2.1⟩
    | succ n =>
      have hcount : Leads (step bus prog) (copying l base m log (n + 1))
          (copying l base m log 0) := Leads.countdown (leads_copying hcode) (n + 1)
      rw [copying, copying, hn, Nat.sub_self] at hcount
      rintro x ⟨hpc, hx⟩
      exact hcount x ⟨Nat.lt_succ_self n, hpc, hx.1⟩
  refine ((hbegin.trans (leads_branch hbranch fun s hs => hs.2)).trans hloop).imp ?_
  exact fun x hx => ⟨hx.1, by simp, hx.2.mem, hx.2.log⟩

/-- `j` words of `.bss` are zero. -/
def Zeroed (l : Layout) (m : Mem) (log : List Access) (j : ℕ) : State → Prop :=
  Holds [(.r0, l.bssStart + BitVec.ofNat 32 (4 * j)), (.r1, l.bssEnd), (.r2, 0)] (l.zeroed m j) log

/-- The test of the loop over `.bss`. -/
theorem leads_zero_test (hcode : Placed prog base (memoryInit l base)) {j : ℕ}
    (hj : j ≤ l.bssWords) : Leads (step bus prog) (At (base + 12) (Zeroed l m log j))
      (At (if decide (l.bssWords ≤ j) then base + 16 else base + 14) (Zeroed l m log j)) := by
  have htest : Placed prog (base + 12) [.cmp .r0 .r1] := hcode.slice 12 1
  have hbranch : Placed prog (base + 13) [.bc .ge (base + 16)] := hcode.slice 13 1
  let P (s : State) : Prop := Zeroed l m log j s ∧ s.holds .ge = decide (l.bssWords ≤ j)
  have hbody : Leads (step bus prog) (At (base + 12) (Zeroed l m log j)) (At (base + 13) P) := by
    refine leads_straight htest rfl fun s hs => ⟨⟨hs.regs, hs.mem, hs.log⟩, ?_⟩
    have h0 : s.reg .r0 = l.bssStart + BitVec.ofNat 32 (4 * j) := hs.reg 0 rfl
    have h1 : s.reg .r1 = l.bssEnd := hs.reg 1 rfl
    have hend := l.bssEnd_eq
    have hram := l.ram
    have hat : (l.bssStart + BitVec.ofNat 32 (4 * j)).toNat = l.bssStart.toNat + 4 * j := by
      bv_omega
    change (s.compare (s.reg .r0) (s.reg .r1)).holds .ge = _
    rw [h0, h1, State.compare_ge (by omega) (by omega), hat, hend]
    exact decide_eq_decide.2 (by omega)
  exact (hbody.trans (leads_branch hbranch fun s hs => hs.2)).imp fun x hx => ⟨hx.1, hx.2.1⟩

/-- One pass of the loop over `.bss`. -/
theorem leads_zero_pass (hcode : Placed prog base (memoryInit l base)) {j : ℕ}
    (hj : j < l.bssWords) : Leads (step bus prog) (At (base + 12) (Zeroed l m log j))
      (At (base + 12) (Zeroed l m log (j + 1))) := by
  have hstore : Placed prog (base + 14) [.strPost .r2 .r0 4] := hcode.slice 14 1
  have hback : Placed prog (base + 15) [.b (base + 12)] := hcode.slice 15 1
  have htest : Leads (step bus prog) (At (base + 12) (Zeroed l m log j)) _ :=
    leads_zero_test hcode (Nat.le_of_lt hj)
  rw [decide_eq_false (Nat.not_le_of_lt hj)] at htest
  have hbody : Leads (step bus prog) (At (base + 14) (Zeroed l m log j))
      (At (base + 15) (Zeroed l m log (j + 1))) := by
    refine leads_straight hstore rfl fun s hs => ?_
    have h0 : s.reg .r0 = l.bssStart + BitVec.ofNat 32 (4 * j) := hs.reg 0 rfl
    have h1 : s.reg .r1 = l.bssEnd := hs.reg 1 rfl
    have h2 : s.reg .r2 = 0 := hs.reg 2 rfl
    have hend := l.bssEnd_eq
    have hram := l.ram
    have htarget : ¬IsDevice (l.bssStart + BitVec.ofNat 32 (4 * j)) := by
      unfold IsDevice
      bv_omega
    have hzeroed := l.zeroed_succ (m := m) hj
    have hnext : l.bssStart + BitVec.ofNat 32 (4 * j) + 4 =
        l.bssStart + BitVec.ofNat 32 (4 * (j + 1)) := by bv_omega
    simp only [block, List.foldl_cons, List.foldl_nil, Instr.exec, h0, h2, State.store_mem htarget,
      hs.mem, hzeroed, hnext]
    exact ⟨by simp [h1, h2], rfl, hs.log⟩
  exact (htest.trans hbody).trans (leads_jump hback)

/-- `.bss` is zeroed, and `main` is called. -/
theorem leads_bss (hcode : Placed prog base (memoryInit l base)) :
    Leads (step bus prog) (At (base + 9) (Holds [] m log))
      (At (base + 16) (Holds [] (l.zeroed m l.bssWords) log)) := by
  have hstart : Placed prog (base + 9)
      [.ldrLit .r0 l.bssStart, .ldrLit .r1 l.bssEnd, .mov .r2 0] := hcode.slice 9 3
  have hbegin : Leads (step bus prog) (At (base + 9) (Holds [] m log))
      (At (base + 12) (Zeroed l m log 0)) := by
    refine leads_straight hstart rfl fun s hs => ⟨?_, hs.mem.trans write_nil.symm, hs.log⟩
    simp [block, Instr.exec]
  let P (k : ℕ) (x : ℕ × State) : Prop :=
    k ≤ l.bssWords ∧ At (base + 12) (Zeroed l m log (l.bssWords - k)) x
  have hpass (k : ℕ) : Leads (step bus prog) (P (k + 1)) (P k) := by
    rintro x ⟨hk, hx⟩
    obtain ⟨y, hxy, hy⟩ := leads_zero_pass hcode (j := l.bssWords - (k + 1)) (by omega) x hx
    have hmore : l.bssWords - (k + 1) + 1 = l.bssWords - k := by omega
    exact ⟨y, hxy, by omega, hmore ▸ hy⟩
  have hloop := Leads.countdown hpass l.bssWords
  have hexit : Leads (step bus prog) (At (base + 12) (Zeroed l m log l.bssWords)) _ :=
    leads_zero_test hcode (Nat.le_refl l.bssWords)
  rw [decide_eq_true (Nat.le_refl _)] at hexit
  have hbefore : Leads (step bus prog) (At (base + 12) (Zeroed l m log 0)) (P l.bssWords) :=
    Leads.of_imp fun x hx => ⟨Nat.le_refl _, by rwa [Nat.sub_self]⟩
  have hafter : Leads (step bus prog) (P 0) (At (base + 12) (Zeroed l m log l.bssWords)) :=
    Leads.of_imp fun x hx => hx.2
  refine ((((hbegin.trans hbefore).trans hloop).trans hafter).trans hexit).imp ?_
  exact fun x hx => ⟨hx.1, by simp, hx.2.mem, hx.2.log⟩

/-- The memory when `main` is called. -/
def Layout.initialized (l : Layout) (m : Mem) : Mem := l.zeroed (l.copied m l.dataWords) l.bssWords

theorem leads_memoryInit (hcode : Placed prog base (memoryInit l base)) :
    Leads (step bus prog) (At base (Holds [] m log))
      (At (base + 16) (Holds [] (l.initialized m) log)) :=
  (leads_data hcode).trans (leads_bss hcode)

/-- `.data` is what the flash holds. -/
theorem Layout.read_data (l : Layout) (m : Mem) :
    ByteMemory.read (l.initialized m) l.dataStart (l.dataEnd.toNat - l.dataStart.toNat) =
      ByteMemory.read m l.dataLoad (l.dataEnd.toNat - l.dataStart.toNat) := by
  have hlen : l.dataEnd.toNat - l.dataStart.toNat = 4 * l.dataWords :=
    (Nat.mul_div_cancel' l.data_dvd).symm
  have hdata := l.dataEnd_eq
  have hbss := l.bssEnd_eq
  have horder := l.data_bss
  have hlt := l.dataEnd.isLt
  have hlt' := l.bssEnd.isLt
  have hzeroed : ByteMemory.read (l.initialized m) l.dataStart (4 * l.dataWords) =
      ByteMemory.read (l.copied m l.dataWords) l.dataStart (4 * l.dataWords) := by
    refine read_write_of_apart fun i hi => ?_
    rw [List.length_replicate]
    bv_omega
  have hread : ByteMemory.read (l.copied m l.dataWords) l.dataStart
      (ByteMemory.read m l.dataLoad (4 * l.dataWords)).length = _ :=
    read_write (by rw [length_read]; omega)
  rw [length_read] at hread
  exact hlen ▸ hzeroed.trans hread

/-- `.bss` is zero. -/
theorem Layout.read_bss (l : Layout) (m : Mem) :
    ByteMemory.read (l.initialized m) l.bssStart (l.bssEnd.toNat - l.bssStart.toNat) =
      List.replicate (l.bssEnd.toNat - l.bssStart.toNat) 0 := by
  have hlen : l.bssEnd.toNat - l.bssStart.toNat = 4 * l.bssWords :=
    (Nat.mul_div_cancel' l.bss_dvd).symm
  have hbss := l.bssEnd_eq
  have hlt := l.bssEnd.isLt
  have hread : ByteMemory.read (l.initialized m) l.bssStart
      (List.replicate (4 * l.bssWords) (0 : BitVec 8)).length = _ :=
    read_write (by rw [List.length_replicate]; omega)
  rw [List.length_replicate] at hread
  exact hlen ▸ hread

/-- The address is in neither section. -/
def Layout.Outside (l : Layout) (a : BitVec 32) : Prop :=
  (a.toNat < l.dataStart.toNat ∨ l.dataEnd.toNat ≤ a.toNat) ∧
    (a.toNat < l.bssStart.toNat ∨ l.bssEnd.toNat ≤ a.toNat)

/-- The rest of the memory is as it was at the reset. -/
theorem Layout.initialized_of_outside (l : Layout) (m : Mem) {a : BitVec 32} (ha : l.Outside a) :
    l.initialized m a = m a := by
  obtain ⟨hdata, hbss⟩ := ha
  have hdataEnd := l.dataEnd_eq
  have hbssEnd := l.bssEnd_eq
  have hlt := l.dataEnd.isLt
  have hlt' := l.bssEnd.isLt
  have hzeroed : l.initialized m a = l.copied m l.dataWords a := by
    refine write_of_le ?_
    rw [List.length_replicate]
    bv_omega
  have hcopied : l.copied m l.dataWords a = m a := by
    refine write_of_le ?_
    rw [length_read]
    bv_omega
  exact hzeroed.trans hcopied

/-- What `main` finds in the memory, when the memory was `m` at the reset. -/
structure Layout.Initialized (l : Layout) (m m' : Mem) : Prop where
  data : ByteMemory.read m' l.dataStart (l.dataEnd.toNat - l.dataStart.toNat) =
    ByteMemory.read m l.dataLoad (l.dataEnd.toNat - l.dataStart.toNat)
  bss : ByteMemory.read m' l.bssStart (l.bssEnd.toNat - l.bssStart.toNat) =
    List.replicate (l.bssEnd.toNat - l.bssStart.toNat) 0
  outside : ∀ a, l.Outside a → m' a = m a

theorem Layout.initialized_initialized (l : Layout) (m : Mem) :
    l.Initialized m (l.initialized m) :=
  ⟨l.read_data m, l.read_bss m, fun _ => l.initialized_of_outside m⟩

end MemoryInit

end TamgaOs
