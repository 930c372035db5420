import TamgaOs.Properties.FaultLog

/-!
# A crash is reported once

A write that comes to its end survives the reset that follows, and the call that reports it clears the
magic number in Backup SRAM itself. Both rest on `clean_dcache_range`, which cleans the lines of its
range and no others, and whose 32-bit address does not wrap when the range ends before the last line.

## Main definitions

* `Overlaps`: a line of the range.
* `QuietAction`, `quietStep`: the calls of `fault_log_check_and_clear` and the resets between two writes.

## Main results

* `cleanDcacheRange_spec`: the lines that are cleaned.
* `crash_reported_once`: the whole way of a record.
-/

namespace TamgaOs

variable {m m' : BackupSram} {entry : FaultLog} {addr size start stop : ℕ}

/-! ### The loop of `clean_dcache_range` -/

/-- The line has a byte of the range. -/
def Overlaps (addr size l : ℕ) : Prop := ∃ a, addr ≤ a ∧ a < addr + size ∧ dcacheLine a = l

theorem cleanDcacheFrom_eq : ∀ start, cleanDcacheFrom start stop =
    (List.range' (dcacheLine start) ((stop - start + 31) / 32)).map .clean := by
  intro start
  induction start using cleanDcacheFrom.induct stop with
  | case1 start hlt ih =>
    have hcount : (stop - start + 31) / 32 = (stop - (start + 32) + 31) / 32 + 1 := by omega
    have hline : dcacheLine (start + 32) = dcacheLine start + 1 := by
      unfold dcacheLine dcacheLineSize
      omega
    rw [cleanDcacheFrom, if_pos hlt, ih, dcacheLineSize, hline, hcount, List.range'_succ,
      List.map_cons]
  | case2 start hle =>
    have hcount : (stop - start + 31) / 32 = 0 := by omega
    rw [cleanDcacheFrom, if_neg hle, hcount]
    rfl

/-- The 32-bit address does not wrap before the end of the range. -/
theorem cleanDcacheLoop_eq (hstop : stop ≤ 2 ^ 32 - 32) : ∀ fuel start,
    (stop - start + 31) / 32 < fuel → cleanDcacheLoop stop fuel start = some (cleanDcacheFrom start stop) := by
  intro fuel
  induction fuel with
  | zero => exact fun _ h => absurd h (Nat.not_lt_zero _)
  | succ fuel ih =>
    intro start hfuel
    rw [cleanDcacheLoop, cleanDcacheFrom]
    split_ifs with hlt
    · have hnext : (start + dcacheLineSize) % 2 ^ 32 = start + dcacheLineSize := by
        unfold dcacheLineSize
        omega
      rw [hnext, ih _ (by unfold dcacheLineSize; omega)]
      rfl
    · rfl

/-- The lines that `clean_dcache_range` cleans, each of them once. -/
theorem cleanDcacheRange_spec (hpos : 0 < size) : ∃ ls : List ℕ,
    cleanDcacheRange addr size = ls.map .clean ∧ ls.Nodup ∧ ∀ l, l ∈ ls ↔ Overlaps addr size l := by
  refine ⟨_, cleanDcacheFrom_eq _, List.nodup_range', fun l => ?_⟩
  rw [List.mem_range'_1]
  unfold Overlaps dcacheLine dcacheLineSize
  constructor
  · rintro ⟨hfirst, hlast⟩
    rcases Nat.lt_or_ge addr (l * 32) with hgt | hle
    · exact ⟨l * 32, by omega, by omega, by omega⟩
    · exact ⟨addr, by omega, by omega, by omega⟩
  · rintro ⟨a, hle, hlt, rfl⟩
    omega

/-- It ends, and brings these lines to the memory. -/
theorem cleanDcacheRange_run (hpos : 0 < size) (hend : addr + size < 2 ^ 32 - 32) :
    (∃ fuel₀, ∀ fuel ≥ fuel₀, cleanDcacheLoop ((addr + size) % 2 ^ 32) fuel
      (addr / dcacheLineSize * dcacheLineSize) = some (cleanDcacheRange addr size)) ∧
    ∀ (m : BackupSram) b,
      (Overlaps addr size (dcacheLine b) →
        (m.run dcacheLine (cleanDcacheRange addr size)).backing b = m.load dcacheLine b) ∧
      (¬Overlaps addr size (dcacheLine b) →
        (m.run dcacheLine (cleanDcacheRange addr size)).backing b = m.backing b) := by
  constructor
  · rw [Nat.mod_eq_of_lt (Nat.lt_of_lt_of_le hend (by decide))]
    exact ⟨_, fun fuel hfuel =>
      cleanDcacheLoop_eq (Nat.le_of_lt hend) fuel _ (Nat.lt_of_succ_le hfuel)⟩
  · intro m b
    obtain ⟨ls, hls, -, hmem⟩ := cleanDcacheRange_spec hpos
    rw [hls, (WriteBack.run_cleans ls).2, ← hmem]
    exact ⟨fun h => if_pos h, fun h => if_neg h⟩

/-! ### Between two writes -/

/-- The stores and line cleans of `fault_log_check_and_clear`. -/
def checkAndClearOps (m : BackupSram) : List BackupSram.Op :=
  if m.load dcacheLine bkpsramBase ≠ faultLogMagic then []
  else .store bkpsramBase 0 :: cleanDcacheRange bkpsramBase 4

/-- What happens between two writes. -/
inductive QuietAction
  | reset
  | check
  /-- A reset ends the call after `k` of its stores and line cleans. -/
  | cut (k : ℕ)

/-- A step, with what `fault_log_check_and_clear` has returned. -/
def quietStep (m : BackupSram) : QuietAction → Option (BackupSram × List (Option FaultLog))
  | .reset => some (m.discard, [])
  | .check => some ((faultLogCheckAndClear m).1, [(faultLogCheckAndClear m).2])
  | .cut k => some ((m.run dcacheLine ((checkAndClearOps m).take k)).discard, [])

/-- There is no record in Backup SRAM, and none in the cache. -/
def NoRecord (m : BackupSram) : Prop :=
  m.load dcacheLine bkpsramBase ≠ faultLogMagic ∧ m.backing bkpsramBase ≠ faultLogMagic

theorem NoRecord.discard (h : NoRecord m) : NoRecord m.discard := ⟨h.2, h.2⟩

theorem NoRecord.check (h : NoRecord m) : faultLogCheckAndClear m = (m, none) := if_pos h.1

theorem NoRecord.ops (h : NoRecord m) : checkAndClearOps m = [] := if_pos h.1

/-- A call that reports a record leaves none. -/
theorem noRecord_check (hm : m.load dcacheLine = m.backing) : NoRecord (faultLogCheckAndClear m).1 := by
  refine ⟨?_, (backing_check hm).1⟩
  unfold faultLogCheckAndClear
  split_ifs with hmagic
  · exact hmagic
  · obtain ⟨ls, hls, -⟩ := cleanDcacheRange_spec (show 0 < 4 by decide)
    dsimp only
    rw [hls, (WriteBack.run_cleans ls).1, WriteBack.load_store, Function.update_self]
    decide

/-- Without a record every call returns 0. -/
theorem NoRecord.of_reach {out : List (Option FaultLog)} (h₀ : NoRecord m)
    (h : Run.Reach quietStep (fun _ _ => True) m m' out) : NoRecord m' ∧ ∀ r ∈ out, r = none := by
  refine h.induct (I := fun m out => NoRecord m ∧ ∀ r ∈ out, r = none)
    ⟨h₀, fun _ hr => by cases hr⟩ ?_
  rintro m m' a out o - ⟨hm, hout⟩ - hs
  cases a with
  | reset =>
    cases hs
    exact ⟨hm.discard, by simpa using hout⟩
  | check =>
    rw [quietStep, hm.check] at hs
    cases hs
    refine ⟨hm, fun r hr => ?_⟩
    rcases List.mem_append.1 hr with hr | hr
    · exact hout r hr
    · exact List.mem_singleton.1 hr
  | cut k =>
    rw [quietStep, hm.ops, List.take_nil] at hs
    cases hs
    exact ⟨hm.discard, by simpa using hout⟩

/-- Whatever was in Backup SRAM and in the cache before: a record whose write has come to its end is
returned with all its fields after the reset, and when that call has come to its end no call returns
a record until the next write, however many resets there are. `clean_dcache_range` ends for every
range before the last line, and brings the lines of the range to the memory and no others. -/
theorem crash_reported_once (m : BackupSram) (entry : FaultLog) :
    let woken := (m.run dcacheLine (faultLogWrite entry)).discard
    (faultLogCheckAndClear woken).2 = some entry ∧
    (∀ m' out, Run.Reach quietStep (fun _ _ => True) (faultLogCheckAndClear woken).1 m' out →
      ∀ r ∈ out, r = none) ∧
    ∀ addr size, 0 < size → addr + size < 2 ^ 32 - 32 →
      (∃ fuel₀, ∀ fuel ≥ fuel₀, cleanDcacheLoop ((addr + size) % 2 ^ 32) fuel
        (addr / dcacheLineSize * dcacheLineSize) = some (cleanDcacheRange addr size)) ∧
      (∃ ls : List ℕ, cleanDcacheRange addr size = ls.map .clean ∧ ls.Nodup ∧
        ∀ l, l ∈ ls ↔ Overlaps addr size l) ∧
      ∀ (m : BackupSram) b,
        (Overlaps addr size (dcacheLine b) →
          (m.run dcacheLine (cleanDcacheRange addr size)).backing b = m.load dcacheLine b) ∧
        (¬Overlaps addr size (dcacheLine b) →
          (m.run dcacheLine (cleanDcacheRange addr size)).backing b = m.backing b) := by
  intro woken
  have hlength : (faultLogWrite entry).length ≤ 18 := by
    rw [faultLogWrite_eq]
    exact Nat.le_refl 18
  have hwrite : writeCutAt m entry 18 = m.run dcacheLine (faultLogWrite entry) := by
    rw [writeCutAt, List.take_of_length_le hlength]
  refine ⟨?_, fun m' out h => ?_, fun addr size hpos hend => ?_⟩
  · have hboot : nextBoot m entry 18 = some entry := nextBoot_of_lt (by decide)
    rwa [nextBoot, hwrite] at hboot
  · exact (NoRecord.of_reach (noRecord_check rfl) h).2
  · obtain ⟨hends, hlines⟩ := cleanDcacheRange_run hpos hend
    exact ⟨hends, cleanDcacheRange_spec hpos, hlines⟩

/-- A record is written over an older one, and the board is reset twice. -/
theorem crash_reported_once_twoBoots :
    let m : BackupSram := ⟨fun _ => faultLogMagic, fun _ => true, fun _ => 1⟩
    let woken := (m.run dcacheLine (faultLogWrite fun _ => 2)).discard
    (faultLogCheckAndClear woken).2 = some (fun _ => 2) ∧
    (faultLogCheckAndClear (faultLogCheckAndClear woken).1.discard).2 = none ∧
    ∃ ls : List ℕ, cleanDcacheRange 0x38800010 20 = ls.map .clean ∧ ls.Nodup ∧
      ∀ l, l ∈ ls ↔ Overlaps 0x38800010 20 l := by
  intro m woken
  obtain ⟨hfirst, hlater, hclean⟩ := crash_reported_once m fun _ => 2
  have hreset : quietStep (faultLogCheckAndClear woken).1 .reset =
      some ((faultLogCheckAndClear woken).1.discard, []) := rfl
  have hcheck : quietStep (faultLogCheckAndClear woken).1.discard .check = some (_, [_]) := rfl
  have hreach : Run.Reach quietStep (fun _ _ => True) (faultLogCheckAndClear woken).1 _ _ :=
    (Run.Reach.init.step trivial hreset).step trivial hcheck
  exact ⟨hfirst, hlater _ _ hreach _ (List.mem_singleton_self _),
    (hclean 0x38800010 20 (by decide) (by decide)).2.1⟩

end TamgaOs
