import Mathlib.Algebra.Group.Nat.Defs
import TamgaOs.Library.WriteBack

/-!
# The crash record

`fault_log.c` keeps a record of the last fault in Backup SRAM, which outlives a reset. It stores the
fields one by one and the magic number last, and then writes the cache lines back in the order of
their addresses. Every store and every line is an operation of its own here: a reset can fall between
any two of them.
-/

namespace TamgaOs

/-- The fields of `fault_log_t` behind `magic`. -/
inductive FaultField
  | excReturn | pc | lr | xpsr | r0 | r1 | r2 | r3 | r12 | cfsr | hfsr | mmfar | bfar | mmfarValid
  | bfarValid
  deriving DecidableEq, Repr

namespace FaultField

/-- The fields in the order of `fault_log_t`, which is also the order of the stores. -/
def all : List FaultField :=
  [excReturn, pc, lr, xpsr, r0, r1, r2, r3, r12, cfsr, hfsr, mmfar, bfar, mmfarValid, bfarValid]

/-- The offset of the field in bytes. -/
def offset : FaultField → ℕ
  | excReturn => 4
  | pc => 8
  | lr => 12
  | xpsr => 16
  | r0 => 20
  | r1 => 24
  | r2 => 28
  | r3 => 32
  | r12 => 36
  | cfsr => 40
  | hfsr => 44
  | mmfar => 48
  | bfar => 52
  | mmfarValid => 56
  | bfarValid => 60

theorem mem_all (f : FaultField) : f ∈ all := by cases f <;> decide

end FaultField

/-- `fault_log_t` without its magic number. -/
abbrev FaultLog := FaultField → BitVec 32

/-- `FAULT_LOG_MAGIC`. -/
def faultLogMagic : BitVec 32 := 0x4641554C

/-- `BKPSRAM_BASE`, the address of `bkp_log`. -/
def bkpsramBase : ℕ := 0x38800000

/-- `sizeof(fault_log_t)`. -/
def sizeofFaultLog : ℕ := 64

/-- `DCACHE_LINE_SIZE`. -/
def dcacheLineSize : ℕ := 32

/-- The cache line of a byte address. -/
def dcacheLine (a : ℕ) : ℕ := a / dcacheLineSize

/-- Backup SRAM behind the data cache, in words at byte addresses. -/
abbrev BackupSram := WriteBack ℕ (BitVec 32) ℕ

abbrev BackupSram.Op := WriteBack.Op ℕ (BitVec 32) ℕ

/-- The address of a field of `bkp_log`. -/
def FaultField.addr (f : FaultField) : ℕ := bkpsramBase + f.offset

/-- The loop of `clean_dcache_range`. -/
def cleanDcacheFrom (start stop : ℕ) : List BackupSram.Op :=
  if start < stop then
    .clean (dcacheLine start) :: cleanDcacheFrom (start + dcacheLineSize) stop
  else []
  termination_by stop - start
  decreasing_by unfold dcacheLineSize; omega

/-- `clean_dcache_range`. -/
def cleanDcacheRange (addr size : ℕ) : List BackupSram.Op :=
  cleanDcacheFrom (addr / dcacheLineSize * dcacheLineSize) (addr + size)

/-- The loop of `clean_dcache_range` on its 32-bit variables, if it ends within `fuel` tests. -/
def cleanDcacheLoop (stop : ℕ) : ℕ → ℕ → Option (List BackupSram.Op)
  | 0, _ => none
  | fuel + 1, start =>
    if start < stop then
      (cleanDcacheLoop stop fuel ((start + dcacheLineSize) % 2 ^ 32)).map
        (.clean (dcacheLine start) :: ·)
    else some []

/-- The addresses that `fault_log_write` stores to and what it stores, in order. -/
def faultLogStores (entry : FaultLog) : List (ℕ × BitVec 32) :=
  FaultField.all.map (fun f => (f.addr, entry f)) ++ [(bkpsramBase, faultLogMagic)]

/-- `fault_log_write`. -/
def faultLogWrite (entry : FaultLog) : List BackupSram.Op :=
  WriteBack.stores (faultLogStores entry) ++ cleanDcacheRange bkpsramBase sizeofFaultLog

/-- `fault_log_check_and_clear`: the memory afterwards and the record that is returned with 1. -/
def faultLogCheckAndClear (m : BackupSram) : BackupSram × Option FaultLog :=
  if m.load dcacheLine bkpsramBase ≠ faultLogMagic then (m, none)
  else
    ((m.store dcacheLine bkpsramBase 0).run dcacheLine (cleanDcacheRange bkpsramBase 4),
      some fun f => m.load dcacheLine f.addr)

theorem cleanDcacheRange_record : cleanDcacheRange bkpsramBase sizeofFaultLog =
    [.clean (dcacheLine bkpsramBase), .clean (dcacheLine bkpsramBase + 1)] := by
  simp [cleanDcacheRange, cleanDcacheFrom, bkpsramBase, sizeofFaultLog, dcacheLineSize, dcacheLine]

theorem nodup_faultLogStores (entry : FaultLog) :
    ((faultLogStores entry).map Prod.fst).Nodup := by
  have haddr : (faultLogStores entry).map Prod.fst =
      FaultField.all.map FaultField.addr ++ [bkpsramBase] := by
    simp [faultLogStores]
  rw [haddr]
  decide

@[simp] theorem length_faultLogStores (entry : FaultLog) : (faultLogStores entry).length = 16 := rfl

end TamgaOs
