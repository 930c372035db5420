import TamgaOs.Library.Thumb

/-!
# The reset handlers

`Reset_Handler` of both boards, instruction by instruction, up to the call of `main`. On the K64F it
disables the watchdog and enables the FPU; on the STM32H753ZI it waits for the regulator and enables
the caches before. Then both copy `.data` from the flash and zero `.bss`.

## Main definitions

* `Layout`: the symbols of the linker script.
* `memoryInit`: from the first use of `_data_start` to the call of `main`.
* `k64fReset`, `stm32Reset`: the handlers; the labels are numbers of instructions.
-/

namespace TamgaOs

open Thumb

/-- The symbols of the linker script. Sections begin and end at multiples of four; `.bss` comes after
`.data` in the RAM, and the flash is below. -/
structure Layout where
  dataStart : BitVec 32
  dataEnd : BitVec 32
  dataLoad : BitVec 32
  bssStart : BitVec 32
  bssEnd : BitVec 32
  data_le : dataStart.toNat ≤ dataEnd.toNat
  data_dvd : 4 ∣ dataEnd.toNat - dataStart.toNat
  load_le : dataLoad.toNat + (dataEnd.toNat - dataStart.toNat) ≤ dataStart.toNat
  bss_le : bssStart.toNat ≤ bssEnd.toNat
  bss_dvd : 4 ∣ bssEnd.toNat - bssStart.toNat
  data_bss : dataEnd.toNat ≤ bssStart.toNat
  ram : bssEnd.toNat ≤ 0x40000000

/-- The copy of `.data` and the loop over `.bss`, placed at `base`. -/
def memoryInit (l : Layout) (base : ℕ) : List Instr :=
  [.ldrLit .r0 l.dataStart, .ldrLit .r1 l.dataEnd, .ldrLit .r2 l.dataLoad, .cmp .r0 .r1,
    .bc .eq (base + 9),
    -- .Lcopy_loop
    .ldrPost .r3 .r2 4, .strPost .r3 .r0 4, .cmp .r0 .r1, .bc .lt (base + 5),
    -- .Lbss_init
    .ldrLit .r0 l.bssStart, .ldrLit .r1 l.bssEnd, .mov .r2 0,
    -- .Lbss_loop
    .cmp .r0 .r1, .bc .ge (base + 16), .strPost .r2 .r0 4, .b (base + 12),
    -- .Lcall_main
    .bl]

/-- `Reset_Handler` of `startup_k64f.s` before it initializes the memory. -/
def k64fPrologue : List Instr :=
  -- WDOG unlock + disable
  [.ldrLit .r0 0x4005200E, .ldrLit .r1 0xC520, .strh .r1 .r0, .ldrLit .r1 0xD928, .strh .r1 .r0,
    .ldrLit .r0 0x40052000, .ldrLit .r1 0x0010, .strh .r1 .r0,
    -- FPU enable
    .ldrLit .r0 0xE000ED88, .ldr .r1 .r0 0, .orrImm .r1 .r1 0xF00000, .str .r1 .r0 0, .dsb,
    .isb]

/-- `Reset_Handler` of `startup_k64f.s`. -/
def k64fReset (l : Layout) : List Instr := k64fPrologue ++ memoryInit l 14

def iciallu : BitVec 32 := 0xE000EF50

def csselr : BitVec 32 := 0xE000ED84

def ccsidr : BitVec 32 := 0xE000ED80

def dcisw : BitVec 32 := 0xE000EF60

def ccr : BitVec 32 := 0xE000ED14

/-- `Reset_Handler` of `startup_stm32h753zi.s` before it initializes the memory. -/
def stm32Prologue : List Instr :=
  -- ExitRun0Mode
  [.ldrLit .r1 0x58024800, .ldr .r0 .r1 0x00C, .orrImm .r0 .r0 2, .str .r0 .r1 0x00C,
    -- .Lwait_actvosrdy
    .ldr .r0 .r1 0x004, .tst .r0 0x2000, .bc .eq 4,
    .ldrLit .r11 iciallu, .mov .r0 0, .str .r0 .r11 0, .dsb, .isb, .mov .r0 0,
    .ldrLit .r11 csselr, .str .r0 .r11 0, .dsb, .ldrLit .r11 ccsidr, .ldr .r2 .r11 0,
    .andImm .r1 .r2 7, .addImm .r7 .r1 4, .mov .r1 0x3FF, .ands .r4 .r1 .r2 3, .mov .r1 0x7FFF,
    .ands .r2 .r1 .r2 13, .clz .r6 .r4, .ldrLit .r11 dcisw,
    -- .Linv_loop1
    .movReg .r1 .r4,
    -- .Linv_loop2
    .lsl .r3 .r1 .r6, .lsl .r8 .r2 .r7, .orr .r3 .r3 .r8, .str .r3 .r11 0, .subs .r1 .r1 1,
    .bc .ge 27, .subs .r2 .r2 1, .bc .ge 26,
    .dsb, .isb, .ldrLit .r11 ccr, .ldr .r0 .r11 0, .orrImm .r0 .r0 0x10000,
    .orrImm .r0 .r0 0x20000, .str .r0 .r11 0, .dsb, .isb, .ldrLit .r0 0xE000ED88, .ldr .r1 .r0 0,
    .orrImm .r1 .r1 0xF00000, .str .r1 .r0 0, .dsb, .isb]

/-- `Reset_Handler` of `startup_stm32h753zi.s`. -/
def stm32Reset (l : Layout) : List Instr := stm32Prologue ++ memoryInit l 50

end TamgaOs
