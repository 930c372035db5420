import TamgaOs.Properties.X86Tables

/-!
# Exceptions on the x86 kernel

The processor takes an exception through its gate, the stub completes the frame, and `isr_handler`
finds the interrupted state in its `register_t`. If the handler returned, the stub would go on where
the exception came.

## Main definitions

* `X86.registers`: the cells of `register_t`.
* `X86.Returned`: what `isr_handler` leaves as it found it.
* `Fault.reportC`, `Fault.reportZig`: the text of a report.

## Main results

* `X86.Booted.interrupt`, `X86.Booted.run_stub`: the way to `isr_handler`.
* `X86.Booted.run_return`: the way back.
* `x86_exception_frame`: the frame that `isr_handler` finds.
* `x86_exception_return`: the registers are restored.
-/

namespace TamgaOs

open ByteMemory

variable {x : X86} {isr : Fault → BitVec 32}

namespace X86

/-! ### The frame -/

/-- Several cells are pushed. -/
def pushes (x : X86) (cs : List (List (BitVec 8))) : X86 :=
  { x with mem := (pushAll (x.mem, x.esp) cs).1, esp := (pushAll (x.mem, x.esp) cs).2 }

/-- The frame of an exception, in the order of `register_t`. -/
def registers (x : X86) (wide resume : Bool) (f : Fault) (e : BitVec 32) :
    List (List (BitVec 8)) :=
  [segBytes wide x.gs, segBytes wide x.fs, segBytes wide x.es, segBytes wide x.ds, le32 x.edi,
    le32 x.esi, le32 x.ebp, le32 (x.esp - 20), le32 x.ebx, le32 x.edx, le32 x.ecx, le32 x.eax,
    le32 (BitVec.ofNat 32 f.number), le32 (if f.hasError then e else 0), le32 x.eip,
    segBytes wide x.cs, le32 (savedFlags resume x.eflags)]

/-- The address that `isr_handler` gets. -/
def frame (x : X86) : BitVec 32 := x.esp - 68

/-- What the stub pushes, with the argument of `isr_handler` and its return address. -/
def cells (x : X86) (wide resume : Bool) (f : Fault) (e next : BitVec 32) :
    List (List (BitVec 8)) :=
  (x.registers wide resume f e).reverse ++ [le32 x.frame, le32 next]

/-- The stack does not reach into the GDT. -/
def HasRoom (x : X86) : Prop :=
  ∀ i < 24, 76 ≤ (x.gdtr.base + BitVec.ofNat 32 i - (x.esp - 76)).toNat

theorem length_segBytes (wide : Bool) (s : BitVec 16) : (segBytes wide s).length ≤ 4 := by
  cases wide
  · exact Nat.le_add_right 2 2
  · exact Nat.le_refl 4

theorem le_length_segBytes (wide : Bool) (s : BitVec 16) : 2 ≤ (segBytes wide s).length := by
  cases wide
  · exact Nat.le_refl 2
  · exact Nat.le_add_right 2 2

variable {wide resume : Bool} {f : Fault} {e handler next : BitVec 32}

theorem length_of_mem_registers : ∀ c ∈ x.registers wide resume f e, c.length ≤ 4 := by
  simp [registers, length_segBytes, le32]

theorem length_of_mem_cells : ∀ c ∈ x.cells wide resume f e next, c.length ≤ 4 := by
  intro c hc
  rcases List.mem_append.1 hc with hc | hc
  · exact length_of_mem_registers c (List.mem_reverse.1 hc)
  · rcases List.mem_pair.1 hc with rfl | rfl <;> exact Nat.le_refl 4

/-- The processor in a stub, which has pushed `cs` since the exception. -/
def entered (x : X86) (stub : BitVec 32) (cs : List (List (BitVec 8))) : X86 :=
  { x.pushes cs with cs := 0x08, eip := stub, eflags := x.eflags &&& ~~~clearedFlags }

section Entered

variable {stub : BitVec 32} {cs : List (List (BitVec 8))}

@[simp] theorem entered_push {c : List (BitVec 8)} :
    (x.entered stub cs).push c = x.entered stub (cs ++ [c]) := by
  simp only [entered, pushes, push, pushAll_append]
  rfl

@[simp] theorem entered_seg {r : Seg} : (x.entered stub cs).seg r = x.seg r := by
  cases r <;> rfl

theorem entered_esp : (x.entered stub cs).esp = x.esp - BitVec.ofNat 32 (4 * cs.length) :=
  pushAll_snd

/-- A flag that the gate clears. -/
theorem entered_flag {i : ℕ} (hi : (~~~clearedFlags).getLsbD i = false) :
    (x.entered stub cs).eflags.getLsbD i = false := by
  change (x.eflags &&& ~~~clearedFlags).getLsbD i = false
  rw [BitVec.getLsbD_and, hi, Bool.and_false]

theorem entered_trap (x : X86) (stub : BitVec 32) (cs : List (List (BitVec 8))) :
    (x.entered stub cs).eflags.getLsbD 8 = false := entered_flag (by decide)

theorem entered_nested (x : X86) (stub : BitVec 32) (cs : List (List (BitVec 8))) :
    (x.entered stub cs).eflags.getLsbD 14 = false := entered_flag (by decide)

/-- An instruction that is not single-stepped. -/
theorem exec_of_clear (h : x.eflags.getLsbD 8 = false) (i : Instr) :
    x.exec wide i = x.execute wide i := by
  rw [exec, h]
  exact if_neg Bool.false_ne_true

@[simp] theorem entered_exec {i : Instr} :
    (x.entered stub cs).exec wide i = (x.entered stub cs).execute wide i :=
  exec_of_clear (entered_trap x stub cs) i

theorem run_append {is js : List Instr} :
    x.run wide (is ++ js) = (x.run wide is).bind (·.run wide js) := List.foldlM_append

@[simp] theorem run_nil : x.run wide [] = some x := rfl

@[simp] theorem run_cons {i : Instr} {is : List Instr} :
    x.run wide (i :: is) = (x.exec wide i).bind (·.run wide is) := List.foldlM_cons

end Entered

/-- The cells that the processor pushes first. -/
def origin (x : X86) (wide resume : Bool) : List (List (BitVec 8)) :=
  [le32 (savedFlags resume x.eflags), segBytes wide x.cs, le32 x.eip]

/-- How an exception of the kernel is taken. -/
theorem Booted.interrupt_of_lt (h : x.Booted isr) {v : ℕ} (hv : v < 256)
    (o : Option (BitVec 32)) : x.interrupt wide resume v o =
      some (x.entered (handlerOf isr v) (x.origin wide resume ++ o.toList.map le32)) := by
  have hlimit : 8 * v + 7 ≤ x.idtr.limit.toNat := by
    rw [h.idtLimit]
    change 8 * v + 7 ≤ 2047
    omega
  have hcs : x.cs.extractLsb' 0 2 = 0 := by
    rw [h.code]
    decide
  have htype : (⟨handlerOf isr v, 0x08, 0x8E⟩ : Gate).IsInterrupt := by
    change (0x8E : BitVec 8) &&& 0x9F = 0x8E
    decide
  rw [X86.interrupt, h.gate hv, if_pos ⟨hlimit, htype, h.canEnter _, hcs⟩]
  simp only [h.touch_code]
  cases o <;> rfl

/-- The error code that the processor pushes. -/
def errorCode (f : Fault) (e : BitVec 32) : Option (BitVec 32) :=
  if f.hasError then some e else none

theorem Booted.interrupt (h : x.Booted isr) : x.interrupt wide resume f.number (errorCode f e) =
    some (x.entered (isr f) (x.origin wide resume ++ (errorCode f e).toList.map le32)) := by
  have hv : f.number < 256 := by cases f <;> decide
  rw [h.interrupt_of_lt hv, handlerOf_number]

/-- Each stub leaves an error code and its number. -/
theorem run_stub {stub : BitVec 32} :
    (x.entered stub (x.origin wide resume ++ (errorCode f e).toList.map le32)).run wide
      f.stub = some (x.entered stub (x.origin wide resume ++
        [le32 (if f.hasError then e else 0), le32 (BitVec.ofNat 32 f.number)])) := by
  cases f <;>
    simp only [Fault.stub, run_cons, run_nil, entered_exec, execute, Option.bind_some,
      entered_push] <;> rfl

/-- `isr_common_stub` completes the frame. -/
theorem run_save {stub : BitVec 32} :
    (x.entered stub (x.origin wide resume ++
      [le32 (if f.hasError then e else 0), le32 (BitVec.ofNat 32 f.number)])).run wide
        [.pusha, .pushSeg .ds, .pushSeg .es, .pushSeg .fs, .pushSeg .gs] =
      some (x.entered stub (x.registers wide resume f e).reverse) := by
  simp only [run_cons, run_nil, entered_exec, execute, Option.bind_some, entered_push, entered_seg,
    entered_esp]
  rfl

theorem extract_low (w : BitVec 32) (n : BitVec 16) :
    (w.extractLsb' 16 16 ++ n : BitVec (16 + 16)).extractLsb' 0 16 = n := by
  ext i hi
  grind

@[simp] theorem setSeg_eax {s : BitVec 16} {r : Seg} : (x.setSeg s r).eax = x.eax := by
  cases r <;> rfl

/-- The segments can be loaded, and the instructions are not single-stepped. -/
structure Ready (x : X86) : Prop extends x.HasGdt where
  trap : x.eflags.getLsbD 8 = false

theorem Ready.setSeg {s : BitVec 16} (h : x.Ready) (r : Seg) : (x.setSeg s r).Ready := by
  cases r <;> exact ⟨⟨h.limit, h.table⟩, h.trap⟩

theorem HasGdt.load (h : x.HasGdt) (r : Seg) : x.load 0x10 r = some (x.setSeg 0x10 r) := by
  rw [X86.load, if_pos h.canLoad, h.touch_data]

/-- The data segment of the kernel is loaded. -/
theorem Ready.movSegAx (h : x.Ready) (hax : x.eax.extractLsb' 0 16 = 0x10) (r : Seg) :
    x.exec wide (.movSegAx r) = some (x.setSeg 0x10 r) := by
  rw [exec_of_clear h.trap, execute, hax, h.load]

/-- The GDT is as before the exception. -/
theorem HasGdt.pushes (h : x.HasGdt) (hroom : x.HasRoom) {cs : List (List (BitVec 8))}
    (hcs : ∀ c ∈ cs, c.length ≤ 4) (hlen : cs.length ≤ 19) : (x.pushes cs).HasGdt := by
  refine ⟨h.limit, (read_congr fun i hi => ?_).trans h.table⟩
  refine pushAll_of_le hcs (by omega) ?_
  have hi := hroom i hi
  change 4 * cs.length ≤ (x.gdtr.base + BitVec.ofNat 32 i - (x.esp - _)).toNat
  generalize x.gdtr.base + BitVec.ofNat 32 i = b at hi ⊢
  bv_omega

/-- The processor when `isr_handler` begins. -/
def handed (x : X86) (handler next : BitVec 32) : X86 :=
  { x.pushes [le32 x.esp, le32 next] with
    eip := handler, eax := x.eax.extractLsb' 16 16 ++ (0x10 : BitVec 16)
    ds := 0x10, es := 0x10, fs := 0x10, gs := 0x10 }

/-- The data segments are loaded and `isr_handler` is called. -/
theorem Ready.run_call (h : x.Ready) : x.run wide [.movAx 0x10, .movSegAx .ds,
    .movSegAx .es, .movSegAx .fs, .movSegAx .gs, .pushEsp, .call handler next] =
      some (x.handed handler next) := by
  let y : X86 := { x with eax := x.eax.extractLsb' 16 16 ++ (0x10 : BitVec 16) }
  have hax : y.eax.extractLsb' 0 16 = 0x10 := extract_low x.eax 0x10
  have hy : y.Ready := ⟨⟨h.limit, h.table⟩, h.trap⟩
  let z := (((y.setSeg 0x10 .ds).setSeg 0x10 .es).setSeg 0x10 .fs).setSeg 0x10 .gs
  have hz : z.Ready := (((hy.setSeg _).setSeg _).setSeg _).setSeg _
  have hpush : (z.push (le32 z.esp)).exec wide (.call handler next) = some (x.handed handler next) :=
    exec_of_clear (x := z.push (le32 z.esp)) hz.trap _
  rw [run_cons, exec_of_clear h.trap, execute, Option.bind_some, run_cons, hy.movSegAx hax,
    Option.bind_some, run_cons, (hy.setSeg _).movSegAx (by simpa using hax), Option.bind_some,
    run_cons, ((hy.setSeg _).setSeg _).movSegAx (by simpa using hax), Option.bind_some, run_cons,
    (((hy.setSeg _).setSeg _).setSeg _).movSegAx (by simpa using hax), Option.bind_some, run_cons,
    exec_of_clear hz.trap, execute, Option.bind_some, run_cons, hpush, Option.bind_some, run_nil]

/-- What a stub does before `isr_handler` begins. -/
theorem Booted.run_stub (h : x.Booted isr) (hroom : x.HasRoom) :
    (x.entered (isr f) (x.origin wide resume ++ (errorCode f e).toList.map le32)).run wide
      (f.stub ++ commonStub handler next) =
        some ((x.entered (isr f) (x.registers wide resume f e).reverse).handed handler next) := by
  have hmem : ∀ c ∈ (x.registers wide resume f e).reverse, c.length ≤ 4 := fun c hc =>
    length_of_mem_registers c (List.mem_reverse.1 hc)
  have hgdt := h.toHasGdt.pushes hroom hmem (Nat.le_of_ble_eq_true rfl)
  have hentered : (x.entered (isr f) (x.registers wide resume f e).reverse).Ready :=
    ⟨⟨hgdt.limit, hgdt.table⟩, entered_trap x (isr f) _⟩
  have hstub : commonStub handler next =
      [.pusha, .pushSeg .ds, .pushSeg .es, .pushSeg .fs, .pushSeg .gs] ++ [.movAx 0x10,
        .movSegAx .ds, .movSegAx .es, .movSegAx .fs, .movSegAx .gs, .pushEsp,
        .call handler next] := rfl
  rw [run_append, X86.run_stub, Option.bind_some, hstub, run_append, run_save, Option.bind_some,
    hentered.run_call]

theorem handed_stack {stub : BitVec 32} {cs : List (List (BitVec 8))} :
    (((x.entered stub cs).handed handler next).mem, ((x.entered stub cs).handed handler next).esp) =
      pushAll (x.mem, x.esp) (cs ++ [le32 (x.entered stub cs).esp, le32 next]) := by
  rw [pushAll_append]
  rfl

theorem handed_gdtr {stub : BitVec 32} {cs : List (List (BitVec 8))} :
    ((x.entered stub cs).handed handler next).gdtr = x.gdtr := rfl

theorem length_cells : (x.cells wide resume f e next).length = 19 := rfl

theorem registers_stack (x : X86) (wide resume : Bool) (f : Fault)
    (e handler next stub : BitVec 32) :
    (((x.entered stub (x.registers wide resume f e).reverse).handed handler next).mem,
      ((x.entered stub (x.registers wide resume f e).reverse).handed handler next).esp) =
        pushAll (x.mem, x.esp) (x.cells wide resume f e next) := by
  have hlen : (x.registers wide resume f e).reverse.length = 17 := List.length_reverse
  rw [handed_stack, entered_esp, hlen]
  rfl

section Handed

variable {z : X86} (hz : (z.mem, z.esp) = pushAll (x.mem, x.esp) (x.cells wide resume f e next))
include hz

theorem esp_of_pushed : z.esp = x.esp - 76 :=
  (congrArg Prod.snd hz).trans pushAll_snd

/-- The stack of `isr_handler`. -/
theorem cells_of_pushed :
    Cells z.mem z.esp ([le32 next, le32 x.frame] ++ x.registers wide resume f e) := by
  have hlen : 4 * (x.cells wide resume f e next).length < 2 ^ 32 := by
    rw [length_cells]
    decide
  have hcells := cells_pushAll (p := (x.mem, x.esp)) length_of_mem_cells hlen
  rw [← hz, cells, List.reverse_append, List.reverse_reverse] at hcells
  exact hcells

/-- The argument of `isr_handler` points to its `register_t`. -/
theorem registers_of_pushed : Cells z.mem x.frame (x.registers wide resume f e) := by
  have hcells := (cells_of_pushed hz).append_right
  have hup : up z.esp 2 = x.frame := by
    rw [esp_of_pushed hz, up, frame]
    bv_omega
  exact hup ▸ hcells

/-- The rest of the memory is as before the exception. -/
theorem mem_of_pushed {b : BitVec 32} (hb : 76 ≤ (b - (x.esp - 76)).toNat) :
    z.mem b = x.mem b := by
  refine (congrFun (congrArg Prod.fst hz) b).trans (pushAll_of_le length_of_mem_cells ?_ hb)
  rw [length_cells]
  decide

theorem hasGdt_of_pushed (h : x.HasGdt) (hroom : x.HasRoom) (hgdtr : z.gdtr = x.gdtr) :
    z.HasGdt := by
  have hpushes : (x.pushes (x.cells wide resume f e next)).HasGdt :=
    h.pushes hroom length_of_mem_cells (Nat.le_refl 19)
  refine ⟨hgdtr ▸ h.limit, ?_⟩
  rw [hgdtr]
  exact (congrArg (ByteMemory.read · x.gdtr.base 24) (congrArg Prod.fst hz)).trans hpushes.table

end Handed

theorem intNo_of_cells {m : Mem} (h : Cells m x.frame (x.registers wide resume f e)) :
    intNo m x.frame = BitVec.ofNat 32 f.number := Cells.word h rfl

end X86

namespace Fault

/-- What `isr.c` reports. -/
def reportC : Fault → String
  | divideError => "EXCEPTION:#DE Divide Error\n"
  | invalidOpcode => "EXCEPTION:#UD Invalid Opcode\n"
  | doubleFault => "EXCEPTION:#DF Double Fault\n"
  | generalProtection => "EXCEPTION:#GP General Protection\n"
  | pageFault => "EXCEPTION:#PF Page Fault\n"

/-- What `isr.zig` reports; it takes a double fault for a general protection fault. -/
def reportZig : Fault → String
  | divideError => "EXCEPTION: ISR CAUGHT\nint_no=0x00000000\n#DE Divide Error\n"
  | invalidOpcode => "EXCEPTION: ISR CAUGHT\nint_no=0x00000006\n#UD Invalid Opcode\n"
  | doubleFault => "EXCEPTION: ISR CAUGHT\nint_no=0x00000008\n#GP General Protection\n"
  | generalProtection => "EXCEPTION: ISR CAUGHT\nint_no=0x0000000D\n#GP General Protection\n"
  | pageFault => "EXCEPTION: ISR CAUGHT\nint_no=0x0000000E\n#PF Page Fault\n"

variable {f : Fault} {m : Mem} {r : BitVec 32}

theorem isrHandlerC_eq (h : intNo m r = BitVec.ofNat 32 f.number) :
    isrHandlerC m r = bytesOf f.reportC := by
  rw [isrHandlerC, h]
  cases f <;> decide

theorem isrHandlerZig_eq (h : intNo m r = BitVec.ofNat 32 f.number) :
    isrHandlerZig m r = bytesOf f.reportZig := by
  rw [isrHandlerZig, h]
  cases f <;> decide

end Fault

/-- When the kernel is interrupted by a fault, the processor comes to its stub, and the stub to
`isr_handler`. The argument of `isr_handler` points to a `register_t` with the registers at the
fault, the data segments are those of the kernel, and no memory outside the frame has changed. Both
kernels report the fault. -/
theorem x86_exception_frame (h : x.Booted isr) (hroom : x.HasRoom) (wide resume : Bool) (f : Fault)
    (e handler next : BitVec 32) :
    ∃ y z, x.interrupt wide resume f.number (X86.errorCode f e) = some y ∧
      y.eip = isr f ∧ y.run wide (f.stub ++ commonStub handler next) = some z ∧ z.eip = handler ∧
      Cells z.mem z.esp [le32 next, le32 x.frame] ∧
      Cells z.mem x.frame (x.registers wide resume f e) ∧
      (∀ b, 76 ≤ (b - (x.esp - 76)).toNat → z.mem b = x.mem b) ∧ (∀ r, z.seg r = 0x10) ∧
      isrHandlerC z.mem x.frame = bytesOf f.reportC ∧
      isrHandlerZig z.mem x.frame = bytesOf f.reportZig := by
  have hz := X86.registers_stack x wide resume f e handler next (isr f)
  have hcells := X86.registers_of_pushed hz
  have hint := X86.intNo_of_cells hcells
  refine ⟨_, _, h.interrupt, rfl, h.run_stub hroom, rfl, (X86.cells_of_pushed hz).append_left,
    hcells, fun b => X86.mem_of_pushed hz, ?_, Fault.isrHandlerC_eq hint,
    Fault.isrHandlerZig_eq hint⟩
  rintro ⟨⟩ <;> rfl

/-- A processor with the tables at 1 MiB and the stack below 2 MiB, and the page fault that it takes
with the error code 2. -/
def X86.pageFaulting : X86 :=
  (X86.gdtInit
    { eax := 1, ecx := 2, edx := 3, ebx := 4, esp := 0x200000, ebp := 0x200040, esi := 5, edi := 6
      cs := 0x08, ds := 0x10, es := 0x10, fs := 0x10, gs := 0x10, ss := 0x10, eip := 0x100200
      eflags := 0x202, gdtr := ⟨0, 0⟩, idtr := ⟨0, 0⟩, mem := fun _ => 0 }
    0x102000).idtInit (fun f => 0x101000 + BitVec.ofNat 32 f.number)
      (fun _ => gateEntry 0) 0x103000

theorem X86.pageFaulting_booted :
    X86.pageFaulting.Booted fun f => 0x101000 + BitVec.ofNat 32 f.number :=
  X86.booted_of_init (by decide) (by decide)

theorem X86.pageFaulting_hasRoom : X86.pageFaulting.HasRoom := by
  change ∀ i < 24, 76 ≤ (0x102000 + BitVec.ofNat 32 i - (0x200000 - 76)).toNat
  decide

theorem x86_exception_frame_pageFault :
    ∃ y z, X86.pageFaulting.interrupt true true 14 (some 2) = some y ∧
      y.run true (Fault.pageFault.stub ++ commonStub 0x100000 0x101100) = some z ∧
      isrHandlerC z.mem X86.pageFaulting.frame = bytesOf "EXCEPTION:#PF Page Fault\n" := by
  obtain ⟨y, z, hy, -, hz, -, -, -, -, -, hC, -⟩ := x86_exception_frame X86.pageFaulting_booted
    X86.pageFaulting_hasRoom true true .pageFault 2 0x100000 0x101100
  exact ⟨y, z, hy, hz, hC⟩

/-! ### The way back -/

namespace X86

/-- The stack pointer is `n` cells above `p`. -/
def popped (x : X86) (p : BitVec 32) (n : ℕ) : X86 := { x with esp := up p n }

variable {y : X86} {p : BitVec 32} {n k : ℕ} {m : Mem}

@[simp] theorem popped_drop : (y.popped p n).drop k = y.popped p (n + k) := by
  rw [drop, popped, up_up]
  rfl

theorem popped_addEsp :
    { y.popped p n with esp := (y.popped p n).esp + BitVec.ofNat 32 (4 * k) } =
      y.popped p (n + k) :=
  popped_drop

theorem popped_exec (h : y.eflags.getLsbD 8 = false) (i : Instr) :
    (y.popped p n).exec wide i = (y.popped p n).execute wide i :=
  exec_of_clear (x := y.popped p n) h i

theorem popped_setSeg {s : BitVec 16} {r : Seg} :
    (y.popped p n).setSeg s r = (y.setSeg s r).popped p n := by
  cases r <;> rfl

theorem extract_extend {n : ℕ} (hn : n + 8 ≤ 16) (s : BitVec 16) :
    (s.setWidth 32).extractLsb' n 8 = s.extractLsb' n 8 := by
  ext i hi
  grind

theorem segBytes_take (wide : Bool) (s : BitVec 16) : (segBytes wide s).take 2 = le16 s := by
  cases wide
  · rfl
  · change [(s.setWidth 32).extractLsb' 0 8, (s.setWidth 32).extractLsb' 8 8] = le16 s
    rw [extract_extend (Nat.le_add_left 8 8), extract_extend (Nat.le_refl 16), le16]

theorem Ready.popSeg (h : y.Ready) {cs : List (List (BitVec 8))} (hcells : Cells y.mem p cs)
    (hn : cs[n]? = some (segBytes wide 0x10)) (r : Seg) :
    (y.popped p n).exec wide (.popSeg r) = some ((y.setSeg 0x10 r).popped p (n + 1)) := by
  have hhalf : (y.popped p n).half 0 = 0x10 := by
    rw [half]
    change ofLe 16 (ByteMemory.read y.mem (up (up p n) 0) 2) = 0x10
    rw [up_up]
    exact hcells.half hn (le_length_segBytes wide 0x10) (segBytes_take wide 0x10)
  have hpopped : (y.popped p n).HasGdt := ⟨h.limit, h.table⟩
  rw [popped_exec h.trap, execute, hhalf, hpopped.load, Option.map_some, popped_setSeg,
    popped_drop]

/-- The processor goes on with the registers of `x`. -/
def resumed (y x : X86) (resume : Bool) : X86 :=
  { x with
    eflags := savedFlags resume x.eflags
    ss := y.ss, gdtr := y.gdtr, idtr := y.idtr, mem := y.mem }

/-- The flags are saved without the flag of virtual 8086 mode. -/
theorem savedFlags_virtual (h : x.eflags.getLsbD 17 = false) :
    (savedFlags resume x.eflags).getLsbD 17 = false := by
  have hbit : (0x10000 : BitVec 32).getLsbD 17 = false := by decide
  cases resume
  · exact h
  · rw [savedFlags, if_pos rfl, BitVec.getLsbD_or, h, hbit, Bool.or_false]

theorem popped_word {w : BitVec 32} {cs : List (List (BitVec 8))} (hcells : Cells y.mem p cs)
    (hn : cs[n + k]? = some (le32 w)) : (y.popped p n).word k = w := by
  rw [word]
  change ofLe 32 (ByteMemory.read y.mem (up (up p n) k) 4) = w
  rw [up_up]
  exact hcells.word hn

/-- The general registers are those of `x`. -/
def general (y x : X86) : X86 :=
  { y with
    edi := x.edi, esi := x.esi, ebp := x.ebp, ebx := x.ebx, edx := x.edx, ecx := x.ecx
    eax := x.eax }

theorem exec_popa (htrap : y.eflags.getLsbD 8 = false)
    (hcells : Cells y.mem x.frame (x.registers wide resume f e)) :
    (y.popped x.frame 4).exec wide .popa = some ((y.general x).popped x.frame 12) := by
  have hword (k : ℕ) (w : BitVec 32) (hw : (x.registers wide resume f e)[4 + k]? = some (le32 w)) :
      (y.popped x.frame 4).word k = w := popped_word hcells hw
  rw [popped_exec htrap, execute, hword 0 x.edi rfl, hword 1 x.esi rfl, hword 2 x.ebp rfl,
    hword 4 x.ebx rfl, hword 5 x.edx rfl, hword 6 x.ecx rfl, hword 7 x.eax rfl]
  exact congrArg some (popped_drop (y := y.general x) (n := 4) (k := 8))

theorem exec_iret (h : y.Ready) (hcells : Cells y.mem x.frame (x.registers wide resume f e))
    (hcode : x.cs = 0x08) (hvirtual : x.eflags.getLsbD 17 = false)
    (hnested : y.eflags.getLsbD 14 = false) :
    (y.popped x.frame 14).exec wide .iret =
      some ({ y with eip := x.eip, cs := 0x08, eflags := savedFlags resume x.eflags }.popped
        x.frame 17) := by
  have hip : (y.popped x.frame 14).word 0 = x.eip := popped_word hcells rfl
  have hflags : (y.popped x.frame 14).word 2 = savedFlags resume x.eflags :=
    popped_word hcells rfl
  have hcs : (y.popped x.frame 14).half 1 = 0x08 := by
    rw [half]
    change ofLe 16 (ByteMemory.read y.mem (up (up x.frame 14) 1) 2) = 0x08
    rw [up_up, hcells.half (c := segBytes wide x.cs) rfl (le_length_segBytes wide x.cs)
      (segBytes_take wide x.cs), hcode]
  have hpopped : (y.popped x.frame 14).HasGdt := ⟨h.limit, h.table⟩
  rw [popped_exec h.trap, execute, X86.iret, hip, hflags, hcs, hpopped.touch_code,
    if_pos ⟨hnested, savedFlags_virtual hvirtual, hpopped.canEnter x.eip, by decide⟩]
  exact congrArg some (popped_drop (k := 3)
    (y := { y with eip := x.eip, cs := 0x08, eflags := savedFlags resume x.eflags }) (n := 14))

/-- What follows the call restores all registers from the frame. -/
theorem Booted.run_return (h : x.Booted isr) (hy : y.Ready) (hesp : y.esp = x.frame - 4)
    (hcells : Cells y.mem x.frame (x.registers wide resume f e))
    (hnested : y.eflags.getLsbD 14 = false) :
    y.run wide commonReturn = some (y.resumed x resume) := by
  have hgs : x.gs = 0x10 := h.data .gs
  have hfs : x.fs = 0x10 := h.data .fs
  have hes : x.es = 0x10 := h.data .es
  have hds : x.ds = 0x10 := h.data .ds
  have hstart : y.exec wide (.addEsp 4) = some (y.popped x.frame 0) := by
    have hup : y.esp + 4 = up x.frame 0 := by
      rw [hesp, up]
      bv_omega
    rw [exec_of_clear hy.trap, execute, hup]
    rfl
  let y1 := y.setSeg 0x10 .gs
  let y2 := y1.setSeg 0x10 .fs
  let y3 := y2.setSeg 0x10 .es
  let y4 := y3.setSeg 0x10 .ds
  have hy1 : y1.Ready := hy.setSeg .gs
  have hy2 : y2.Ready := hy1.setSeg .fs
  have hy3 : y3.Ready := hy2.setSeg .es
  have hy4 : (y4.general x).Ready := ⟨⟨hy.limit, hy.table⟩, hy.trap⟩
  have hcell {s : BitVec 16} (hs : s = 0x10) : some (segBytes wide s) = some (segBytes wide 0x10) :=
    congrArg (some <| segBytes wide ·) hs
  have hpop0 := hy.popSeg hcells (n := 0) (hcell hgs) .gs
  have hpop1 := hy1.popSeg hcells (n := 1) (hcell hfs) .fs
  have hpop2 := hy2.popSeg hcells (n := 2) (hcell hes) .es
  have hpop3 := hy3.popSeg hcells (n := 3) (hcell hds) .ds
  have hpopa := exec_popa (y := y4) hy.trap hcells
  have hskip : ((y4.general x).popped x.frame 12).exec wide (.addEsp 8) =
      some ((y4.general x).popped x.frame 14) :=
    (popped_exec hy4.trap _).trans (congrArg some (popped_addEsp (n := 12) (k := 2)))
  have hiret : ((y4.general x).popped x.frame 14).exec wide .iret = _ :=
    exec_iret hy4 hcells h.code h.notVirtual hnested
  have hend : up x.frame 17 = x.esp := by
    rw [up, frame]
    bv_omega
  rw [commonReturn, run_cons, hstart, Option.bind_some, run_cons, hpop0, Option.bind_some,
    run_cons, hpop1, Option.bind_some, run_cons, hpop2, Option.bind_some, run_cons, hpop3,
    Option.bind_some, run_cons, hpopa, Option.bind_some, run_cons, hskip, Option.bind_some,
    run_cons, hiret, Option.bind_some, run_nil, popped, hend, resumed, hgs, hfs, hes, hds, h.code]
  rfl

/-- `isr_handler`, which began in the state `z`, returns in the state `w`: its frame, the GDT, the
trap flag and the flag of nested tasks are as it found them. -/
structure Returned (z w : X86) (p : BitVec 32) : Prop where
  esp : w.esp = z.esp + 4
  frame : ∀ i < 68, w.mem (p + BitVec.ofNat 32 i) = z.mem (p + BitVec.ofNat 32 i)
  gdtr : w.gdtr = z.gdtr
  gdt : ∀ i < 24,
    w.mem (z.gdtr.base + BitVec.ofNat 32 i) = z.mem (z.gdtr.base + BitVec.ofNat 32 i)
  nested : w.eflags.getLsbD 14 = z.eflags.getLsbD 14
  trap : w.eflags.getLsbD 8 = z.eflags.getLsbD 8

theorem Returned.ready {z w : X86} (hret : z.Returned w p) (h : z.Ready) : w.Ready := by
  refine ⟨⟨hret.gdtr ▸ h.limit, ?_⟩, hret.trap.trans h.trap⟩
  rw [hret.gdtr]
  exact (read_congr hret.gdt).trans h.table

end X86

/-- If `isr_handler` returned, the interrupted program would go on with its registers. -/
theorem x86_exception_return (h : x.Booted isr) (hroom : x.HasRoom) {wide resume : Bool} {f : Fault}
    {e handler next : BitVec 32} {y z w : X86}
    (hy : x.interrupt wide resume f.number (X86.errorCode f e) = some y)
    (hz : y.run wide (f.stub ++ commonStub handler next) = some z) (hw : z.Returned w x.frame) :
    w.run wide commonReturn = some (w.resumed x resume) := by
  obtain rfl := Option.some.inj (hy.symm.trans h.interrupt)
  obtain rfl := Option.some.inj (hz.symm.trans (h.run_stub hroom))
  have hstack := X86.registers_stack x wide resume f e handler next (isr f)
  have hgdt := X86.hasGdt_of_pushed hstack h.toHasGdt hroom X86.handed_gdtr
  have hesp : w.esp = x.frame - 4 := by
    rw [hw.esp, X86.esp_of_pushed hstack, X86.frame]
    bv_omega
  have hcells := (X86.registers_of_pushed hstack).congr X86.length_of_mem_registers hw.frame
  have htrap := x.entered_trap (isr f) (x.registers wide resume f e).reverse
  have hnested := x.entered_nested (isr f) (x.registers wide resume f e).reverse
  exact h.run_return (hw.ready ⟨hgdt, htrap⟩) hesp hcells (hw.nested.trans hnested)

/-- The handler of the page fault begins. -/
def X86.handlerBegins : X86 :=
  (X86.pageFaulting.entered 0x10100E
    (X86.pageFaulting.registers true true .pageFault 2).reverse).handed 0x100000 0x101100

/-- It returns with other registers and flags, and has stored a byte at 3 MiB. -/
def X86.handlerReturns : X86 :=
  { X86.handlerBegins with
    eax := 7, ecx := 0, ebx := 0xDEAD, ebp := 0, ds := 0, es := 0, esp := X86.pageFaulting.esp - 72
    eflags := 0x46, mem := write X86.handlerBegins.mem 0x300000 [0xAB] }

theorem X86.handlerReturns_returned :
    X86.handlerBegins.Returned X86.handlerReturns X86.pageFaulting.frame where
  esp := by
    have hesp := X86.esp_of_pushed (X86.registers_stack X86.pageFaulting true true .pageFault 2
      0x100000 0x101100 0x10100E)
    change (0x200000 : BitVec 32) - 72 = X86.handlerBegins.esp + 4
    rw [X86.handlerBegins, hesp]
    decide
  frame i hi := by
    refine write_of_le ?_
    change 1 ≤ ((0x200000 : BitVec 32) - 68 + BitVec.ofNat 32 i - 0x300000).toNat
    bv_omega
  gdtr := rfl
  gdt i hi := by
    refine write_of_le ?_
    change 1 ≤ ((0x102000 : BitVec 32) + BitVec.ofNat 32 i - 0x300000).toNat
    bv_omega
  nested := (X86.pageFaulting.entered_nested 0 []).symm
  trap := (X86.pageFaulting.entered_trap 0 []).symm

theorem x86_exception_return_pageFault :
    ∃ u, X86.run true X86.handlerReturns commonReturn = some u ∧ u.eax = 0x10 ∧ u.ebx = 4 ∧
      u.ebp = 0x200040 ∧ u.ds = 0x10 ∧ u.eip = 0x100200 ∧ u.esp = 0x200000 ∧
      u.eflags = 0x10002 ∧ u.mem 0x300000 = 0xAB := by
  have hrun : X86.run true _ (Fault.pageFault.stub ++ commonStub 0x100000 0x101100) =
      some X86.handlerBegins := X86.pageFaulting_booted.run_stub X86.pageFaulting_hasRoom
  have hreturn := x86_exception_return X86.pageFaulting_booted X86.pageFaulting_hasRoom
    X86.pageFaulting_booted.interrupt hrun X86.handlerReturns_returned
  have hfirst : 0 < [(0xAB : BitVec 8)].length := Nat.zero_lt_one
  have hbyte : X86.handlerReturns.mem 0x300000 = 0xAB :=
    write_add (m := X86.handlerBegins.mem) (a := 0x300000) hfirst (by decide)
  exact ⟨_, hreturn, rfl, rfl, rfl, rfl, rfl, rfl, rfl, hbyte⟩

end TamgaOs
