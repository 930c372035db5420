import TamgaOs.X86.Kernel

/-!
# The descriptor tables of the x86 kernel

Whatever `make_entry` and `setEntry` are given, the processor reads it back from the table. The two
kernels set up the same tables, and after `gdt_init` and `idt_init` the processor finds flat
segments and a gate for every exception. An exception without a stub has a gate too, to the address
0.

## Main definitions

* `handlerOf`: the address that an exception leads to.
* `gdtLoaded`, `X86.HasGdt`, `X86.Booted`: the tables are in memory and loaded.

## Main results

* `makeEntry_decode`, `gateEntry_decode`: entries are read back.
* `gdtC_eq_gdtAsm`, `idtZig_eq_idtC`: both kernels have the same tables.
* `X86.booted_of_init`: the tables are loaded after the initialization.
-/

namespace TamgaOs

open ByteMemory

/-! ### Entries of the GDT -/

/-- A word from its bytes, the highest first. -/
theorem bytes_append (w : BitVec 32) : (w.extractLsb' 24 8 ++ w.extractLsb' 16 8 ++
    w.extractLsb' 8 8 ++ w.extractLsb' 0 8 : BitVec (8 + 8 + 8 + 8)) = w := by
  ext i hi
  grind

theorem limit_append (w : BitVec 32) : (w.extractLsb' 16 4 ++ w.extractLsb' 8 8 ++
    w.extractLsb' 0 8 : BitVec (4 + 8 + 8)) = w.setWidth 20 := by
  ext i hi
  grind

/-- A mask that keeps the lower bits. -/
theorem setWidth_and {k : ℕ} {mask : BitVec 32} (h : ∀ i < k, mask.getLsbD i = true)
    (w : BitVec 32) : (w &&& mask).setWidth k = w.setWidth k := by
  ext i hi
  simp [h i hi]

theorem setWidth_shift {n k : ℕ} {w : BitVec 32} :
    (w >>> n).setWidth k = w.extractLsb' n k := by
  ext i hi
  simp

theorem extract_setWidth {n : ℕ} (hn : n + 8 ≤ 16) (w : BitVec 32) :
    (w.setWidth 16).extractLsb' n 8 = w.extractLsb' n 8 := by
  ext i hi
  simp
  omega

/-- The lower half of a granularity byte. -/
theorem granularity_low {mask : BitVec 32} {keep : BitVec 8}
    (h : ∀ i < 4, mask.getLsbD i = true ∧ keep.getLsbD i = false) (w : BitVec 32)
    (gran : BitVec 8) :
    (((w >>> 16) &&& mask).setWidth 8 ||| (gran &&& keep)).extractLsb' 0 4 =
      w.extractLsb' 16 4 := by
  ext i hi
  have hlt : i < 8 := by omega
  have hkeep : keep[i] = false := (BitVec.getLsbD_eq_getElem hlt).symm.trans (h i hi).2
  simp [(h i hi).1, hkeep, hlt, Nat.add_comm]

/-- The upper half. -/
theorem granularity_high {mask : BitVec 32} {keep : BitVec 8}
    (h : ∀ i < 4, mask.getLsbD (4 + i) = false ∧ keep.getLsbD (4 + i) = true) (w : BitVec 32)
    (gran : BitVec 8) :
    (((w >>> 16) &&& mask).setWidth 8 ||| (gran &&& keep)).extractLsb' 4 4 =
      gran.extractLsb' 4 4 := by
  ext i hi
  simp [h i hi]

/-- The processor reads the base, the limit and the attributes back from an entry of the GDT. -/
theorem makeEntry_decode (base limit : BitVec 32) (access gran : BitVec 8) :
    Descriptor.decode (makeEntry base limit access gran).bytes =
      ⟨base, limit.setWidth 20, access, gran.extractLsb' 4 4⟩ := by
  have hword : ∀ i < 16, (0xFFFF : BitVec 32).getLsbD i = true := by decide
  have hbyte : ∀ i < 8, (0xFF : BitVec 32).getLsbD i = true := by decide
  have hlow : ∀ i < 4, (0x0F : BitVec 32).getLsbD i = true ∧
      (0xF0 : BitVec 8).getLsbD i = false := by
    decide
  have hhigh : ∀ i < 4, (0x0F : BitVec 32).getLsbD (4 + i) = false ∧
      (0xF0 : BitVec 8).getLsbD (4 + i) = true := by
    decide
  simp only [Descriptor.decode, GdtEntry.bytes, makeEntry, le16, List.cons_append, List.nil_append,
    List.getD_cons_zero, List.getD_cons_succ, setWidth_and hword, setWidth_and hbyte, setWidth_shift,
    extract_setWidth (Nat.le_refl 16), extract_setWidth (Nat.le_add_left 8 8),
    granularity_low hlow, granularity_high hhigh, bytes_append, limit_append]

theorem gdtC_eq_gdtAsm : gdtC = gdtAsm := by decide

/-! ### Gates -/

theorem setEntryC_eq_setEntryZig : setEntryC = setEntryZig := by
  have hword : ∀ i < 16, (0xFFFF : BitVec 32).getLsbD i = true := by decide
  funext idt n handler
  simp only [setEntryC, setEntryZig, setWidth_and hword]

/-- The address that the kernel gives to an exception. -/
def handlerOf (isr : Fault → BitVec 32) : ℕ → BitVec 32
  | 0 => isr .divideError
  | 6 => isr .invalidOpcode
  | 8 => isr .doubleFault
  | 13 => isr .generalProtection
  | 14 => isr .pageFault
  | _ => 0

variable {isr : Fault → BitVec 32} {idt : ℕ → IdtEntry} {v : ℕ}

@[simp] theorem handlerOf_number (f : Fault) : handlerOf isr f.number = isr f := by cases f <;> rfl

/-- What `setEntry` stores. -/
def gateEntry (handler : BitVec 32) : IdtEntry where
  offsetLow := handler.setWidth 16
  selector := 0x08
  zero := 0
  typeAttr := 0x8E
  offsetHigh := (handler >>> 16).setWidth 16

theorem setEntryC_eq (n : ℕ) (handler : BitVec 32) :
    setEntryC idt n handler = Function.update idt n (gateEntry handler) := by
  rw [setEntryC_eq_setEntryZig]
  rfl

theorem gateEntry_decode (handler : BitVec 32) :
    Gate.decode (gateEntry handler).bytes = ⟨handler, 0x08, 0x8E⟩ := by
  have hsel : (0x08 : BitVec 16).extractLsb' 8 8 ++ (0x08 : BitVec 16).extractLsb' 0 8 =
      (0x08 : BitVec (8 + 8)) := by decide
  simp only [Gate.decode, IdtEntry.bytes, gateEntry, le16, List.cons_append, List.nil_append,
    List.getD_cons_zero, List.getD_cons_succ, setWidth_shift, hsel]
  congr 1
  ext i hi
  grind

/-- The loop of `idt_init`. -/
theorem foldl_update (n : ℕ) : (List.range n).foldl
    (fun idt i => Function.update idt i (gateEntry 0)) idt v =
      if v < n then gateEntry 0 else idt v := by
  induction n with
  | zero => rfl
  | succ n ih =>
    rw [List.range_succ, List.foldl_append, List.foldl_cons, List.foldl_nil]
    by_cases hv : v = n
    · subst hv
      rw [Function.update_self, if_pos (Nat.lt_succ_self v)]
    · rw [Function.update_of_ne hv, ih]
      exact if_congr (by omega) rfl rfl

theorem idtC_of_lt (hv : v < 256) : idtC isr idt v = gateEntry (handlerOf isr v) := by
  simp only [idtC, idtInit, setEntryC_eq, Function.update_apply]
  rw [foldl_update, if_pos hv]
  unfold handlerOf
  split <;> grind

theorem idtZig_eq_idtC : idtZig = idtC := by
  rw [idtZig, idtC, setEntryC_eq_setEntryZig]

/-! ### The tables in memory -/

namespace X86

/-- The GDT after the segments have been loaded: the processor has marked both as accessed. -/
def gdtLoaded : List (BitVec 8) :=
  (makeEntry 0 0 0 0).bytes ++ (makeEntry 0 0xFFFFF 0x9B 0xCF).bytes ++
    (makeEntry 0 0xFFFFF 0x93 0xCF).bytes

/-- The GDT of the kernel is in memory and loaded, and so are its segments. -/
structure HasGdt (x : X86) : Prop where
  limit : x.gdtr.limit = 23
  table : read x.mem x.gdtr.base 24 = gdtLoaded

/-- The kernel has set up its tables, and runs in its own segments. -/
structure Booted (x : X86) (isr : Fault → BitVec 32) : Prop extends x.HasGdt where
  idtLimit : x.idtr.limit = 2047
  idtTable : ∃ idt, read x.mem x.idtr.base 2048 = idtBytes (idtC isr idt)
  code : x.cs = 0x08
  data : ∀ r, x.seg r = 0x10
  notVirtual : x.eflags.getLsbD 17 = false

theorem length_idtBytes : (idtBytes idt).length = 2048 := by
  have hlen : ∀ v ∈ List.range 256, (idt v).bytes.length = 8 := fun v _ => rfl
  rw [idtBytes, List.length_flatMap, List.map_congr_left hlen, List.map_const',
    List.sum_replicate, List.length_range]
  rfl

variable {x : X86}

/-- The descriptors are read from the table. -/
theorem descriptor_of_table {bs : List (BitVec 8)} (h : read x.mem x.gdtr.base 24 = bs)
    {s : BitVec 16} (hs : s.toNat < 24) :
    x.descriptor s = Descriptor.decode ((bs.drop (8 * (s.toNat / 8))).take 8) :=
  congrArg Descriptor.decode (read_of_slice h (by omega))

/-- The mark in the table. -/
theorem read_touch {bs : List (BitVec 8)} (h : read x.mem x.gdtr.base 24 = bs) {s : BitVec 16}
    (hs : 4 ≤ s.toNat ∧ s.toNat < 24) (hclear : (x.descriptor s).access.getLsbD 0 = false) :
    read (x.touch s).mem x.gdtr.base 24 =
      bs.set (8 * (s.toNat / 8) + 5) ((x.descriptor s).access ||| 1) := by
  have hmark : ¬ (s.toNat < 4 ∨ (x.descriptor s).access.getLsbD 0 = true) := by
    rw [hclear]
    exact not_or.2 ⟨Nat.not_lt.2 hs.1, Bool.false_ne_true⟩
  rw [touch, if_neg hmark, read_write_byte (by omega) (by decide), h]

/-- A marked descriptor is left alone. -/
theorem touch_eq_self {s : BitVec 16} (h : (x.descriptor s).access.getLsbD 0 = true) :
    x.touch s = x := by
  rw [touch, if_pos (Or.inr h)]

theorem HasGdt.descriptor_code (h : x.HasGdt) :
    x.descriptor 0x08 = ⟨0, 0xFFFFF, 0x9B, 0xC⟩ := by
  have hcode : (gdtLoaded.drop 8).take 8 = (makeEntry 0 0xFFFFF 0x9B 0xCF).bytes := by decide
  rw [descriptor_of_table h.table (by decide)]
  change Descriptor.decode ((gdtLoaded.drop 8).take 8) = _
  rw [hcode, makeEntry_decode]
  decide

theorem HasGdt.descriptor_data (h : x.HasGdt) :
    x.descriptor 0x10 = ⟨0, 0xFFFFF, 0x93, 0xC⟩ := by
  have hdata : (gdtLoaded.drop 16).take 8 = (makeEntry 0 0xFFFFF 0x93 0xCF).bytes := by decide
  rw [descriptor_of_table h.table (by decide)]
  change Descriptor.decode ((gdtLoaded.drop 16).take 8) = _
  rw [hdata, makeEntry_decode]
  decide

theorem HasGdt.touch_code (h : x.HasGdt) : x.touch 0x08 = x := by
  refine touch_eq_self ?_
  rw [h.descriptor_code]
  decide

theorem HasGdt.touch_data (h : x.HasGdt) : x.touch 0x10 = x := by
  refine touch_eq_self ?_
  rw [h.descriptor_data]
  decide

theorem HasGdt.canEnter (h : x.HasGdt) (offset : BitVec 32) : x.CanEnter 0x08 offset := by
  refine ⟨?_, ?_, ?_⟩
  · rw [InGdt, h.limit]
    decide
  · rw [h.descriptor_code]
    decide
  · rw [h.descriptor_code]
    exact Nat.le_of_lt_succ offset.isLt

theorem HasGdt.canLoad (h : x.HasGdt) : x.CanLoad 0x10 := by
  refine Or.inr ⟨?_, ?_, ?_⟩
  · rw [InGdt, h.limit]
    decide
  · rw [h.descriptor_data]
    decide
  · rw [h.descriptor_data]
    decide

/-- Every exception of the IDT is taken at the address that the kernel has set. -/
theorem Booted.gate (h : x.Booted isr) (hv : v < 256) :
    x.gate v = ⟨handlerOf isr v, 0x08, 0x8E⟩ := by
  obtain ⟨idt, hidt⟩ := h.idtTable
  have hentry : ((idtBytes (idtC isr idt)).drop (8 * v)).take 8 = (idtC isr idt v).bytes :=
    slice_flatMap (k := 8) (fun _ => rfl) hv
  rw [X86.gate, read_of_slice hidt (by omega), hentry, idtC_of_lt hv, gateEntry_decode]

/-- `gdt_init` loads both segments, which marks their descriptors. -/
theorem hasGdt_gdtInit (gdt : BitVec 32) : (x.gdtInit gdt).HasGdt := by
  have hwrite : read (x.lgdt gdt).mem gdt 24 = gdtC := read_write (by decide)
  have hcode : (x.lgdt gdt).descriptor 0x08 = ⟨0, 0xFFFFF, 0x9A, 0xC⟩ :=
    (descriptor_of_table hwrite (by decide)).trans (by decide)
  have hfirst : read ((x.lgdt gdt).touch 0x08).mem gdt 24 = gdtC.set 13 0x9B := by
    refine (read_touch hwrite (by decide) (by rw [hcode]; decide)).trans ?_
    rw [hcode]
    decide
  have hdata : ((x.lgdt gdt).touch 0x08).descriptor 0x10 = ⟨0, 0xFFFFF, 0x92, 0xC⟩ :=
    (descriptor_of_table hfirst (by decide)).trans (by decide)
  refine ⟨rfl, (read_touch hfirst (by decide) (by rw [hdata]; decide)).trans ?_⟩
  rw [hdata]
  decide

/-- After `gdt_init` and `idt_init` the tables are loaded, unless they lie over each other. -/
theorem booted_of_init {gdt table : BitVec 32} (hx : x.eflags.getLsbD 17 = false)
    (hapart : ∀ i < 24, 2048 ≤ (gdt + BitVec.ofNat 32 i - table).toNat) :
    ((x.gdtInit gdt).idtInit isr idt table).Booted isr where
  limit := rfl
  table := by
    refine (read_congr fun i hi => ?_).trans (hasGdt_gdtInit (x := x) gdt).table
    refine write_of_le ?_
    rw [length_idtBytes]
    exact hapart i hi
  idtLimit := rfl
  idtTable := by
    refine ⟨idt, ?_⟩
    have hlen : (idtBytes (idtC isr idt)).length = 2048 := length_idtBytes
    refine (congrArg (ByteMemory.read _ _) hlen).symm.trans (read_write ?_)
    rw [hlen]
    decide
  code := rfl
  data := by rintro ⟨⟩ <;> rfl
  notVirtual := by
    change (x.eflags &&& ~~~0x200).getLsbD 17 = false
    rw [BitVec.getLsbD_and, hx, Bool.false_and]

end X86

end TamgaOs
