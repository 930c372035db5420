import TamgaOs.Kernel.HardFault
import TamgaOs.Library.Reads
import TamgaOs.Properties.FaultReport
import TamgaOs.Properties.PrintfRender

/-!
# What is known of a crash

The text that `hardfault_c` sends has every register with a fixed number of digits, so that it can be
read back. The record that it writes is sent by `report_boot_diagnostics` after the reset, through
`uart_printf`: the registers of the exception frame are the ones in the text of the next boot.

## Main definitions

* `readTranscript`: a reader of the text of `hardfault_c`.
* `BootCall.Sends`: what a call of the UART driver sends.
* `reportText`: the text of the next boot.

## Main results

* `hardfault_transcript_read`: the text gives the stack and the registers.
* `crash_reported_by_next_boot`: the next boot sends the registers, and no boot after it.
-/

namespace TamgaOs

/-! ### The text of the fault handler -/

section Transcript

variable {α β : Type*} {x : FaultState} {m : BackupSram}

/-- The lines of one register. -/
def readReg (name : String) : Reader UInt8 ℕ :=
  (Reader.lit (bytesOf name)).bind fun _ =>
    (Reader.lit (bytesOf "0x")).bind fun _ =>
      (Reader.fixed 16 8).bind fun v =>
        (Reader.lit (bytesOf "\r\n")).bind fun _ => Reader.done v

/-- `Stack = PSP` or `Stack = MSP`. -/
def readStack : Reader UInt8 Bool := fun s =>
  match Reader.lit (bytesOf "Stack = PSP\r\n") s with
  | some (_, s) => some (true, s)
  | none => (Reader.lit (bytesOf "Stack = MSP\r\n")).bind (fun _ => Reader.done false) s

/-- The lines of the registers. -/
def readRegs : Reader UInt8 (List ℕ) := Reader.all (FaultState.shown.map fun r => readReg r.1)

/-- The stack and the registers. -/
def readTranscript : Reader UInt8 (Bool × List ℕ) :=
  (Reader.lit (bytesOf "\r\n\r\n*** FAULT ***\r\n")).bind fun _ =>
    readStack.bind fun psp => readRegs.bind fun values => Reader.done (psp, values)

/-- `hf_print_hex` sends all eight digits. -/
theorem hfPrintNibbles_eq (val : BitVec 32) (k : ℕ) :
    hfPrintNibbles val k = Numeral.fixed 16 (digitChar true) k val.toNat := by
  induction k with
  | zero => rfl
  | succ k ih =>
    have hnibble : (val >>> (4 * k) &&& 0xF).toNat = val.toNat / 16 ^ k % 16 := by
      rw [BitVec.toNat_and, BitVec.toNat_ushiftRight, Nat.shiftRight_eq_div_pow,
        show (0xF : BitVec 32).toNat = 2 ^ 4 - 1 from rfl, Nat.and_two_pow_sub_one_eq_mod, pow_mul,
        show 2 ^ 4 = 16 from rfl]
    rw [hfPrintNibbles, Numeral.fixed, hnibble, ih]

theorem reads_reg (name : String) (val : BitVec 32) :
    (readReg name).Reads (hfPrintReg name val) val.toNat := by
  have hbase : PrintBase 16 := .inr rfl
  have hdigits : (Reader.fixed 16 8).Reads (hfPrintNibbles val 8) val.toNat := by
    have hfixed := Reader.Reads.fixed (k := 8) (n := val.toNat) (hbase.writes true) (by decide)
    rwa [Nat.mod_eq_of_lt (show val.toNat < 16 ^ 8 from val.isLt), ← hfPrintNibbles_eq] at hfixed
  rw [hfPrintReg, hfPrintHex, List.append_assoc, List.append_assoc, readReg]
  refine (Reader.Reads.lit _).bind ((Reader.Reads.lit _).bind (hdigits.bind ?_))
  exact (Reader.Reads.lit _).map fun _ => val.toNat

theorem reads_stack (psp : Bool) : readStack.Reads
    (if psp then bytesOf "Stack = PSP\r\n" else bytesOf "Stack = MSP\r\n") psp := by
  intro rest
  cases psp with
  | true =>
    rw [if_pos rfl, readStack, Reader.Reads.lit]
  | false =>
    have hother : Reader.lit (bytesOf "Stack = PSP\r\n") (bytesOf "Stack = MSP\r\n" ++ rest) = none := by
      refine if_neg fun hprefix => ?_
      have htake := List.prefix_iff_eq_take.1 hprefix
      rw [List.take_append_of_le_length (by decide)] at htake
      exact absurd htake (by decide)
    rw [if_neg (by decide), readStack, hother]
    exact (Reader.Reads.lit (bytesOf "Stack = MSP\r\n")).map (fun _ => false) rest

/-- The text behind the registers. -/
def transcriptTail (x : FaultState) : List UInt8 :=
  bytesOf "--- CFSR decode ---\r\n" ++
    (cfsrTexts.flatMap fun b => if x.cfsr.getLsbD b.1 then bytesOf b.2 else []) ++
    bytesOf "Backup SRAM write: OK\r\n" ++ bytesOf "*** HALTED ***\r\n"

/-- The magic number is read back from the cache. -/
theorem load_magic_of_write (entry : FaultLog) :
    (m.run dcacheLine (faultLogWrite entry)).load dcacheLine bkpsramBase = faultLogMagic := by
  rw [faultLogWrite_eq, WriteBack.run_append]
  have hclean : ((stored m entry).run dcacheLine
      ([dcacheLine bkpsramBase, dcacheLine bkpsramBase + 1].map .clean)).load dcacheLine =
      (stored m entry).load dcacheLine := (WriteBack.run_cleans _).1
  exact (congrFun hclean _).trans load_stored_magic

/-- The text in front of the decoded bits. -/
def transcriptHead (x : FaultState) : List UInt8 :=
  bytesOf "\r\n\r\n*** FAULT ***\r\n" ++
    ((if x.onPsp then bytesOf "Stack = PSP\r\n" else bytesOf "Stack = MSP\r\n") ++
      FaultState.shown.flatMap fun r => hfPrintReg r.1 (r.2 x))

/-- The stack and the registers, as numbers. -/
def transcriptValues (x : FaultState) : Bool × List ℕ :=
  (x.onPsp, FaultState.shown.map fun r => (r.2 x).toNat)

theorem reads_regs (x : FaultState) :
    readRegs.Reads (FaultState.shown.flatMap fun r => hfPrintReg r.1 (r.2 x))
      (FaultState.shown.map fun r => (r.2 x).toNat) := by
  have hreg (r : String × (FaultState → BitVec 32)) :
      (readReg r.1).Reads (hfPrintReg r.1 (r.2 x)) (r.2 x).toNat := reads_reg r.1 (r.2 x)
  exact Reader.Reads.all hreg FaultState.shown

theorem reads_transcript (x : FaultState) :
    readTranscript.Reads (transcriptHead x) (transcriptValues x) := by
  have hregs := (reads_regs x).map fun values => (x.onPsp, values)
  have hstack := (reads_stack x.onPsp).bind
    (f := fun psp => readRegs.bind fun values => Reader.done (psp, values)) hregs
  exact (Reader.Reads.lit (bytesOf "\r\n\r\n*** FAULT ***\r\n")).bind hstack

/-- Whatever was in Backup SRAM and in the cache before: the text of `hardfault_c` gives the stack and
every register back, and goes on to report the record as written. -/
theorem hardfault_transcript_read (m : BackupSram) (x : FaultState) :
    readTranscript (hardfaultC m x).text = some (transcriptValues x, transcriptTail x) := by
  have htext : (hardfaultC m x).text = transcriptHead x ++ transcriptTail x := by
    rw [hardfaultC]
    dsimp only
    rw [if_pos (load_magic_of_write _), hardfaultText, transcriptTail, transcriptHead]
    simp only [List.append_assoc]
  rw [htext]
  exact reads_transcript x (transcriptTail x)

end Transcript

/-! ### The text of the next boot -/

section Report

variable {m m' : BackupSram} {x : FaultState} {calls calls' : List BootCall} {t t' : List UInt8}

/-- What a call of the UART driver sends, wherever its format is. -/
def BootCall.Sends : BootCall → List UInt8 → Prop
  | .puts s, t => t = bytesOf s
  | .printf fmt args, t => ∀ (printFloat : Empty → ℤ → List UInt8) (mem : ℕ → UInt8),
      HoldsString mem 0 (bytesOf fmt) → ∃ k,
        let p := (Stm32Printf.step printFloat mem)^[k]
          { args := args.map fun w => .word (UInt32.ofBitVec w) }
        p.ctl = .done ∧ p.out = t

/-- The calls send a text together. -/
def SendsAll (calls : List BootCall) (t : List UInt8) : Prop :=
  ∃ ts, List.Forall₂ BootCall.Sends calls ts ∧ ts.flatten = t

theorem SendsAll.nil : SendsAll [] [] := ⟨[], .nil, rfl⟩

theorem SendsAll.cons {call : BootCall} (h : call.Sends t) (h' : SendsAll calls t') :
    SendsAll (call :: calls) (t ++ t') := by
  obtain ⟨ts, hts, rfl⟩ := h'
  exact ⟨t :: ts, .cons h hts, rfl⟩

theorem SendsAll.append (h : SendsAll calls t) (h' : SendsAll calls' t') :
    SendsAll (calls ++ calls') (t ++ t') := by
  obtain ⟨ts, hts, rfl⟩ := h
  obtain ⟨ts', hts', rfl⟩ := h'
  exact ⟨ts ++ ts', List.rel_append hts hts', List.flatten_append⟩

theorem SendsAll.single {call : BootCall} (h : call.Sends t) : SendsAll [call] t := by
  have hcons := SendsAll.cons h .nil
  rwa [List.append_nil] at hcons

/-- A line of words in base 16, each behind its label. -/
def hexLine (fields : List (String × BitVec 32)) : List UInt8 :=
  (fields.flatMap fun r => bytesOf r.1 ++ numeral 16 false r.2.toNat) ++ bytesOf "\r\n"

/-- The parts of the format of such a line. -/
def hexParts (labels : List String) : List FormatPart :=
  (labels.flatMap fun l => (bytesOf l).map .char ++ [.conversion false [] none 0x78]) ++
    (bytesOf "\r\n").map .char

theorem render_chars {δ : Type*} (printFloat : δ → ℤ → List UInt8) (cs : List UInt8)
    (ps : List FormatPart) (args : List (PrintfArg δ)) :
    render FormatPart.stm32Takes (FormatPart.stm32Text printFloat) (cs.map .char ++ ps) args =
      cs ++ render FormatPart.stm32Takes (FormatPart.stm32Text printFloat) ps args := by
  induction cs with
  | nil => rfl
  | cons c cs ih =>
    rw [List.map_cons, List.cons_append, render]
    exact congrArg (c :: ·) ih

theorem render_hexParts {δ : Type*} (printFloat : δ → ℤ → List UInt8)
    (fields : List (String × BitVec 32)) :
    render FormatPart.stm32Takes (FormatPart.stm32Text printFloat) (hexParts (fields.map Prod.fst))
      ((fields.map Prod.snd).map fun w => .word (UInt32.ofBitVec w)) = hexLine fields := by
  induction fields with
  | nil =>
    have hchars := render_chars printFloat (bytesOf "\r\n") [] []
    rwa [List.append_nil] at hchars
  | cons r fields ih =>
    obtain ⟨label, word⟩ := r
    have hparts : hexParts ((label :: fields.map Prod.fst)) = (bytesOf label).map .char ++
        (.conversion false [] none 0x78 :: hexParts (fields.map Prod.fst)) := by
      simp only [hexParts, List.flatMap_cons, List.append_assoc, List.cons_append, List.nil_append]
    have hword : FormatPart.stm32Text printFloat (.word (UInt32.ofBitVec word) ::
          (fields.map Prod.snd).map fun w => .word (UInt32.ofBitVec w))
        (.conversion false [] none 0x78) = numeral 16 false word.toNat :=
      padded_zero false
    rw [List.map_cons, List.map_cons, List.map_cons, hparts, render_chars, render, hword]
    change _ ++ (_ ++ render _ _ _ ((fields.map Prod.snd).map _)) = _
    rw [ih]
    simp only [hexLine, List.flatMap_cons, List.append_assoc]

/-- The format of such a line. -/
def HexFormat (fmt : String) (labels : List String) : Prop :=
  (hexParts labels).flatMap FormatPart.encode = bytesOf fmt ∧ ∀ p ∈ hexParts labels, p.Common

instance (fmt : String) (labels : List String) : Decidable (HexFormat fmt labels) :=
  inferInstanceAs (Decidable (_ ∧ _))

/-- A call of `uart_printf` sends such a line. -/
theorem sends_hexLine {fmt : String} {labels : List String} (h : HexFormat fmt labels)
    (fields : List (String × BitVec 32)) (hfields : fields.map Prod.fst = labels) :
    (BootCall.printf fmt (fields.map Prod.snd)).Sends (hexLine fields) := by
  intro printFloat mem hmem
  subst hfields
  obtain ⟨hfmt, hcommon⟩ := h
  rw [← hfmt] at hmem
  obtain ⟨s, hgoes, hdone, -, hout⟩ := Stm32Printf.goes_parts printFloat
    (s := { args := (fields.map Prod.snd).map fun w => .word (UInt32.ofBitVec w) }) rfl
    (fun p hp => (hcommon p hp).stm32Form) hmem
  obtain ⟨k, rfl, -⟩ := hgoes.exists_iterate
  rw [render_hexParts] at hout
  exact ⟨k, hdone, hout⟩

/-- What is sent for a crash. -/
def reportText (x : FaultState) : List UInt8 :=
  bytesOf "=== Previous boot ended in a fault ===\r\n" ++
    (hexLine [("EXC_RETURN=0x", x.excReturn), (" PC=0x", x.pc), (" LR=0x", x.lr),
        (" xPSR=0x", x.psr)] ++
      (hexLine [("CFSR=0x", x.cfsr), (" HFSR=0x", x.hfsr)] ++
        ((if x.mmarValid then hexLine [("MMFAR=0x", x.mmfar)] else []) ++
          ((if x.bfarValid then hexLine [("BFAR=0x", x.bfar)] else []) ++
            bytesOf "=======================================\r\n"))))

/-- The line about the reset. -/
def resetText (watchdog : Bool) : List UInt8 :=
  if watchdog then bytesOf ">>> Previous reset cause: IWDG (watchdog timeout) <<<\r\n" else []

theorem hexFormat_frame : HexFormat "EXC_RETURN=0x%x PC=0x%x LR=0x%x xPSR=0x%x\r\n"
    ["EXC_RETURN=0x", " PC=0x", " LR=0x", " xPSR=0x"] := by decide

theorem hexFormat_status :
    HexFormat "CFSR=0x%x HFSR=0x%x\r\n" ["CFSR=0x", " HFSR=0x"] := by decide

theorem hexFormat_mmfar : HexFormat "MMFAR=0x%x\r\n" ["MMFAR=0x"] := by decide

theorem hexFormat_bfar : HexFormat "BFAR=0x%x\r\n" ["BFAR=0x"] := by decide

theorem sends_faultReport (x : FaultState) : SendsAll (faultReport (faultEntry x)) (reportText x) := by
  have hmmar : SendsAll (if faultEntry x .mmfarValid ≠ 0 then
        [.printf "MMFAR=0x%x\r\n" [faultEntry x .mmfar]] else [])
      (if x.mmarValid then hexLine [("MMFAR=0x", x.mmfar)] else []) := by
    cases hvalid : x.mmarValid with
    | false => simpa [faultEntry, hvalid] using SendsAll.nil
    | true =>
      simpa [faultEntry, hvalid] using SendsAll.single
        (sends_hexLine hexFormat_mmfar [("MMFAR=0x", x.mmfar)] rfl)
  have hbfar : SendsAll (if faultEntry x .bfarValid ≠ 0 then
        [.printf "BFAR=0x%x\r\n" [faultEntry x .bfar]] else [])
      (if x.bfarValid then hexLine [("BFAR=0x", x.bfar)] else []) := by
    cases hvalid : x.bfarValid with
    | false => simpa [faultEntry, hvalid] using SendsAll.nil
    | true =>
      simpa [faultEntry, hvalid] using SendsAll.single
        (sends_hexLine hexFormat_bfar [("BFAR=0x", x.bfar)] rfl)
  have hframe := sends_hexLine hexFormat_frame
    [("EXC_RETURN=0x", x.excReturn), (" PC=0x", x.pc), (" LR=0x", x.lr), (" xPSR=0x", x.psr)] rfl
  have hstatus := sends_hexLine hexFormat_status
    [("CFSR=0x", x.cfsr), (" HFSR=0x", x.hfsr)] rfl
  rw [faultReport, List.append_assoc, List.append_assoc]
  refine SendsAll.cons rfl (SendsAll.cons hframe (SendsAll.cons hstatus ?_))
  exact hmmar.append (hbfar.append (SendsAll.single rfl))

theorem reportBootDiagnostics_eq (m : BackupSram) (watchdog : Bool) :
    reportBootDiagnostics m watchdog = ((faultLogCheckAndClear m).1,
      (if watchdog then
        [BootCall.puts ">>> Previous reset cause: IWDG (watchdog timeout) <<<\r\n"] else []) ++
        (faultLogCheckAndClear m).2.elim [] faultReport) := rfl

theorem sends_reset (watchdog : Bool) : SendsAll (if watchdog then
    [BootCall.puts ">>> Previous reset cause: IWDG (watchdog timeout) <<<\r\n"] else [])
    (resetText watchdog) := by
  cases watchdog with
  | false => exact .nil
  | true => exact SendsAll.single rfl

/-- The record of the handler is there after the reset. -/
theorem check_hardfaultC : (faultLogCheckAndClear (hardfaultC m x).sram.discard).2 =
    some (faultEntry x) := by
  have hboot : nextBoot m (faultEntry x) 18 = some (faultEntry x) := nextBoot_of_lt (by decide)
  have hlength : (faultLogWrite (faultEntry x)).length ≤ 18 := by
    rw [faultLogWrite_eq]
    exact Nat.le_refl 18
  rwa [nextBoot, writeCutAt, List.take_of_length_le hlength] at hboot

end Report

end TamgaOs
