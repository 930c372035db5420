import TamgaOs.Library.ByteMemory
import TamgaOs.Library.Leads
import Mathlib.Data.Nat.Size
import Mathlib.Logic.Function.Basic

/-!
# A part of the Thumb instruction set

The instructions of start-up code. Addresses of devices are told apart from those of memory: what is
loaded from a device may depend on all accesses before, and these are recorded. The carry flag, which
no condition here reads, is left out.

## Main definitions

* `Thumb.State`, `Thumb.Access`: the processor, and the accesses to devices.
* `Thumb.Instr.exec`, `Thumb.step`: one instruction.
* `Thumb.Placed`: where a piece of code is in the program.
* `Thumb.At`, `Thumb.Holds`: the program counter; some registers, the memory and the accesses.

## Main results

* `Thumb.leads_straight`: instructions that do not branch.
* `Thumb.leads_branch`, `Thumb.leads_jump`: branches.
-/

open ByteMemory

namespace Thumb

inductive Reg
  | r0
  | r1
  | r2
  | r3
  | r4
  | r6
  | r7
  | r8
  | r11
  deriving DecidableEq

/-- An access to a device. -/
inductive Access
  | load (a w : BitVec 32)
  | store (a w : BitVec 32)
  | storeHalf (a : BitVec 32) (w : BitVec 16)
  deriving DecidableEq

/-- What a device answers to a load, after the accesses so far, the last one first. -/
abbrev Bus := List Access → BitVec 32 → BitVec 32

/-- The processor without its program counter. -/
structure State where
  reg : Reg → BitVec 32
  negative : Bool
  zero : Bool
  overflow : Bool
  mem : Mem
  log : List Access

/-- The addresses of peripherals, external devices and the system. -/
def IsDevice (a : BitVec 32) : Prop :=
  0x40000000 ≤ a.toNat ∧ a.toNat < 0x60000000 ∨ 0xA0000000 ≤ a.toNat

instance (a : BitVec 32) : Decidable (IsDevice a) :=
  inferInstanceAs (Decidable (_ ∧ _ ∨ _))

inductive Cond
  | eq
  | ge
  | lt
  deriving DecidableEq

inductive Instr
  | ldrLit (d : Reg) (w : BitVec 32)
  | ldr (d n : Reg) (offset : BitVec 32)
  | ldrPost (d n : Reg) (k : BitVec 32)
  | str (d n : Reg) (offset : BitVec 32)
  | strPost (d n : Reg) (k : BitVec 32)
  | strh (d n : Reg)
  | mov (d : Reg) (w : BitVec 32)
  | movReg (d m : Reg)
  | addImm (d n : Reg) (w : BitVec 32)
  | andImm (d n : Reg) (w : BitVec 32)
  | orrImm (d n : Reg) (w : BitVec 32)
  | orr (d n m : Reg)
  | ands (d n m : Reg) (lsr : ℕ)
  | lsl (d n m : Reg)
  | clz (d m : Reg)
  | subs (d n : Reg) (w : BitVec 32)
  | cmp (n m : Reg)
  | tst (n : Reg) (w : BitVec 32)
  | dsb
  | isb
  | b (target : ℕ)
  | bc (c : Cond) (target : ℕ)
  /-- The code ends with a call. -/
  | bl
  deriving DecidableEq

/-- The accesses after the device at `a` has been read `k` times. -/
def polls (bus : Bus) (a : BitVec 32) (log : List Access) : ℕ → List Access
  | 0 => log
  | k + 1 => .load a (bus (polls bus a log k) a) :: polls bus a log k

namespace State

variable (bus : Bus) (s : State)

def set (d : Reg) (w : BitVec 32) : State := { s with reg := Function.update s.reg d w }

def setMem (m : Mem) : State := { s with mem := m }

def addLog (e : Access) : State := { s with log := e :: s.log }

/-- A word is loaded. -/
def load (d : Reg) (a : BitVec 32) : State :=
  if IsDevice a then (s.set d (bus s.log a)).addLog (.load a (bus s.log a))
  else s.set d (ofLe 32 (read s.mem a 4))

/-- A word is stored. -/
def store (a w : BitVec 32) : State :=
  if IsDevice a then s.addLog (.store a w) else s.setMem (write s.mem a (le32 w))

def storeHalf (a : BitVec 32) (w : BitVec 16) : State :=
  if IsDevice a then s.addLog (.storeHalf a w) else s.setMem (write s.mem a (le16 w))

/-- The flags of a result. -/
def test (w : BitVec 32) : State := { s with negative := w.msb, zero := w = 0 }

/-- The flags of a subtraction. -/
def compare (w u : BitVec 32) : State :=
  { s with negative := (w - u).msb, zero := w - u = 0, overflow := BitVec.ssubOverflow w u }

/-- A condition on the flags. -/
def holds : Cond → Bool
  | .eq => s.zero
  | .ge => s.negative == s.overflow
  | .lt => s.negative != s.overflow

section Fields

variable {s : State} {d d' : Reg} {m : Mem} {e : Access} {a w u : BitVec 32} {c : Cond}

@[simp] theorem set_reg : (s.set d w).reg d' = if d' = d then w else s.reg d' :=
  Function.update_apply s.reg d w d'

@[simp] theorem set_mem : (s.set d w).mem = s.mem := rfl

@[simp] theorem set_log : (s.set d w).log = s.log := rfl

@[simp] theorem set_holds : (s.set d w).holds c = s.holds c := by cases c <;> rfl

@[simp] theorem setMem_reg : (s.setMem m).reg = s.reg := rfl

@[simp] theorem setMem_mem : (s.setMem m).mem = m := rfl

@[simp] theorem setMem_log : (s.setMem m).log = s.log := rfl

@[simp] theorem addLog_reg : (s.addLog e).reg = s.reg := rfl

@[simp] theorem addLog_mem : (s.addLog e).mem = s.mem := rfl

@[simp] theorem addLog_log : (s.addLog e).log = e :: s.log := rfl

@[simp] theorem compare_reg : (s.compare w u).reg = s.reg := rfl

@[simp] theorem compare_mem : (s.compare w u).mem = s.mem := rfl

@[simp] theorem compare_log : (s.compare w u).log = s.log := rfl

@[simp] theorem test_reg : (s.test w).reg = s.reg := rfl

@[simp] theorem test_mem : (s.test w).mem = s.mem := rfl

@[simp] theorem test_log : (s.test w).log = s.log := rfl

end Fields

section Accesses

variable {s : State} {bus : Bus} {d : Reg} {a w u : BitVec 32}

theorem load_mem (h : ¬IsDevice a) : s.load bus d a = s.set d (ofLe 32 (read s.mem a 4)) :=
  if_neg h

theorem load_device (h : IsDevice a) :
    s.load bus d a = (s.set d (bus s.log a)).addLog (.load a (bus s.log a)) := if_pos h

theorem store_mem (h : ¬IsDevice a) : s.store a w = s.setMem (write s.mem a (le32 w)) := if_neg h

theorem store_device (h : IsDevice a) : s.store a w = s.addLog (.store a w) := if_pos h

theorem storeHalf_device {w : BitVec 16} (h : IsDevice a) :
    s.storeHalf a w = s.addLog (.storeHalf a w) := if_pos h

end Accesses

section Flags

variable {s : State} {w u : BitVec 32}

/-- Words without a sign are compared as numbers. -/
theorem compare_lt (hw : w.toNat < 2 ^ 31) (hu : u.toNat < 2 ^ 31) :
    (s.compare w u).holds .lt = decide (w.toNat < u.toNat) := by
  have hover : BitVec.ssubOverflow w u = false := by
    have hwi : w.toInt = w.toNat := BitVec.toInt_eq_toNat_of_lt (by omega)
    have hui : u.toInt = u.toNat := BitVec.toInt_eq_toNat_of_lt (by omega)
    simp only [BitVec.ssubOverflow, hwi, hui, Bool.or_eq_false_iff, decide_eq_false_iff_not]
    omega
  have hmsb : (w - u).msb = decide (w.toNat < u.toNat) := by
    rw [BitVec.msb_eq_decide]
    refine decide_eq_decide.2 ?_
    bv_omega
  change ((w - u).msb != BitVec.ssubOverflow w u) = _
  rw [hover, hmsb, Bool.bne_false]

theorem compare_ge (hw : w.toNat < 2 ^ 31) (hu : u.toNat < 2 ^ 31) :
    (s.compare w u).holds .ge = decide (u.toNat ≤ w.toNat) := by
  have hnot : (s.compare w u).holds .ge = !(s.compare w u).holds .lt := by
    simp [holds, bne]
  rw [hnot, compare_lt hw hu, ← decide_not]
  exact decide_eq_decide.2 Nat.not_lt

theorem test_eq : (s.test w).holds .eq = decide (w = 0) := rfl

theorem compare_eq : (s.compare w u).holds .eq = decide (w = u) :=
  decide_eq_decide.2 (by bv_omega)

end Flags

end State

namespace Instr

/-- What an instruction does beside the program counter. -/
def exec (bus : Bus) (s : State) : Instr → State
  | ldrLit d w => s.set d w
  | ldr d n offset => s.load bus d (s.reg n + offset)
  | ldrPost d n k => (s.load bus d (s.reg n)).set n (s.reg n + k)
  | str d n offset => s.store (s.reg n + offset) (s.reg d)
  | strPost d n k => (s.store (s.reg n) (s.reg d)).set n (s.reg n + k)
  | strh d n => s.storeHalf (s.reg n) ((s.reg d).setWidth 16)
  | mov d w => s.set d w
  | movReg d m => s.set d (s.reg m)
  | addImm d n w => s.set d (s.reg n + w)
  | andImm d n w => s.set d (s.reg n &&& w)
  | orrImm d n w => s.set d (s.reg n ||| w)
  | orr d n m => s.set d (s.reg n ||| s.reg m)
  | ands d n m lsr =>
    (s.test (s.reg n &&& (s.reg m >>> lsr))).set d (s.reg n &&& (s.reg m >>> lsr))
  | lsl d n m => s.set d (s.reg n <<< ((s.reg m).toNat % 256))
  | clz d m => s.set d (BitVec.ofNat 32 (32 - (s.reg m).toNat.size))
  | subs d n w => (s.compare (s.reg n) w).set d (s.reg n - w)
  | cmp n m => s.compare (s.reg n) (s.reg m)
  | tst n w => s.test (s.reg n &&& w)
  | dsb | isb | b _ | bc _ _ | bl => s

/-- The next program counter, after an instruction at `pc`. -/
def target (pc : ℕ) (s : State) : Instr → ℕ
  | b l => l
  | bc c l => if s.holds c then l else pc + 1
  | _ => pc + 1

/-- The next instruction is the one behind. -/
def isStraight : Instr → Bool
  | b _ | bc _ _ | bl => false
  | _ => true

variable {pc : ℕ} {s : State} {i : Instr}

theorem target_of_isStraight (h : i.isStraight = true) : i.target pc s = pc + 1 := by
  cases i <;> first | rfl | exact absurd h Bool.false_ne_true

end Instr

/-- One instruction; the program counter comes first. There is no step after the call. -/
def step (bus : Bus) (prog : List Instr) (x : ℕ × State) : Option (ℕ × State) :=
  match prog[x.1]? with
  | none => none
  | some .bl => none
  | some i => some (i.target x.1 x.2, i.exec bus x.2)

/-- The code `is` begins at `base`. -/
def Placed (prog : List Instr) (base : ℕ) (is : List Instr) : Prop :=
  ∀ j i, is[j]? = some i → prog[base + j]? = some i

/-- The effect of several instructions. -/
def block (bus : Bus) (is : List Instr) (s : State) : State :=
  is.foldl (fun s i => i.exec bus s) s

/-- The program counter and a property of the rest. -/
def At (pc : ℕ) (P : State → Prop) (x : ℕ × State) : Prop := x.1 = pc ∧ P x.2

/-- Some registers, the memory and the accesses to devices. -/
structure Holds (regs : List (Reg × BitVec 32)) (m : Mem) (log : List Access) (s : State) :
    Prop where
  regs : ∀ p ∈ regs, s.reg p.1 = p.2
  mem : s.mem = m
  log : s.log = log

variable {bus : Bus} {prog is : List Instr} {base l : ℕ} {i : Instr} {c : Cond} {s : State}
  {P Q : State → Prop}

theorem Holds.reg {regs : List (Reg × BitVec 32)} {m : Mem} {log : List Access} {d : Reg}
    {w : BitVec 32} (h : Holds regs m log s) (j : ℕ) (hj : regs[j]? = some (d, w)) :
    s.reg d = w :=
  h.regs (d, w) (List.mem_of_getElem? hj)

/-- A part of the code. -/
theorem Placed.slice (h : Placed prog base is) (j n : ℕ) :
    Placed prog (base + j) ((is.drop j).take n) := by
  intro k i hk
  have hn : k < n := by
    obtain ⟨hlt, -⟩ := List.getElem?_eq_some_iff.1 hk
    exact Nat.lt_of_lt_of_le hlt (List.length_take_le n _)
  rw [List.getElem?_take_of_lt hn, List.getElem?_drop] at hk
  rw [Nat.add_assoc]
  exact h _ i hk

theorem Placed.tail (h : Placed prog base (i :: is)) : Placed prog (base + 1) is := by
  intro j k hj
  rw [Nat.add_assoc, Nat.add_comm 1 j]
  exact h (j + 1) k hj

theorem step_eq (hcode : Placed prog base [i]) (hbl : i ≠ .bl) :
    step bus prog (base, s) = some (i.target base s, i.exec bus s) := by
  have hi : prog[base]? = some i := hcode 0 i rfl
  unfold step
  rw [hi]
  cases i <;> first | rfl | exact absurd rfl hbl

theorem reach_straight (hcode : Placed prog base is) (his : ∀ i ∈ is, i.isStraight = true) :
    Relation.ReflTransGen (fun x y => step bus prog x = some y) (base, s)
      (base + is.length, block bus is s) := by
  induction is generalizing base s with
  | nil => exact .refl
  | cons i is ih =>
    have hi := his i List.mem_cons_self
    have hfirst : Placed prog base [i] := hcode.slice 0 1
    have hstep : step bus prog (base, s) = some (base + 1, i.exec bus s) := by
      rw [step_eq hfirst, Instr.target_of_isStraight hi]
      rintro rfl
      exact absurd hi Bool.false_ne_true
    have hreach := ih (s := i.exec bus s) hcode.tail fun j hj => his j (List.mem_cons_of_mem i hj)
    have hpc : base + 1 + is.length = base + (i :: is).length := by
      rw [List.length_cons]
      omega
    exact .head hstep (hpc ▸ hreach)

/-- Instructions that do not branch. -/
theorem leads_straight (hcode : Placed prog base is) (his : is.all Instr.isStraight = true)
    (hQ : ∀ s, P s → Q (block bus is s)) :
    Leads (step bus prog) (At base P) (At (base + is.length) Q) := by
  rintro ⟨pc, s⟩ ⟨rfl, hs⟩
  exact ⟨_, reach_straight hcode (List.all_eq_true.1 his), rfl, hQ s hs⟩

/-- A branch whose condition is known. -/
theorem leads_branch {t : Bool} (hcode : Placed prog base [.bc c l])
    (ht : ∀ s, P s → s.holds c = t) :
    Leads (step bus prog) (At base P) (At (if t then l else base + 1) P) := by
  refine Leads.of_step ?_
  rintro ⟨pc, s⟩ ⟨rfl, hs⟩
  refine ⟨_, step_eq hcode Instr.noConfusion, ?_, hs⟩
  change (if s.holds c then l else pc + 1) = _
  rw [ht s hs]

theorem leads_jump (hcode : Placed prog base [.b l]) :
    Leads (step bus prog) (At base P) (At l P) := by
  refine Leads.of_step ?_
  rintro ⟨pc, s⟩ ⟨rfl, hs⟩
  exact ⟨_, step_eq hcode Instr.noConfusion, rfl, hs⟩

end Thumb
