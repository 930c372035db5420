import TamgaOs.Drivers.UartPrintf
import TamgaOs.Library.Walk

/-!
# Formats that are cut off

The `default` case of `uart_printf` is taken for the terminator, too, and `fmt++` goes past it. This happens
to the formats that end within a conversion specification, and to no others.

## Main definitions

* `HoldsString`: a string and its terminator in a memory.
* `PrintfPhase`, `stm32Phase`, `k64fPhase`: where a format stands after a character.
* `Stm32Printf.StaysInside`, `K64fPrintf.StaysInside`: a call reads its format only.

## Main results

* `printf_stays_inside_iff`: the formats that are read to their end and no further.
* `printf_runs_on`: the format `"%"`.
-/

namespace TamgaOs

/-- The string is in the memory from `p` on, with a terminator after it and none in it. -/
def HoldsString (mem : ℕ → UInt8) : ℕ → List UInt8 → Prop
  | p, [] => mem p = 0
  | p, c :: s => mem p = c ∧ c ≠ 0 ∧ HoldsString mem (p + 1) s

/-- Where a format stands. -/
inductive PrintfPhase
  | text
  /-- In a conversion specification, before its precision. -/
  | spec
  /-- In a precision. -/
  | precision
  deriving DecidableEq

/-- A conversion specification of the STM32 is `%`, the flag and the width, a precision, and a
conversion character. -/
def stm32Phase (φ : PrintfPhase) (c : UInt8) : PrintfPhase :=
  match φ with
  | .text => if c = 0x25 then .spec else .text
  | .spec => if isDigit c then .spec else if c = 0x2E then .precision else .text
  | .precision => if isDigit c then .precision else .text

/-- A conversion specification of the K64F is `%` and a conversion character. -/
def k64fPhase (φ : PrintfPhase) (c : UInt8) : PrintfPhase :=
  match φ with
  | .text => if c = 0x25 then .spec else .text
  | _ => .text

/-! ### A phase for each character -/

/-- A machine goes to the next phase at each character; at a terminator it stops in the phase `text`, and
goes on in the others. -/
structure Scans {σ : Type*} (step : (ℕ → UInt8) → σ → σ) (stopped : σ → Prop) (fmt : σ → ℕ)
    (At : σ → PrintfPhase → Prop) (phase : PrintfPhase → UInt8 → PrintfPhase) (mem : ℕ → UInt8)
    (n : ℕ) : Prop where
  char : ∀ s φ, At s φ → mem (fmt s) ≠ 0 → fmt s ≤ n →
    ∃ s', Walk.Passes (step mem) (fun s => ¬ stopped s ∧ fmt s ≤ n) s s' ∧
      At s' (phase φ (mem (fmt s))) ∧ fmt s' = fmt s + 1
  last : ∀ s, At s .text → mem (fmt s) = 0 → fmt s ≤ n →
    ∃ s', Walk.Passes (step mem) (fun s => ¬ stopped s ∧ fmt s ≤ n) s s' ∧ stopped s'
  past : ∀ s φ, At s φ → φ ≠ .text → mem (fmt s) = 0 → fmt s ≤ n →
    ∃ s', Walk.Passes (step mem) (fun s => ¬ stopped s ∧ fmt s ≤ n) s s' ∧ ¬ stopped s' ∧
      fmt s' = fmt s + 1
  stop : ∀ mem s, stopped s → step mem s = s
  read : ∀ mem mem' s, mem' (fmt s) = mem (fmt s) → step mem' s = step mem s

namespace Scans

variable {σ : Type*} {step : (ℕ → UInt8) → σ → σ} {stopped : σ → Prop} {fmt : σ → ℕ}
  {At : σ → PrintfPhase → Prop} {phase : PrintfPhase → UInt8 → PrintfPhase} {mem : ℕ → UInt8}
  {n : ℕ} {s : σ} {φ : PrintfPhase} {f : List UInt8}

theorem passes_string (h : Scans step stopped fmt At phase mem n) (hat : At s φ)
    (hf : HoldsString mem (fmt s) f) (hn : fmt s + f.length ≤ n) :
    ∃ s', Walk.Passes (step mem) (fun s => ¬ stopped s ∧ fmt s ≤ n) s s' ∧
      At s' (f.foldl phase φ) ∧ fmt s' = fmt s + f.length ∧ mem (fmt s') = 0 := by
  induction f generalizing s φ with
  | nil => exact ⟨s, .refl s, hat, rfl, hf⟩
  | cons c f ih =>
    obtain ⟨hc, hne, hrest⟩ := hf
    rw [List.length_cons] at hn
    obtain ⟨s₁, hpasses, hat₁, hfmt₁⟩ := h.char s φ hat (hc ▸ hne) (by omega)
    rw [hc] at hat₁
    rw [← hfmt₁] at hrest
    obtain ⟨s₂, hpasses₂, hat₂, hfmt₂, hmem₂⟩ := ih hat₁ hrest (by omega)
    exact ⟨s₂, hpasses.trans hpasses₂, hat₂, by rw [hfmt₂, hfmt₁, List.length_cons]; omega, hmem₂⟩

/-- The machine stays within a string if and only if it is in the phase `text` behind it. -/
theorem stays_iff (h : Scans step stopped fmt At phase mem f.length) (hat : At s .text)
    (hstart : fmt s = 0) (hf : HoldsString mem 0 f) :
    Walk.Stays step stopped fmt mem f.length s ↔ f.foldl phase .text = .text := by
  obtain ⟨s₁, hpasses, hat₁, hfmt, hmem⟩ :=
    h.passes_string hat (hstart.symm ▸ hf) (Nat.le_of_eq (by rw [hstart, Nat.zero_add]))
  have hend : fmt s₁ = f.length := by rw [hfmt, hstart, Nat.zero_add]
  have hn : fmt s₁ ≤ f.length := Nat.le_of_eq hend
  constructor
  · intro hstays
    by_contra hcut
    obtain ⟨s₂, hover, hgoes, hpast⟩ := h.past s₁ _ hat₁ hcut hmem hn
    refine (hpasses.trans hover).not_stays hgoes ?_ hstays
    rw [hpast, hend]
    exact Nat.lt_succ_self _
  · intro htext
    rw [htext] at hat₁
    obtain ⟨s₂, hlast, hstopped⟩ := h.last s₁ hat₁ hmem hn
    exact (hpasses.trans hlast).stays h.stop h.read hstopped

end Scans

namespace Stm32Printf

variable {δ : Type*} {printFloat : δ → ℤ → List UInt8} {mem : ℕ → UInt8} {s : Stm32Printf δ}
  {φ : PrintfPhase} {c : UInt8} {n : ℕ} {f : List UInt8}

/-- A call reads its format only, and comes to its end. -/
def StaysInside (printFloat : δ → ℤ → List UInt8) (mem : ℕ → UInt8) (n : ℕ)
    (args : List (PrintfArg δ)) : Prop :=
  Walk.Stays (step printFloat) (fun s => s.ctl = .done) fmt mem n { args := args }

/-- The program point that a phase stands for. -/
def At (s : Stm32Printf δ) : PrintfPhase → Prop
  | .text => s.ctl = .loop
  | .spec => s.ctl = .flag ∨ s.ctl = .width
  | .precision => s.ctl = .decimals

/-- The call has not come to its end, and reads within the format. -/
def Inside (n : ℕ) (s : Stm32Printf δ) : Prop := ¬ s.ctl = .done ∧ s.fmt ≤ n

@[simp] theorem fmt_convert : (s.convert printFloat c).fmt = s.fmt := by
  unfold convert
  split_ifs <;> rfl

/-! ### One character -/

theorem passes_step (hctl : s.ctl ≠ .done) (hn : s.fmt ≤ n) :
    Walk.Passes (step printFloat mem) (Inside n) s (step printFloat mem s) :=
  .head ⟨hctl, hn⟩ (.refl _)

/-- The `switch` ends behind the character that it looks at. -/
theorem passes_convert (hctl : s.ctl = .convert) (hn : s.fmt ≤ n) :
    ∃ s', Walk.Passes (step printFloat mem) (Inside n) s s' ∧ s'.ctl = .loop ∧
      s'.fmt = s.fmt + 1 := by
  have hstep : step printFloat mem s = (s.convert printFloat (mem s.fmt)).next.goto .loop := by
    rw [step, hctl]
  refine ⟨_, passes_step (by rw [hctl]; decide) hn, ?_, ?_⟩
  · rw [hstep]
    rfl
  · rw [hstep]
    exact congrArg (· + 1) fmt_convert

theorem passes_point (hctl : s.ctl = .point) (hn : s.fmt ≤ n) :
    ∃ s', Walk.Passes (step printFloat mem) (Inside n) s s' ∧
      s'.At (if mem s.fmt = 0x2E then .precision else .text) ∧ s'.fmt = s.fmt + 1 := by
  have hstep := @passes_step _ printFloat mem s n (by rw [hctl]; decide) hn
  by_cases hc : mem s.fmt = 0x2E
  · have heq : step printFloat mem s = { s.next with ctl := .decimals, decimals := 0 } := by
      rw [step, hctl]
      exact if_pos hc
    rw [if_pos hc]
    exact ⟨_, hstep, by rw [heq]; rfl, by rw [heq]; rfl⟩
  · have heq : step printFloat mem s = s.goto .convert := by
      rw [step, hctl]
      exact if_neg hc
    rw [heq] at hstep
    obtain ⟨s', hpasses, hloop, hfmt⟩ := @passes_convert _ printFloat mem (s.goto .convert) n rfl hn
    rw [if_neg hc]
    exact ⟨s', hstep.trans hpasses, hloop, hfmt⟩

theorem passes_width (hctl : s.ctl = .width) (hn : s.fmt ≤ n) :
    ∃ s', Walk.Passes (step printFloat mem) (Inside n) s s' ∧
      s'.At (stm32Phase .spec (mem s.fmt)) ∧ s'.fmt = s.fmt + 1 := by
  have hstep := @passes_step _ printFloat mem s n (by rw [hctl]; decide) hn
  rw [stm32Phase]
  by_cases hc : isDigit (mem s.fmt) = true
  · have heq : step printFloat mem s =
        { s.next with width := appendDigit s.width (mem s.fmt) } := by
      rw [step, hctl]
      exact if_pos hc
    rw [if_pos hc]
    exact ⟨_, hstep, Or.inr (by rw [heq]; exact hctl), by rw [heq]; rfl⟩
  · have heq : step printFloat mem s = s.goto .point := by
      rw [step, hctl]
      exact if_neg hc
    rw [heq] at hstep
    obtain ⟨s', hpasses, hat, hfmt⟩ := @passes_point _ printFloat mem (s.goto .point) n rfl hn
    rw [if_neg hc]
    exact ⟨s', hstep.trans hpasses, hat, hfmt⟩

theorem passes_flag (hctl : s.ctl = .flag) (hn : s.fmt ≤ n) :
    ∃ s', Walk.Passes (step printFloat mem) (Inside n) s s' ∧
      s'.At (stm32Phase .spec (mem s.fmt)) ∧ s'.fmt = s.fmt + 1 := by
  have hstep := @passes_step _ printFloat mem s n (by rw [hctl]; decide) hn
  by_cases hc : mem s.fmt = 0x30
  · have heq : step printFloat mem s = { s.next with ctl := .width, padZero := true } := by
      rw [step, hctl]
      exact if_pos hc
    rw [hc]
    exact ⟨_, hstep, Or.inr (by rw [heq]), by rw [heq]; rfl⟩
  · have heq : step printFloat mem s = s.goto .width := by
      rw [step, hctl]
      exact if_neg hc
    rw [heq] at hstep
    obtain ⟨s', hpasses, hat, hfmt⟩ := @passes_width _ printFloat mem (s.goto .width) n rfl hn
    exact ⟨s', hstep.trans hpasses, hat, hfmt⟩

theorem passes_decimals (hctl : s.ctl = .decimals) (hn : s.fmt ≤ n) :
    ∃ s', Walk.Passes (step printFloat mem) (Inside n) s s' ∧
      s'.At (stm32Phase .precision (mem s.fmt)) ∧ s'.fmt = s.fmt + 1 := by
  have hstep := @passes_step _ printFloat mem s n (by rw [hctl]; decide) hn
  rw [stm32Phase]
  by_cases hc : isDigit (mem s.fmt) = true
  · have heq : step printFloat mem s =
        { s.next with decimals := appendDigit s.decimals (mem s.fmt) } := by
      rw [step, hctl]
      exact if_pos hc
    rw [if_pos hc]
    exact ⟨_, hstep, by rw [heq]; exact hctl, by rw [heq]; rfl⟩
  · have heq : step printFloat mem s = s.goto .convert := by
      rw [step, hctl]
      exact if_neg hc
    rw [heq] at hstep
    obtain ⟨s', hpasses, hloop, hfmt⟩ := @passes_convert _ printFloat mem (s.goto .convert) n rfl hn
    rw [if_neg hc]
    exact ⟨s', hstep.trans hpasses, hloop, hfmt⟩

/-- Every character but the terminator is consumed, and takes the call to the next phase. -/
theorem passes_char (hat : s.At φ) (hc : mem s.fmt ≠ 0) (hn : s.fmt ≤ n) :
    ∃ s', Walk.Passes (step printFloat mem) (Inside n) s s' ∧
      s'.At (stm32Phase φ (mem s.fmt)) ∧ s'.fmt = s.fmt + 1 := by
  cases φ with
  | text =>
    have hctl : s.ctl = .loop := hat
    have hstep := @passes_step _ printFloat mem s n (by rw [hctl]; decide) hn
    rw [stm32Phase]
    by_cases hpercent : mem s.fmt = 0x25
    · have heq : step printFloat mem s =
          { s.next with ctl := .flag, padZero := false, width := 0, decimals := 3 } := by
        rw [step, hctl]
        exact (if_neg hc).trans (if_neg (not_not.2 hpercent))
      rw [if_pos hpercent]
      exact ⟨_, hstep, Or.inl (by rw [heq]), by rw [heq]; rfl⟩
    · have heq : step printFloat mem s = (s.send [mem s.fmt]).next := by
        rw [step, hctl]
        exact (if_neg hc).trans (if_pos hpercent)
      rw [if_neg hpercent]
      exact ⟨_, hstep, by rw [heq]; exact hctl, by rw [heq]; rfl⟩
  | spec =>
    rcases hat with hctl | hctl
    · exact passes_flag hctl hn
    · exact passes_width hctl hn
  | precision => exact passes_decimals hat hn

/-- Outside of a specification the terminator ends the call. -/
theorem passes_end (hctl : s.ctl = .loop) (hc : mem s.fmt = 0) (hn : s.fmt ≤ n) :
    ∃ s', Walk.Passes (step printFloat mem) (Inside n) s s' ∧ s'.ctl = .done := by
  have heq : step printFloat mem s = s.goto .done := by
    rw [step, hctl]
    exact if_pos hc
  exact ⟨_, passes_step (by rw [hctl]; decide) hn, by rw [heq]; rfl⟩

/-- Within a specification it is a conversion character like any other one. -/
theorem passes_over (hat : s.At φ) (hφ : φ ≠ .text) (hc : mem s.fmt = 0) (hn : s.fmt ≤ n) :
    ∃ s', Walk.Passes (step printFloat mem) (Inside n) s s' ∧ s'.ctl = .loop ∧
      s'.fmt = s.fmt + 1 := by
  have hnul : stm32Phase .spec 0 = .text := by decide
  cases φ with
  | text => exact absurd rfl hφ
  | spec =>
    rcases hat with hctl | hctl
    · have h := @passes_flag _ printFloat mem s n hctl hn
      rwa [hc] at h
    · have h := @passes_width _ printFloat mem s n hctl hn
      rwa [hc] at h
  | precision =>
    have h := @passes_decimals _ printFloat mem s n hat hn
    rwa [hc] at h

theorem scans : Scans (step printFloat) (fun s => s.ctl = .done) fmt At stm32Phase mem n where
  char _ _ hat hc hn := passes_char hat hc hn
  last _ hat hc hn := passes_end hat hc hn
  past s φ hat hφ hc hn := by
    obtain ⟨s', hpasses, hloop, hfmt⟩ := @passes_over _ printFloat mem s φ n hat hφ hc hn
    exact ⟨s', hpasses, by rw [hloop]; decide, hfmt⟩
  stop mem s hs := by rw [step, hs]
  read mem mem' s hmem := by rw [step, step, hmem]

theorem staysInside_iff {args : List (PrintfArg δ)} (hf : HoldsString mem 0 f) :
    StaysInside printFloat mem f.length args ↔ f.foldl stm32Phase .text = .text :=
  scans.stays_iff rfl rfl hf

end Stm32Printf

namespace K64fPrintf

variable {δ : Type*} {mem : ℕ → UInt8} {s : K64fPrintf δ} {φ : PrintfPhase} {c : UInt8} {n : ℕ}
  {f : List UInt8}

/-- A call reads its format only, and comes to its end. -/
def StaysInside (mem : ℕ → UInt8) (n : ℕ) (args : List (PrintfArg δ)) : Prop :=
  Walk.Stays step (fun s => s.ctl = .done) fmt mem n { args := args }

/-- The program point that a phase stands for. -/
def At (s : K64fPrintf δ) : PrintfPhase → Prop
  | .text => s.ctl = .loop
  | _ => s.ctl = .convert

/-- The call has not come to its end, and reads within the format. -/
def Inside (n : ℕ) (s : K64fPrintf δ) : Prop := ¬ s.ctl = .done ∧ s.fmt ≤ n

theorem passes_step (hctl : s.ctl ≠ .done) (hn : s.fmt ≤ n) :
    Walk.Passes (step mem) (Inside n) s (step mem s) :=
  .head ⟨hctl, hn⟩ (.refl _)

theorem step_convert (hctl : s.ctl = .convert) :
    (step mem s).ctl = .loop ∧ (step mem s).fmt = s.fmt + 1 := by
  rw [step, hctl]
  exact ⟨rfl, rfl⟩

/-- Every character but the terminator is consumed, and takes the call to the next phase. -/
theorem passes_char (hat : s.At φ) (hc : mem s.fmt ≠ 0) (hn : s.fmt ≤ n) :
    ∃ s', Walk.Passes (step mem) (Inside n) s s' ∧ s'.At (k64fPhase φ (mem s.fmt)) ∧
      s'.fmt = s.fmt + 1 := by
  cases φ with
  | text =>
    have hctl : s.ctl = .loop := hat
    have hstep := @passes_step _ mem s n (by rw [hctl]; decide) hn
    rw [k64fPhase]
    by_cases hpercent : mem s.fmt = 0x25
    · have heq : step mem s = { s with ctl := .convert, fmt := s.fmt + 1 } := by
        rw [step, hctl]
        exact (if_neg hc).trans (if_neg (not_not.2 hpercent))
      rw [if_pos hpercent]
      exact ⟨_, hstep, by rw [heq]; rfl, by rw [heq]⟩
    · have heq : step mem s = { s.send (k64fPuts [mem s.fmt]) with fmt := s.fmt + 1 } := by
        rw [step, hctl]
        exact (if_neg hc).trans (if_pos hpercent)
      rw [if_neg hpercent]
      exact ⟨_, hstep, by rw [heq]; exact hctl, by rw [heq]⟩
  | spec => exact ⟨_, passes_step (by rw [hat]; decide) hn, step_convert hat⟩
  | precision => exact ⟨_, passes_step (by rw [hat]; decide) hn, step_convert hat⟩

theorem scans : Scans step (fun s : K64fPrintf δ => s.ctl = .done) fmt At k64fPhase mem n where
  char _ _ hat hc hn := passes_char hat hc hn
  last s hat hc hn := by
    have heq : step mem s = { s with ctl := .done } := by
      rw [step, show s.ctl = .loop from hat]
      exact if_pos hc
    exact ⟨_, passes_step (by rw [show s.ctl = .loop from hat]; decide) hn, by rw [heq]⟩
  past s φ hat hφ hc hn := by
    have hctl : s.ctl = .convert := by
      cases φ with
      | text => exact absurd rfl hφ
      | spec | precision => exact hat
    obtain ⟨hloop, hfmt⟩ := @step_convert _ mem s hctl
    exact ⟨_, passes_step (by rw [hctl]; decide) hn, by rw [hloop]; decide, hfmt⟩
  stop mem s hs := by rw [step, hs]
  read mem mem' s hmem := by rw [step, step, hmem]

theorem staysInside_iff {args : List (PrintfArg δ)} (hf : HoldsString mem 0 f) :
    StaysInside mem f.length args ↔ f.foldl k64fPhase .text = .text :=
  scans.stays_iff rfl rfl hf

end K64fPrintf

/-- A format is read to its terminator and no further unless it ends within a specification. -/
theorem printf_stays_inside_iff {δ : Type*} (printFloat : δ → ℤ → List UInt8) (mem : ℕ → UInt8)
    (f : List UInt8) (args : List (PrintfArg δ)) (hf : HoldsString mem 0 f) :
    (Stm32Printf.StaysInside printFloat mem f.length args ↔
      f.foldl stm32Phase .text = .text) ∧
    (K64fPrintf.StaysInside mem f.length args ↔ f.foldl k64fPhase .text = .text) :=
  ⟨Stm32Printf.staysInside_iff hf, K64fPrintf.staysInside_iff hf⟩

/-- The characters from address 0 on. -/
def memOf (s : List UInt8) (i : ℕ) : UInt8 := s.getD i 0

theorem printf_stays_inside_decimal :
    Stm32Printf.StaysInside (fun x : Empty => x.elim) (memOf [0x25, 0x64]) 2 [.word 7] ∧
      K64fPrintf.StaysInside (δ := Empty) (memOf [0x25, 0x64]) 2 [.word 7] := by
  have hf : HoldsString (memOf [0x25, 0x64]) 0 [0x25, 0x64] :=
    ⟨rfl, by decide, rfl, by decide, rfl⟩
  have h := printf_stays_inside_iff (fun x : Empty => x.elim) _ _ [.word 7] hf
  exact ⟨h.1.2 (by decide), h.2.2 (by decide)⟩

/-- The format `"%"`, and the characters `AB` behind its terminator: both boards send them. -/
theorem printf_runs_on :
    ¬ Stm32Printf.StaysInside (fun x : Empty => x.elim) (memOf [0x25, 0, 0x41, 0x42]) 1 [] ∧
    ((Stm32Printf.step (fun x : Empty => x.elim) (memOf [0x25, 0, 0x41, 0x42]))^[8]
      { args := [] }).out = [0x25, 0, 0x41, 0x42] ∧
    ¬ K64fPrintf.StaysInside (δ := Empty) (memOf [0x25, 0, 0x41, 0x42]) 1 [] ∧
    ((K64fPrintf.step (δ := Empty) (memOf [0x25, 0, 0x41, 0x42]))^[5]
      { args := [] }).out = [0x25, 0, 0x41, 0x42] := by
  have hf : HoldsString (memOf [0x25, 0, 0x41, 0x42]) 0 [0x25] := ⟨rfl, by decide, rfl⟩
  refine ⟨fun h => ?_, by decide, fun h => ?_, by decide⟩
  · exact absurd ((Stm32Printf.staysInside_iff hf).1 h) (by decide)
  · exact absurd ((K64fPrintf.staysInside_iff hf).1 h) (by decide)

end TamgaOs
