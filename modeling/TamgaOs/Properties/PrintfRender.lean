import TamgaOs.Properties.Numerals
import TamgaOs.Properties.Printf

/-!
# Formatted output is the rendering of the format

A format is a list of characters and conversion specifications. `uart_printf` walks along it and sends
the text of each part in turn, where every conversion takes the next argument. The formats that the
walk stays inside of are the ones that are put together from such parts.

## Main definitions

* `FormatPart`, `FormatPart.encode`: a part, and its characters in the format.
* `FormatPart.Stm32Form`, `FormatPart.K64fForm`: the parts that a board understands.
* `FormatPart.stm32Text`, `FormatPart.k64fText`, `render`: what is sent.

## Main results

* `stm32Printf_renders`, `k64fPrintf_renders`: a call sends the rendering of its format.
* `printf_boards_agree`: the formats that both boards render alike, but for the line ends.
-/

namespace TamgaOs

/-- A part of a format: a character, or a conversion specification with its flag `0`, the digits of
its width and of its precision, and its conversion character. -/
inductive FormatPart
  | char (c : UInt8)
  | conversion (padZero : Bool) (width : List UInt8) (precision : Option (List UInt8)) (c : UInt8)
  deriving DecidableEq

/-- The digits that write a number. -/
def numeral (base : ℕ) (upper : Bool) (n : ℕ) : List UInt8 :=
  if n = 0 then [0x30] else Numeral.digits base (digitChar upper) n

/-- The number that digits stand for. -/
def digitsValue (ds : List UInt8) : ℕ := (Numeral.parse 10 ds).getD 0

/-- A text is filled up in front to a width. -/
def padded (padZero : Bool) (width : ℕ) (t : List UInt8) : List UInt8 :=
  List.replicate (width - t.length) (if padZero then 0x30 else 0x20) ++ t

namespace FormatPart

variable {δ : Type*}

/-- The flag `0`. -/
def flag (padZero : Bool) : List UInt8 := if padZero then [0x30] else []

/-- A precision. -/
def point : Option (List UInt8) → List UInt8
  | none => []
  | some ds => 0x2E :: ds

/-- The characters of a part. -/
def encode : FormatPart → List UInt8
  | char c => [c]
  | conversion padZero width precision c => 0x25 :: (flag padZero ++ (width ++ (point precision ++ [c])))

/-- A conversion specification of the STM32. -/
structure Stm32Spec (padZero : Bool) (width : List UInt8) (precision : Option (List UInt8))
    (c : UInt8) : Prop where
  width_digits : ∀ d ∈ width, isDigit d
  width_head : padZero = false → width.head? ≠ some 0x30
  precision_digits : ∀ d ∈ precision.getD [], isDigit d
  ne_zero : c ≠ 0
  not_digit : isDigit c = false
  not_point : precision = none → c ≠ 0x2E

/-- A part that `uart_printf` of the STM32 reads as one. -/
def Stm32Form : FormatPart → Prop
  | char c => c ≠ 0 ∧ c ≠ 0x25
  | conversion padZero width precision c => Stm32Spec padZero width precision c

/-- A part that `uart_printf` of the K64F reads as one. -/
def K64fForm : FormatPart → Prop
  | char c => c ≠ 0 ∧ c ≠ 0x25
  | conversion padZero width precision c =>
    padZero = false ∧ width = [] ∧ precision = none ∧ c ≠ 0

/-- The width and the precision are numbers of an `int`. -/
def Fits : FormatPart → Prop
  | char _ => True
  | conversion _ width precision _ =>
    digitsValue width < 2 ^ 31 ∧ digitsValue (precision.getD []) < 2 ^ 31

/-- The conversion characters that take an argument. -/
def stm32Takes : FormatPart → Bool
  | char _ => false
  | conversion _ _ _ c => c ∈ [0x64, 0x75, 0x78, 0x58, 0x73, 0x63, 0x66]

def k64fTakes : FormatPart → Bool
  | char _ => false
  | conversion _ _ _ c => c ∈ [0x75, 0x64, 0x78, 0x58, 0x73, 0x63]

/-- What the STM32 sends for a part. The width does not count the sign. -/
def stm32Text (printFloat : δ → ℤ → List UInt8) (args : List (PrintfArg δ)) :
    FormatPart → List UInt8
  | char c => [c]
  | conversion padZero width precision c =>
    let word := PrintfArg.nextWord args
    let padded := padded padZero (digitsValue width)
    if c = 0x64 then
      (splitSign word.toInt32).1 ++ padded (numeral 10 false word.toInt32.toInt.natAbs)
    else if c = 0x75 then padded (numeral 10 false word.toNat)
    else if c = 0x78 then padded (numeral 16 false word.toNat)
    else if c = 0x58 then padded (numeral 16 true word.toNat)
    else if c = 0x73 then PrintfArg.nextStr args
    else if c = 0x63 then [word.toUInt8]
    else if c = 0x66 then
      PrintfArg.nextDouble printFloat (precision.elim 3 fun ds => (digitsValue ds : ℤ)) args
    else if c = 0x25 then [0x25]
    else [0x25, c]

/-- What the K64F sends for a part. -/
def k64fText (args : List (PrintfArg δ)) : FormatPart → List UInt8
  | char c => k64fPuts [c]
  | conversion _ _ _ c =>
    let word := PrintfArg.nextWord args
    if c = 0x75 then numeral 10 false word.toNat
    else if c = 0x64 then
      (splitSign word.toInt32).1 ++ numeral 10 false word.toInt32.toInt.natAbs
    else if c = 0x78 then numeral 16 false word.toNat
    else if c = 0x58 then numeral 16 true word.toNat
    else if c = 0x73 then k64fPuts (PrintfArg.nextStr args)
    else if c = 0x63 then [word.toUInt8]
    else if c = 0x25 then [0x25]
    else [0x25, c]

/-- The arguments that are left behind a part. -/
def rest (takes : FormatPart → Bool) (p : FormatPart) (args : List (PrintfArg δ)) :
    List (PrintfArg δ) :=
  if takes p then args.tail else args

end FormatPart

/-- The parts are sent one after the other, and each one takes its argument. -/
def render {δ : Type*} (takes : FormatPart → Bool)
    (text : List (PrintfArg δ) → FormatPart → List UInt8) :
    List FormatPart → List (PrintfArg δ) → List UInt8
  | [], _ => []
  | p :: ps, args => text args p ++ render takes text ps (p.rest takes args)

/-- The arguments that are left behind a format. -/
def argsLeft {δ : Type*} (takes : FormatPart → Bool) (ps : List FormatPart)
    (args : List (PrintfArg δ)) : List (PrintfArg δ) :=
  ps.foldl (fun args p => p.rest takes args) args

/-! ### Digits -/

section Digits

variable {ds : List UInt8} {base : ℕ}

theorem digitValue_of_isDigit {d : UInt8} (h : isDigit d) :
    Numeral.digitValue d = some (d.toNat - 0x30) ∧ d.toNat - 0x30 < 10 := by
  have hall : ∀ d : Fin 256, isDigit (UInt8.ofNat d) →
      Numeral.digitValue (UInt8.ofNat d) = some ((UInt8.ofNat d).toNat - 0x30) ∧
        (UInt8.ofNat d).toNat - 0x30 < 10 := by decide +kernel
  have hd := hall ⟨d.toNat, d.toNat_lt⟩
  rw [UInt8.ofNat_toNat] at hd
  exact hd h

theorem parseFrom_digits (hds : ∀ d ∈ ds, isDigit d) (a : ℕ) :
    ∃ n, Numeral.parseFrom 10 a ds = some n ∧ a ≤ n := by
  induction ds generalizing a with
  | nil => exact ⟨a, rfl, Nat.le_refl a⟩
  | cons d ds ih =>
    obtain ⟨hvalue, hlt⟩ := digitValue_of_isDigit (hds d List.mem_cons_self)
    obtain ⟨n, hn, hle⟩ := ih (fun e he => hds e (List.mem_cons_of_mem d he))
      (a * 10 + (d.toNat - 0x30))
    refine ⟨n, ?_, by omega⟩
    simp only [Numeral.parseFrom, hvalue, hlt, if_true, hn]

/-- An `int` is filled with digits, and does not overflow. -/
theorem foldl_appendDigit (hds : ∀ d ∈ ds, isDigit d) {a n : ℕ}
    (hn : Numeral.parseFrom 10 a ds = some n) (hlt : n < 2 ^ 31) :
    ds.foldl appendDigit a = n := by
  induction ds generalizing a with
  | nil =>
    cases hn
    rfl
  | cons d ds ih =>
    have hd := hds d List.mem_cons_self
    have hrest := fun e he => hds e (List.mem_cons_of_mem d he)
    obtain ⟨hvalue, hlt'⟩ := digitValue_of_isDigit hd
    simp only [Numeral.parseFrom, hvalue, hlt', if_true] at hn
    obtain ⟨n', hn', hle⟩ := parseFrom_digits hrest (a * 10 + (d.toNat - 0x30))
    obtain rfl := Option.some.inj (hn'.symm.trans hn)
    have hge : 0x30 ≤ d.toNat := by
      have hle : (0x30 : UInt8) ≤ d := by
        rw [isDigit, Bool.and_eq_true, decide_eq_true_eq] at hd
        exact hd.1
      exact UInt8.le_iff_toNat_le.1 hle
    have happend : appendDigit a d = ((a * 10 + (d.toNat - 0x30) : ℕ) : ℤ) := by
      rw [appendDigit, Int.bmod_eq_of_le (by omega) (by omega)]
      omega
    rw [List.foldl_cons, happend]
    exact ih hrest hn

theorem foldl_appendDigit_zero (hds : ∀ d ∈ ds, isDigit d) (hlt : digitsValue ds < 2 ^ 31) :
    ds.foldl appendDigit 0 = digitsValue ds := by
  obtain ⟨n, hn, -⟩ := parseFrom_digits hds 0
  have hvalue : digitsValue ds = n := by
    rw [digitsValue, Numeral.parse, hn]
    rfl
  rw [hvalue] at hlt ⊢
  exact foldl_appendDigit hds hn hlt

/-- `print_uint_padded` sends the numeral, filled up to the width. -/
theorem printUintPadded_eq (hbase : PrintBase base) (n : UInt32) (width : ℕ) (padZero upper : Bool) :
    printUintPadded n base width padZero upper =
      some (padded padZero width (numeral base upper n.toNat)) := by
  have hsub (t : List UInt8) : ((width : ℤ) - t.length).toNat = width - t.length := by omega
  by_cases hn : n = 0
  · subst hn
    change some (List.replicate ((width : ℤ) - ([0x30] : List UInt8).length).toNat _ ++ [0x30]) = _
    rw [hsub]
    rfl
  · have hlen := hbase.length_digits_le n.toNat_lt upper
    have hne : n.toNat ≠ 0 := fun h => hn (UInt32.toNat_inj.1 h)
    have hdigits := @printDigits_eq 31 base upper hbase.one_lt 31 n.toNat .empty (by omega)
      (by change 0 + _ ≤ 31; omega)
    obtain ⟨b, hb, hchars⟩ := Option.map_eq_some_iff.1 hdigits
    rw [DigitBuffer.empty, List.append_nil] at hchars
    rw [printUintPadded, if_neg hn, hb, Option.map_some, hchars, hsub, numeral, if_neg hne, padded]

/-- `uart_put_uint` sends the numeral. -/
theorem uartPutUint_eq (hbase : PrintBase base) (n : UInt32) (upper : Bool) :
    uartPutUint n base upper = some (numeral base upper n.toNat) := by
  by_cases hn : n = 0
  · subst hn
    rfl
  · have hlen := hbase.length_digits_le n.toNat_lt upper
    have hne : n.toNat ≠ 0 := fun h => hn (UInt32.toNat_inj.1 h)
    have hdigits := @putDigits_eq 12 base upper hbase.one_lt 12 n.toNat .empty (by omega)
      (by change 0 + _ ≤ 12; omega)
    rw [uartPutUint, if_neg hn, numeral, if_neg hne]
    simpa only [DigitBuffer.empty, List.append_nil] using hdigits

theorem printIntPadded_eq (n : Int32) (width : ℕ) (padZero : Bool) :
    printIntPadded n width padZero =
      some ((splitSign n).1 ++ padded padZero width (numeral 10 false n.toInt.natAbs)) := by
  rw [printIntPadded, printUintPadded_eq (.inl rfl), toNat_splitSign, Option.map_some]

theorem uartPutInt_eq (n : Int32) :
    uartPutInt n = some ((splitSign n).1 ++ numeral 10 false n.toInt.natAbs) := by
  have heq : uartPutInt n =
      (uartPutUint (splitSign n).2.toUInt32 10 false).map ((splitSign n).1 ++ ·) := by
    rw [uartPutInt, splitSign]
    split_ifs with hneg
    · rfl
    · simp only [List.nil_append, Option.map_id']
  rw [heq, uartPutUint_eq (.inl rfl), toNat_splitSign, Option.map_some]

end Digits

/-! ### Strings in a memory -/

section Strings

variable {mem : ℕ → UInt8} {s t : List UInt8} {p : ℕ}

theorem HoldsString.drop (h : HoldsString mem p (s ++ t)) : HoldsString mem (p + s.length) t := by
  induction s generalizing p with
  | nil => exact h
  | cons c s ih =>
    have hrest := ih h.2.2
    rwa [List.length_cons, Nat.add_comm s.length 1, ← Nat.add_assoc]

/-- The character behind a string is the one that follows, or the terminator. -/
theorem HoldsString.mem_eq (h : HoldsString mem p s) : mem p = s.headD 0 := by
  cases s with
  | nil => exact h
  | cons c s => exact h.1

theorem HoldsString.ne_zero (h : HoldsString mem p s) : 0 ∉ s := by
  induction s generalizing p with
  | nil => exact List.not_mem_nil
  | cons c s ih =>
    rw [List.mem_cons, not_or]
    exact ⟨h.2.1.symm, ih h.2.2⟩

end Strings

/-! ### STM32 -/

namespace Stm32Printf

variable {δ : Type*} {printFloat : δ → ℤ → List UInt8} {mem : ℕ → UInt8} {s : Stm32Printf δ}
  {ds t : List UInt8} {c : UInt8}

/-- The call goes on from one state to another one. -/
def Goes (printFloat : δ → ℤ → List UInt8) (mem : ℕ → UInt8) : Stm32Printf δ → Stm32Printf δ → Prop :=
  Walk.Passes (step printFloat mem) fun s => s.ctl ≠ .done

theorem Goes.of_step {s' : Stm32Printf δ} (hctl : s.ctl ≠ .done) (h : step printFloat mem s = s') :
    Goes printFloat mem s s' := by
  subst h
  exact .head hctl (.refl _)

/-- The digits of the width. -/
theorem goes_width (hctl : s.ctl = .width) (hds : ∀ d ∈ ds, isDigit d)
    (ht : isDigit (t.headD 0) = false) (h : HoldsString mem s.fmt (ds ++ t)) :
    Goes printFloat mem s { s with
      ctl := .point, fmt := s.fmt + ds.length, width := ds.foldl appendDigit s.width } := by
  induction ds generalizing s with
  | nil =>
    refine Goes.of_step (by rw [hctl]; decide) ?_
    rw [step, hctl]
    dsimp only
    rw [h.mem_eq, List.nil_append, ht]
    rfl
  | cons d ds ih =>
    have hd := hds d List.mem_cons_self
    have hstep : step printFloat mem s = { s.next with width := appendDigit s.width d } := by
      rw [step, hctl]
      dsimp only
      rw [h.1, hd]
      rfl
    have hrest := @ih { s.next with width := appendDigit s.width d } hctl
      (fun e he => hds e (List.mem_cons_of_mem d he)) h.2.2
    refine (Goes.of_step (by rw [hctl]; decide) hstep).trans ?_
    rw [List.length_cons, Nat.add_comm ds.length 1, ← Nat.add_assoc]
    exact hrest

/-- The digits of the precision. -/
theorem goes_decimals (hctl : s.ctl = .decimals) (hds : ∀ d ∈ ds, isDigit d)
    (ht : isDigit (t.headD 0) = false) (h : HoldsString mem s.fmt (ds ++ t)) :
    Goes printFloat mem s { s with
      ctl := .convert, fmt := s.fmt + ds.length, decimals := ds.foldl appendDigit s.decimals } := by
  induction ds generalizing s with
  | nil =>
    refine Goes.of_step (by rw [hctl]; decide) ?_
    rw [step, hctl]
    dsimp only
    rw [h.mem_eq, List.nil_append, ht]
    rfl
  | cons d ds ih =>
    have hd := hds d List.mem_cons_self
    have hstep : step printFloat mem s = { s.next with decimals := appendDigit s.decimals d } := by
      rw [step, hctl]
      dsimp only
      rw [h.1, hd]
      rfl
    have hrest := @ih { s.next with decimals := appendDigit s.decimals d } hctl
      (fun e he => hds e (List.mem_cons_of_mem d he)) h.2.2
    refine (Goes.of_step (by rw [hctl]; decide) hstep).trans ?_
    rw [List.length_cons, Nat.add_comm ds.length 1, ← Nat.add_assoc]
    exact hrest

/-- The flag is taken when it is there. -/
theorem goes_flag {padZero : Bool} (hctl : s.ctl = .flag) (hpad : s.padZero = false)
    (ht : padZero = false → t.headD 0 ≠ 0x30)
    (h : HoldsString mem s.fmt (FormatPart.flag padZero ++ t)) :
    Goes printFloat mem s { s with
      ctl := .width, fmt := s.fmt + (FormatPart.flag padZero).length, padZero := padZero } := by
  refine Goes.of_step (by rw [hctl]; decide) ?_
  rw [step, hctl]
  dsimp only
  rw [h.mem_eq]
  cases padZero with
  | true => rfl
  | false =>
    refine (if_neg (ht rfl)).trans ?_
    simp only [goto, hpad, FormatPart.flag, Bool.false_eq_true, if_false, List.length_nil,
      Nat.add_zero]

/-- The precision is read when it is there. -/
theorem goes_point {precision : Option (List UInt8)} (hctl : s.ctl = .point)
    (hds : ∀ d ∈ precision.getD [], isDigit d) (hc : precision = none → c ≠ 0x2E)
    (hdigit : isDigit c = false)
    (h : HoldsString mem s.fmt (FormatPart.point precision ++ c :: t)) :
    Goes printFloat mem s { s with
      ctl := .convert, fmt := s.fmt + (FormatPart.point precision).length
      decimals := precision.elim s.decimals (List.foldl appendDigit 0) } := by
  cases precision with
  | none =>
    refine Goes.of_step (by rw [hctl]; decide) ?_
    rw [step, hctl]
    dsimp only
    rw [h.mem_eq]
    exact if_neg (hc rfl)
  | some ds =>
    have hstep : step printFloat mem s = { s.next with ctl := .decimals, decimals := 0 } := by
      rw [step, hctl]
      dsimp only
      rw [h.mem_eq]
      rfl
    refine (Goes.of_step (by rw [hctl]; decide) hstep).trans ?_
    have hdecimals := @goes_decimals _ printFloat mem
      { s.next with ctl := .decimals, decimals := 0 } ds (c :: t) rfl hds hdigit h.2.2
    rw [FormatPart.point, List.length_cons, Nat.add_comm ds.length 1, ← Nat.add_assoc]
    exact hdecimals

/-- A conversion sends its text, and takes its argument. -/
theorem convert_eq (printFloat : δ → ℤ → List UInt8) (c : UInt8) {padZero : Bool}
    {width : List UInt8} {precision : Option (List UInt8)}
    (hpad : s.padZero = padZero) (hwidth : s.width = digitsValue width)
    (hdecimals : s.decimals = precision.elim 3 fun ds => (digitsValue ds : ℤ)) :
    (s.convert printFloat c).out = s.out ++
        FormatPart.stm32Text printFloat s.args (.conversion padZero width precision c) ∧
      (s.convert printFloat c).args =
        FormatPart.rest FormatPart.stm32Takes (.conversion padZero width precision c) s.args := by
  subst hpad
  simp only [convert, FormatPart.stm32Text, FormatPart.rest, FormatPart.stm32Takes, hwidth, hdecimals,
    printIntPadded_eq, printUintPadded_eq (.inl rfl), printUintPadded_eq (.inr rfl), Option.getD_some]
  split_ifs with hd hu hx hX hs hc hf hp <;> simp_all [convertArg, send]

/-- A conversion specification is read from left to right. -/
theorem goes_spec (printFloat : δ → ℤ → List UInt8) {padZero : Bool} {width : List UInt8}
    {precision : Option (List UInt8)} (hctl : s.ctl = .loop) (hp : FormatPart.Stm32Spec padZero width precision c)
    (h : HoldsString mem s.fmt ((FormatPart.conversion padZero width precision c).encode ++ t)) :
    ∃ k, k + 1 = (FormatPart.conversion padZero width precision c).encode.length ∧
      mem (s.fmt + k) = c ∧
      Goes printFloat mem s
        { ctl := .convert, fmt := s.fmt + k, padZero := padZero
          width := width.foldl appendDigit 0
          decimals := precision.elim 3 (List.foldl appendDigit 0)
          args := s.args, out := s.out } := by
  have hflag : HoldsString mem (s.fmt + 1)
      (FormatPart.flag padZero ++ (width ++ (FormatPart.point precision ++ c :: t))) := by
    have hrest := h.2.2
    rw [List.append_eq] at hrest
    simpa only [List.cons_append, List.append_assoc, List.nil_append] using hrest
  have hpoint := hflag.drop.drop
  have hnopoint : isDigit ((FormatPart.point precision ++ c :: t).headD 0) = false := by
    cases precision with
    | none => exact hp.not_digit
    | some ds => rfl
  have hnoflag : padZero = false →
      (width ++ (FormatPart.point precision ++ c :: t)).headD 0 ≠ 0x30 := by
    intro hpad
    have hhead := hp.width_head hpad
    cases width with
    | nil =>
      intro hzero
      rw [List.nil_append] at hzero
      rw [hzero] at hnopoint
      exact absurd hnopoint (by decide)
    | cons d ds => exact fun hzero => hhead (congrArg some hzero)
  have hpercent : step printFloat mem s =
      { s.next with ctl := .flag, padZero := false, width := 0, decimals := 3 } := by
    rw [step, hctl]
    dsimp only
    rw [h.1]
    rfl
  have hgoes : Goes printFloat mem s _ := Goes.of_step (by rw [hctl]; decide) hpercent
  replace hgoes := hgoes.trans (goes_flag rfl rfl hnoflag hflag)
  replace hgoes := hgoes.trans (goes_width rfl hp.width_digits hnopoint hflag.drop)
  replace hgoes := hgoes.trans
    (goes_point rfl hp.precision_digits hp.not_point hp.not_digit hpoint)
  refine ⟨1 + (FormatPart.flag padZero).length + width.length + (FormatPart.point precision).length,
    ?_, ?_, ?_⟩
  · simp only [FormatPart.encode, List.length_cons, List.length_append, List.length_nil]
    omega
  · have hmem := hpoint.drop.mem_eq
    simpa only [Nat.add_assoc, List.headD_cons] using hmem
  · simp only [Nat.add_assoc, next] at hgoes ⊢
    exact hgoes

/-- One part of the format. -/
theorem goes_part (printFloat : δ → ℤ → List UInt8) {p : FormatPart} (hctl : s.ctl = .loop)
    (hp : p.Stm32Form) (hfits : p.Fits) (h : HoldsString mem s.fmt (p.encode ++ t)) :
    ∃ s', Goes printFloat mem s s' ∧ s'.ctl = .loop ∧ s'.fmt = s.fmt + p.encode.length ∧
      s'.args = p.rest FormatPart.stm32Takes s.args ∧
      s'.out = s.out ++ FormatPart.stm32Text printFloat s.args p := by
  cases p with
  | char c =>
    obtain ⟨hzero, hpercent⟩ := hp
    have hstep : step printFloat mem s = (s.send [c]).next := by
      rw [step, hctl]
      dsimp only
      rw [h.1]
      exact (if_neg hzero).trans (if_pos hpercent)
    exact ⟨_, Goes.of_step (by rw [hctl]; decide) hstep, hctl, rfl, rfl, rfl⟩
  | conversion padZero width precision c =>
    have hp : FormatPart.Stm32Spec padZero width precision c := hp
    obtain ⟨hwidth, hprecision⟩ := hfits
    obtain ⟨k, hk, hmem, hgoes⟩ := goes_spec printFloat hctl hp h
    have hdecimals : precision.elim 3 (List.foldl appendDigit 0) =
        precision.elim 3 fun ds => (digitsValue ds : ℤ) := by
      cases precision with
      | none => rfl
      | some ds => exact foldl_appendDigit_zero hp.precision_digits hprecision
    obtain ⟨hout, hargs⟩ := convert_eq printFloat c
      (s := { ctl := .convert, fmt := s.fmt + k, padZero := padZero
              width := width.foldl appendDigit 0
              decimals := precision.elim 3 (List.foldl appendDigit 0)
              args := s.args, out := s.out })
      rfl (foldl_appendDigit_zero hp.width_digits hwidth) hdecimals
    refine ⟨_, hgoes.trans (Goes.of_step Stm32PrintfCtl.noConfusion rfl), rfl, ?_, ?_, ?_⟩
    · exact (congrArg (· + 1) fmt_convert).trans (by rw [← hk]; rfl)
    · rw [step]
      dsimp only
      rw [hmem]
      exact hargs
    · rw [step]
      dsimp only
      rw [hmem]
      exact hout

/-- The parts are sent one after the other. -/
theorem goes_parts (printFloat : δ → ℤ → List UInt8) {ps : List FormatPart} (hctl : s.ctl = .loop)
    (hps : ∀ p ∈ ps, p.Stm32Form ∧ p.Fits) (h : HoldsString mem s.fmt (ps.flatMap FormatPart.encode)) :
    ∃ s', Goes printFloat mem s s' ∧ s'.ctl = .done ∧
      s'.args = argsLeft FormatPart.stm32Takes ps s.args ∧
      s'.out = s.out ++ render FormatPart.stm32Takes (FormatPart.stm32Text printFloat) ps s.args := by
  induction ps generalizing s with
  | nil =>
    have hstep : step printFloat mem s = s.goto .done := by
      rw [step, hctl]
      exact if_pos h
    exact ⟨_, Goes.of_step (by rw [hctl]; decide) hstep, rfl, rfl, (List.append_nil _).symm⟩
  | cons p ps ih =>
    obtain ⟨hform, hfits⟩ := hps p List.mem_cons_self
    rw [List.flatMap_cons] at h
    obtain ⟨s₁, hgoes₁, hctl₁, hfmt₁, hargs₁, hout₁⟩ :=
      goes_part printFloat hctl hform hfits h
    have hrest := h.drop
    rw [← hfmt₁] at hrest
    obtain ⟨s₂, hgoes₂, hdone, hargs₂, hout₂⟩ :=
      ih hctl₁ (fun q hq => hps q (List.mem_cons_of_mem p hq)) hrest
    refine ⟨s₂, hgoes₁.trans hgoes₂, hdone, ?_, ?_⟩
    · rw [hargs₂, hargs₁]
      rfl
    · rw [hout₂, hout₁, hargs₁, List.append_assoc]
      rfl

end Stm32Printf

/-! ### K64F -/

namespace K64fPrintf

variable {δ : Type*} {mem : ℕ → UInt8} {s : K64fPrintf δ} {t : List UInt8} {c : UInt8}

/-- The call goes on from one state to another one. -/
def Goes (mem : ℕ → UInt8) : K64fPrintf δ → K64fPrintf δ → Prop :=
  Walk.Passes (step mem) fun s => s.ctl ≠ .done

theorem Goes.of_step {s' : K64fPrintf δ} (hctl : s.ctl ≠ .done) (h : step mem s = s') :
    Goes mem s s' := by
  subst h
  exact .head hctl (.refl _)

/-- A conversion sends its text, and takes its argument. -/
theorem convert_eq (padZero : Bool) (width : List UInt8) (precision : Option (List UInt8)) :
    (s.convert c).out =
        s.out ++ FormatPart.k64fText s.args (.conversion padZero width precision c) ∧
      (s.convert c).args =
        FormatPart.rest FormatPart.k64fTakes (.conversion padZero width precision c) s.args := by
  simp only [convert, FormatPart.k64fText, FormatPart.rest, FormatPart.k64fTakes, uartPutInt_eq,
    uartPutUint_eq (.inl rfl), uartPutUint_eq (.inr rfl), Option.getD_some]
  split_ifs with hu hd hx hX hs hc hp <;> simp_all [convertArg, send]

/-- One part of the format. -/
theorem goes_part {p : FormatPart} (hctl : s.ctl = .loop) (hp : p.K64fForm)
    (h : HoldsString mem s.fmt (p.encode ++ t)) :
    ∃ s', Goes mem s s' ∧ s'.ctl = .loop ∧ s'.fmt = s.fmt + p.encode.length ∧
      s'.args = p.rest FormatPart.k64fTakes s.args ∧
      s'.out = s.out ++ FormatPart.k64fText s.args p := by
  cases p with
  | char c =>
    obtain ⟨hzero, hpercent⟩ := hp
    have hstep : step mem s = { s.send (k64fPuts [c]) with fmt := s.fmt + 1 } := by
      rw [step, hctl]
      dsimp only
      rw [h.1]
      exact (if_neg hzero).trans (if_pos hpercent)
    exact ⟨_, Goes.of_step (by rw [hctl]; decide) hstep, hctl, rfl, rfl, rfl⟩
  | conversion padZero width precision c =>
    obtain ⟨rfl, rfl, rfl, hzero⟩ := hp
    have hpercent : step mem s = { s with ctl := .convert, fmt := s.fmt + 1 } := by
      rw [step, hctl]
      dsimp only
      rw [h.1]
      rfl
    have hmem : mem (s.fmt + 1) = c := h.2.2.1
    obtain ⟨hout, hargs⟩ :=
      convert_eq (s := { s with ctl := .convert, fmt := s.fmt + 1 }) (c := c) false [] none
    refine ⟨_, (Goes.of_step (by rw [hctl]; decide) hpercent).trans
      (Goes.of_step K64fPrintfCtl.noConfusion rfl), rfl, rfl, ?_, ?_⟩
    · rw [step]
      dsimp only
      rw [hmem]
      exact hargs
    · rw [step]
      dsimp only
      rw [hmem]
      exact hout

/-- The parts are sent one after the other. -/
theorem goes_parts {ps : List FormatPart} (hctl : s.ctl = .loop) (hps : ∀ p ∈ ps, p.K64fForm)
    (h : HoldsString mem s.fmt (ps.flatMap FormatPart.encode)) :
    ∃ s', Goes mem s s' ∧ s'.ctl = .done ∧ s'.args = argsLeft FormatPart.k64fTakes ps s.args ∧
      s'.out = s.out ++ render FormatPart.k64fTakes FormatPart.k64fText ps s.args := by
  induction ps generalizing s with
  | nil =>
    have hstep : step mem s = { s with ctl := .done } := by
      rw [step, hctl]
      exact if_pos h
    exact ⟨_, Goes.of_step (by rw [hctl]; decide) hstep, rfl, rfl, (List.append_nil _).symm⟩
  | cons p ps ih =>
    rw [List.flatMap_cons] at h
    obtain ⟨s₁, hgoes₁, hctl₁, hfmt₁, hargs₁, hout₁⟩ :=
      goes_part hctl (hps p List.mem_cons_self) h
    have hrest := h.drop
    rw [← hfmt₁] at hrest
    obtain ⟨s₂, hgoes₂, hdone, hargs₂, hout₂⟩ :=
      ih hctl₁ (fun q hq => hps q (List.mem_cons_of_mem p hq)) hrest
    refine ⟨s₂, hgoes₁.trans hgoes₂, hdone, ?_, ?_⟩
    · rw [hargs₂, hargs₁]
      rfl
    · rw [hout₂, hout₁, hargs₁, List.append_assoc]
      rfl

end K64fPrintf

/-! ### The parts of a format -/

section Parts

variable {f : List UInt8} {φ : PrintfPhase} {c : UInt8}

/-- The digits in front of a text. -/
theorem exists_digits (f : List UInt8) :
    ∃ ds t, f = ds ++ t ∧ (∀ d ∈ ds, isDigit d) ∧ isDigit (t.headD 0) = false := by
  induction f with
  | nil => exact ⟨[], [], rfl, fun _ hd => absurd hd List.not_mem_nil, by decide⟩
  | cons c f ih =>
    cases hc : isDigit c with
    | false => exact ⟨[], c :: f, rfl, fun _ hd => absurd hd List.not_mem_nil, hc⟩
    | true =>
      obtain ⟨ds, t, rfl, hds, ht⟩ := ih
      refine ⟨c :: ds, t, rfl, fun d hd => ?_, ht⟩
      rcases List.mem_cons.1 hd with rfl | hd
      · exact hc
      · exact hds d hd

/-- Digits do not end a specification. -/
theorem foldl_stm32Phase_digits {ds : List UInt8} (hds : ∀ d ∈ ds, isDigit d) (hφ : φ ≠ .text) :
    ds.foldl stm32Phase φ = φ := by
  induction ds with
  | nil => rfl
  | cons d ds ih =>
    have hd : stm32Phase φ d = φ := by
      cases φ with
      | text => exact absurd rfl hφ
      | spec | precision => exact if_pos (hds d List.mem_cons_self)
    rw [List.foldl_cons, hd]
    exact ih fun e he => hds e (List.mem_cons_of_mem d he)

/-- Digits are a flag and a width. -/
theorem exists_flag {ds : List UInt8} (hds : ∀ d ∈ ds, isDigit d) :
    ∃ padZero width, ds = FormatPart.flag padZero ++ width ∧ (∀ d ∈ width, isDigit d) ∧
      (padZero = false → width.head? ≠ some 0x30) := by
  by_cases hhead : ds.head? = some 0x30
  · obtain ⟨tail, rfl⟩ := List.head?_eq_some_iff.1 hhead
    exact ⟨true, tail, rfl, fun d hd => hds d (List.mem_cons_of_mem _ hd),
      fun h => absurd h (by decide)⟩
  · exact ⟨false, ds, rfl, hds, fun _ => hhead⟩

/-- What follows `%` in a format that does not end within a specification. -/
theorem exists_spec (hzero : 0 ∉ f) (h : f.foldl stm32Phase .spec = .text) :
    ∃ padZero width precision c t, FormatPart.Stm32Spec padZero width precision c ∧
      f = FormatPart.flag padZero ++ (width ++ (FormatPart.point precision ++ c :: t)) ∧
      t.foldl stm32Phase .text = .text := by
  obtain ⟨ds, t, rfl, hds, ht⟩ := exists_digits f
  obtain ⟨padZero, width, rfl, hwidth, hhead⟩ := exists_flag hds
  rw [List.foldl_append, foldl_stm32Phase_digits hds (by decide)] at h
  cases t with
  | nil => exact absurd h (by decide)
  | cons c t =>
    have hne : c ≠ 0 := fun hc => hzero (List.mem_append_right _ (hc ▸ List.mem_cons_self))
    have hc : isDigit c = false := ht
    rw [List.foldl_cons, stm32Phase, if_neg (by rw [hc]; decide)] at h
    by_cases hpoint : c = 0x2E
    · subst hpoint
      rw [if_pos rfl] at h
      obtain ⟨ps, t, rfl, hps, ht⟩ := exists_digits t
      rw [List.foldl_append, foldl_stm32Phase_digits hps (by decide)] at h
      cases t with
      | nil => exact absurd h (by decide)
      | cons c t =>
        have hc : isDigit c = false := ht
        have hne : c ≠ 0 := fun hc => hzero (List.mem_append_right _
          (List.mem_cons_of_mem _ (List.mem_append_right _ (hc ▸ List.mem_cons_self))))
        rw [List.foldl_cons, stm32Phase, if_neg (by rw [hc]; decide)] at h
        refine ⟨padZero, width, some ps, c, t, ⟨hwidth, hhead, hps, hne, hc, ?_⟩, ?_, h⟩
        · exact fun hnone => absurd hnone (Option.some_ne_none _)
        · simp only [FormatPart.point, List.append_assoc, List.cons_append]
    · rw [if_neg hpoint] at h
      refine ⟨padZero, width, none, c, t, ⟨hwidth, hhead, ?_, hne, hc, fun _ => hpoint⟩, ?_, h⟩
      · exact fun _ hd => absurd hd List.not_mem_nil
      · simp only [FormatPart.point, List.append_assoc, List.nil_append]

/-- A specification ends at its conversion character. -/
theorem foldl_stm32Phase_encode {p : FormatPart} (hp : p.Stm32Form) :
    p.encode.foldl stm32Phase .text = .text := by
  cases p with
  | char c => exact if_neg hp.2
  | conversion padZero width precision c =>
    have hp : FormatPart.Stm32Spec padZero width precision c := hp
    have hflag : ∀ d ∈ FormatPart.flag padZero, isDigit d := by
      cases padZero <;> simp [FormatPart.flag, isDigit]
    rw [FormatPart.encode, List.foldl_cons, List.foldl_append, List.foldl_append,
      show stm32Phase .text 0x25 = .spec from rfl, foldl_stm32Phase_digits hflag (by decide),
      foldl_stm32Phase_digits hp.width_digits (by decide)]
    cases precision with
    | none =>
      change stm32Phase .spec c = .text
      rw [stm32Phase, if_neg (by rw [hp.not_digit]; decide), if_neg (hp.not_point rfl)]
    | some ds =>
      have hds : ∀ d ∈ ds, isDigit d := hp.precision_digits
      rw [FormatPart.point, List.cons_append, List.foldl_cons, List.foldl_append,
        show stm32Phase .spec 0x2E = .precision from rfl, foldl_stm32Phase_digits hds (by decide)]
      exact if_neg (by rw [hp.not_digit]; decide)

/-- The formats of the STM32. -/
theorem stm32_parts_iff (hzero : 0 ∉ f) : f.foldl stm32Phase .text = .text ↔
    ∃ ps : List FormatPart, (∀ p ∈ ps, p.Stm32Form) ∧ ps.flatMap FormatPart.encode = f := by
  constructor
  · intro h
    induction hn : f.length using Nat.strong_induction_on generalizing f with
    | _ n ih =>
      cases f with
      | nil => exact ⟨[], fun _ hp => absurd hp List.not_mem_nil, rfl⟩
      | cons c f =>
        have hne : c ≠ 0 := fun hc => hzero (hc ▸ List.mem_cons_self)
        have hzero' : 0 ∉ f := fun hmem => hzero (List.mem_cons_of_mem c hmem)
        rw [List.length_cons] at hn
        by_cases hc : c = 0x25
        · subst hc
          obtain ⟨padZero, width, precision, c, t, hspec, rfl, ht⟩ := exists_spec hzero' h
          simp only [List.length_append, List.length_cons] at hn
          obtain ⟨ps, hps, rfl⟩ := ih _ (by omega)
            (fun hmem => hzero' (by simp only [List.mem_append, List.mem_cons, hmem, or_true])) ht rfl
          refine ⟨.conversion padZero width precision c :: ps, ?_, ?_⟩
          · exact List.forall_mem_cons.2 ⟨hspec, hps⟩
          · simp only [List.flatMap_cons, FormatPart.encode, List.cons_append, List.append_assoc,
              List.nil_append]
        · rw [List.foldl_cons, stm32Phase, if_neg hc] at h
          obtain ⟨ps, hps, rfl⟩ := ih _ (by omega) hzero' h rfl
          exact ⟨.char c :: ps, List.forall_mem_cons.2 ⟨⟨hne, hc⟩, hps⟩, rfl⟩
  · rintro ⟨ps, hps, rfl⟩
    clear hzero
    induction ps with
    | nil => rfl
    | cons p ps ih =>
      rw [List.flatMap_cons, List.foldl_append, foldl_stm32Phase_encode (hps p List.mem_cons_self)]
      exact ih fun q hq => hps q (List.mem_cons_of_mem p hq)

/-- The formats of the K64F. -/
theorem k64f_parts_iff (hzero : 0 ∉ f) : f.foldl k64fPhase .text = .text ↔
    ∃ ps : List FormatPart, (∀ p ∈ ps, p.K64fForm) ∧ ps.flatMap FormatPart.encode = f := by
  constructor
  · intro h
    induction hn : f.length using Nat.strong_induction_on generalizing f with
    | _ n ih =>
      cases f with
      | nil => exact ⟨[], fun _ hp => absurd hp List.not_mem_nil, rfl⟩
      | cons c f =>
        have hne : c ≠ 0 := fun hc => hzero (hc ▸ List.mem_cons_self)
        have hzero' : 0 ∉ f := fun hmem => hzero (List.mem_cons_of_mem c hmem)
        rw [List.length_cons] at hn
        by_cases hc : c = 0x25
        · subst hc
          cases f with
          | nil => exact absurd h (by decide)
          | cons c t =>
            have hne : c ≠ 0 := fun hc => hzero' (hc ▸ List.mem_cons_self)
            rw [List.length_cons] at hn
            obtain ⟨ps, hps, rfl⟩ := ih _ (by omega)
              (fun hmem => hzero' (List.mem_cons_of_mem c hmem)) h rfl
            exact ⟨.conversion false [] none c :: ps,
              List.forall_mem_cons.2 ⟨⟨rfl, rfl, rfl, hne⟩, hps⟩, rfl⟩
        · rw [List.foldl_cons, k64fPhase, if_neg hc] at h
          obtain ⟨ps, hps, rfl⟩ := ih _ (by omega) hzero' h rfl
          exact ⟨.char c :: ps, List.forall_mem_cons.2 ⟨⟨hne, hc⟩, hps⟩, rfl⟩
  · rintro ⟨ps, hps, rfl⟩
    clear hzero
    induction ps with
    | nil => rfl
    | cons p ps ih =>
      have hp : p.encode.foldl k64fPhase .text = .text := by
        have hform := hps p List.mem_cons_self
        cases p with
        | char c => exact if_neg hform.2
        | conversion padZero width precision c =>
          obtain ⟨rfl, rfl, rfl, -⟩ := hform
          rfl
      rw [List.flatMap_cons, List.foldl_append, hp]
      exact ih fun q hq => hps q (List.mem_cons_of_mem p hq)

end Parts

/-! ### Whole calls -/

section Calls

variable {δ : Type*}

/-- A format that a call stays inside of is put together from parts, and the call sends their texts one
after the other. -/
theorem stm32Printf_renders (printFloat : δ → ℤ → List UInt8) (mem : ℕ → UInt8) (f : List UInt8)
    (args : List (PrintfArg δ)) (hf : HoldsString mem 0 f) :
    (Stm32Printf.StaysInside printFloat mem f.length args ↔
      ∃ ps : List FormatPart, (∀ p ∈ ps, p.Stm32Form) ∧ ps.flatMap FormatPart.encode = f) ∧
    ∀ ps : List FormatPart, (∀ p ∈ ps, p.Stm32Form ∧ p.Fits) → ps.flatMap FormatPart.encode = f →
      ∃ k, ((Stm32Printf.step printFloat mem)^[k] { args := args }).ctl = .done ∧
        ((Stm32Printf.step printFloat mem)^[k] { args := args }).args =
          argsLeft FormatPart.stm32Takes ps args ∧
        ((Stm32Printf.step printFloat mem)^[k] { args := args }).out =
          render FormatPart.stm32Takes (FormatPart.stm32Text printFloat) ps args := by
  refine ⟨(Stm32Printf.staysInside_iff hf).trans (stm32_parts_iff hf.ne_zero), ?_⟩
  rintro ps hps rfl
  obtain ⟨s, hgoes, hdone, hargs, hout⟩ :=
    Stm32Printf.goes_parts printFloat (s := { args := args }) rfl hps hf
  obtain ⟨k, rfl, -⟩ := hgoes.exists_iterate
  exact ⟨k, hdone, hargs, hout⟩

/-- The same for the K64F. -/
theorem k64fPrintf_renders (mem : ℕ → UInt8) (f : List UInt8) (args : List (PrintfArg δ))
    (hf : HoldsString mem 0 f) :
    (K64fPrintf.StaysInside mem f.length args ↔
      ∃ ps : List FormatPart, (∀ p ∈ ps, p.K64fForm) ∧ ps.flatMap FormatPart.encode = f) ∧
    ∀ ps : List FormatPart, (∀ p ∈ ps, p.K64fForm) → ps.flatMap FormatPart.encode = f →
      ∃ k, ((K64fPrintf.step mem)^[k] { args := args }).ctl = .done ∧
        ((K64fPrintf.step mem)^[k] { args := args }).args = argsLeft FormatPart.k64fTakes ps args ∧
        ((K64fPrintf.step mem)^[k] { args := args }).out =
          render FormatPart.k64fTakes FormatPart.k64fText ps args := by
  refine ⟨(K64fPrintf.staysInside_iff hf).trans (k64f_parts_iff hf.ne_zero), ?_⟩
  rintro ps hps rfl
  obtain ⟨s, hgoes, hdone, hargs, hout⟩ := K64fPrintf.goes_parts (s := { args := args }) rfl hps hf
  obtain ⟨k, rfl, -⟩ := hgoes.exists_iterate
  exact ⟨k, hdone, hargs, hout⟩

/-- The loop of `print_float` over the decimals. -/
def printDecimals : ℕ → ℚ → List UInt8
  | 0, _ => []
  | n + 1, frac =>
    let digit := (frac * 10).floor.toNat
    UInt8.ofNat (0x30 + digit) :: printDecimals n (frac * 10 - digit)

/-- `print_float` for numbers whose decimals a `double` holds exactly. -/
def printFloat (f : ℚ) (decimals : ℤ) : List UInt8 :=
  let integer := |f|.floor.toNat
  (if f < 0 then [0x2D] else []) ++ numeral 10 false integer ++
    0x2E :: printDecimals decimals.toNat (|f| - integer)

/-- The format `%05d|%.2f`, the number -7 and the number -2.5. -/
theorem stm32Printf_renders_padded :
    let f := [0x25, 0x30, 0x35, 0x64, 0x7C, 0x25, 0x2E, 0x32, 0x66]
    ∃ k, ((Stm32Printf.step printFloat (memOf f))^[k]
      { args := [.word 0xFFFFFFF9, .double (-5 / 2)] }).out =
        [0x2D, 0x30, 0x30, 0x30, 0x30, 0x37, 0x7C, 0x2D, 0x32, 0x2E, 0x35, 0x30] := by
  intro f
  have hf : HoldsString (memOf f) 0 f := by
    simp only [f, HoldsString]
    decide
  obtain ⟨k, -, -, hout⟩ := (stm32Printf_renders printFloat (memOf f) f
    [.word 0xFFFFFFF9, .double (-5 / 2)] hf).2
    [.conversion true [0x35] none 0x64, .char 0x7C, .conversion false [] (some [0x32]) 0x66]
    (by
      refine List.forall_mem_cons.2 ⟨⟨⟨?_, ?_, ?_, ?_, ?_, ?_⟩, ?_, ?_⟩,
        List.forall_mem_cons.2 ⟨⟨⟨?_, ?_⟩, trivial⟩,
        List.forall_mem_singleton.2 ⟨⟨?_, ?_, ?_, ?_, ?_, ?_⟩, ?_, ?_⟩⟩⟩ <;> decide +kernel)
    rfl
  refine ⟨k, hout.trans ?_⟩
  decide +kernel

/-- The format `%X` and a line feed. -/
theorem k64fPrintf_renders_line :
    ∃ k, ((K64fPrintf.step (memOf [0x25, 0x58, 0x0A]))^[k]
      ({ args := [.word 0xAB] } : K64fPrintf Empty)).out = [0x41, 0x42, 0x0D, 0x0A] := by
  obtain ⟨k, -, -, hout⟩ := (k64fPrintf_renders (memOf [0x25, 0x58, 0x0A]) [0x25, 0x58, 0x0A]
    ([.word 0xAB] : List (PrintfArg Empty)) ⟨rfl, by decide, rfl, by decide, rfl, by decide, rfl⟩).2
    [.conversion false [] none 0x58, .char 0x0A]
    (List.forall_mem_cons.2 ⟨⟨rfl, rfl, rfl, by decide⟩,
      List.forall_mem_singleton.2 ⟨by decide, by decide⟩⟩) rfl
  refine ⟨k, hout.trans ?_⟩
  decide

end Calls

/-! ### Both boards -/

section Boards

variable {δ : Type*} {base n : ℕ} {upper : Bool} {s t : List UInt8}

/-- A part that both boards read alike. -/
def FormatPart.Common : FormatPart → Prop
  | .char c => c ≠ 0 ∧ c ≠ 0x25
  | .conversion padZero width precision c =>
    padZero = false ∧ width = [] ∧ precision = none ∧ c ∈ [0x64, 0x75, 0x78, 0x58, 0x73, 0x25]

instance : DecidablePred FormatPart.Common := fun p =>
  match p with
  | .char _ => inferInstanceAs (Decidable (_ ∧ _))
  | .conversion .. => inferInstanceAs (Decidable (_ ∧ _ ∧ _ ∧ _))

theorem k64fPuts_append : k64fPuts (s ++ t) = k64fPuts s ++ k64fPuts t := List.flatMap_append

/-- A text in one line is sent as it is. -/
theorem k64fPuts_eq_self (h : 0x0A ∉ s) : k64fPuts s = s := by
  induction s with
  | nil => rfl
  | cons c s ih =>
    rw [List.mem_cons, not_or] at h
    change (if c = 0x0A then [0x0D, c] else [c]) ++ k64fPuts s = c :: s
    rw [if_neg (Ne.symm h.1), ih h.2]
    rfl

theorem lineFeed_not_mem_numeral (hbase : PrintBase base) : 0x0A ∉ numeral base upper n := by
  have hdigit : ∀ upper, ∀ d < 16, digitChar upper d ≠ 0x0A := by decide +kernel
  have hle : base ≤ 16 := by rcases hbase with rfl | rfl <;> omega
  rw [numeral]
  split_ifs with hn
  · decide
  · rw [Numeral.digits, List.mem_reverse, List.mem_map]
    rintro ⟨d, hd, heq⟩
    exact hdigit upper d ((Nat.digits_lt_base hbase.one_lt hd).trans_le hle) heq

theorem k64fPuts_numeral (hbase : PrintBase base) :
    k64fPuts (numeral base upper n) = numeral base upper n :=
  k64fPuts_eq_self (lineFeed_not_mem_numeral hbase)

theorem k64fPuts_sign (v : Int32) : k64fPuts (splitSign v).1 = (splitSign v).1 := by
  rw [splitSign]
  split_ifs <;> rfl

theorem padded_zero (padZero : Bool) : padded padZero 0 t = t := by
  rw [padded, Nat.zero_sub]
  rfl

namespace FormatPart

variable {p : FormatPart} {args : List (PrintfArg δ)}

theorem Common.stm32Form (h : p.Common) : p.Stm32Form ∧ p.Fits := by
  cases p with
  | char c => exact ⟨h, trivial⟩
  | conversion padZero width precision c =>
    obtain ⟨rfl, rfl, rfl, hc⟩ := h
    have hchar : ∀ c ∈ ([0x64, 0x75, 0x78, 0x58, 0x73, 0x25] : List UInt8),
        c ≠ 0 ∧ isDigit c = false ∧ c ≠ 0x2E := by decide +kernel
    obtain ⟨hzero, hdigit, hpoint⟩ := hchar c hc
    have hspec : Stm32Spec false [] none c :=
      ⟨fun _ hd => absurd hd List.not_mem_nil, fun _ => by decide,
        fun _ hd => absurd hd List.not_mem_nil, hzero, hdigit, fun _ => hpoint⟩
    exact ⟨hspec, by decide, by decide⟩

theorem Common.k64fForm (h : p.Common) : p.K64fForm := by
  cases p with
  | char c => exact h
  | conversion padZero width precision c =>
    obtain ⟨hpad, hwidth, hprecision, hc⟩ := h
    have hchar : ∀ c ∈ ([0x64, 0x75, 0x78, 0x58, 0x73, 0x25] : List UInt8), c ≠ 0 := by decide +kernel
    exact ⟨hpad, hwidth, hprecision, hchar c hc⟩

theorem Common.takes_eq (h : p.Common) : p.k64fTakes = p.stm32Takes := by
  cases p with
  | char c => rfl
  | conversion padZero width precision c =>
    have hchar : ∀ c ∈ ([0x64, 0x75, 0x78, 0x58, 0x73, 0x25] : List UInt8),
        (decide (c ∈ ([0x75, 0x64, 0x78, 0x58, 0x73, 0x63] : List UInt8))) =
          decide (c ∈ ([0x64, 0x75, 0x78, 0x58, 0x73, 0x63, 0x66] : List UInt8)) := by decide +kernel
    exact hchar c h.2.2.2

/-- The K64F puts a carriage return in front of each line feed. -/
theorem Common.text_eq (printFloat : δ → ℤ → List UInt8) (h : p.Common) :
    k64fText args p = k64fPuts (stm32Text printFloat args p) := by
  cases p with
  | char c => rfl
  | conversion padZero width precision c =>
    obtain ⟨rfl, rfl, rfl, hc⟩ := h
    have hwidth : digitsValue [] = 0 := rfl
    simp only [List.mem_cons, List.not_mem_nil, or_false] at hc
    rcases hc with rfl | rfl | rfl | rfl | rfl | rfl <;>
      simp [k64fText, stm32Text, hwidth, padded_zero, k64fPuts_append, k64fPuts_sign,
        k64fPuts_numeral (.inl rfl), k64fPuts_numeral (.inr rfl), k64fPuts_eq_self]

end FormatPart

theorem render_common (printFloat : δ → ℤ → List UInt8) {ps : List FormatPart}
    (h : ∀ p ∈ ps, p.Common) (args : List (PrintfArg δ)) :
    render FormatPart.k64fTakes FormatPart.k64fText ps args =
        k64fPuts (render FormatPart.stm32Takes (FormatPart.stm32Text printFloat) ps args) ∧
      argsLeft FormatPart.k64fTakes ps args = argsLeft FormatPart.stm32Takes ps args := by
  induction ps generalizing args with
  | nil => exact ⟨rfl, rfl⟩
  | cons p ps ih =>
    have hp := h p List.mem_cons_self
    have hrest : p.rest FormatPart.k64fTakes args = p.rest FormatPart.stm32Takes args := by
      rw [FormatPart.rest, hp.takes_eq]
      rfl
    obtain ⟨hrender, hleft⟩ :=
      ih (fun q hq => h q (List.mem_cons_of_mem p hq)) (p.rest FormatPart.stm32Takes args)
    constructor
    · rw [render, render, k64fPuts_append, hrest, hrender, hp.text_eq printFloat]
    · rw [argsLeft, List.foldl_cons, hrest]
      exact hleft

/-- A format of characters and the conversions `d`, `u`, `x`, `X`, `s` and `%`: both boards send the same
text, but for the carriage returns of the K64F, and take the same arguments. -/
theorem printf_boards_agree (printFloat : δ → ℤ → List UInt8) (mem : ℕ → UInt8)
    (ps : List FormatPart) (args : List (PrintfArg δ)) (hps : ∀ p ∈ ps, p.Common)
    (hf : HoldsString mem 0 (ps.flatMap FormatPart.encode)) :
    ∃ j k, ((Stm32Printf.step printFloat mem)^[j] { args := args }).ctl = .done ∧
      ((K64fPrintf.step mem)^[k] { args := args }).ctl = .done ∧
      ((K64fPrintf.step mem)^[k] { args := args }).args =
        ((Stm32Printf.step printFloat mem)^[j] { args := args }).args ∧
      ((K64fPrintf.step mem)^[k] { args := args }).out =
        k64fPuts ((Stm32Printf.step printFloat mem)^[j] { args := args }).out := by
  obtain ⟨s, hgoes, hdone, hargs, hout⟩ := Stm32Printf.goes_parts printFloat
    (s := { args := args }) rfl (fun p hp => (hps p hp).stm32Form) hf
  obtain ⟨s', hgoes', hdone', hargs', hout'⟩ := K64fPrintf.goes_parts (s := { args := args }) rfl
    (fun p hp => (hps p hp).k64fForm) hf
  obtain ⟨j, rfl, -⟩ := hgoes.exists_iterate
  obtain ⟨k, rfl, -⟩ := hgoes'.exists_iterate
  obtain ⟨hrender, hleft⟩ := render_common printFloat hps args
  refine ⟨j, k, hdone, hdone', ?_, ?_⟩
  · rw [hargs', hargs, hleft]
  · rw [hout', hout]
    exact hrender

/-- The format `%x` and a line feed. -/
theorem printf_boards_agree_line :
    ∃ j k, ((Stm32Printf.step (fun x : Empty => x.elim) (memOf [0x25, 0x78, 0x0A]))^[j]
        { args := [.word 0xAB] }).ctl = .done ∧
      ((K64fPrintf.step (memOf [0x25, 0x78, 0x0A]))^[k]
        ({ args := [.word 0xAB] } : K64fPrintf Empty)).out =
        k64fPuts ((Stm32Printf.step (fun x : Empty => x.elim) (memOf [0x25, 0x78, 0x0A]))^[j]
          { args := [.word 0xAB] }).out := by
  obtain ⟨j, k, hdone, -, -, hout⟩ := printf_boards_agree (fun x : Empty => x.elim)
    (memOf [0x25, 0x78, 0x0A]) [.conversion false [] none 0x78, .char 0x0A] [.word 0xAB]
    (by decide) ⟨rfl, by decide, rfl, by decide, rfl, by decide, rfl⟩
  exact ⟨j, k, hdone, hout⟩

end Boards

end TamgaOs
