import TamgaOs.Drivers.UartPrintf
import TamgaOs.Library.Numeral

/-!
# Printed integers

Each digit loop divides until nothing is left, and every buffer has room for the digits of 32 bits. The
magnitude of the smallest integer is not an `int`: the functions that cast it before they divide print it
correctly, and the loop of `uart_print_num`, which compares signed integers, is not entered for it.

## Main definitions

* `IsIntNumeral`: the numeral of an integer.
* `PrintsInt`, `PrintsUint`: all functions print a value correctly.

## Main results

* `numbers_right_iff`: the integers that all functions print correctly.
* `uartPrintNum_min`: what is printed for the smallest one.
-/

namespace TamgaOs

/-- The numeral of an integer: the sign of a negative one, and the numeral of its magnitude. -/
def IsIntNumeral (v : ℤ) (s : List UInt8) : Prop :=
  if v < 0 then ∃ t, s = 0x2D :: t ∧ Numeral.Is 10 v.natAbs t else Numeral.Is 10 v.natAbs s

/-- A base that is printed in. -/
def PrintBase (base : ℕ) : Prop := base = 10 ∨ base = 16

section Digits

variable {size base n i : ℕ} {upper : Bool}

theorem PrintBase.writes (h : PrintBase base) (upper : Bool) :
    Numeral.Writes base (digitChar upper) := by
  have hvalue : ∀ upper, ∀ d < 16, Numeral.digitValue (digitChar upper d) = some d := by decide
  have hzero : ∀ upper, ∀ d < 16, digitChar upper d = 0x30 → d = 0 := by decide
  have hle : base ≤ 16 := by rcases h with rfl | rfl <;> omega
  exact ⟨fun d hd => hvalue upper d (hd.trans_le hle), fun d hd => hzero upper d (hd.trans_le hle)⟩

theorem PrintBase.one_lt (h : PrintBase base) : 1 < base := by
  rcases h with rfl | rfl <;> omega

/-- The digits of a number of 32 bits. -/
theorem PrintBase.length_digits_le (h : PrintBase base) (hn : n < 2 ^ 32) (upper : Bool) :
    (Numeral.digits base (digitChar upper) n).length ≤ 10 := by
  rw [Numeral.digits, List.length_reverse, List.length_map, Nat.digits_length_le_iff h.one_lt]
  rcases h with rfl | rfl <;> omega

/-- The last digit is written first. -/
theorem digits_of_pos (hb : 1 < base) (hn : n ≠ 0) (s : List UInt8) :
    Numeral.digits base (digitChar upper) n ++ s =
      Numeral.digits base (digitChar upper) (n / base) ++ digitChar upper (n % base) :: s := by
  rw [Numeral.digits, Nat.digits_def' hb (Nat.pos_of_ne_zero hn), List.map_cons, List.reverse_cons,
    List.append_assoc]
  rfl

theorem length_digits_of_pos (hb : 1 < base) (hn : n ≠ 0) :
    (Numeral.digits base (digitChar upper) n).length =
      (Numeral.digits base (digitChar upper) (n / base)).length + 1 := by
  have h : Numeral.digits base (digitChar upper) n ++ [] = _ := digits_of_pos hb hn []
  simpa using congrArg List.length h

/-- There is room for one more digit. -/
theorem DigitBuffer.push_eq {b : DigitBuffer size} (c : UInt8) (h : b.chars.length < size) :
    b.push c = some ⟨c :: b.chars, h⟩ := dif_pos h

/-- One pass of a digit loop, and what the rest of the loop writes in front of it. -/
theorem push_digit {b : DigitBuffer size} {rest : DigitBuffer size → Option (DigitBuffer size)}
    (hb : 1 < base) (hn : n ≠ 0)
    (hroom : b.chars.length + (Numeral.digits base (digitChar upper) n).length ≤ size)
    (hrest : ∀ b' : DigitBuffer size,
      b'.chars.length + (Numeral.digits base (digitChar upper) (n / base)).length ≤ size →
      (rest b').map DigitBuffer.chars =
        some (Numeral.digits base (digitChar upper) (n / base) ++ b'.chars)) :
    ((b.push (digitChar upper (n % base))).bind rest).map DigitBuffer.chars =
      some (Numeral.digits base (digitChar upper) n ++ b.chars) := by
  rw [length_digits_of_pos hb hn] at hroom
  rw [DigitBuffer.push_eq _ (by omega), Option.bind_some,
    hrest _ (by rw [List.length_cons]; omega), digits_of_pos hb hn]

theorem printDigits_eq (hb : 1 < base) : ∀ i n (b : DigitBuffer size),
    (Numeral.digits base (digitChar upper) n).length ≤ i →
    b.chars.length + (Numeral.digits base (digitChar upper) n).length ≤ size →
    (printDigits base upper i n b).map DigitBuffer.chars =
      some (Numeral.digits base (digitChar upper) n ++ b.chars) := by
  intro i
  induction i with
  | zero =>
    intro n b hlen _
    rw [List.length_eq_zero_iff.1 (Nat.le_zero.1 hlen)]
    rfl
  | succ i ih =>
    intro n b hlen hroom
    rw [printDigits]
    by_cases hn : n = 0
    · subst hn
      rw [if_pos rfl, Numeral.digits, Nat.digits_zero]
      rfl
    · rw [length_digits_of_pos hb hn] at hlen
      rw [if_neg hn]
      exact push_digit hb hn hroom fun b' hroom' => ih _ b' (Nat.le_of_succ_le_succ hlen) hroom'

theorem putDigits_eq (hb : 1 < base) : ∀ room n (b : DigitBuffer size),
    (Numeral.digits base (digitChar upper) n).length ≤ room →
    b.chars.length + (Numeral.digits base (digitChar upper) n).length ≤ size →
    (putDigits base upper room n b).map DigitBuffer.chars =
      some (Numeral.digits base (digitChar upper) n ++ b.chars) := by
  intro room
  induction room with
  | zero =>
    intro n b hlen _
    have hdigits := List.length_eq_zero_iff.1 (Nat.le_zero.1 hlen)
    have hn : n = 0 := by
      by_contra hne
      rw [length_digits_of_pos hb hne] at hlen
      omega
    rw [hdigits, putDigits, if_pos hn]
    rfl
  | succ room ih =>
    intro n b hlen hroom
    rw [putDigits]
    by_cases hn : n = 0
    · subst hn
      rw [if_pos rfl, Numeral.digits, Nat.digits_zero]
      rfl
    · rw [length_digits_of_pos hb hn] at hlen
      rw [if_neg hn]
      exact push_digit hb hn hroom fun b' hroom' => ih _ b' (Nat.le_of_succ_le_succ hlen) hroom'

end Digits

/-! ### Words -/

section Words

variable {base : ℕ}

/-- `print_uint_padded` sends the padding and the numeral. -/
theorem printUintPadded_spec (hbase : PrintBase base) (n : UInt32) (width : ℤ) (padZero upper : Bool) :
    ∃ t, printUintPadded n base width padZero upper =
        some (List.replicate (width - t.length).toNat (if padZero then 0x30 else 0x20) ++ t) ∧
      Numeral.Is base n.toNat t := by
  by_cases hn : n = 0
  · subst hn
    exact ⟨[0x30], rfl, Numeral.is_zero (by have := hbase.one_lt; omega)⟩
  · have hlen := hbase.length_digits_le n.toNat_lt upper
    have hne : n.toNat ≠ 0 := fun h => hn (UInt32.toNat_inj.1 h)
    have hdigits := @printDigits_eq 31 base upper hbase.one_lt 31 n.toNat .empty (by omega)
      (by change 0 + _ ≤ 31; omega)
    obtain ⟨b, hb, hchars⟩ := Option.map_eq_some_iff.1 hdigits
    refine ⟨_, ?_, Numeral.is_digits (hbase.writes upper) hbase.one_lt hne⟩
    rw [printUintPadded, if_neg hn, hb, Option.map_some, hchars]
    simp only [DigitBuffer.empty, List.append_nil]

/-- `uart_put_uint` sends the numeral. -/
theorem uartPutUint_spec (hbase : PrintBase base) (n : UInt32) (upper : Bool) :
    ∃ t, uartPutUint n base upper = some t ∧ Numeral.Is base n.toNat t := by
  by_cases hn : n = 0
  · subst hn
    exact ⟨[0x30], rfl, Numeral.is_zero (by have := hbase.one_lt; omega)⟩
  · have hlen := hbase.length_digits_le n.toNat_lt upper
    have hne : n.toNat ≠ 0 := fun h => hn (UInt32.toNat_inj.1 h)
    have hdigits := @putDigits_eq 12 base upper hbase.one_lt 12 n.toNat .empty (by omega)
      (by change 0 + _ ≤ 12; omega)
    refine ⟨_, ?_, Numeral.is_digits (hbase.writes upper) hbase.one_lt hne⟩
    rw [uartPutUint, if_neg hn]
    simpa only [DigitBuffer.empty, List.append_nil] using hdigits

end Words

/-! ### Integers -/

section Integers

variable {n : Int32}

theorem toNat_toUInt32 (n : Int32) : (n.toUInt32.toNat : ℤ) = n.toInt % 2 ^ 32 := by
  have hlt := n.toBitVec.isLt
  have hint : n.toInt = if 2 * n.toBitVec.toNat < 2 ^ 32 then (n.toBitVec.toNat : ℤ)
      else n.toBitVec.toNat - (2 ^ 32 : ℕ) := BitVec.toInt_eq_toNat_cond n.toBitVec
  change (n.toBitVec.toNat : ℤ) = n.toInt % 2 ^ 32
  rw [hint]
  split_ifs <;> omega

theorem int32_lt_zero : n < 0 ↔ n.toInt < 0 := Int32.lt_iff_toInt_lt

/-- The negation of the smallest integer is that integer itself. -/
theorem toInt_neg (n : Int32) : (-n).toInt = if n.toInt = -2 ^ 31 then -2 ^ 31 else -n.toInt := by
  have hlo := n.le_toInt
  have hhi := n.toInt_lt
  rw [Int32.toInt_neg]
  split_ifs with hmin
  · rw [hmin]
    decide
  · exact Int.bmod_eq_of_le (by omega) (by omega)

/-- The magnitude is right for the smallest integer, too, once it is a word. -/
theorem toNat_splitSign (n : Int32) : (splitSign n).2.toUInt32.toNat = n.toInt.natAbs := by
  have hlo := n.le_toInt
  have hhi := n.toInt_lt
  rw [splitSign]
  by_cases hneg : n < 0
  · have hword := toNat_toUInt32 (-n)
    rw [toInt_neg] at hword
    rw [if_pos hneg]
    rw [int32_lt_zero] at hneg
    change (-n).toUInt32.toNat = _
    split_ifs at hword <;> omega
  · have hword := toNat_toUInt32 n
    rw [if_neg hneg]
    rw [int32_lt_zero] at hneg
    change n.toUInt32.toNat = _
    omega

/-- The sign and the numeral of the magnitude. -/
theorem isIntNumeral_append {t : List UInt8} (h : Numeral.Is 10 n.toInt.natAbs t) :
    IsIntNumeral n.toInt ((splitSign n).1 ++ t) := by
  rw [IsIntNumeral, splitSign]
  by_cases hneg : n < 0
  · rw [if_pos (int32_lt_zero.1 hneg), if_pos hneg]
    exact ⟨t, rfl, h⟩
  · rw [if_neg (mt int32_lt_zero.2 hneg), if_neg hneg]
    exact h

theorem printIntPadded_spec (n : Int32) :
    ∃ s, printIntPadded n 0 false = some s ∧ IsIntNumeral n.toInt s := by
  obtain ⟨t, htext, hnumeral⟩ := printUintPadded_spec (.inl rfl) (splitSign n).2.toUInt32 0 false false
  rw [toNat_splitSign] at hnumeral
  have hpad : (0 - (t.length : ℤ)).toNat = 0 := by omega
  rw [hpad, List.replicate_zero, List.nil_append] at htext
  exact ⟨_, by rw [printIntPadded, htext]; rfl, isIntNumeral_append hnumeral⟩

theorem uartPutInt_spec (n : Int32) : ∃ s, uartPutInt n = some s ∧ IsIntNumeral n.toInt s := by
  have heq : uartPutInt n =
      (uartPutUint (splitSign n).2.toUInt32 10 false).map ((splitSign n).1 ++ ·) := by
    rw [uartPutInt, splitSign]
    split_ifs with hneg
    · rfl
    · simp only [List.nil_append, Option.map_id']
  obtain ⟨t, htext, hnumeral⟩ := uartPutUint_spec (.inl rfl) (splitSign n).2.toUInt32 false
  rw [toNat_splitSign] at hnumeral
  exact ⟨_, by rw [heq, htext]; rfl, isIntNumeral_append hnumeral⟩

theorem toInt_splitSign (hmin : n.toInt ≠ -2 ^ 31) : (splitSign n).2.toInt = n.toInt.natAbs := by
  rw [splitSign]
  by_cases hneg : n < 0
  · rw [if_pos hneg]
    change (-n).toInt = _
    rw [int32_lt_zero] at hneg
    rw [toInt_neg, if_neg hmin]
    omega
  · rw [if_neg hneg]
    rw [int32_lt_zero] at hneg
    change n.toInt = _
    omega

/-- The loop of `uart_print_num` compares signed integers. -/
theorem uartPrintNum_spec (hmin : n.toInt ≠ -2 ^ 31) :
    ∃ s, uartPrintNum n = some s ∧ IsIntNumeral n.toInt s := by
  have hmag := toInt_splitSign hmin
  have hlo := n.le_toInt
  have hhi := n.toInt_lt
  rw [uartPrintNum]
  by_cases hzero : (splitSign n).2 = 0
  · rw [hzero] at hmag
    have hn : n.toInt.natAbs = 0 := by
      change (0 : ℤ) = _ at hmag
      omega
    refine ⟨_, if_pos hzero, isIntNumeral_append ?_⟩
    rw [hn]
    exact Numeral.is_zero (by omega)
  · have hne : n.toInt.natAbs ≠ 0 := fun h => hzero (Int32.toInt_inj.1 (by rw [hmag, h]; rfl))
    have hbase : PrintBase 10 := .inl rfl
    have hlen := hbase.length_digits_le (show n.toInt.natAbs < 2 ^ 32 by omega) false
    have hdigits := @printDigits_eq 11 10 false hbase.one_lt 11 n.toInt.natAbs .empty (by omega)
      (by change 0 + _ ≤ 11; omega)
    obtain ⟨b, hb, hchars⟩ := Option.map_eq_some_iff.1 hdigits
    have hnat : (splitSign n).2.toInt.toNat = n.toInt.natAbs := by rw [hmag]; rfl
    refine ⟨(splitSign n).1 ++ b.chars, ?_, isIntNumeral_append ?_⟩
    · rw [if_neg hzero, hnat, hb, Option.map_some]
    · rw [hchars, DigitBuffer.empty, List.append_nil]
      exact Numeral.is_digits (hbase.writes false) hbase.one_lt hne

/-- The smallest integer is printed as its sign. -/
theorem uartPrintNum_min (hmin : n.toInt = -2 ^ 31) : uartPrintNum n = some [0x2D] := by
  obtain rfl : n = -2147483648 := Int32.toInt_inj.1 hmin
  decide

end Integers

/-! ### All functions -/

/-- The format `%d`. -/
def percentD : ℕ → UInt8
  | 0 => 0x25
  | 1 => 0x64
  | _ => 0

/-- Every function that prints an integer sends its numeral. -/
structure PrintsInt (n : Int32) : Prop where
  printNum : ∃ s, uartPrintNum n = some s ∧ IsIntNumeral n.toInt s
  printInt : ∃ s, printInt n = some s ∧ IsIntNumeral n.toInt s
  putInt : ∃ s, uartPutInt n = some s ∧ IsIntNumeral n.toInt s
  stm32Printf : ∀ {δ : Type} (printFloat : δ → ℤ → List UInt8), ∃ k,
    let p := (Stm32Printf.step printFloat percentD)^[k] { args := [.word n.toUInt32] }
    p.ctl = .done ∧ IsIntNumeral n.toInt p.out
  k64fPrintf : ∀ {δ : Type}, ∃ k,
    let p := (K64fPrintf.step percentD)^[k] ({ args := [.word n.toUInt32] } : K64fPrintf δ)
    p.ctl = .done ∧ IsIntNumeral n.toInt p.out

/-- Every function that prints a word sends its numeral, after the padding. -/
def PrintsUint (n : UInt32) : Prop := ∀ base, PrintBase base → ∀ upper,
  (∀ width padZero, ∃ t, printUintPadded n base width padZero upper =
      some (List.replicate (width - t.length).toNat (if padZero then 0x30 else 0x20) ++ t) ∧
    Numeral.Is base n.toNat t) ∧
  ∃ t, uartPutUint n base upper = some t ∧ Numeral.Is base n.toNat t

theorem printsUint (n : UInt32) : PrintsUint n := fun _ hbase upper =>
  ⟨fun width padZero => printUintPadded_spec hbase n width padZero upper,
    uartPutUint_spec hbase n upper⟩

theorem stm32_percentD {δ : Type} (printFloat : δ → ℤ → List UInt8) (n : Int32) :
    (Stm32Printf.step printFloat percentD)^[7] { args := [.word n.toUInt32] } =
      { ctl := .done, fmt := 2, args := [], out := (printIntPadded n 0 false).getD [] } := by
  have hspec : (Stm32Printf.step printFloat percentD)^[4] { args := [.word n.toUInt32] } =
      { ctl := .convert, fmt := 1, args := [.word n.toUInt32] } := rfl
  have hconvert : Stm32Printf.step printFloat percentD
      { ctl := .convert, fmt := 1, args := [.word n.toUInt32] } =
      { ctl := .loop, fmt := 2, args := [], out := (printIntPadded n 0 false).getD [] } := by
    rw [Stm32Printf.step, Stm32Printf.convert]
    exact if_pos rfl ▸ rfl
  have hend (out : List UInt8) : (Stm32Printf.step printFloat percentD)^[2]
      { ctl := .loop, fmt := 2, args := [], out := out } =
      { ctl := .done, fmt := 2, args := [], out := out } := rfl
  rw [show 7 = 2 + (1 + 4) from rfl, Function.iterate_add_apply, Function.iterate_add_apply, hspec,
    Function.iterate_one, hconvert, hend]

theorem k64f_percentD {δ : Type} (n : Int32) :
    (K64fPrintf.step percentD)^[4] ({ args := [.word n.toUInt32] } : K64fPrintf δ) =
      { ctl := .done, fmt := 2, args := [], out := (uartPutInt n).getD [] } := rfl

theorem printsInt_iff (n : Int32) : PrintsInt n ↔ n.toInt ≠ -2 ^ 31 := by
  constructor
  · intro h hmin
    obtain ⟨s, hs, hnumeral⟩ := h.printNum
    obtain rfl := Option.some.inj ((uartPrintNum_min hmin).symm.trans hs)
    rw [IsIntNumeral, if_pos (by omega)] at hnumeral
    obtain ⟨t, ht, hdigits⟩ := hnumeral
    exact hdigits.ne_nil (List.cons.inj ht).2.symm
  · intro hmin
    obtain ⟨s, hs, hnumeral⟩ := printIntPadded_spec n
    obtain ⟨t, ht, hnumeral'⟩ := uartPutInt_spec n
    refine ⟨uartPrintNum_spec hmin, ⟨s, hs, hnumeral⟩, ⟨t, ht, hnumeral'⟩, fun printFloat => ⟨7, ?_⟩,
      ⟨4, ?_⟩⟩
    · rw [stm32_percentD, hs]
      exact ⟨rfl, hnumeral⟩
    · rw [k64f_percentD, ht]
      exact ⟨rfl, hnumeral'⟩

/-- Words are printed correctly everywhere, and so are integers, except for the smallest one. -/
theorem numbers_right_iff (n : Int32) (u : UInt32) :
    (PrintsInt n ↔ n.toInt ≠ -2 ^ 31) ∧ PrintsUint u :=
  ⟨printsInt_iff n, printsUint u⟩

theorem print_num_sign_only :
    uartPrintNum (-2147483648) = some [0x2D] ∧ ¬ PrintsInt (-2147483648) :=
  ⟨by decide, fun h => absurd ((printsInt_iff _).1 h) (by decide)⟩

end TamgaOs
