import Mathlib.Data.Nat.Digits.Lemmas

/-!
# Numerals

A numeral is a list of characters that stand for digits, the most significant one first. Reading a numeral
back is independent of how it has been written.

## Main definitions

* `Numeral.parse`: the number that characters stand for in a base.
* `Numeral.Is`: a numeral without leading zeros.
* `Numeral.digits`: the digits of a number as characters.

## Main results

* `Numeral.is_digits`: the digits of a number are its numeral.
-/

namespace Numeral

/-- The digit that a character stands for. -/
def digitValue (c : UInt8) : Option ℕ :=
  if 0x30 ≤ c ∧ c ≤ 0x39 then some (c.toNat - 0x30)
  else if 0x41 ≤ c ∧ c ≤ 0x46 then some (c.toNat - 0x41 + 10)
  else if 0x61 ≤ c ∧ c ≤ 0x66 then some (c.toNat - 0x61 + 10)
  else none

/-- Reading goes on with the number `a` read so far. -/
def parseFrom (base : ℕ) : ℕ → List UInt8 → Option ℕ
  | a, [] => some a
  | a, c :: s =>
    match digitValue c with
    | none => none
    | some d => if d < base then parseFrom base (a * base + d) s else none

/-- The number that characters stand for. -/
def parse (base : ℕ) (s : List UInt8) : Option ℕ := parseFrom base 0 s

/-- The characters are the numeral of `n` without superfluous zeros. -/
structure Is (base n : ℕ) (s : List UInt8) : Prop where
  parse : parse base s = some n
  ne_nil : s ≠ []
  noZero : s.head? = some 0x30 → s = [0x30]

variable {base a n : ℕ} {s s' : List UInt8} {ch : ℕ → UInt8}

theorem parseFrom_append :
    parseFrom base a (s ++ s') = (parseFrom base a s).bind (parseFrom base · s') := by
  induction s generalizing a with
  | nil => rfl
  | cons c s ih =>
    simp only [List.cons_append, parseFrom]
    cases digitValue c with
    | none => rfl
    | some d =>
      by_cases hd : d < base
      · simp only [hd, if_true, ih]
      · simp only [hd, if_false, Option.bind_none]

/-- The characters that write digits. -/
structure Writes (base : ℕ) (ch : ℕ → UInt8) : Prop where
  value : ∀ d < base, digitValue (ch d) = some d
  zero : ∀ d < base, ch d = 0x30 → d = 0

/-- The digits of a number as characters; none for 0. -/
def digits (base : ℕ) (ch : ℕ → UInt8) (n : ℕ) : List UInt8 := ((base.digits n).map ch).reverse

theorem parseFrom_reverse (hch : Writes base ch) {ds : List ℕ} (hds : ∀ d ∈ ds, d < base) :
    parseFrom base 0 (ds.map ch).reverse = some (Nat.ofDigits base ds) := by
  induction ds with
  | nil => rfl
  | cons d ds ih =>
    rw [List.map_cons, List.reverse_cons, parseFrom_append,
      ih fun e he => hds e (List.mem_cons_of_mem d he)]
    simp only [Option.bind_some, parseFrom, hch.value d (hds d List.mem_cons_self),
      hds d List.mem_cons_self, if_true]
    rw [Nat.ofDigits_cons, Nat.add_comm, Nat.mul_comm]

theorem is_digits (hch : Writes base ch) (hb : 1 < base) (hn : n ≠ 0) :
    Is base n (digits base ch n) := by
  have hds : ∀ d ∈ base.digits n, d < base := fun d hd => Nat.digits_lt_base hb hd
  have hne : base.digits n ≠ [] := Nat.digits_ne_nil_iff_ne_zero.2 hn
  refine ⟨?_, ?_, fun hzero => ?_⟩
  · rw [Numeral.parse, digits, parseFrom_reverse hch hds, Nat.ofDigits_digits]
  · rw [digits, Ne, List.reverse_eq_nil_iff, List.map_eq_nil_iff]
    exact hne
  · -- The most significant digit is not 0.
    rw [digits, List.head?_reverse, List.getLast?_map, List.getLast?_eq_getLast_of_ne_nil hne,
      Option.map_some] at hzero
    have hlast := hch.zero _ (hds _ (List.getLast_mem hne)) (Option.some.inj hzero)
    exact absurd hlast (Nat.getLast_digit_ne_zero base hn)

theorem is_zero (hb : 0 < base) : Is base 0 [0x30] := by
  refine ⟨?_, List.cons_ne_nil _ _, fun _ => rfl⟩
  simp only [Numeral.parse, parseFrom, show digitValue 0x30 = some 0 from by decide, hb, if_true,
    Nat.zero_mul, Nat.add_zero]

end Numeral
