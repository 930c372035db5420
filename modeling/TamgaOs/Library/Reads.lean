import TamgaOs.Library.Numeral

/-!
# Reading a text back

A reader takes a value from the front of a text and leaves the rest. A format can be read back when
there is a reader that takes every value from the text that has been written for it, whatever
follows; then the text determines the value. Formats that are put together from parts are read by
the readers of their parts, one after the other.

## Main definitions

* `Reader`, `Reader.bind`, `Reader.lit`, `Reader.fixed`, `Reader.all`: readers.
* `Reader.Reads r t b`: the reader `r` takes `b` from the text `t`.
* `Numeral.fixed`: a numeral with a fixed number of digits.

## Main results

* `Reader.Reads.bind`, `Reader.Reads.lit`, `Reader.Reads.fixed`, `Reader.Reads.all`: one rule for each
  reader.
* `Reader.Reads.unique`: what has been written is determined by the text.
-/

namespace Numeral

variable {base n k a : ℕ} {ch : ℕ → UInt8} {s : List UInt8}

/-- The last `k` digits of a number, the most significant one first. -/
def fixed (base : ℕ) (ch : ℕ → UInt8) : ℕ → ℕ → List UInt8
  | 0, _ => []
  | k + 1, n => ch (n / base ^ k % base) :: fixed base ch k n

@[simp] theorem length_fixed : (fixed base ch k n).length = k := by
  induction k with
  | zero => rfl
  | succ k ih => rw [fixed, List.length_cons, ih]

theorem parseFrom_fixed (hch : Writes base ch) (hb : 0 < base) :
    parseFrom base a (fixed base ch k n) = some (a * base ^ k + n % base ^ k) := by
  induction k generalizing a with
  | zero => simp [fixed, parseFrom, Nat.mod_one]
  | succ k ih =>
    have hd : n / base ^ k % base < base := Nat.mod_lt _ hb
    have hsplit : n % base ^ (k + 1) = base ^ k * (n / base ^ k % base) + n % base ^ k := by
      rw [Nat.pow_succ, Nat.mod_mul, Nat.add_comm]
    simp only [fixed, parseFrom, hch.value _ hd, hd, if_true, ih]
    rw [hsplit, Nat.pow_succ]
    congr 1
    ring

end Numeral

/-- The characters of a string constant. -/
def bytesOf (s : String) : List UInt8 := s.toList.map fun c => UInt8.ofNat c.toNat

/-- A reader takes a value from the front of a text. -/
def Reader (α β : Type*) := List α → Option (β × List α)

namespace Reader

variable {α β γ : Type*}

/-- A reader that takes nothing. -/
def done (b : β) : Reader α β := fun s => some (b, s)

/-- One reader, and then another one that may depend on what has been read. -/
def bind (r : Reader α β) (f : β → Reader α γ) : Reader α γ := fun s =>
  match r s with
  | none => none
  | some (b, s') => f b s'

/-- A constant text. -/
def lit [DecidableEq α] (t : List α) : Reader α Unit := fun s =>
  if t <+: s then some ((), s.drop t.length) else none

/-- A numeral of `k` digits. -/
def fixed (base k : ℕ) : Reader UInt8 ℕ := fun s =>
  match Numeral.parse base (s.take k) with
  | none => none
  | some n => some (n, s.drop k)

/-- One reader after the other, with the list of what has been read. -/
def all : List (Reader α β) → Reader α (List β)
  | [] => done []
  | r :: rs => r.bind fun b => (all rs).bind fun bs => done (b :: bs)

/-- The reader takes `b` from the text `t`, whatever follows. -/
def Reads (r : Reader α β) (t : List α) (b : β) : Prop := ∀ rest, r (t ++ rest) = some (b, rest)

namespace Reads

variable {r : Reader α β} {f : β → Reader α γ} {t t' : List α} {b b' : β} {c : γ}

theorem done (b : β) : Reads (Reader.done b : Reader α β) [] b := fun _ => rfl

theorem bind (h : Reads r t b) (h' : Reads (f b) t' c) : Reads (r.bind f) (t ++ t') c := by
  intro rest
  rw [List.append_assoc, Reader.bind, h]
  exact h' rest

theorem lit [DecidableEq α] (t : List α) : Reads (Reader.lit t) t () := by
  intro rest
  rw [Reader.lit, if_pos (List.prefix_append t rest), List.drop_left]

/-- What has been read can be used in another form. -/
theorem map (h : Reads r t b) (g : β → γ) : Reads (r.bind fun b => Reader.done (g b)) t (g b) := by
  have hread := h.bind (f := fun b => Reader.done (g b)) (done (g b))
  rwa [List.append_nil] at hread

theorem fixed {base k n : ℕ} {ch : ℕ → UInt8} (hch : Numeral.Writes base ch) (hb : 0 < base) :
    Reads (Reader.fixed base k) (Numeral.fixed base ch k n) (n % base ^ k) := by
  intro rest
  have htake : (Numeral.fixed base ch k n ++ rest).take k = Numeral.fixed base ch k n :=
    List.take_left' Numeral.length_fixed
  have hdrop : (Numeral.fixed base ch k n ++ rest).drop k = rest :=
    List.drop_left' Numeral.length_fixed
  rw [Reader.fixed, htake, hdrop, Numeral.parse, Numeral.parseFrom_fixed hch hb, Nat.zero_mul,
    Nat.zero_add]

/-- The parts are read one after the other. -/
theorem all {ι : Type*} {read : ι → Reader α β} {write : ι → List α} {value : ι → β}
    (h : ∀ i, Reads (read i) (write i) (value i)) (is : List ι) :
    Reads (Reader.all (is.map read)) (is.flatMap write) (is.map value) := by
  induction is with
  | nil => exact done []
  | cons i is ih => exact (h i).bind (ih.map _)

theorem unique (h : Reads r t b) (h' : Reads r t b') : b = b' := by
  have heq := (h []).symm.trans (h' [])
  exact congrArg Prod.fst (Option.some.inj heq)

end Reads

end Reader
