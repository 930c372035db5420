import Mathlib.Algebra.Group.Nat.Defs
import Mathlib.Algebra.Order.Ring.Nat
import Mathlib.Data.Nat.Log
import Mathlib.Data.Nat.Notation
import Mathlib.Data.Nat.Size

/-!
# The lines of a data cache

CCSIDR describes a cache by its ways, its sets and the length of a line. A word for DCISW names a
line: the way is in its highest bits, the set above the bits of an address in a line.

## Main definitions

* `CacheGeometry.ways`, `CacheGeometry.sets`, `CacheGeometry.lineBits`: the fields of CCSIDR.
* `CacheGeometry.decode`: the line that a word names.
* `CacheGeometry.line`: a word with the way and the set shifted to their places.

## Main results

* `CacheGeometry.decode_line`: such a word names its line.
-/

namespace CacheGeometry

/-- The number of ways that a value of CCSIDR stands for. -/
def ways (g : BitVec 32) : ℕ := (g.extractLsb' 3 10).toNat + 1

def sets (g : BitVec 32) : ℕ := (g.extractLsb' 13 15).toNat + 1

/-- The logarithm of the length of a line in bytes. -/
def lineBits (g : BitVec 32) : ℕ := (g.extractLsb' 0 3).toNat + 4

/-- The bits of a word for DCISW that hold the way: the highest ones. -/
def wayBits (g : BitVec 32) : ℕ := Nat.clog 2 (ways g)

def setBits (g : BitVec 32) : ℕ := Nat.clog 2 (sets g)

/-- The set and the way that a word for DCISW stands for. -/
def decode (g w : BitVec 32) : ℕ × ℕ :=
  (w.toNat / 2 ^ lineBits g % 2 ^ setBits g, w.toNat / 2 ^ (32 - wayBits g))

/-- The fields of a word for DCISW do not meet. -/
def Fits (g : BitVec 32) : Prop := lineBits g + setBits g + wayBits g ≤ 32

variable {g : BitVec 32} {t w : ℕ}

/-- What the handler stores for a line. -/
def line (g : BitVec 32) (t w : ℕ) : BitVec 32 :=
  BitVec.ofNat 32 w <<< (32 - wayBits g) ||| BitVec.ofNat 32 t <<< lineBits g

theorem clog_succ (n : ℕ) : Nat.clog 2 (n + 1) = n.size := by
  refine eq_of_forall_ge_iff fun k => ?_
  rw [Nat.clog_le_iff_le_pow Nat.one_lt_two, Nat.size_le, Nat.succ_le_iff]

theorem lt_ways_pow (hw : w < ways g) : w < 2 ^ wayBits g :=
  Nat.lt_of_lt_of_le hw (Nat.le_pow_clog Nat.one_lt_two _)

theorem lt_sets_pow (ht : t < sets g) : t < 2 ^ setBits g :=
  Nat.lt_of_lt_of_le ht (Nat.le_pow_clog Nat.one_lt_two _)

theorem set_lt (hg : Fits g) (ht : t < sets g) : t * 2 ^ lineBits g < 2 ^ (32 - wayBits g) := by
  have hle : setBits g + lineBits g ≤ 32 - wayBits g := by
    unfold Fits at hg
    omega
  calc t * 2 ^ lineBits g < 2 ^ setBits g * 2 ^ lineBits g :=
        Nat.mul_lt_mul_of_pos_right (lt_sets_pow ht) (Nat.two_pow_pos _)
    _ = 2 ^ (setBits g + lineBits g) := (pow_add 2 _ _).symm
    _ ≤ 2 ^ (32 - wayBits g) := Nat.pow_le_pow_right Nat.two_pos hle

theorem way_lt (hg : Fits g) (hw : w < ways g) :
    w * 2 ^ (32 - wayBits g) + 2 ^ (32 - wayBits g) ≤ 2 ^ 32 := by
  have hle : wayBits g + (32 - wayBits g) = 32 := by
    unfold Fits at hg
    omega
  calc w * 2 ^ (32 - wayBits g) + 2 ^ (32 - wayBits g)
      = (w + 1) * 2 ^ (32 - wayBits g) := (Nat.succ_mul w _).symm
    _ ≤ 2 ^ wayBits g * 2 ^ (32 - wayBits g) := Nat.mul_le_mul_right _ (lt_ways_pow hw)
    _ = 2 ^ 32 := by rw [← pow_add, hle]

theorem toNat_line (hg : Fits g) (ht : t < sets g) (hw : w < ways g) :
    (line g t w).toNat = w * 2 ^ (32 - wayBits g) + t * 2 ^ lineBits g := by
  have hset := set_lt hg ht
  have hway := way_lt hg hw
  have hpow : 0 < 2 ^ (32 - wayBits g) := Nat.two_pow_pos _
  have hline : 0 < 2 ^ lineBits g := Nat.two_pow_pos _
  have hwle := Nat.le_mul_of_pos_right w hpow
  have htle := Nat.le_mul_of_pos_right t hline
  have hw32 : w < 2 ^ 32 := by omega
  have ht32 : t < 2 ^ 32 := by omega
  have hhigh : (BitVec.ofNat 32 w <<< (32 - wayBits g)).toNat = w <<< (32 - wayBits g) := by
    rw [BitVec.toNat_shiftLeft, BitVec.toNat_ofNat, Nat.mod_eq_of_lt hw32]
    refine Nat.mod_eq_of_lt ?_
    rw [Nat.shiftLeft_eq]
    omega
  have hlow : (BitVec.ofNat 32 t <<< lineBits g).toNat = t * 2 ^ lineBits g := by
    rw [BitVec.toNat_shiftLeft, BitVec.toNat_ofNat, Nat.mod_eq_of_lt ht32, Nat.shiftLeft_eq]
    exact Nat.mod_eq_of_lt (by omega)
  rw [line, BitVec.toNat_or, hhigh, hlow, ← Nat.shiftLeft_add_eq_or_of_lt hset, Nat.shiftLeft_eq]

/-- Every line is named by its word. -/
theorem decode_line (hg : Fits g) (ht : t < sets g) (hw : w < ways g) :
    decode g (line g t w) = (t, w) := by
  have hset := set_lt hg ht
  have hpow : 0 < 2 ^ (32 - wayBits g) := Nat.two_pow_pos _
  have hsplit : 2 ^ (32 - wayBits g) =
      2 ^ (32 - wayBits g - lineBits g - setBits g) * 2 ^ setBits g * 2 ^ lineBits g := by
    unfold Fits at hg
    rw [← pow_add, ← pow_add]
    congr 1
    omega
  rw [decode, toNat_line hg ht hw, Prod.mk.injEq]
  constructor
  · rw [hsplit, ← Nat.mul_assoc, ← Nat.add_mul, Nat.mul_div_cancel _ (Nat.two_pow_pos _),
      ← Nat.mul_assoc, Nat.mul_add_mod_self_right, Nat.mod_eq_of_lt (lt_sets_pow ht)]
  · rw [Nat.mul_comm, Nat.mul_add_div hpow, Nat.div_eq_of_lt hset, Nat.add_zero]

end CacheGeometry
