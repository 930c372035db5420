import Mathlib.Algebra.Group.Nat.Defs
import Mathlib.Data.List.GetD
import Mathlib.Data.List.Induction
import Mathlib.Data.Nat.Notation
import Mathlib.Tactic.Common

/-!
# A memory of bytes

Addresses have 32 bits and wrap around. A stack grows towards smaller addresses in cells of four
bytes; what is pushed may fill its cell only in part.

## Main definitions

* `ByteMemory.write`, `ByteMemory.read`: a list of bytes at an address.
* `ByteMemory.le32`, `ByteMemory.ofLe`: words as bytes, the lowest first.
* `ByteMemory.Cells`: the cells of a stack begin with given bytes.
* `ByteMemory.pushAll`: several pushes.

## Main results

* `ByteMemory.read_write`, `ByteMemory.write_of_le`: a write is read back, and changes nothing else.
* `ByteMemory.cells_pushAll`, `ByteMemory.pushAll_of_le`: the same for pushes.
-/

namespace ByteMemory

/-- The bytes of a memory. -/
abbrev Mem := BitVec 32 → BitVec 8

/-- The bytes are stored from the address `a` on. -/
def write (m : Mem) (a : BitVec 32) (bs : List (BitVec 8)) : Mem := fun c =>
  bs.getD (c - a).toNat (m c)

/-- The `n` bytes from the address `a` on. -/
def read (m : Mem) (a : BitVec 32) (n : ℕ) : List (BitVec 8) :=
  (List.range n).map fun i => m (a + BitVec.ofNat 32 i)

variable {m m' : Mem} {a b c : BitVec 32} {bs bs' : List (BitVec 8)} {n k : ℕ}

theorem write_of_le (h : bs.length ≤ (c - a).toNat) : write m a bs c = m c :=
  List.getD_eq_default _ _ h

theorem write_add {i : ℕ} (hi : i < bs.length) (hlen : bs.length ≤ 2 ^ 32) :
    write m a bs (a + BitVec.ofNat 32 i) = bs[i] := by
  have hsub : (a + BitVec.ofNat 32 i - a).toNat = i := by
    rw [BitVec.add_comm, BitVec.add_sub_cancel, BitVec.toNat_ofNat]
    exact Nat.mod_eq_of_lt (by omega)
  rw [write, hsub, List.getD_eq_getElem _ _ hi]

@[simp] theorem length_read : (read m a n).length = n := by simp [read]

/-- What has been written is read back. -/
theorem read_write (hlen : bs.length ≤ 2 ^ 32) : read (write m a bs) a bs.length = bs := by
  refine List.ext_getElem (by simp) fun i hi hi' => ?_
  simp only [read, List.getElem_map, List.getElem_range]
  exact write_add hi' hlen

theorem read_congr (h : ∀ i < n, m (a + BitVec.ofNat 32 i) = m' (a + BitVec.ofNat 32 i)) :
    read m a n = read m' a n :=
  List.map_congr_left fun i hi => h i (List.mem_range.1 hi)

theorem read_add : read m a (n + k) = read m a n ++ read m (a + BitVec.ofNat 32 n) k := by
  rw [read, List.range_add, List.map_append, List.map_map]
  refine congrArg _ (List.map_congr_left fun i _ => ?_)
  rw [Function.comp, BitVec.add_assoc, ← BitVec.ofNat_add]

/-- A part of what is read. -/
theorem read_of_le (h : read m a n = bs) (hk : k ≤ n) : read m a k = bs.take k := by
  obtain ⟨j, rfl⟩ := Nat.exists_eq_add_of_le hk
  rw [← h, read_add, List.take_append_of_le_length (by simp), List.take_of_length_le (by simp)]

theorem read_of_slice {j : ℕ} (h : read m a n = bs) (hk : j + k ≤ n) :
    read m (a + BitVec.ofNat 32 j) k = (bs.drop j).take k := by
  obtain ⟨i, rfl⟩ := Nat.exists_eq_add_of_le hk
  have htake := read_of_le h (Nat.le_add_right (j + k) i)
  rw [read_add] at htake
  rw [List.take_drop, ← htake, List.drop_left' length_read]

/-- What is written elsewhere is not read. -/
theorem read_write_of_apart (h : ∀ i < n, bs.length ≤ (b + BitVec.ofNat 32 i - a).toNat) :
    read (write m a bs) b n = read m b n := read_congr fun i hi => write_of_le (h i hi)

/-- A byte that has been read is stored anew. -/
theorem read_write_byte {j : ℕ} {d : BitVec 8} (hj : j < n) (hn : n ≤ 2 ^ 32) :
    read (write m (a + BitVec.ofNat 32 j) [d]) a n = (read m a n).set j d := by
  refine List.ext_getElem (by simp) fun i hi hi' => ?_
  have hlt : i < n := by simpa using hi
  rw [List.getElem_set]
  simp only [read, List.getElem_map, List.getElem_range]
  split_ifs with hij
  · subst hij
    exact (congrArg _ (BitVec.add_zero _).symm).trans
      (write_add (Nat.zero_lt_succ 0) (Nat.le_of_ble_eq_true rfl))
  · refine write_of_le ?_
    rw [List.length_singleton]
    bv_omega

theorem write_nil : write m a [] = m := rfl

/-- Two writes one behind the other. -/
theorem write_append (m : Mem) (a : BitVec 32) (bs bs' : List (BitVec 8))
    (h : bs.length + bs'.length ≤ 2 ^ 32) :
    write (write m a bs) (a + BitVec.ofNat 32 bs.length) bs' = write m a (bs ++ bs') := by
  funext c
  by_cases hc : (c - a).toNat < bs.length
  · have hle : bs'.length ≤ (c - (a + BitVec.ofNat 32 bs.length)).toNat := by bv_omega
    rw [write_of_le hle, write, write, List.getD_append _ _ _ _ hc]
  · have hsub : (c - (a + BitVec.ofNat 32 bs.length)).toNat = (c - a).toNat - bs.length := by
      bv_omega
    rw [write, hsub, write_of_le (Nat.le_of_not_lt hc), write,
      List.getD_append_right _ _ _ _ (Nat.le_of_not_lt hc)]

/-- Where a record is in a table of records of one size. -/
theorem slice_flatMap {g : ℕ → List (BitVec 8)} (hg : ∀ i, (g i).length = k) {i : ℕ} (hi : i < n) :
    (((List.range n).flatMap g).drop (k * i)).take k = g i := by
  have hlen (j : ℕ) : ((List.range j).flatMap g).length = k * j := by
    induction j with
    | zero => rfl
    | succ j ih =>
      rw [List.range_succ, List.flatMap_append, List.length_append, ih, List.flatMap_singleton, hg,
        Nat.mul_succ]
  induction n with
  | zero => exact absurd hi (Nat.not_lt_zero i)
  | succ n ih =>
    rw [List.range_succ, List.flatMap_append, List.flatMap_singleton]
    rcases Nat.lt_succ_iff_lt_or_eq.1 hi with hlt | rfl
    · have hle : k * i + k ≤ k * n := by
        rw [← Nat.mul_succ]
        exact Nat.mul_le_mul_left k hlt
      rw [List.drop_append_of_le_length (by rw [hlen]; omega), List.take_append_of_le_length]
      · exact ih hlt
      · rw [List.length_drop, hlen]
        omega
    · rw [List.drop_left' (hlen i), ← hg i, List.take_length]

/-! ### Words -/

/-- The bytes of a word. -/
def le32 (w : BitVec 32) : List (BitVec 8) :=
  [w.extractLsb' 0 8, w.extractLsb' 8 8, w.extractLsb' 16 8, w.extractLsb' 24 8]

def le16 (w : BitVec 16) : List (BitVec 8) := [w.extractLsb' 0 8, w.extractLsb' 8 8]

/-- The word that bytes stand for. -/
def ofLe (k : ℕ) (bs : List (BitVec 8)) : BitVec k :=
  BitVec.ofNat k (bs.foldr (fun b n => b.toNat + 256 * n) 0)

@[simp] theorem ofLe_le32 (w : BitVec 32) : ofLe 32 (le32 w) = w := by
  refine BitVec.eq_of_toNat_eq ?_
  have hw := w.isLt
  simp only [ofLe, le32, List.foldr_cons, List.foldr_nil, BitVec.toNat_ofNat,
    BitVec.extractLsb'_toNat, Nat.shiftRight_eq_div_pow]
  omega

theorem le32_ofLe (h : bs.length = 4) : le32 (ofLe 32 bs) = bs := by
  match bs, h with
  | [b₀, b₁, b₂, b₃], _ =>
    have h₀ := b₀.isLt
    have h₁ := b₁.isLt
    have h₂ := b₂.isLt
    have h₃ := b₃.isLt
    simp only [le32, ofLe, List.foldr_cons, List.foldr_nil, List.cons.injEq, and_true]
    refine ⟨?_, ?_, ?_, ?_⟩ <;> refine BitVec.eq_of_toNat_eq ?_ <;>
      simp only [BitVec.extractLsb'_toNat, BitVec.toNat_ofNat, Nat.shiftRight_eq_div_pow] <;> omega

@[simp] theorem ofLe_le16 (w : BitVec 16) : ofLe 16 (le16 w) = w := by
  refine BitVec.eq_of_toNat_eq ?_
  have hw := w.isLt
  simp only [ofLe, le16, List.foldr_cons, List.foldr_nil, BitVec.toNat_ofNat,
    BitVec.extractLsb'_toNat, Nat.shiftRight_eq_div_pow]
  omega

/-! ### Stacks -/

/-- `n` cells above an address. -/
def up (a : BitVec 32) (n : ℕ) : BitVec 32 := a + BitVec.ofNat 32 (4 * n)

/-- The cells from the address `a` on begin with the given bytes. -/
def Cells (m : Mem) (a : BitVec 32) (cs : List (List (BitVec 8))) : Prop :=
  ∀ i c, cs[i]? = some c → read m (up a i) c.length = c

/-- A cell is pushed. -/
def push (p : Mem × BitVec 32) (c : List (BitVec 8)) : Mem × BitVec 32 :=
  (write p.1 (p.2 - 4) c, p.2 - 4)

/-- The cells are pushed one after the other. -/
def pushAll (p : Mem × BitVec 32) (cs : List (List (BitVec 8))) : Mem × BitVec 32 := cs.foldl push p

variable {p : Mem × BitVec 32} {cs cs' : List (List (BitVec 8))}

theorem pushAll_append : pushAll p (cs ++ cs') = pushAll (pushAll p cs) cs' := List.foldl_append

theorem pushAll_snd : (pushAll p cs).2 = p.2 - BitVec.ofNat 32 (4 * cs.length) := by
  induction cs generalizing p with
  | nil => exact (BitVec.sub_zero p.2).symm
  | cons c cs ih =>
    change (pushAll (push p c) cs).2 = _
    rw [ih, List.length_cons]
    change p.2 - 4 - _ = _
    bv_omega

theorem up_up : up (up a n) k = up a (n + k) := by
  rw [up, up, up, BitVec.add_assoc, ← BitVec.ofNat_add, ← Nat.mul_add]

theorem Cells.append_left (h : Cells m a (cs ++ cs')) : Cells m a cs := by
  intro i c hi
  obtain ⟨hlt, -⟩ := List.getElem?_eq_some_iff.1 hi
  exact h i c (by rwa [List.getElem?_append_left hlt])

theorem Cells.append_right (h : Cells m a (cs ++ cs')) : Cells m (up a cs.length) cs' := by
  intro i c hi
  rw [up_up]
  exact h _ c (by rwa [List.getElem?_append_right (Nat.le_add_right _ _), Nat.add_sub_cancel_left])

theorem Cells.congr (h : Cells m a cs) (hcs : ∀ c ∈ cs, c.length ≤ 4)
    (hm : ∀ i < 4 * cs.length, m' (a + BitVec.ofNat 32 i) = m (a + BitVec.ofNat 32 i)) :
    Cells m' a cs := by
  intro i c hi
  obtain ⟨hlt, -⟩ := List.getElem?_eq_some_iff.1 hi
  have hc := hcs c (List.mem_of_getElem? hi)
  refine (read_congr fun j hj => ?_).trans (h i c hi)
  rw [up, BitVec.add_assoc, ← BitVec.ofNat_add]
  exact hm _ (by omega)

/-- The word in a cell. -/
theorem Cells.word {w : BitVec 32} (h : Cells m a cs) (hn : cs[n]? = some (le32 w)) :
    ofLe 32 (read m (up a n) 4) = w := by
  have hread : read m (up a n) 4 = le32 w := h n _ hn
  rw [hread, ofLe_le32]

/-- The half word at the beginning of a cell. -/
theorem Cells.half {w : BitVec 16} {c : List (BitVec 8)} (h : Cells m a cs) (hn : cs[n]? = some c)
    (hlen : 2 ≤ c.length) (hc : c.take 2 = le16 w) : ofLe 16 (read m (up a n) 2) = w := by
  rw [read_of_le (h n c hn) hlen, hc, ofLe_le16]

/-- A push leaves the cells above the stack pointer. -/
theorem Cells.push {cell : List (BitVec 8)} (h : Cells m a cs) (hcell : cell.length ≤ 4)
    (hcs : ∀ c ∈ cs, c.length ≤ 4) (hlen : 4 * (cs.length + 1) < 2 ^ 32) :
    Cells (write m (a - 4) cell) (a - 4) (cell :: cs) := by
  intro i c hi
  cases i with
  | zero =>
    obtain rfl : cell = c := by simpa using hi
    have hup : up (a - 4) 0 = a - 4 := by simp [up]
    rw [hup]
    exact read_write (by omega)
  | succ i =>
    rw [List.getElem?_cons_succ] at hi
    obtain ⟨hlt, -⟩ := List.getElem?_eq_some_iff.1 hi
    have hc := hcs c (List.mem_of_getElem? hi)
    have hup : up (a - 4) (i + 1) = up a i := by
      unfold up
      bv_omega
    refine (read_congr fun j hj => ?_).trans (hup ▸ h i c hi)
    refine write_of_le ?_
    have hsub : (up (a - 4) (i + 1) + BitVec.ofNat 32 j - (a - 4)).toNat = 4 * (i + 1) + j := by
      unfold up
      bv_omega
    omega

/-- The cells that have been pushed, the last one first. -/
theorem cells_pushAll (hcs : ∀ c ∈ cs, c.length ≤ 4) (hlen : 4 * cs.length < 2 ^ 32) :
    Cells (pushAll p cs).1 (pushAll p cs).2 cs.reverse := by
  induction cs using List.reverseRecOn with
  | nil => exact fun i c hi => absurd hi (by simp)
  | append_singleton cs c ih =>
    rw [List.length_append, List.length_singleton] at hlen
    rw [pushAll_append, List.reverse_append]
    have hmem : ∀ c' ∈ cs, c'.length ≤ 4 := fun c' hc' => hcs c' (List.mem_append_left _ hc')
    exact (ih hmem (by omega)).push (hcs c (by simp)) (by simpa using hmem) (by simpa using hlen)

/-- The bytes above the old stack pointer and below the new one are as before. -/
theorem pushAll_of_le (hcs : ∀ c ∈ cs, c.length ≤ 4) (hlen : 4 * cs.length < 2 ^ 32)
    (h : 4 * cs.length ≤ (b - (p.2 - BitVec.ofNat 32 (4 * cs.length))).toNat) :
    (pushAll p cs).1 b = p.1 b := by
  induction cs generalizing p with
  | nil => rfl
  | cons c cs ih =>
    rw [List.length_cons] at hlen h
    have hbase : p.2 - 4 - BitVec.ofNat 32 (4 * cs.length) =
        p.2 - BitVec.ofNat 32 (4 * (cs.length + 1)) := by bv_omega
    have hrest : (pushAll (ByteMemory.push p c) cs).1 b = (ByteMemory.push p c).1 b := by
      refine ih (fun c' hc' => hcs c' (List.mem_cons_of_mem c hc')) (by omega) ?_
      change 4 * cs.length ≤ (b - (p.2 - 4 - BitVec.ofNat 32 (4 * cs.length))).toNat
      rw [hbase]
      omega
    have hfour : 4 ≤ (b - (p.2 - 4)).toNat := by bv_omega
    exact hrest.trans (write_of_le (Nat.le_trans (hcs c List.mem_cons_self) hfour))

end ByteMemory
