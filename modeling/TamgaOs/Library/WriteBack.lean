import Mathlib.Data.List.Nodup
import Mathlib.Logic.Function.Basic

/-!
# A memory behind a write-back cache

Stores go to the cache, and a line gets to the memory behind it only when it is cleaned. Losing the
cache therefore loses every store to a line that has not been cleaned since. Addresses, values and
lines are arbitrary; `line` says which line an address belongs to.

## Main definitions

* `WriteBack`: the memory behind the cache, the lines that are cached, and their contents.
* `WriteBack.load`, `WriteBack.store`, `WriteBack.clean`, `WriteBack.discard`: the accesses and the
  two ways to maintain the cache.
* `WriteBack.Op`, `WriteBack.run`: a straight-line program of stores and cleans.

## Main results

* `WriteBack.load_store`, `WriteBack.load_clean`, `WriteBack.load_discard`: what is read.
* `WriteBack.backing_store`, `WriteBack.backing_clean`: what outlives the cache.
* `WriteBack.run_stores_load`: what is read after a list of stores to different addresses.
* `WriteBack.run_cleans`: what a list of cleans brings to the memory behind the cache.
-/

/-- A memory behind a write-back cache. The contents of a line that is not cached do not matter. -/
structure WriteBack (α β ι : Type*) where
  backing : α → β
  cached : ι → Bool
  contents : α → β

namespace WriteBack

variable {α β ι : Type*} [DecidableEq α] [DecidableEq ι] (line : α → ι) (m : WriteBack α β ι)

/-- A read: from the cache when the line is cached. -/
def load (a : α) : β := if m.cached (line a) then m.contents a else m.backing a

/-- A line is brought into the cache. -/
def fill (l : ι) : WriteBack α β ι :=
  if m.cached l then m
  else
    { m with
      cached := Function.update m.cached l true
      contents := fun a => if line a = l then m.backing a else m.contents a }

/-- A write: to the cache only. -/
def store (a : α) (v : β) : WriteBack α β ι :=
  let m := m.fill line (line a)
  { m with contents := Function.update m.contents a v }

/-- A line is written back and stays in the cache. -/
def clean (l : ι) : WriteBack α β ι :=
  if m.cached l then
    { m with backing := fun a => if line a = l then m.contents a else m.backing a }
  else m

/-- The cache is lost. -/
def discard : WriteBack α β ι := { m with cached := fun _ => false }

variable {line m} {a b : α} {l : ι} {v : β}

omit [DecidableEq α] in
@[simp] theorem load_fill : (m.fill line l).load line = m.load line := by
  funext b
  by_cases h : m.cached l = true
  · rw [fill, if_pos h]
  · rcases eq_or_ne (line b) l with rfl | hne
    · simp [fill, load, h]
    · simp [fill, load, h, hne]

@[simp] theorem load_store :
    (m.store line a v).load line = Function.update (m.load line) a v := by
  have hfill : (m.fill line (line a)).cached (line a) = true := by
    unfold fill
    split_ifs with h
    · exact h
    · simp
  funext b
  rcases eq_or_ne b a with rfl | hne
  · simp [load, store, hfill]
  · have hload : (m.fill line (line a)).load line b = m.load line b := congrFun load_fill b
    rw [Function.update_of_ne hne, ← hload]
    simp [load, store, Function.update_of_ne hne]

@[simp] theorem backing_store : (m.store line a v).backing = m.backing := by
  unfold store fill
  split_ifs <;> rfl

omit [DecidableEq α] in
@[simp] theorem load_clean : (m.clean line l).load line = m.load line := by
  funext b
  by_cases h : m.cached l = true
  · rcases eq_or_ne (line b) l with rfl | hne
    · simp [clean, load, h]
    · simp [clean, load, h, hne]
  · rw [clean, if_neg h]

omit [DecidableEq α] in
theorem backing_clean : (m.clean line l).backing =
    fun b => if line b = l then m.load line b else m.backing b := by
  funext b
  rcases eq_or_ne (line b) l with rfl | hne
  · by_cases h : m.cached (line b) = true <;> simp [clean, load, h]
  · by_cases h : m.cached l = true <;> simp [clean, h, hne]

omit [DecidableEq α] [DecidableEq ι] in
@[simp] theorem load_discard : m.discard.load line = m.backing := rfl

omit [DecidableEq α] [DecidableEq ι] in
@[simp] theorem backing_discard : m.discard.backing = m.backing := rfl

/-! ### Straight-line programs -/

/-- A store, or the cleaning of a line. -/
inductive Op (α β ι : Type*)
  | store (a : α) (v : β)
  | clean (l : ι)

variable (line)

/-- One operation. -/
def Op.run (m : WriteBack α β ι) : Op α β ι → WriteBack α β ι
  | .store a v => m.store line a v
  | .clean l => m.clean line l

/-- A program of operations. -/
def run (m : WriteBack α β ι) (ops : List (Op α β ι)) : WriteBack α β ι := ops.foldl (Op.run line) m

/-- The program that stores values to addresses. -/
def stores (ps : List (α × β)) : List (Op α β ι) := ps.map fun p => .store p.1 p.2

variable {line}

@[simp] theorem run_nil : run line m [] = m := rfl

@[simp] theorem run_cons (op : Op α β ι) (ops : List (Op α β ι)) :
    run line m (op :: ops) = run line (op.run line m) ops :=
  rfl

theorem run_append (ops₁ ops₂ : List (Op α β ι)) :
    run line m (ops₁ ++ ops₂) = run line (run line m ops₁) ops₂ :=
  List.foldl_append

/-- Stores do not get to the memory behind the cache. -/
@[simp] theorem backing_run_stores (ps : List (α × β)) :
    (run line m (stores ps)).backing = m.backing := by
  induction ps generalizing m with
  | nil => rfl
  | cons p ps ih =>
    show (run line (m.store line p.1 p.2) (stores ps)).backing = m.backing
    rw [ih, backing_store]

theorem run_stores_load_of_notMem {ps : List (α × β)} (h : a ∉ ps.map Prod.fst) :
    (run line m (stores ps)).load line a = m.load line a := by
  induction ps generalizing m with
  | nil => rfl
  | cons p ps ih =>
    rw [List.map_cons, List.mem_cons, not_or] at h
    show (run line (m.store line p.1 p.2) (stores ps)).load line a = m.load line a
    rw [ih h.2, load_store, Function.update_of_ne h.1]

/-- What is read after stores to different addresses. -/
theorem run_stores_load {ps : List (α × β)} (hnodup : (ps.map Prod.fst).Nodup)
    (hmem : (a, v) ∈ ps) : (run line m (stores ps)).load line a = v := by
  induction ps generalizing m with
  | nil => cases hmem
  | cons p ps ih =>
    rw [List.map_cons, List.nodup_cons] at hnodup
    show (run line (m.store line p.1 p.2) (stores ps)).load line a = v
    rcases List.mem_cons.1 hmem with rfl | hmem
    · rw [run_stores_load_of_notMem hnodup.1, load_store, Function.update_self]
    · exact ih hnodup.2 hmem

/-- The lines that are cleaned get to the memory behind the cache, and no others. -/
theorem run_cleans (ls : List ι) :
    (run line m (ls.map .clean)).load line = m.load line ∧
      (run line m (ls.map .clean)).backing =
        fun b => if line b ∈ ls then m.load line b else m.backing b := by
  induction ls generalizing m with
  | nil => simp
  | cons l ls ih =>
    obtain ⟨hload, hbacking⟩ := ih (m := m.clean line l)
    rw [load_clean] at hload hbacking
    refine ⟨hload, ?_⟩
    rw [List.map_cons, run_cons]
    show (run line (m.clean line l) (ls.map .clean)).backing = _
    rw [hbacking, backing_clean]
    funext b
    by_cases hl : line b = l <;> by_cases hls : line b ∈ ls <;> simp [hl, hls]

end WriteBack
