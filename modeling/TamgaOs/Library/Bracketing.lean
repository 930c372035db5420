import Mathlib.Data.Nat.Notation
import Mathlib.Tactic.Common

/-!
# Traces with brackets

In a trace some events open a bracket and some close one. A trace is balanced when every bracket
that is opened in it is closed in it, innermost first. Between them lie the traces in which some
brackets are still open.

## Main definitions

* `Bracketing`, `Bracketing.Balanced`, `Bracketing.Open`.
* `Bracketing.Section`: a balanced trace inside one pair of brackets.
* `Bracketing.Block`: a section, or one event outside all brackets, of a single owner.

## Main results

* `Bracketing.Open.plain`, `Bracketing.Open.opens`, `Bracketing.Open.closes`: a trace with open
  brackets goes on.
* `Bracketing.Open.close_first`: when the first bracket is closed, the trace is a section.
-/

/-- What an event does to the brackets. -/
inductive Bracketing
  | opens
  | closes
  | plain
  deriving DecidableEq

namespace Bracketing

variable {ε κ : Type*} (kind : ε → Bracketing) (owner : ε → κ)

/-- Every bracket that is opened is closed, innermost first. -/
inductive Balanced : List ε → Prop
  | nil : Balanced []
  | plain {es : List ε} {e : ε} (h : Balanced es) (he : kind e = .plain) : Balanced (es ++ [e])
  | nest {es es' : List ε} {a b : ε} (h : Balanced es) (ha : kind a = .opens) (h' : Balanced es')
      (hb : kind b = .closes) : Balanced (es ++ a :: (es' ++ [b]))

/-- The first event opens a bracket, and `n + 1` brackets are open, this one included. -/
inductive Open : ℕ → List ε → Prop
  | first {es : List ε} {a : ε} (ha : kind a = .opens) (h : Balanced kind es) : Open 0 (a :: es)
  | nest {n : ℕ} {es es' : List ε} {a : ε} (h : Open n es) (ha : kind a = .opens)
      (h' : Balanced kind es') : Open (n + 1) (es ++ a :: es')

/-- One pair of brackets with a balanced trace inside. -/
def Section (es : List ε) : Prop :=
  ∃ a es' b, es = a :: (es' ++ [b]) ∧ kind a = .opens ∧ Balanced kind es' ∧ kind b = .closes

/-- A section or a single event outside all brackets; all events have the same owner. -/
structure Block (es : List ε) : Prop where
  owned : ∃ c, ∀ e ∈ es, owner e = c
  shape : Section kind es ∨ ∃ e, es = [e] ∧ kind e = .plain

variable {kind owner} {n : ℕ} {es : List ε} {e : ε}

theorem Open.plain (h : Open kind n es) (he : kind e = .plain) : Open kind n (es ++ [e]) := by
  cases h with
  | first ha h => exact .first ha (h.plain he)
  | nest h ha h' =>
    rw [List.append_assoc]
    exact .nest h ha (h'.plain he)

theorem Open.opens (h : Open kind n es) (he : kind e = .opens) :
    Open kind (n + 1) (es ++ [e]) :=
  .nest h he .nil

/-- An inner bracket is closed. -/
theorem Open.closes (h : Open kind (n + 1) es) (he : kind e = .closes) :
    Open kind n (es ++ [e]) := by
  cases h with
  | nest h ha h' =>
    rw [List.append_assoc]
    cases h with
    | first hb hin => exact .first hb (hin.nest ha h' he)
    | nest h hb hin =>
      rw [List.append_assoc]
      exact .nest h hb (hin.nest ha h' he)

/-- The first bracket is closed. -/
theorem Open.close_first (h : Open kind 0 es) (he : kind e = .closes) :
    Section kind (es ++ [e]) := by
  cases h with
  | first ha h => exact ⟨_, _, _, rfl, ha, h, he⟩

end Bracketing
