import Mathlib.Data.Nat.Notation
import Mathlib.Tactic.Common

/-!
# One pass for many steps

A system that steps from states at rest, and a second one that makes several of these steps in one
pass. What is compared is the state at the end of a pass, and what both have reported until then.

## Main definitions

* `Stride.steps`: `n` steps, each of them from a state at rest.
* `Stride.passes`: `m` passes, with the number of steps that they stand for.

## Main results

* `Stride.steps_add`: steps compose.
* `Stride.rest_of_steps`: all states but the last one are at rest.
* `Stride.steps_of_passes`: when every pass stands for its steps, so do all passes.
* `Stride.exists_passes`: the passes get to every state at rest, or beyond it in one more pass.
-/

namespace Stride

variable {σ ω : Type*} (tick : σ → Option (σ × List ω)) (rest : σ → Prop) [DecidablePred rest]
  (pass : σ → Option (σ × List ω × ℕ))

/-- `n` steps, each from a state at rest, with what they have reported. -/
def steps : ℕ → σ → Option (σ × List ω)
  | 0, s => some (s, [])
  | n + 1, s =>
    match steps n s with
    | some (s', o) => if rest s' then (tick s').map fun r => (r.1, o ++ r.2) else none
    | none => none

/-- `m` passes, each from a state at rest, with what they have reported and their length. -/
def passes : ℕ → σ → Option (σ × List ω × ℕ)
  | 0, s => some (s, [], 0)
  | m + 1, s =>
    match passes m s with
    | some (s', o, n) =>
      if rest s' then (pass s').map fun r => (r.1, o ++ r.2.1, n + r.2.2) else none
    | none => none

variable {tick rest pass} {s s' : σ} {o : List ω} {a b m n : ℕ}

theorem steps_succ (h : steps tick rest n s = some (s', o)) (hrest : rest s') :
    steps tick rest (n + 1) s = (tick s').map fun r => (r.1, o ++ r.2) := by
  simp only [steps, h, if_pos hrest]

theorem passes_succ (h : passes rest pass m s = some (s', o, n)) (hrest : rest s') :
    passes rest pass (m + 1) s = (pass s').map fun r => (r.1, o ++ r.2.1, n + r.2.2) := by
  simp only [passes, h, if_pos hrest]

/-- The inversion of the last step. -/
theorem steps_succ_cases {s'' : σ} {o' : List ω}
    (h : steps tick rest (n + 1) s = some (s'', o')) : ∃ s' o r,
      steps tick rest n s = some (s', o) ∧ rest s' ∧ tick s' = some r ∧ s'' = r.1 ∧
        o' = o ++ r.2 := by
  simp only [steps] at h
  split at h
  · rename_i s' o hs
    split_ifs at h with hrest
    obtain ⟨r, hr, he⟩ := Option.map_eq_some_iff.1 h
    cases he
    exact ⟨s', o, r, hs, hrest, hr, rfl, rfl⟩
  · cases h

theorem passes_succ_cases {s'' : σ} {o' : List ω} {n' : ℕ}
    (h : passes rest pass (m + 1) s = some (s'', o', n')) : ∃ s' o n r,
      passes rest pass m s = some (s', o, n) ∧ rest s' ∧ pass s' = some r ∧ s'' = r.1 ∧
        o' = o ++ r.2.1 ∧ n' = n + r.2.2 := by
  simp only [passes] at h
  split at h
  · rename_i s' o n hs
    split_ifs at h with hrest
    obtain ⟨r, hr, he⟩ := Option.map_eq_some_iff.1 h
    cases he
    exact ⟨s', o, n, r, hs, hrest, hr, rfl, rfl, rfl⟩
  · cases h

/-- Steps compose. -/
theorem steps_add (h : steps tick rest a s = some (s', o)) : ∀ b : ℕ,
    steps tick rest (a + b) s = (steps tick rest b s').map fun r => (r.1, o ++ r.2)
  | 0 => by simp [steps, h]
  | b + 1 => by
    have ih := steps_add h b
    rw [← Nat.add_assoc]
    simp only [steps, ih]
    cases steps tick rest b s' with
    | none => rfl
    | some r =>
      simp only [Option.map_some]
      split_ifs
      · rw [Option.map_map]
        refine congrFun (congrArg Option.map (funext fun r' => ?_)) _
        simp
      · rfl

/-- The steps before. -/
theorem rest_of_steps (h : (steps tick rest n s).isSome = true) (hlt : a < n) :
    ∃ s' o, steps tick rest a s = some (s', o) ∧ rest s' := by
  induction n with
  | zero => omega
  | succ n ih =>
    obtain ⟨⟨s'', o'⟩, h'⟩ := Option.isSome_iff_exists.1 h
    obtain ⟨s', o, r, hs, hrest, -⟩ := steps_succ_cases h'
    by_cases ha : a = n
    · exact ⟨s', o, ha ▸ hs, hrest⟩
    · exact ih (by rw [hs]; rfl) (by omega)

/-- Every pass from a state at rest stands for its steps, up to `R` in its last state, and exactly
when it ends at rest. Then the same is true of all passes. -/
theorem steps_of_passes {R : σ → σ → Prop} (hrefl : ∀ s, R s s)
    (hrest : ∀ s s', R s s' → rest s' → s = s')
    (hpass : ∀ m s' o n r, passes rest pass m s = some (s', o, n) →
      steps tick rest n s = some (s', o) → rest s' → pass s' = some r →
        ∃ s'', steps tick rest r.2.2 s' = some (s'', r.2.1) ∧ R s'' r.1) :
    ∀ {m : ℕ} {s' : σ} {o : List ω} {n : ℕ}, passes rest pass m s = some (s', o, n) →
      ∃ s'', steps tick rest n s = some (s'', o) ∧ R s'' s'
  | 0, s', o, n, h => by
    cases h
    exact ⟨s, rfl, hrefl s⟩
  | m + 1, s', o, n, h => by
    obtain ⟨s₁, o₁, n₁, r, hs, hr, hp, rfl, rfl, rfl⟩ := passes_succ_cases h
    obtain ⟨s₂, hsteps, hR⟩ := steps_of_passes hrefl hrest hpass hs
    obtain rfl := hrest s₂ s₁ hR hr
    obtain ⟨s'', hlast, hR'⟩ := hpass m s₂ o₁ n₁ r hs hsteps hr hp
    refine ⟨s'', ?_, hR'⟩
    rw [steps_add hsteps, hlast]
    rfl

/-- When passes are not empty and agree with the steps as long as these stay at rest, the passes get
to every state at rest, or beyond it in one more pass. -/
theorem exists_passes (hpos : ∀ s r, rest s → pass s = some r → 0 < r.2.2)
    (hpass : ∀ s r s'' o, rest s → pass s = some r → steps tick rest r.2.2 s = some (s'', o) →
      rest s'' → r.1 = s'' ∧ r.2.1 = o)
    (h : steps tick rest n s = some (s', o)) (hrest : rest s') :
    ∃ m s₁ o₁ n₁, passes rest pass m s = some (s₁, o₁, n₁) ∧
      steps tick rest n₁ s = some (s₁, o₁) ∧ rest s₁ ∧ n₁ ≤ n ∧
      ∀ r, pass s₁ = some r → n < n₁ + r.2.2 := by
  -- every state up to the last one is at rest
  have hall : ∀ a ≤ n, ∃ s'' o'', steps tick rest a s = some (s'', o'') ∧ rest s'' := by
    intro a ha
    by_cases hlast : a = n
    · exact ⟨s', o, hlast ▸ h, hrest⟩
    · exact rest_of_steps (by rw [h]; rfl) (by omega)
  have hloop : ∀ (gap m : ℕ) (s₁ : σ) (o₁ : List ω) (n₁ : ℕ),
      passes rest pass m s = some (s₁, o₁, n₁) → steps tick rest n₁ s = some (s₁, o₁) →
      rest s₁ → n₁ ≤ n → n - n₁ ≤ gap → ∃ m s₁ o₁ n₁, passes rest pass m s = some (s₁, o₁, n₁) ∧
        steps tick rest n₁ s = some (s₁, o₁) ∧ rest s₁ ∧ n₁ ≤ n ∧
        ∀ r, pass s₁ = some r → n < n₁ + r.2.2 := by
    intro gap
    induction gap with
    | zero =>
      intro m s₁ o₁ n₁ hp hs hr hle hgap
      refine ⟨m, s₁, o₁, n₁, hp, hs, hr, hle, fun r hpass' => ?_⟩
      have hlen := hpos s₁ r hr hpass'
      omega
    | succ gap ih =>
      intro m s₁ o₁ n₁ hp hs hr hle hgap
      by_cases hbeyond : ∀ r, pass s₁ = some r → n < n₁ + r.2.2
      · exact ⟨m, s₁, o₁, n₁, hp, hs, hr, hle, hbeyond⟩
      · obtain ⟨r, hr'⟩ := not_forall.1 hbeyond
        obtain ⟨hpass', hnot⟩ := Classical.not_imp.1 hr'
        have hlen := hpos s₁ r hr hpass'
        obtain ⟨s'', o'', hsteps, hrest''⟩ := hall (n₁ + r.2.2) (by omega)
        have hsplit := steps_add hs r.2.2
        rw [hsteps] at hsplit
        obtain ⟨⟨s₂, o₂⟩, hlast, he⟩ := Option.map_eq_some_iff.1 hsplit.symm
        cases he
        obtain ⟨hst, ho⟩ := hpass s₁ r s₂ o₂ hr hpass' hlast hrest''
        refine ih (m + 1) s₂ (o₁ ++ o₂) (n₁ + r.2.2) ?_ hsteps hrest'' (by omega) (by omega)
        rw [passes_succ hp hr, hpass', Option.map_some, hst, ho]
  obtain ⟨s'', o'', hzero, hrest₀⟩ := hall 0 (Nat.zero_le n)
  cases hzero
  exact hloop n 0 s [] 0 rfl rfl hrest₀ (Nat.zero_le n) (by omega)

end Stride
