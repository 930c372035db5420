import Mathlib.Tactic.TypeStar

/-!
# Runs of a deterministic labelled system

A system is a step function `step : σ → α → Option (σ × List ω)`: in the state `s` the action `a`
is either not possible, or leads to one state and reports a list of observations. All
nondeterminism is in the choice of the actions. A condition `ok s a` on the state before a step
and its action restricts the runs that are considered.

## Main definitions

* `Reach step ok s₀ s out`: some run from `s₀` whose steps all meet `ok` ends in `s`, and `out`
  lists what its steps have reported.
* `exec step s as`: the run along the actions `as`.
* `Permitted step ok s as`: these actions all meet the condition.
* `annotate step note`: the same system with a record of its history beside the state.
* `interleave step step'`: two systems side by side.

## Main results

* `Reach.induct`: a property of states and reports that holds initially and is preserved by every
  step holds along every run.
* `Reach.mono`: a weaker condition admits more runs.
* `Reach.of_exec`, `Reach.exec`: a run given by its actions.
* `Reach.annotate`, `Reach.of_annotate`: the runs with a record are the runs of the system.
* `Reach.left`, `Reach.right`: an interleaved run is a run of either system.
-/

namespace Run

variable {σ α ω : Type*}

/-- Some run from `s₀` whose steps all meet `ok` ends in `s` and has reported `out`. -/
inductive Reach (step : σ → α → Option (σ × List ω)) (ok : σ → α → Prop) (s₀ : σ) :
    σ → List ω → Prop
  | init : Reach step ok s₀ s₀ []
  | step {s s' : σ} {a : α} {out o : List ω} (hs : Reach step ok s₀ s out) (hok : ok s a)
      (hstep : step s a = some (s', o)) : Reach step ok s₀ s' (out ++ o)

namespace Reach

variable {step : σ → α → Option (σ × List ω)} {ok ok' : σ → α → Prop} {s₀ s : σ} {out : List ω}

/-- The invariant rule for properties of the states and of what has been reported so far. -/
theorem induct {I : σ → List ω → Prop} (h : Reach step ok s₀ s out) (h₀ : I s₀ [])
    (hstep : ∀ s s' a out o, Reach step ok s₀ s out → I s out → ok s a →
      step s a = some (s', o) → I s' (out ++ o)) : I s out := by
  induction h with
  | init => exact h₀
  | step hs hok hst ih => exact hstep _ _ _ _ _ hs ih hok hst

/-- The invariant rule for properties of the states. -/
theorem invariant {I : σ → Prop} (h : Reach step ok s₀ s out) (h₀ : I s₀)
    (hstep : ∀ s s' a o, I s → ok s a → step s a = some (s', o) → I s') : I s :=
  h.induct (I := fun s _ => I s) h₀ fun s s' a _ o _ hI hok hst => hstep s s' a o hI hok hst

/-- A run whose steps meet a condition meets every condition that these steps imply. -/
theorem mono (h : Reach step ok s₀ s out)
    (himp : ∀ s out a, Reach step ok s₀ s out → ok s a → ok' s a) :
    Reach step ok' s₀ s out := by
  induction h with
  | init => exact .init
  | step hs hok hst ih => exact .step ih (himp _ _ _ hs hok) hst

end Reach

/-- The run along a list of actions: the state reached and what has been reported. -/
def exec (step : σ → α → Option (σ × List ω)) (s : σ) : List α → Option (σ × List ω)
  | [] => some (s, [])
  | a :: as =>
    match step s a with
    | some (s', o) =>
      match exec step s' as with
      | some (s'', o') => some (s'', o ++ o')
      | none => none
    | none => none

/-- Every action of the list meets `ok` in the state that it is executed in. -/
def Permitted (step : σ → α → Option (σ × List ω)) (ok : σ → α → Prop) : σ → List α → Prop
  | _, [] => True
  | s, a :: as => ok s a ∧ ∀ r, step s a = some r → Permitted step ok r.1 as

namespace Permitted

variable {step : σ → α → Option (σ × List ω)} {ok ok' : σ → α → Prop}

instance decidable [∀ s a, Decidable (ok s a)] :
    ∀ (as : List α) (s : σ), Decidable (Permitted step ok s as)
  | [], _ => inferInstanceAs (Decidable True)
  | a :: as, s =>
    have : Decidable (∀ r, step s a = some r → Permitted step ok r.1 as) :=
      match step s a with
      | none => .isTrue fun r he => (Option.some_ne_none r he.symm).elim
      | some r =>
        have := decidable as r.1
        decidable_of_iff (Permitted step ok r.1 as)
          ⟨fun h _ he => Option.some.inj he ▸ h, fun h => h r rfl⟩
    inferInstanceAs (Decidable (ok s a ∧ ∀ r, step s a = some r → Permitted step ok r.1 as))

/-- Actions that are allowed in every state. -/
theorem of_forall : ∀ {as : List α} (s : σ), (∀ a ∈ as, ∀ s, ok s a) → Permitted step ok s as
  | [], _, _ => trivial
  | a :: _, s, h =>
    ⟨h a List.mem_cons_self s, fun r _ =>
      of_forall r.1 fun b hb => h b (List.mem_cons_of_mem a hb)⟩

theorem and : ∀ {as : List α} {s : σ}, Permitted step ok s as → Permitted step ok' s as →
    Permitted step (fun s a => ok s a ∧ ok' s a) s as
  | [], _, _, _ => trivial
  | _ :: _, _, h, h' => ⟨⟨h.1, h'.1⟩, fun r hr => (h.2 r hr).and (h'.2 r hr)⟩

end Permitted

namespace Reach

variable {step : σ → α → Option (σ × List ω)} {ok : σ → α → Prop} {s₀ : σ}

/-- A list of permitted actions continues a run. -/
theorem of_exec : ∀ {as : List α} {s s' : σ} {out o : List ω}, Reach step ok s₀ s out →
    Permitted step ok s as → exec step s as = some (s', o) → Reach step ok s₀ s' (out ++ o)
  | [], s, s', out, o, hs, _, he => by
    obtain ⟨rfl, rfl⟩ : s = s' ∧ [] = o := by simpa [Run.exec] using he
    simpa using hs
  | a :: as, s, s', out, o, hs, hok, he => by
    simp only [Run.exec] at he
    split at he
    · rename_i s₁ o₁ hst
      split at he
      · rename_i s₂ o₂ hrest
        obtain ⟨rfl, rfl⟩ : s₂ = s' ∧ o₁ ++ o₂ = o := by simpa using he
        rw [← List.append_assoc]
        exact of_exec (hs.step hok.1 hst) (hok.2 _ hst) hrest
      · cases he
    · cases he

/-- A run goes on along a list of actions that are all possible and permitted. -/
theorem continue_exec {as : List α} {s : σ} {out : List ω} (hs : Reach step ok s₀ s out)
    (hok : Permitted step ok s as) (h : (Run.exec step s as).isSome) :
    Reach step ok s₀ ((Run.exec step s as).get h).1
      (out ++ ((Run.exec step s as).get h).2) :=
  of_exec hs hok (Option.some_get h).symm

/-- The run along a list of actions that are all possible and permitted. -/
theorem exec {as : List α} (hok : Permitted step ok s₀ as) (h : (exec step s₀ as).isSome) :
    Reach step ok s₀ ((exec step s₀ as).get h).1 ((exec step s₀ as).get h).2 := by
  have he : Run.exec step s₀ as = some
      (((Run.exec step s₀ as).get h).1, ((Run.exec step s₀ as).get h).2) := (Option.some_get h).symm
  simpa using of_exec .init hok he

end Reach

/-! ### Recording the history -/

section Annotate

variable {γ : Type*} {step : σ → α → Option (σ × List ω)} {note : σ → α → List ω → γ → γ}
  {ok : σ → α → Prop} {ok' : σ × γ → α → Prop} {s₀ s : σ} {g₀ g : γ} {out : List ω}

/-- The system beside which `note` keeps a record of the steps. The record has no influence on the
steps. -/
def annotate (step : σ → α → Option (σ × List ω)) (note : σ → α → List ω → γ → γ) (p : σ × γ)
    (a : α) : Option ((σ × γ) × List ω) :=
  (step p.1 a).map fun r => ((r.1, note p.1 a r.2 p.2), r.2)

theorem annotate_eq_some {s' : σ} {g' : γ} {a : α} {o : List ω} :
    annotate step note (s, g) a = some ((s', g'), o) ↔
      step s a = some (s', o) ∧ g' = note s a o g := by
  constructor
  · intro h
    obtain ⟨⟨s₁, o₁⟩, hs, he⟩ := Option.map_eq_some_iff.1 h
    cases he
    exact ⟨hs, rfl⟩
  · rintro ⟨hs, rfl⟩
    exact Option.map_eq_some_iff.2 ⟨_, hs, rfl⟩

/-- A run with a record is a run. -/
theorem Reach.of_annotate (h : Reach (annotate step note) ok' (s₀, g₀) (s, g) out)
    (hok : ∀ s g a, ok' (s, g) a → ok s a) : Reach step ok s₀ s out := by
  have hrun : Reach step ok s₀ (s, g).1 out := by
    refine h.induct (I := fun p out => Reach step ok s₀ p.1 out) .init ?_
    rintro ⟨s, g⟩ ⟨s', g'⟩ a out o - hI hoka hs
    exact hI.step (hok s g a hoka) (annotate_eq_some.1 hs).1
  exact hrun

/-- Every run has a record. -/
theorem Reach.annotate (h : Reach step ok s₀ s out) (g₀ : γ) :
    ∃ g, Reach (annotate step note) (fun p a => ok p.1 a) (s₀, g₀) (s, g) out := by
  induction h with
  | init => exact ⟨g₀, .init⟩
  | step _ hok hs ih =>
    obtain ⟨g, hg⟩ := ih
    exact ⟨_, hg.step hok (annotate_eq_some.2 ⟨hs, rfl⟩)⟩

/-- A record does not influence which runs are possible. -/
theorem isSome_exec_annotate : ∀ (as : List α) (s : σ) (g : γ),
    (exec (annotate step note) (s, g) as).isSome = (exec step s as).isSome
  | [], _, _ => rfl
  | a :: as, s, g => by
    simp only [exec, annotate]
    cases step s a with
    | none => rfl
    | some r =>
      have ih := isSome_exec_annotate as r.1 (note s a r.2 g)
      revert ih
      simp only [Option.map_some]
      cases exec step r.1 as <;> cases exec (annotate step note) (r.1, note s a r.2 g) as <;>
        intro ih <;> first | rfl | cases ih

end Annotate

/-! ### Two systems side by side -/

section Interleave

variable {τ β ψ : Type*} {step : σ → α → Option (σ × List ω)} {step' : τ → β → Option (τ × List ψ)}
  {ok : σ × τ → α ⊕ β → Prop} {ok₁ : σ → α → Prop} {ok₂ : τ → β → Prop} {p₀ p : σ × τ}
  {out : List (ω ⊕ ψ)}

/-- Each step is one of either system. -/
def interleave (step : σ → α → Option (σ × List ω)) (step' : τ → β → Option (τ × List ψ))
    (p : σ × τ) : α ⊕ β → Option ((σ × τ) × List (ω ⊕ ψ))
  | .inl a => (step p.1 a).map fun r => ((r.1, p.2), r.2.map .inl)
  | .inr b => (step' p.2 b).map fun r => ((p.1, r.1), r.2.map .inr)

theorem filterMap_getLeft?_inl (o : List ω) :
    (o.map (fun x : ω => (Sum.inl x : ω ⊕ ψ))).filterMap Sum.getLeft? = o := by
  rw [List.filterMap_map]
  exact List.filterMap_some

theorem filterMap_getLeft?_inr (o : List ψ) :
    (o.map (fun x : ψ => (Sum.inr x : ω ⊕ ψ))).filterMap Sum.getLeft? = [] := by
  rw [List.filterMap_map]
  exact List.filterMap_eq_nil_iff.mpr fun _ _ => rfl

theorem filterMap_getRight?_inl (o : List ω) :
    (o.map (fun x : ω => (Sum.inl x : ω ⊕ ψ))).filterMap Sum.getRight? = [] := by
  rw [List.filterMap_map]
  exact List.filterMap_eq_nil_iff.mpr fun _ _ => rfl

theorem filterMap_getRight?_inr (o : List ψ) :
    (o.map (fun x : ψ => (Sum.inr x : ω ⊕ ψ))).filterMap Sum.getRight? = o := by
  rw [List.filterMap_map]
  exact List.filterMap_some

/-- What the first system does in an interleaved run is a run of it. -/
theorem Reach.left (h : Reach (interleave step step') ok p₀ p out)
    (hok : ∀ p a, ok p (.inl a) → ok₁ p.1 a) :
    Reach step ok₁ p₀.1 p.1 (out.filterMap Sum.getLeft?) := by
  refine h.induct (I := fun p out => Reach step ok₁ p₀.1 p.1 (out.filterMap Sum.getLeft?)) .init ?_
  intro p p' a out o _ hI hoka hs
  rw [List.filterMap_append]
  cases a with
  | inl a =>
    obtain ⟨r, hr, heq⟩ := Option.map_eq_some_iff.1 hs
    cases heq
    rw [filterMap_getLeft?_inl]
    exact hI.step (hok p a hoka) hr
  | inr b =>
    obtain ⟨r, hr, heq⟩ := Option.map_eq_some_iff.1 hs
    cases heq
    rw [filterMap_getLeft?_inr, List.append_nil]
    exact hI

/-- What the second system does in an interleaved run is a run of it. -/
theorem Reach.right (h : Reach (interleave step step') ok p₀ p out)
    (hok : ∀ p b, ok p (.inr b) → ok₂ p.2 b) :
    Reach step' ok₂ p₀.2 p.2 (out.filterMap Sum.getRight?) := by
  refine h.induct (I := fun p out => Reach step' ok₂ p₀.2 p.2 (out.filterMap Sum.getRight?)) .init ?_
  intro p p' a out o _ hI hoka hs
  rw [List.filterMap_append]
  cases a with
  | inl a =>
    obtain ⟨r, hr, heq⟩ := Option.map_eq_some_iff.1 hs
    cases heq
    rw [filterMap_getRight?_inl, List.append_nil]
    exact hI
  | inr b =>
    obtain ⟨r, hr, heq⟩ := Option.map_eq_some_iff.1 hs
    cases heq
    rw [filterMap_getRight?_inr]
    exact hI.step (hok p b hoka) hr

end Interleave

end Run
