import TamgaOs.Library.Run

/-!
# Operations that are executed statement by statement

Two systems for the same program: in the one every operation is a single step, in the other some
operations begin, go on for some steps of their own, and end. As long as nothing else comes between
the steps of an operation, the runs of the second system are runs of the first one.

## Main definitions

* `Splitting step fine I`: the operations of `fine`, each of which computes what it does in `step`,
  when it begins in a state that meets `I`.
* `Splitting.Whole`: nothing comes between the steps of an operation, and it meets a condition.
* `Splitting.note`, `Splitting.annotate`: the same with a record of the history, which is updated
  when an operation begins.

## Main results

* `Splitting.reach`: where no operation is under way, a run of whole operations is a run of the
  system with single steps.
-/

namespace Run

variable {σ α ω τ β γ : Type*} {step : σ → α → Option (σ × List ω)}
  {fine : τ → β → Option (τ × List ω)} {I : σ → Prop}

/-- The system `fine` executes the operations of `step`, some of them in several steps. -/
structure Splitting (step : σ → α → Option (σ × List ω)) (fine : τ → β → Option (τ × List ω))
    (I : σ → Prop) where
  /-- The state in which every operation is a single step. -/
  state : τ → σ
  /-- The operation that an action is or begins. -/
  op : β → Option α
  /-- An operation has begun and not ended. -/
  underWay : τ → Bool
  /-- The operation `a` has begun in the state `m` and has got to `t`. -/
  Mid : σ → α → τ → Prop
  enter : ∀ {t b a t' o}, underWay t = false → op b = some a → fine t b = some (t', o) →
    (underWay t' = false ∧ step (state t) a = some (state t', o)) ∨
      (underWay t' = true ∧ Mid (state t) a t' ∧ o = [])
  none_of_idle : ∀ {t b}, underWay t = false → op b = none → fine t b = none
  go_on : ∀ {m a t b t' o}, I m → Mid m a t → op b = none → fine t b = some (t', o) →
    o = [] ∧ ((underWay t' = true ∧ Mid m a t') ∨
      (underWay t' = false ∧ step m a = some (state t', [])))

namespace Splitting

variable (S : Splitting step fine I)

/-- Nothing comes between the steps of an operation, and each operation meets the condition where it
begins. -/
def Whole (ok : σ → α → Prop) (t : τ) (b : β) : Prop :=
  (S.underWay t = true → S.op b = none) ∧ ∀ a ∈ S.op b, ok (S.state t) a

instance (ok : σ → α → Prop) [∀ s a, Decidable (ok s a)] (t : τ) (b : β) :
    Decidable (S.Whole ok t b) :=
  have : Decidable (S.op b = none) :=
    match S.op b with
    | none => .isTrue rfl
    | some _ => .isFalse (Option.some_ne_none _)
  inferInstanceAs (Decidable ((S.underWay t = true → S.op b = none) ∧
    ∀ a ∈ S.op b, ok (S.state t) a))

/-- A record of the operations, in the system that splits them. -/
def note (note : σ → α → List ω → γ → γ) (t : τ) (b : β) (o : List ω) (g : γ) : γ :=
  match S.op b with
  | some a => note (S.state t) a o g
  | none => g

variable {S} {ok : σ → α → Prop} {t₀ t : τ} {out : List ω}

/-- A run of whole operations is a run of the system with single steps; in the middle of an operation
it is one up to where the operation has begun. -/
theorem reach_mid (hI : ∀ m out, Reach step ok (S.state t₀) m out → I m)
    (h₀ : S.underWay t₀ = false) (h : Reach fine (S.Whole ok) t₀ t out) :
    ∃ m, Reach step ok (S.state t₀) m out ∧
      ((S.underWay t = false ∧ m = S.state t) ∨
        (S.underWay t = true ∧ ∃ a, ok m a ∧ S.Mid m a t)) := by
  refine h.induct (I := fun t out => ∃ m, Reach step ok (S.state t₀) m out ∧
    ((S.underWay t = false ∧ m = S.state t) ∨
      (S.underWay t = true ∧ ∃ a, ok m a ∧ S.Mid m a t))) ⟨_, .init, .inl ⟨h₀, rfl⟩⟩ ?_
  rintro t t' b out o - ⟨m, hm, ⟨hidle, rfl⟩ | ⟨hunder, a, hoka, hmid⟩⟩ hok hst
  · cases hop : S.op b with
    | none => cases (S.none_of_idle hidle hop).symm.trans hst
    | some a =>
      have hoka := hok.2 a hop
      rcases S.enter hidle hop hst with ⟨hidle', hs⟩ | ⟨hunder', hmid, rfl⟩
      · exact ⟨_, hm.step hoka hs, .inl ⟨hidle', rfl⟩⟩
      · rw [List.append_nil]
        exact ⟨_, hm, .inr ⟨hunder', a, hoka, hmid⟩⟩
  · obtain ⟨rfl, ⟨hunder', hmid'⟩ | ⟨hidle', hs⟩⟩ :=
      S.go_on (hI m out hm) hmid (hok.1 hunder) hst
    · rw [List.append_nil]
      exact ⟨m, hm, .inr ⟨hunder', a, hoka, hmid'⟩⟩
    · exact ⟨_, hm.step hoka hs, .inl ⟨hidle', rfl⟩⟩

/-- Where no operation is under way, a run of whole operations is a run of the system with single
steps. -/
theorem reach (hI : ∀ m out, Reach step ok (S.state t₀) m out → I m)
    (h₀ : S.underWay t₀ = false) (h : Reach fine (S.Whole ok) t₀ t out)
    (ht : S.underWay t = false) : Reach step ok (S.state t₀) (S.state t) out := by
  obtain ⟨m, hm, ⟨-, rfl⟩ | ⟨hunder, -⟩⟩ := reach_mid hI h₀ h
  · exact hm
  · rw [ht] at hunder
    cases hunder

/-! ### With a record -/

variable (S)

/-- The splitting of the operations with a record of their history. -/
def annotate (f : σ → α → List ω → γ → γ) :
    Splitting (Run.annotate step f) (Run.annotate fine (S.note f)) fun p : σ × γ => I p.1 where
  state p := (S.state p.1, p.2)
  op := S.op
  underWay p := S.underWay p.1
  Mid p a q := S.Mid p.1 a q.1 ∧ q.2 = f p.1 a [] p.2
  enter := by
    rintro ⟨t, g⟩ b a ⟨t', g'⟩ o hidle hop hst
    obtain ⟨hfine, rfl⟩ := annotate_eq_some.1 hst
    have hnote : S.note f t b o g = f (S.state t) a o g := by
      unfold note
      rw [hop]
    rw [hnote]
    rcases S.enter hidle hop hfine with ⟨hidle', hs⟩ | ⟨hunder, hmid, rfl⟩
    · exact .inl ⟨hidle', annotate_eq_some.2 ⟨hs, rfl⟩⟩
    · exact .inr ⟨hunder, ⟨hmid, rfl⟩, rfl⟩
  none_of_idle := by
    rintro ⟨t, g⟩ b hidle hop
    unfold Run.annotate
    rw [S.none_of_idle hidle hop]
    rfl
  go_on := by
    rintro ⟨m, g₀⟩ a ⟨t, g⟩ b ⟨t', g'⟩ o hI ⟨hmid, hg⟩ hop hst
    obtain ⟨hfine, rfl⟩ := annotate_eq_some.1 hst
    have hnote : S.note f t b o g = g := by
      unfold note
      rw [hop]
    rw [hnote]
    obtain ⟨rfl, ⟨hunder, hmid'⟩ | ⟨hidle', hs⟩⟩ := S.go_on hI hmid hop hfine
    · exact ⟨rfl, .inl ⟨hunder, hmid', hg⟩⟩
    · exact ⟨rfl, .inr ⟨hidle', annotate_eq_some.2 ⟨hs, hg⟩⟩⟩

end Splitting

end Run
