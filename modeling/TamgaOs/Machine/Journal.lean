import TamgaOs.Machine.Step

/-!
# A journal of the calls

Beside the state of the machine a journal keeps, for every context, the kernel call that it has made
last, what the steps of this call have reported, and how many milliseconds have passed since. The
machine does not read its journal.

## Main definitions

* `CallRecord`, `Machine.journal`: a record, and how an action changes the journal.
* `Machine.logged`: the machine with its journal.

## Main results

* `Machine.journal_invariant`: the invariant rule for what a context has reported in its call.
-/

namespace TamgaOs

/-- What is known about the last call of a context. -/
structure CallRecord where
  call : Call
  reports : List Obs := []
  /-- The milliseconds that have passed since the call. -/
  elapsed : ℕ := 0

namespace CallRecord

/-- A step of the call has reported `o`. -/
def report (r : CallRecord) (o : List Obs) : CallRecord := { r with reports := r.reports ++ o }

/-- Time passes. -/
def pass (r : CallRecord) (n : ℕ) : CallRecord := { r with elapsed := r.elapsed + n }

end CallRecord

namespace Machine

/-- The journal after an action. -/
def journal (m : Machine) (a : Action) (o : List Obs) (log : Ctx → Option CallRecord) :
    Ctx → Option CallRecord :=
  match a with
  | .call c =>
    match m.active with
    | some x => Function.update log x (some { call := c })
    | none => log
  | .irq c => Function.update log (.isr m.depth) (some { call := c })
  | .exec =>
    match m.active with
    | some x => Function.update log x ((log x).map fun r => r.report o)
    | none => log
  | .clock n => fun x => (log x).map fun r => r.pass n
  | .tick _ | .pendSV => log

/-- The machine with its journal. -/
def logged : Machine × (Ctx → Option CallRecord) → Action →
    Option ((Machine × (Ctx → Option CallRecord)) × List Obs) :=
  Run.annotate step journal

/-- The machine that starts, with an empty journal. -/
def startLogged (cfg : Config) : Machine × (Ctx → Option CallRecord) := (start cfg, fun _ => none)

variable {m m' : Machine} {log : Ctx → Option CallRecord} {a : Action} {o out : List Obs}

/-- A relation between program points and records that holds at the entry of every call and is kept
by the steps of the calls and by the clock holds along every run. -/
theorem journal_invariant {cfg : Config}
    {ok : Machine × (Ctx → Option CallRecord) → Action → Prop}
    {R : Ctl → Option CallRecord → Prop} (happ : R .app none)
    (hentry : ∀ c, R c.entry (some { call := c }))
    (hstep : ∀ k t c k' c' o r, ctlStep k t c = some (k', c', o) → R c r →
      R c' (r.map fun r => r.report o))
    (hclock : ∀ c r n, R c r → R c (r.map fun r => r.pass n))
    (h : Run.Reach logged ok (startLogged cfg) (m, log) out) (x : Ctx) : R (m.ctl x) (log x) := by
  have hall : ∀ x, R ((m, log).1.ctl x) ((m, log).2 x) := by
    refine h.invariant (I := fun p => ∀ x, R (p.1.ctl x) (p.2 x)) (fun _ => happ) ?_
    rintro ⟨m, log⟩ ⟨m', log'⟩ a o hI - hs x
    obtain ⟨hst, he⟩ := Run.annotate_eq_some.1 hs
    have hx : R (m.ctl x) (log x) := hI x
    subst he
    change R (m'.ctl x) (m.journal a o log x)
    have hset : ∀ {y : Ctx} {c : Ctl} {r : Option CallRecord}, R c r →
        R (Function.update m.ctl y c x) (Function.update log y r x) := by
      intro y c r hr
      rw [Function.update_apply, Function.update_apply]
      split_ifs
      · exact hr
      · exact hx
    rcases Machine.step_cases hst with ⟨c, i, rfl, hact, -, rfl, -⟩ |
      ⟨y, t, k', c', rfl, hact, ht, hstep', rfl⟩ | ⟨c, rfl, -, rfl, -⟩ | ⟨rfl, -, -, rfl, -⟩ |
      ⟨n, rfl, rfl, -⟩ | ⟨n, k', rfl, -, rfl, -⟩
    · simp only [journal, hact]
      exact hset (hentry c)
    · simp only [journal, hact, ctl_resume]
      exact hset (hstep _ _ _ _ _ _ _ hstep' (hI y))
    · exact hset (hentry c)
    · exact hx
    · exact hclock _ _ n hx
    · exact hx
  exact hall x

end Machine

end TamgaOs
