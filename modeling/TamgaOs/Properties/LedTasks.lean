import TamgaOs.Programs.LedTasks
import TamgaOs.Properties.SemaphoreTokens

/-!
# The LEDs take turns

There is one token: it belongs to a task from its take to its give, and lies in one of the two
semaphores in between. The abstract model is the cycle that the token goes through, and the tasks on
the machine refine it: a step of theirs leaves the cycle where it is or goes one phase further.

## Main definitions

* `Turn`, `Turn.next`: the cycle.
* `Led.outside`, `Leds.phase`: in which phase a task is.
* `Leds.Sound`, `Leds.At`: the invariant, and the refinement.

## Main results

* `Leds.step_goes`: a step goes one phase further, or stays.
* `leds_alternate`: the LEDs are lit in turns, never both at once, no give finds its semaphore full,
  and the two tasks never wait for each other.
-/

namespace TamgaOs

/-! ### The cycle -/

/-- What a task does between its take and its give, or that it has no token. -/
inductive LedPhase
  | waiting
  | fresh
  | shining
  | spent
  deriving DecidableEq

/-- Where the token is: with a task, or in the semaphore that a task takes. -/
inductive Turn
  | fresh (l : Led)
  | shining (l : Led)
  | spent (l : Led)
  | passed (l : Led)

namespace Led

@[simp] theorem takes_other (l : Led) : l.other.takes = l.gives := by cases l <;> rfl

theorem other_ne (l : Led) : l.other ≠ l := by cases l <;> exact Led.noConfusion

theorem eq_or_eq_other (l l' : Led) : l' = l ∨ l' = l.other := by
  cases l <;> cases l' <;> first | exact .inl rfl | exact .inr rfl

theorem takes_ne_gives (l : Led) : l.takes ≠ l.gives := by cases l <;> decide

theorem takes_inj {l l' : Led} (h : l.takes = l'.takes) : l = l' := by
  cases l <;> cases l' <;> first | rfl | cases h

theorem task_inj {l l' : Led} (h : l.task = l'.task) : l = l' := by
  cases l <;> cases l' <;> first | rfl | cases h

/-- The order in which the LEDs are lit. -/
def nth (n : ℕ) : Led := if n % 2 = 0 then .red else .blue

theorem nth_succ (n : ℕ) : nth (n + 1) = (nth n).other := by
  unfold nth
  split_ifs <;> first | rfl | omega

end Led

namespace Turn

variable (t : Turn) (l : Led)

/-- The phase of a task. -/
def phase : Turn → Led → LedPhase
  | fresh l, l' => if l' = l then .fresh else .waiting
  | shining l, l' => if l' = l then .shining else .waiting
  | spent l, l' => if l' = l then .spent else .waiting
  | passed _, _ => .waiting

/-- The count of the semaphore that a task takes. -/
def count : Turn → Led → ℤ
  | passed l, l' => if l' = l then 1 else 0
  | _, _ => 0

def next : Turn → Turn
  | fresh l => shining l
  | shining l => spent l
  | spent l => passed l.other
  | passed l => fresh l

/-- The LED that is lit on the way to the next phase. -/
def lights : Turn → List Led
  | fresh l => [l]
  | _ => []

/-- The LED that is lit next. -/
def due : Turn → Led
  | fresh l | passed l => l
  | shining l | spent l => l.other

/-- The cycle stays where it is, or goes one phase further. -/
def Goes (t t' : Turn) (ls : List Led) : Prop := t' = t ∧ ls = [] ∨ t' = t.next ∧ ls = t.lights

variable {t l}

theorem eq_of_phase {t : Turn} (h : t.phase l ≠ .waiting) :
    t.phase l = .fresh ∧ t = .fresh l ∨ t.phase l = .shining ∧ t = .shining l ∨
      t.phase l = .spent ∧ t = .spent l := by
  cases t with
  | fresh u | shining u | spent u =>
    by_cases hu : l = u
    · subst hu
      simp [phase]
    · exact absurd (if_neg hu) h
  | passed u => exact absurd rfl h

theorem eq_of_count {t : Turn} (h : 0 < t.count l) : t = .passed l := by
  cases t with
  | fresh u | shining u | spent u => exact absurd h (Int.lt_irrefl 0)
  | passed u =>
    by_cases hu : l = u
    · rw [hu]
    · rw [count, if_neg hu] at h
      exact absurd h (by decide)

theorem eq_of_shining {t : Turn} (h : t.phase l = .shining) : t = .shining l := by
  rcases eq_of_phase (by rw [h]; decide) with ⟨hp, -⟩ | ⟨-, rfl⟩ | ⟨hp, -⟩
  · rw [h] at hp
    cases hp
  · rfl
  · rw [h] at hp
    cases hp

/-- When no task has the token, it lies in a semaphore. -/
theorem exists_passed {t : Turn} (h : ∀ l, t.phase l = .waiting) : ∃ l, 0 < t.count l := by
  cases t with
  | fresh l | shining l | spent l => exact absurd ((if_pos rfl).symm.trans (h l)) (by decide)
  | passed l => exact ⟨l, by rw [count, if_pos rfl]; decide⟩

/-- The lights follow the order. -/
theorem Goes.due_eq {t t' : Turn} {ls : List Led} (h : t.Goes t' ls) {n : ℕ}
    (hn : t.due = Led.nth n) :
    t'.due = Led.nth (n + ls.length) ∧ ls = (List.range' n ls.length).map Led.nth := by
  rcases h with ⟨rfl, rfl⟩ | ⟨rfl, rfl⟩
  · exact ⟨hn, rfl⟩
  · cases t with
    | fresh l =>
      have hl : l = Led.nth n := hn
      refine ⟨?_, congrArg (fun x => [x]) hl⟩
      rw [lights, List.length_singleton, Led.nth_succ, ← hl]
      rfl
    | shining l | spent l | passed l => exact ⟨hn, rfl⟩

end Turn

/-- What a task can do on its own: `c` are the counts of the semaphores that the tasks take. -/
inductive LedMove (l : Led) : LedPhase → LedPhase → (Led → ℤ) → (Led → ℤ) → List Led → Prop
  | stay {p : LedPhase} {c : Led → ℤ} : LedMove l p p c c []
  | light {c : Led → ℤ} : LedMove l .fresh .shining c c [l]
  | darken {c : Led → ℤ} : LedMove l .shining .spent c c []
  | give {c c' : Led → ℤ} (hgives : c' l.other = c l.other + if c l.other < 1 then 1 else 0)
      (hsame : c' l = c l) : LedMove l .spent .waiting c c' []
  | take {c c' : Led → ℤ} (hpos : 0 < c l) (htakes : c' l = c l - 1)
      (hsame : c' l.other = c l.other) : LedMove l .waiting .fresh c c' []

/-- A move of a task is a step of the cycle. -/
theorem LedMove.goes {l : Led} {p p' : LedPhase} {c c' : Led → ℤ} {ls : List Led} {t : Turn}
    (h : LedMove l p p' c c' ls) (hp : t.phase l = p) (hc : ∀ l, t.count l = c l) :
    ∃ t', t.Goes t' ls ∧ t'.phase l = p' ∧ t'.phase l.other = t.phase l.other ∧
      ∀ l, t'.count l = c' l := by
  have hother := l.other_ne
  cases h with
  | stay => exact ⟨t, .inl ⟨rfl, rfl⟩, hp, rfl, hc⟩
  | light =>
    rcases t.eq_of_phase (by rw [hp]; decide) with ⟨-, rfl⟩ | ⟨hq, -⟩ | ⟨hq, -⟩
    · refine ⟨_, .inr ⟨rfl, rfl⟩, if_pos rfl, ?_, hc⟩
      rw [Turn.next, Turn.phase, Turn.phase, if_neg hother, if_neg hother]
    all_goals rw [hp] at hq; cases hq
  | darken =>
    rcases t.eq_of_phase (by rw [hp]; decide) with ⟨hq, -⟩ | ⟨-, rfl⟩ | ⟨hq, -⟩
    · rw [hp] at hq; cases hq
    · refine ⟨_, .inr ⟨rfl, rfl⟩, if_pos rfl, ?_, hc⟩
      rw [Turn.next, Turn.phase, Turn.phase, if_neg hother, if_neg hother]
    · rw [hp] at hq; cases hq
  | give hgives hsame =>
    rcases t.eq_of_phase (by rw [hp]; decide) with ⟨hq, -⟩ | ⟨hq, -⟩ | ⟨-, rfl⟩
    · rw [hp] at hq; cases hq
    · rw [hp] at hq; cases hq
    · have hzero : ∀ u, c u = 0 := fun u => (hc u).symm
      rw [hzero l.other, if_pos (by decide)] at hgives
      refine ⟨_, .inr ⟨rfl, rfl⟩, rfl, (if_neg hother).symm, fun u => ?_⟩
      rcases l.eq_or_eq_other u with rfl | rfl
      · rw [hsame, hzero]
        exact if_neg hother.symm
      · rw [hgives]
        exact if_pos rfl
  | take hpos htakes hsame =>
    obtain rfl := t.eq_of_count (by rw [hc]; exact hpos)
    refine ⟨_, .inr ⟨rfl, rfl⟩, if_pos rfl, if_neg hother, fun u => ?_⟩
    rcases l.eq_or_eq_other u with rfl | rfl
    · rw [htakes, ← hc, Turn.count, if_pos rfl]
      rfl
    · rw [hsame, ← hc, Turn.count, if_neg hother]
      rfl

/-! ### The phase of a task -/

namespace LedStmt

/-- The statement is about the LED or a semaphore. -/
def acts : LedStmt → Bool
  | delay _ | puts _ => false
  | _ => true

end LedStmt

namespace Led

variable (l : Led)

/-- The phase of a task outside its calls: it depends on what it does next. -/
def outside (todo : List LedStmt) : LedPhase :=
  match (todo ++ l.body).find? LedStmt.acts with
  | some .pcor => .fresh
  | some .psor => .shining
  | some .give => .spent
  | _ => .waiting

/-- The phase of a task. It keeps the token during the call that gives it. -/
def phase (todo : List LedStmt) : Ctl → LedPhase
  | .sem (.give _) => .spent
  | .sem (.take _ _) | .sem (.blocked _) => .waiting
  | _ => l.outside todo

/-- What the next statement does. -/
def Follows : List LedStmt → Prop
  | [] => l.outside l.body = l.outside []
  | .pcor :: rest => l.outside (.pcor :: rest) = .fresh ∧ l.outside rest = .shining
  | .psor :: rest => l.outside (.psor :: rest) = .shining ∧ l.outside rest = .spent
  | .give :: rest => l.outside (.give :: rest) = .spent ∧ l.outside rest = .waiting
  | .take :: rest => l.outside (.take :: rest) = .waiting ∧ l.outside rest = .fresh
  | .delay ms :: rest => l.outside rest = l.outside (.delay ms :: rest)
  | .puts text :: rest => l.outside rest = l.outside (.puts text :: rest)

instance : DecidablePred l.Follows
  | [] => inferInstanceAs (Decidable (_ = _))
  | .pcor :: _ | .psor :: _ | .give :: _ | .take :: _ => inferInstanceAs (Decidable (_ ∧ _))
  | .delay _ :: _ | .puts _ :: _ => inferInstanceAs (Decidable (_ = _))

variable {l} {todo : List LedStmt}

theorem follows (h : todo ∈ l.body.tails) : l.Follows todo := by
  revert todo
  cases l <;> decide +kernel

theorem tail_mem {stmt : LedStmt} {rest : List LedStmt} (h : stmt :: rest ∈ l.body.tails) :
    rest ∈ l.body.tails := by
  rw [List.mem_tails] at h ⊢
  exact (List.suffix_cons stmt rest).trans h

variable (l todo)

/-- The calls that a task makes, and what follows them. -/
def OwnCall : Ctl → Prop
  | .app | .sched _ | .sem (.given _) | .sem (.taken _) => True
  | .sem (.give s) => s = l.gives ∧ l.outside todo = .waiting
  | .sem (.take s _) | .sem (.blocked s) => s = l.takes ∧ l.outside todo = .fresh
  | _ => False

variable {l todo}

theorem phase_of_atRest {c : Ctl} (h : c.atRest = true) : l.phase todo c = l.outside todo := by
  unfold phase
  split
  · cases h
  · cases h
  · cases h
  · rfl

theorem ownCall_of_atRest {c : Ctl} {todo' : List LedStmt} (h : c.atRest = true)
    (hown : l.OwnCall todo c) : l.OwnCall todo' c := by
  unfold OwnCall at hown ⊢
  split at hown <;> trivial

end Led

/-- The LED that is lit. -/
def LedObs.light : LedObs → Option Led
  | lit l => some l
  | _ => none

/-- The context is in a call that uses one of the two semaphores. -/
def Ctl.usesLedSem : Ctl → Bool
  | .sem (.take s _) | .sem (.blocked s) | .sem (.give s) | .sem (.trytake s) => decide (s = 0 ∨ s = 1)
  | _ => false

theorem Call.usesLedSem_entry (c : Call) : c.entry.usesLedSem = c.usesLedSem := by cases c <;> rfl

theorem Led.uses_takes (l : Led) : l.takes = 0 ∨ l.takes = 1 := by cases l <;> decide

theorem Led.uses_gives (l : Led) : l.gives = 0 ∨ l.gives = 1 := by cases l <;> decide

namespace Leds

variable (s : Leds) (l : Led)

def ctl : Ctl := s.machine.ctl (.thread l.task)

def phase : LedPhase := l.phase (s.todo l) (s.ctl l)

/-- The count of the semaphore that a task takes. -/
def count : ℤ := (s.machine.kernel.sem l.takes).count

/-- The tasks are in their loops and make no other calls, and nobody else uses their semaphores. -/
structure Sound : Prop where
  todo : ∀ l, s.todo l ∈ l.body.tails
  own : ∀ l : Led, l.OwnCall (s.todo l) (s.ctl l)
  apart : ∀ x, (∀ l : Led, x ≠ .thread l.task) → (s.machine.ctl x).usesLedSem = false
  max : ∀ l : Led, (s.machine.kernel.sem l.takes).max = 1
  lit : ∀ l, s.IsLit l → s.phase l = .shining

/-- The state is at a point of the cycle. -/
def At (t : Turn) : Prop := ∀ l, t.phase l = s.phase l ∧ t.count l = s.count l

theorem sound_start : start.Sound where
  todo _ := (List.mem_tails _ _).2 List.nil_suffix
  own l := trivial
  apart x _ := rfl
  max l := by
    have hsem : start.machine.kernel.sem = k64fMain.sem := k64fMain.fresh_created.sem
    rw [hsem]
    rfl
  lit l h := absurd h (by cases l <;> decide)

theorem at_start : start.At (.fresh .red) := by
  have hsem : start.machine.kernel.sem = k64fMain.sem := k64fMain.fresh_created.sem
  intro l
  refine ⟨by cases l <;> rfl, ?_⟩
  rw [count, hsem]
  cases l <;> rfl

end Leds

/-! ### The steps of the kernel calls -/

section Calls

variable {k k' : Kernel} {t : TaskPtr} {o : List Obs}

/-- A step of a semaphore call reports about its semaphore only, and a give whether it is lost. -/
theorem semStep_reports {c c' : SemCtl} (h : semStep k t c = some (k', c', o)) :
    ∀ b ∈ o, b = .semTaken c.index ∨
      c = .give c.index ∧ b = .semGiven c.index (k.semGiveDropped c.index) := by
  cases c with
  | take s retry | trytake s =>
    simp only [semStep] at h
    split at h <;> cases h <;> simp [SemCtl.index]
  | blocked s | give s =>
    cases h
    simp [SemCtl.index]
  | taken s | given s | trytaken s r => cases h

/-- A step of a call of another module. -/
theorem ctlStep_quiet_sem {c c' : Ctl} (hF : c.family ≠ some .sem)
    (h : ctlStep k t c = some (k', c', o)) :
    c'.family ≠ some .sem ∧ k'.sem = k.sem ∧ ∀ b ∈ o, b.family ≠ .sem := by
  obtain ⟨F, hF', hstores⟩ := ctlStep_family_stores h
  have hne : F ≠ .sem := fun he => hF (he ▸ hF')
  exact ⟨Ctl.family_ctlStep h ▸ hF, hstores.objects.sem hne,
    fun b hb he => hne ((ctlStep_family hF' h b hb).symm.trans he)⟩

theorem Ctl.usesLedSem_of_family {c : Ctl} (h : c.family ≠ some .sem) : c.usesLedSem = false := by
  cases c <;> first | rfl | exact absurd rfl h

/-- A step of a call that does not use the semaphores of the LED tasks. -/
theorem ctlStep_apart {c c' : Ctl} (hc : c.usesLedSem = false)
    (h : ctlStep k t c = some (k', c', o)) (l : Led) :
    c'.usesLedSem = false ∧ (k'.sem l.takes).max = (k.sem l.takes).max ∧
      (k'.sem l.takes).count = (k.sem l.takes).count ∧ ∀ d, Obs.semGiven l.gives d ∉ o := by
  by_cases hF : c.family = some .sem
  · cases c with
    | sem c =>
      obtain ⟨⟨k₁, c₁, o₁⟩, hsem, he⟩ := Option.map_eq_some_iff.1 h
      cases he
      have hindex : ¬(c.index = 0 ∨ c.index = 1) := by
        cases c with
        | take s r | blocked s | give s | trytake s => exact of_decide_eq_false hc
        | taken s | given s | trytaken s r => cases hsem
      have hne : l.takes ≠ c.index := fun he => hindex (he ▸ l.uses_takes)
      have hne' : l.gives ≠ c.index := fun he => hindex (he ▸ l.uses_gives)
      have hreports := semStep_reports hsem
      obtain ⟨hmax, hcount, -⟩ := semStep_tokens hsem l.takes
      have hnone : o.count (.semTaken l.takes) = 0 := by
        refine List.count_eq_zero.2 fun hmem => ?_
        rcases hreports _ hmem with he | ⟨-, he⟩
        · exact hne (Obs.semTaken.inj he)
        · cases he
      have hgive : c ≠ .give l.takes := by
        rintro rfl
        exact hne rfl
      rw [hnone, if_neg fun hg => hgive hg.1] at hcount
      refine ⟨?_, hmax, by omega, fun d hmem => ?_⟩
      · rw [← semStep_index hsem] at hindex
        cases c₁ with
        | take s r | blocked s | give s | trytake s => exact decide_eq_false hindex
        | taken s | given s | trytaken s r => rfl
      · rcases hreports _ hmem with he | ⟨-, he⟩
        · cases he
        · exact hne' (Obs.semGiven.inj he).1
    | app | mutex c | queue c | event c | notify c | sched c => cases hF
  · obtain ⟨hF', hsem, hreports⟩ := ctlStep_quiet_sem hF h
    exact ⟨Ctl.usesLedSem_of_family hF', by rw [hsem], by rw [hsem],
      fun d hmem => hreports _ hmem rfl⟩

end Calls

namespace Leds

variable {s s' : Leds} {l : Led} {o : List Obs} {k' : Kernel} {c' : Ctl}

/-- A step of a semaphore call of an LED task. -/
theorem Sound.exec_sem (hs : s.Sound) {c c' : SemCtl} (hc : s.ctl l = .sem c)
    (hstep : semStep s.machine.kernel l.task c = some (k', c', o)) :
    l.OwnCall (s.todo l) (.sem c') ∧ (∀ u : Led, (k'.sem u.takes).max = 1) ∧
      LedMove l (s.phase l) (l.phase (s.todo l) (.sem c')) s.count
        (fun u => (k'.sem u.takes).count) [] ∧ s.phase l ≠ .shining ∧
      ∀ u d, Obs.semGiven u d ∈ o → s.phase l = .spent ∧ (d = true → 1 ≤ s.count l.other) := by
  have hown := hs.own l
  have hcount : ∀ u : Led, (k'.sem u.takes).max = 1 ∧
      (k'.sem u.takes).count + (o.count (.semTaken u.takes) : ℤ) =
        s.count u + if c = .give u.takes ∧ s.count u < 1 then 1 else 0 := by
    intro u
    obtain ⟨hmax, hcount, -⟩ := semStep_tokens hstep u.takes
    rw [hs.max] at hmax hcount
    exact ⟨hmax, hcount⟩
  have hphase : s.phase l = l.phase (s.todo l) (.sem c) := by rw [phase, hc]
  rw [hc] at hown
  rw [hphase]
  refine ⟨?_, fun u => (hcount u).1, ?_⟩
  · cases c with
    | take u r =>
      rcases semStep_take hstep with ⟨-, -, rfl, -⟩ | ⟨-, -, rfl, -⟩
      · trivial
      · exact hown
    | blocked u | give u =>
      cases hstep
      first | exact hown | trivial
    | trytake u => exact hown.elim
    | taken u | given u | trytaken u r => cases hstep
  · cases c with
    | take u r =>
      obtain ⟨rfl, hfresh⟩ : u = l.takes ∧ l.outside (s.todo l) = .fresh := hown
      rcases semStep_take hstep with ⟨hpos, -, rfl, rfl⟩ | ⟨-, -, rfl, rfl⟩
      · refine ⟨?_, LedPhase.noConfusion, fun u d hmem =>
          absurd (List.mem_singleton.1 hmem) Obs.noConfusion⟩
        have hphase' : l.phase (s.todo l) (.sem (.taken l.takes)) = .fresh := hfresh
        rw [hphase']
        have htakes := (hcount l).2
        have hother := (hcount l.other).2
        have hne : Obs.semTaken l.takes ≠ .semTaken l.other.takes := fun he =>
          l.other_ne (Led.takes_inj (Obs.semTaken.inj he)).symm
        rw [List.count_singleton_self, if_neg (fun hg => SemCtl.noConfusion hg.1)] at htakes
        rw [List.count_singleton, if_neg (by simpa using hne),
          if_neg (fun hg => SemCtl.noConfusion hg.1)] at hother
        exact .take hpos (by omega) (by omega)
      · refine ⟨?_, LedPhase.noConfusion, fun u d hmem => absurd hmem List.not_mem_nil⟩
        have hsame : (fun u : Led => (k'.sem u.takes).count) = s.count := funext fun u => by
          have hu := (hcount u).2
          rw [if_neg (fun hg => SemCtl.noConfusion hg.1)] at hu
          simpa using hu
        rw [hsame]
        exact .stay
    | blocked u =>
      cases hstep
      exact ⟨.stay, LedPhase.noConfusion, fun u d hmem => absurd hmem List.not_mem_nil⟩
    | give u =>
      obtain ⟨rfl, hwaiting⟩ : u = l.gives ∧ l.outside (s.todo l) = .waiting := hown
      cases hstep
      have hphase' : l.phase (s.todo l) (.sem (.given l.gives)) = .waiting := hwaiting
      rw [hphase']
      refine ⟨.give ?_ ?_, LedPhase.noConfusion, fun u d hmem => ⟨rfl, fun hd => ?_⟩⟩
      · have hgives := (hcount l.other).2
        rw [Led.takes_other] at hgives
        simpa using hgives
      · have htakes := (hcount l).2
        have hne : SemCtl.give l.gives ≠ .give l.takes := fun he =>
          l.takes_ne_gives (SemCtl.give.inj he).symm
        rw [if_neg fun hg => hne hg.1] at htakes
        simpa using htakes
      · obtain ⟨rfl, rfl⟩ := Obs.semGiven.inj (List.mem_singleton.1 hmem)
        rw [Kernel.semGiveDropped, Bool.and_eq_true, Bool.not_eq_true', decide_eq_false_iff_not] at hd
        have hmax := hs.max l.other
        rw [Led.takes_other] at hmax
        rw [count, Led.takes_other]
        omega
    | trytake u => exact hown.elim
    | taken u | given u | trytaken u r => cases hstep

/-- A step of a call of an LED task. -/
theorem Sound.exec (hs : s.Sound)
    (hstep : ctlStep s.machine.kernel l.task (s.ctl l) = some (k', c', o)) :
    l.OwnCall (s.todo l) c' ∧ (∀ u : Led, (k'.sem u.takes).max = 1) ∧
      LedMove l (s.phase l) (l.phase (s.todo l) c') s.count (fun u => (k'.sem u.takes).count) [] ∧
      (s.phase l = .shining → l.phase (s.todo l) c' = .shining) ∧
      ∀ u d, Obs.semGiven u d ∈ o → s.phase l = .spent ∧ (d = true → 1 ≤ s.count l.other) := by
  have hown := hs.own l
  cases hc : s.ctl l with
  | app =>
    rw [hc] at hstep
    cases hstep
  | sem c =>
    rw [hc] at hstep
    obtain ⟨⟨k₁, c₁, o₁⟩, hsem, he⟩ := Option.map_eq_some_iff.1 hstep
    cases he
    obtain ⟨hown', hmax, hmove, hdark, hgiven⟩ := hs.exec_sem hc hsem
    exact ⟨hown', hmax, hmove, fun hshining => absurd hshining hdark, hgiven⟩
  | sched c =>
    rw [hc] at hstep
    obtain ⟨-, hsem, hreports⟩ := ctlStep_quiet_sem (by rw [Ctl.family]; decide) hstep
    obtain ⟨⟨k₁, c₁, o₁⟩, -, he⟩ := Option.map_eq_some_iff.1 hstep
    cases he
    have hphase : s.phase l = l.outside (s.todo l) := by
      rw [phase, hc]
      rfl
    refine ⟨trivial, fun u => by rw [hsem, hs.max], ?_, fun hshining => hphase.symm.trans hshining,
      fun u d hmem => absurd rfl (hreports _ hmem)⟩
    rw [hphase, hsem]
    exact .stay
  | mutex c | queue c | event c | notify c =>
    rw [hc] at hown
    exact hown.elim

/-! ### The steps of the board -/

theorem running_eq_some (h : s.running = some l) : s.machine.active = some (.thread l.task) := by
  unfold running at h
  split_ifs at h with hred hblue
  · cases h
    exact hred
  · cases h
    exact hblue

theorem running_eq_none (h : s.running = none) (l : Led) :
    s.machine.active ≠ some (.thread l.task) := by
  unfold running at h
  split_ifs at h with hred hblue
  cases l with
  | red => exact hred
  | blue => exact hblue

/-- A task has made a move, and the other one has not. -/
theorem Sound.moved {y : Leds} {d : Ctl} {t : Turn} {rest : List LedStmt} {ls : List Led}
    (hs : s.Sound) (ht : s.At t)
    (htodo : y.todo = Function.update s.todo l rest) (hrest : rest ∈ l.body.tails)
    (hctl : y.ctl l = d) (hother : y.ctl l.other = s.ctl l.other) (hown : l.OwnCall rest d)
    (hapart : ∀ x, (∀ l : Led, x ≠ .thread l.task) → (y.machine.ctl x).usesLedSem = false)
    (hmax : ∀ l : Led, (y.machine.kernel.sem l.takes).max = 1)
    (hlit : y.IsLit l → l.phase rest d = .shining) (hlit' : y.IsLit l.other → s.IsLit l.other)
    (hmove : LedMove l (s.phase l) (l.phase rest d) s.count y.count ls) :
    y.Sound ∧ ∃ t', t.Goes t' ls ∧ y.At t' := by
  have hself : y.todo l = rest := by rw [htodo, Function.update_self]
  have hkept : y.todo l.other = s.todo l.other := by
    rw [htodo, Function.update_of_ne l.other_ne]
  have hphase : y.phase l = l.phase rest d := by rw [phase, hself, hctl]
  have hphase' : y.phase l.other = s.phase l.other := by rw [phase, hkept, hother, ← phase]
  constructor
  · refine ⟨fun u => ?_, fun u => ?_, hapart, hmax, fun u hu => ?_⟩
    all_goals rcases l.eq_or_eq_other u with rfl | rfl
    · exact hself ▸ hrest
    · exact hkept ▸ hs.todo _
    · rwa [hself, hctl]
    · rw [hkept, hother]
      exact hs.own _
    · rw [hphase]
      exact hlit hu
    · rw [hphase']
      exact hs.lit _ (hlit' hu)
  · obtain ⟨t', hgoes, hp, hp', hc⟩ := hmove.goes (ht l).1 fun u => (ht u).2
    refine ⟨t', hgoes, fun u => ⟨?_, hc u⟩⟩
    rcases l.eq_or_eq_other u with rfl | rfl
    · rw [hp, hphase]
    · rw [hp', hphase']
      exact (ht _).1

/-- Neither task has done anything. -/
theorem Sound.idle {y : Leds} {t : Turn} (hs : s.Sound) (ht : s.At t) (htodo : y.todo = s.todo)
    (hpdor : y.pdor = s.pdor) (hctl : ∀ l, y.ctl l = s.ctl l)
    (hapart : ∀ x, (∀ l : Led, x ≠ .thread l.task) → (y.machine.ctl x).usesLedSem = false)
    (hsem : ∀ l : Led, (y.machine.kernel.sem l.takes).max = (s.machine.kernel.sem l.takes).max ∧
      (y.machine.kernel.sem l.takes).count = (s.machine.kernel.sem l.takes).count) :
    y.Sound ∧ y.At t := by
  have hphase : ∀ l, y.phase l = s.phase l := fun l => by rw [phase, htodo, hctl, ← phase]
  refine ⟨⟨fun l => htodo ▸ hs.todo l, fun l => ?_, hapart, fun l => ?_, fun l hl => ?_⟩,
    fun l => ⟨?_, ?_⟩⟩
  · rw [htodo, hctl]
    exact hs.own l
  · rw [(hsem l).1, hs.max]
  · rw [hphase]
    refine hs.lit l ?_
    rwa [IsLit, hpdor] at hl
  · rw [hphase]
    exact (ht l).1
  · rw [(ht l).2, count, count, (hsem l).2]

theorem ctl_update_of_ne {x : Ctx} (h : ∀ l : Led, x ≠ .thread l.task) (c : Ctl) (l : Led) :
    Function.update s.machine.ctl x c (.thread l.task) = s.ctl l :=
  Function.update_of_ne (h l).symm ..

theorem apart_update (hs : s.Sound) {x : Ctx} {c : Ctl} (hc : c.usesLedSem = false) (y : Ctx)
    (hy : ∀ l : Led, y ≠ .thread l.task) :
    (Function.update s.machine.ctl x c y).usesLedSem = false := by
  by_cases hyx : y = x
  · rw [hyx, Function.update_self]
    exact hc
  · rw [Function.update_of_ne hyx]
    exact hs.apart y hy

/-- An action of the machine that is not a call of an LED task. -/
theorem Sound.act {t : Turn} {a : Action} {os : List LedObs} (hs : s.Sound) (ht : s.At t)
    (hok : (LedAction.machine a).Apart)
    (hcall : ∀ c, a = .call c → ∀ l : Led, s.machine.active ≠ some (.thread l.task))
    (h : s.act a = some (s', os)) :
    s'.Sound ∧ ∃ t', t.Goes t' [] ∧ s'.At t' ∧
      ∀ (l : Led) d, LedObs.kernel (.semGiven l.gives d) ∈ os → d = false := by
  obtain ⟨⟨m', o⟩, hstep, he⟩ := Option.map_eq_some_iff.1 h
  obtain ⟨rfl, rfl⟩ := Prod.mk.inj he
  have hquiet : o = [] → ∀ (l : Led) d, LedObs.kernel (.semGiven l.gives d) ∈ o.map .kernel →
      d = false := by
    rintro rfl l d hmem
    exact absurd hmem List.not_mem_nil
  have hidle : ∀ {m' : Machine}, ({ s with machine := m' } : Leds).Sound ∧
      ({ s with machine := m' } : Leds).At t → o = [] →
      ({ s with machine := m' } : Leds).Sound ∧ ∃ t', t.Goes t' [] ∧
        ({ s with machine := m' } : Leds).At t' ∧ ∀ (l : Led) d,
        LedObs.kernel (.semGiven l.gives d) ∈ o.map .kernel → d = false :=
    fun h ho => ⟨h.1, t, .inl ⟨rfl, rfl⟩, h.2, hquiet ho⟩
  rcases Machine.step_cases hstep with ⟨c, i, rfl, hact, hrest, rfl, ho⟩ |
    ⟨x, u, k', c', rfl, hact, hcur, hst, rfl⟩ | ⟨c, rfl, -, rfl, ho⟩ | ⟨rfl, -, -, rfl, ho⟩ |
    ⟨n, rfl, rfl, ho⟩ | ⟨n, k', rfl, hk, rfl, ho⟩
  · have hne : ∀ l : Led, Ctx.thread (.tcb i) ≠ .thread l.task := fun l he =>
      hcall c rfl l (hact.trans (congrArg some he))
    refine hidle (hs.idle ht rfl rfl (ctl_update_of_ne hne c.entry) (apart_update hs ?_)
      fun _ => ⟨rfl, rfl⟩) ho
    rw [c.usesLedSem_entry]
    exact hok.2
  · by_cases hx : ∃ l : Led, x = .thread l.task
    · obtain ⟨l, rfl⟩ := hx
      obtain rfl : l.task = u := by
        have hcur' := (Machine.active_thread hact).2.2
        exact Option.some.inj (hcur'.symm.trans hcur)
      obtain ⟨hown, hmax, hmove, hshines, hgiven⟩ := hs.exec hst
      have hlost : ∀ (u : Led) d, LedObs.kernel (.semGiven u.gives d) ∈ o.map .kernel →
          d = false := by
        intro u d hmem
        obtain ⟨b, hb, he⟩ := List.mem_map.1 hmem
        cases LedObs.kernel.inj he
        obtain ⟨hspent, hd⟩ := hgiven _ _ hb
        have hturn : t.phase l = .spent := (ht l).1.trans hspent
        rcases t.eq_of_phase (by rw [hturn]; decide) with ⟨hp, -⟩ | ⟨hp, -⟩ | ⟨-, rfl⟩
        · rw [hturn] at hp
          cases hp
        · rw [hturn] at hp
          cases hp
        · have hzero : s.count l.other = 0 := (ht l.other).2.symm
          rw [hzero] at hd
          exact Bool.eq_false_iff.2 fun hdt => absurd (hd hdt) (by decide)
      have hupd : Function.update s.todo l (s.todo l) = s.todo := Function.update_eq_self ..
      obtain ⟨hs', t', hgoes, hat⟩ := hs.moved (y := { s with machine := s.machine.resume _ k' c' })
        ht hupd.symm (hs.todo l) (Function.update_self ..)
        (Function.update_of_ne (fun he => l.other_ne (Led.task_inj (Ctx.thread.inj he))) ..) hown
        (fun y hy => by
          change (Function.update s.machine.ctl (.thread l.task) c' y).usesLedSem = false
          rw [Function.update_of_ne (hy l)]
          exact hs.apart y hy)
        hmax (fun hl => hshines (hs.lit l hl)) id hmove
      exact ⟨hs', t', hgoes, hat, hlost⟩
    · have hne : ∀ l : Led, x ≠ .thread l.task := fun l he => hx ⟨l, he⟩
      have hstep' := ctlStep_apart (hs.apart x hne) hst
      obtain ⟨hs', hat⟩ := hs.idle (y := { s with machine := s.machine.resume x k' c' }) ht rfl rfl
        (ctl_update_of_ne hne c') (apart_update hs (hstep' .red).1)
        fun l => ⟨(hstep' l).2.1, (hstep' l).2.2.1⟩
      refine ⟨hs', t, .inl ⟨rfl, rfl⟩, hat, fun l d hmem => ?_⟩
      obtain ⟨b, hb, he⟩ := List.mem_map.1 hmem
      cases LedObs.kernel.inj he
      exact absurd hb ((hstep' l).2.2.2 d)
  · have hne : ∀ l : Led, Ctx.isr s.machine.depth ≠ .thread l.task := fun l => Ctx.noConfusion
    refine hidle (hs.idle ht rfl rfl (ctl_update_of_ne hne c.entry) (apart_update hs ?_)
      fun _ => ⟨rfl, rfl⟩) ho
    rw [c.usesLedSem_entry]
    exact hok.2
  · exact hidle (hs.idle ht rfl rfl (fun _ => rfl) hs.apart fun _ => ⟨rfl, rfl⟩) ho
  · exact hidle (hs.idle ht rfl rfl (fun _ => rfl) hs.apart fun _ => ⟨rfl, rfl⟩) ho
  · have hsem := (SameObjects.schedTickN hk).sem
    refine hidle (hs.idle ht rfl rfl (fun _ => rfl) hs.apart fun l => ?_) ho
    exact ⟨by rw [hsem], by rw [hsem]⟩

/-- A call of a task begins. -/
theorem act_call {c : Call} {rest : List LedStmt} {os : List LedObs}
    (hact : s.machine.active = some (.thread l.task))
    (h : (s.goto l rest).act (.call c) = some (s', os)) :
    s'.todo = Function.update s.todo l rest ∧ (∀ u, s'.IsLit u → s.IsLit u) ∧
      s'.machine = { s.machine with
        ctl := Function.update s.machine.ctl (.thread l.task) c.entry } ∧ os = [] := by
  obtain ⟨⟨m', o⟩, hstep, he⟩ := Option.map_eq_some_iff.1 h
  obtain ⟨rfl, rfl⟩ := Prod.mk.inj he
  rcases Machine.step_cases hstep with ⟨c', i, hc, hact', -, rfl, rfl⟩ | ⟨_, _, _, _, he, _⟩ |
    ⟨_, he, _⟩ | ⟨he, _⟩ | ⟨_, he, _⟩ | ⟨_, _, he, _⟩
  · obtain rfl := Action.call.inj hc
    have hi : Ctx.thread (.tcb i) = .thread l.task := Option.some.inj (hact'.symm.trans hact)
    rw [hi]
    exact ⟨rfl, fun _ => id, rfl, rfl⟩
  all_goals cases he

theorem isLit_pcor : ({ s with pdor := s.pdor &&& ~~~l.mask } : Leds).IsLit l ∧
    (({ s with pdor := s.pdor &&& ~~~l.mask } : Leds).IsLit l.other ↔ s.IsLit l.other) := by
  cases l <;> simp [IsLit, Led.mask, Led.pin, Led.other]

theorem isLit_psor : ¬({ s with pdor := s.pdor ||| l.mask } : Leds).IsLit l ∧
    (({ s with pdor := s.pdor ||| l.mask } : Leds).IsLit l.other ↔ s.IsLit l.other) := by
  cases l <;> simp [IsLit, Led.mask, Led.pin, Led.other]

/-- The task goes on to what is left, outside its calls or at the beginning of one. -/
theorem Sound.goes {y : Leds} {d : Ctl} {t : Turn} {rest : List LedStmt} {ls : List Led}
    (hs : s.Sound) (ht : s.At t)
    (htodo : y.todo = Function.update s.todo l rest) (hrest : rest ∈ l.body.tails)
    (hmachine : y.machine = { s.machine with
      ctl := Function.update s.machine.ctl (.thread l.task) d }) (hown : l.OwnCall rest d)
    (hlit : y.IsLit l → l.phase rest d = .shining) (hlit' : y.IsLit l.other → s.IsLit l.other)
    (hmove : LedMove l (s.phase l) (l.phase rest d) s.count s.count ls) :
    y.Sound ∧ ∃ t', t.Goes t' ls ∧ y.At t' := by
  have hctl : ∀ x, y.machine.ctl x = Function.update s.machine.ctl (.thread l.task) d x :=
    fun x => by rw [hmachine]
  have hcount : y.count = s.count := funext fun u => by rw [count, hmachine, count]
  refine hs.moved ht htodo hrest ((hctl _).trans (Function.update_self ..))
    ((hctl _).trans (Function.update_of_ne (fun he => l.other_ne (Led.task_inj (Ctx.thread.inj he)))
      ..)) hown (fun x hx => ?_) (fun u => ?_) hlit hlit' (hcount ▸ hmove)
  · rw [hctl, Function.update_of_ne (hx l)]
    exact hs.apart x hx
  · rw [hmachine]
    exact hs.max u

/-- A statement of a task. -/
theorem Sound.execStmt {t : Turn} {os : List LedObs} (hs : s.Sound) (ht : s.At t)
    (hact : s.machine.active = some (.thread l.task)) (hatRest : (s.ctl l).atRest = true)
    (h : s.execStmt l = some (s', os)) :
    s'.Sound ∧ ∃ t', t.Goes t' (os.filterMap LedObs.light) ∧ s'.At t' ∧
      ∀ (l : Led) d, LedObs.kernel (.semGiven l.gives d) ∉ os := by
  have hmem := hs.todo l
  have hfollows := Led.follows hmem
  have hphase : s.phase l = l.outside (s.todo l) := Led.phase_of_atRest hatRest
  have hown : ∀ todo, l.OwnCall todo (s.ctl l) := fun todo =>
    Led.ownCall_of_atRest hatRest (hs.own l)
  have hthen : ∀ todo, l.phase todo (s.ctl l) = l.outside todo := fun todo =>
    Led.phase_of_atRest hatRest
  have hsame : s.machine = { s.machine with
      ctl := Function.update s.machine.ctl (.thread l.task) (s.ctl l) } := by
    rw [ctl, Function.update_eq_self]
  have hlit : s.IsLit l → l.outside (s.todo l) = .shining := fun hl => hphase ▸ hs.lit l hl
  unfold Leds.execStmt at h
  cases htodo : s.todo l with
  | nil =>
    rw [htodo] at h hfollows hphase hlit
    cases h
    have hbody : l.outside l.body = l.outside [] := hfollows
    have hmove : LedMove l (s.phase l) (l.phase l.body (s.ctl l)) s.count s.count [] := by
      rw [hphase, hthen, hbody]
      exact .stay
    obtain ⟨hs', t', hgoes, hat⟩ := hs.goes (y := s.goto l l.body) ht rfl
      ((List.mem_tails _ _).2 List.suffix_rfl) hsame (hown _)
      (fun hl => (hthen _).trans (hbody.trans (hlit hl))) id hmove
    exact ⟨hs', t', hgoes, hat, fun _ _ => List.not_mem_nil⟩
  | cons stmt rest =>
    rw [htodo] at h hfollows hphase hlit hmem
    have hrest := Led.tail_mem hmem
    cases stmt with
    | pcor =>
      cases h
      obtain ⟨hfresh, hshining⟩ : l.outside (.pcor :: rest) = .fresh ∧ l.outside rest = .shining :=
        hfollows
      have hmove : LedMove l (s.phase l) (l.phase rest (s.ctl l)) s.count s.count [l] := by
        rw [hphase, hthen, hfresh, hshining]
        exact .light
      obtain ⟨hs', t', hgoes, hat⟩ := hs.goes
        (y := { s.goto l rest with pdor := s.pdor &&& ~~~l.mask }) ht rfl hrest hsame (hown _)
        (fun _ => (hthen _).trans hshining) isLit_pcor.2.1 hmove
      exact ⟨hs', t', hgoes, hat, fun _ _ hg => LedObs.noConfusion (List.mem_singleton.1 hg)⟩
    | psor =>
      cases h
      obtain ⟨hshining, hspent⟩ : l.outside (.psor :: rest) = .shining ∧ l.outside rest = .spent :=
        hfollows
      have hmove : LedMove l (s.phase l) (l.phase rest (s.ctl l)) s.count s.count [] := by
        rw [hphase, hthen, hshining, hspent]
        exact .darken
      obtain ⟨hs', t', hgoes, hat⟩ := hs.goes
        (y := { s.goto l rest with pdor := s.pdor ||| l.mask }) ht rfl hrest hsame (hown _)
        (fun hl => absurd hl isLit_psor.1) isLit_psor.2.1 hmove
      exact ⟨hs', t', hgoes, hat, fun _ _ => List.not_mem_nil⟩
    | puts text =>
      cases h
      have heq : l.outside rest = l.outside (.puts text :: rest) := hfollows
      have hmove : LedMove l (s.phase l) (l.phase rest (s.ctl l)) s.count s.count [] := by
        rw [hphase, hthen, heq]
        exact .stay
      obtain ⟨hs', t', hgoes, hat⟩ := hs.goes (y := s.goto l rest) ht rfl hrest hsame (hown _)
        (fun hl => (hthen _).trans (heq.trans (hlit hl))) id hmove
      exact ⟨hs', t', hgoes, hat, fun _ _ hg => LedObs.noConfusion (List.mem_singleton.1 hg)⟩
    | delay ms =>
      obtain ⟨hgoto, hkept, hmachine, rfl⟩ := act_call hact h
      have heq : l.outside rest = l.outside (.delay ms :: rest) := hfollows
      have hmove : LedMove l (s.phase l) (l.phase rest (.sched (.delay ms))) s.count s.count [] := by
        change LedMove l (s.phase l) (l.outside rest) s.count s.count []
        rw [hphase, heq]
        exact .stay
      obtain ⟨hs', t', hgoes, hat⟩ := hs.goes (d := .sched (.delay ms)) ht hgoto hrest hmachine
        trivial (fun hl => heq.trans (hlit (hkept l hl))) (hkept _) hmove
      exact ⟨hs', t', hgoes, hat, fun _ _ => List.not_mem_nil⟩
    | give =>
      obtain ⟨hgoto, hkept, hmachine, rfl⟩ := act_call hact h
      obtain ⟨hspent, hwaiting⟩ : l.outside (.give :: rest) = .spent ∧ l.outside rest = .waiting :=
        hfollows
      have hmove : LedMove l (s.phase l) (l.phase rest (.sem (.give l.gives))) s.count s.count [] := by
        rw [hphase, hspent]
        exact .stay
      obtain ⟨hs', t', hgoes, hat⟩ := hs.goes (d := .sem (.give l.gives)) ht hgoto hrest hmachine
        ⟨rfl, hwaiting⟩
        (fun hl => absurd ((hlit (hkept l hl)).symm.trans hspent) LedPhase.noConfusion) (hkept _) hmove
      exact ⟨hs', t', hgoes, hat, fun _ _ => List.not_mem_nil⟩
    | take =>
      obtain ⟨hgoto, hkept, hmachine, rfl⟩ := act_call hact h
      obtain ⟨hwaiting, hfresh⟩ : l.outside (.take :: rest) = .waiting ∧ l.outside rest = .fresh :=
        hfollows
      have hmove : LedMove l (s.phase l) (l.phase rest (.sem (.take l.takes false))) s.count s.count
          [] := by
        rw [hphase, hwaiting]
        exact .stay
      obtain ⟨hs', t', hgoes, hat⟩ := hs.goes (d := .sem (.take l.takes false)) ht hgoto hrest
        hmachine ⟨rfl, hfresh⟩
        (fun hl => absurd ((hlit (hkept l hl)).symm.trans hwaiting) LedPhase.noConfusion) (hkept _) hmove
      exact ⟨hs', t', hgoes, hat, fun _ _ => List.not_mem_nil⟩

/-- A step of the board goes one phase further, or stays. -/
theorem step_goes {t : Turn} {a : LedAction} {os : List LedObs} (hs : s.Sound) (ht : s.At t)
    (hok : a.Apart) (h : s.step a = some (s', os)) :
    s'.Sound ∧ ∃ t', t.Goes t' (os.filterMap LedObs.light) ∧ s'.At t' ∧
      ∀ (l : Led) d, LedObs.kernel (.semGiven l.gives d) ∈ os → d = false := by
  have hmachine : ∀ {a : Action}, (LedAction.machine a).Apart →
      (∀ c, a = .call c → ∀ l : Led, s.machine.active ≠ some (.thread l.task)) →
      s.act a = some (s', os) → s'.Sound ∧ ∃ t', t.Goes t' (os.filterMap LedObs.light) ∧ s'.At t' ∧
        ∀ (l : Led) d, LedObs.kernel (.semGiven l.gives d) ∈ os → d = false := by
    intro a hok hcall h
    have hlights : os.filterMap LedObs.light = [] := by
      obtain ⟨r, -, he⟩ := Option.map_eq_some_iff.1 h
      rw [← (Prod.mk.inj he).2, List.filterMap_map, List.filterMap_eq_nil_iff]
      exact fun _ _ => rfl
    rw [hlights]
    exact hs.act ht hok hcall h
  cases a with
  | statement =>
    simp only [step] at h
    split at h
    · rename_i l hrun
      split_ifs at h with hrest
      obtain ⟨hs', t', hgoes, hat, hnone⟩ := hs.execStmt ht (running_eq_some hrun) hrest h
      exact ⟨hs', t', hgoes, hat, fun l d hg => absurd hg (hnone l d)⟩
    · cases h
  | machine a =>
    cases a with
    | call c =>
      simp only [step] at h
      split at h
      · cases h
      · rename_i hrun
        exact hmachine hok (fun _ _ l => running_eq_none hrun l) h
    | exec | irq c | pendSV | clock n | tick n => exact hmachine hok (fun _ he => nomatch he) h

/-- The LEDs in the order in which they have been lit. -/
def lights (out : List LedObs) : List Led := out.filterMap LedObs.light

/-- The run is at a point of the cycle, and has lit the LEDs in their order. -/
theorem at_of_reach {out : List LedObs} (h : Run.Reach step (fun _ a => a.Apart) start s out) :
    s.Sound ∧ ∃ t, s.At t ∧ t.due = Led.nth (lights out).length ∧
      lights out = (List.range (lights out).length).map Led.nth ∧
      ∀ (l : Led) d, LedObs.kernel (.semGiven l.gives d) ∈ out → d = false := by
  refine h.induct (I := fun s out => s.Sound ∧ ∃ t, s.At t ∧ t.due = Led.nth (lights out).length ∧
      lights out = (List.range (lights out).length).map Led.nth ∧
      ∀ (l : Led) d, LedObs.kernel (.semGiven l.gives d) ∈ out → d = false)
    ⟨sound_start, .fresh .red, at_start, rfl, rfl, fun _ _ hg => absurd hg List.not_mem_nil⟩ ?_
  rintro s s' a out o - ⟨hs, t, ht, hdue, hlights, hgiven⟩ hok hstep
  obtain ⟨hs', t', hgoes, hat, hkept⟩ := step_goes hs ht hok hstep
  obtain ⟨hdue', hnew⟩ := hgoes.due_eq hdue
  have happend : lights (out ++ o) = lights out ++ o.filterMap LedObs.light :=
    List.filterMap_append ..
  refine ⟨hs', t', hat, ?_, ?_, fun l d hg => ?_⟩
  · rw [happend, List.length_append]
    exact hdue'
  · have hrange (n k : ℕ) : (List.range (n + k)).map Led.nth =
        (List.range n).map Led.nth ++ (List.range' n k).map Led.nth := by
      rw [← List.map_append, List.range_eq_range', List.range_eq_range', ← List.range'_append_1,
        Nat.zero_add]
    rw [happend, List.length_append, hrange, ← hlights, ← hnew]
  · rcases List.mem_append.1 hg with hg | hg
    · exact hgiven l d hg
    · exact hkept l d hg

/-- The kernel on its own. -/
theorem reach_machine {out : List LedObs} (h : Run.Reach step (fun _ a => a.Apart) start s out) :
    ∃ o, Run.Reach Machine.step (fun _ a => a.Within Call.Steady) (Machine.start k64fMain) s.machine
      o := by
  refine h.invariant (I := fun s => ∃ o, Run.Reach Machine.step (fun _ a => a.Within Call.Steady)
    (Machine.start k64fMain) s.machine o) ⟨_, .init⟩ ?_
  rintro s s' a os ⟨o, hr⟩ hok hstep
  have hact : ∀ {s : Leds} {a : Action}, s.act a = some (s', os) → (∃ o, Run.Reach Machine.step
      (fun _ a => a.Within Call.Steady) (Machine.start k64fMain) s.machine o) →
      a.Within Call.Steady → ∃ o, Run.Reach Machine.step (fun _ a => a.Within Call.Steady)
        (Machine.start k64fMain) s'.machine o := by
    rintro s a h ⟨o, hr⟩ hw
    obtain ⟨⟨m', o'⟩, hm, he⟩ := Option.map_eq_some_iff.1 h
    obtain ⟨rfl, -⟩ := Prod.mk.inj he
    exact ⟨_, hr.step hw hm⟩
  cases a with
  | statement =>
    simp only [step] at hstep
    split at hstep
    · rename_i l hrun
      split_ifs at hstep with hrest
      unfold Leds.execStmt at hstep
      split at hstep
      · cases hstep
        exact ⟨o, hr⟩
      · cases hstep
        exact ⟨o, hr⟩
      · cases hstep
        exact ⟨o, hr⟩
      · cases hstep
        exact ⟨o, hr⟩
      all_goals exact hact hstep ⟨o, hr⟩ ⟨Option.some.inj.mt Family.noConfusion,
        Option.some.inj.mt Family.noConfusion, rfl⟩
    · cases hstep
  | machine a =>
    have hw : a.Within Call.Steady := Action.Within.mono (fun _ h => h.1) hok
    cases a with
    | call c =>
      simp only [step] at hstep
      split at hstep
      · cases hstep
      · exact hact hstep ⟨o, hr⟩ hw
    | exec | irq c | pendSV | clock n | tick n => exact hact hstep ⟨o, hr⟩ hw

/-- Nobody else takes the token of a task. -/
theorem Sound.taker_eq (hs : s.Sound) {u : TaskPtr}
    (h : (s.machine.ctl (.thread u)).inTake l.takes = true) : u = l.task := by
  by_contra hne
  by_cases hu : ∃ l' : Led, u = l'.task
  · obtain ⟨l', rfl⟩ := hu
    have hown : l'.OwnCall (s.todo l') (s.machine.ctl (.thread l'.task)) := hs.own l'
    generalize s.machine.ctl (.thread l'.task) = c at h hown
    unfold Ctl.inTake at h
    split at h
    · exact hne (congrArg Led.task (Led.takes_inj (hown.1.symm.trans (of_decide_eq_true h))))
    · exact hne (congrArg Led.task (Led.takes_inj (hown.1.symm.trans (of_decide_eq_true h))))
    · cases h
  · have hnot := hs.apart (.thread u) fun l' he => hu ⟨l', Ctx.thread.inj he⟩
    generalize s.machine.ctl (.thread u) = c at h hnot
    unfold Ctl.inTake at h
    split at h
    · exact of_decide_eq_false hnot (of_decide_eq_true h ▸ l.uses_takes)
    · exact of_decide_eq_false hnot (of_decide_eq_true h ▸ l.uses_takes)
    · cases h

/-- A task that waits in a list is blocked in its take. -/
theorem Sound.eq_blocked (hs : s.Sound) {w : WaitList} (h : (s.ctl l).waitsOn = some w) :
    s.ctl l = .sem (.blocked l.takes) ∧ w = .sem l.takes := by
  have hown := hs.own l
  cases hc : s.ctl l with
  | sem c =>
    rw [hc] at h hown
    cases c with
    | blocked u =>
      cases h
      rw [hown.1]
      exact ⟨rfl, rfl⟩
    | take u r | give u | trytake u | taken u | given u | trytaken u r => cases h
  | app | sched c =>
    rw [hc] at h
    cases h
  | mutex c | queue c | event c | notify c =>
    rw [hc] at hown
    exact hown.elim

/-- The wait lists of the kernel. -/
theorem exists_lists {out : List LedObs} (h : Run.Reach step (fun _ a => a.Apart) start s out) :
    ∃ L, TamgaOs.Sound s.machine L := by
  obtain ⟨o, hr⟩ := reach_machine h
  exact Machine.sound_of_reach (fun _ _ => And.right)
    (Machine.orderly_of_steady (fun _ _ => id) hr)

/-- A task is not linked while its token lies in the semaphore that it takes. -/
theorem not_linked {out : List LedObs} (h : Run.Reach step (fun _ a => a.Apart) start s out)
    (hpos : 0 < s.count l) : ¬s.machine.kernel.Linked l.task := by
  obtain ⟨hs, -⟩ := at_of_reach h
  obtain ⟨L, hsound⟩ := exists_lists h
  intro hlinked
  obtain ⟨w, hw⟩ := hsound.linked_iff.1 hlinked
  obtain ⟨hblocked, rfl⟩ := hs.eq_blocked (hsound.coherent.linked w _ hw).2
  -- a task that has been popped is on its way to the token, and it can only be this one
  obtain ⟨P, hcard, hP⟩ := hsound.covered (.sem l.takes) (List.ne_nil_of_mem hw)
  have havail : 0 < avail s.machine.kernel (.sem l.takes) := by
    change 0 < (s.count l).toNat
    omega
  obtain ⟨u, hu⟩ := Finset.card_pos.1 (havail.trans_le hcard)
  rcases hP u hu with hretries | ⟨hwaits, hnot, -⟩
  · obtain rfl := hs.taker_eq (Ctl.inTake_of_retries hretries)
    rw [show s.machine.ctl (.thread l.task) = _ from hblocked] at hretries
    cases hretries
  · obtain rfl := hs.taker_eq (Ctl.inTake_of_waitsOn hwaits)
    exact hnot hw

/-- A task that is linked has not got the token. -/
theorem phase_of_linked {out : List LedObs} (h : Run.Reach step (fun _ a => a.Apart) start s out)
    (hlinked : s.machine.kernel.Linked l.task) : s.phase l = .waiting := by
  obtain ⟨hs, -⟩ := at_of_reach h
  obtain ⟨L, hsound⟩ := exists_lists h
  obtain ⟨w, hw⟩ := hsound.linked_iff.1 hlinked
  rw [phase, (hs.eq_blocked (hsound.coherent.linked w _ hw).2).1]
  rfl

end Leds

/-- In every run in which the other tasks and the handlers leave the two semaphores alone and make
steady calls, and in which nothing comes between the statements of a tick: the LEDs are never lit
both, they are lit in turns beginning with the red one, no give finds its semaphore full, a task whose
token lies in the semaphore is not in a wait list, and so the two tasks never wait for each other. -/
theorem leds_alternate {s : Leds} {out : List LedObs}
    (h : Run.Reach Leds.step (fun _ a => a.Apart) Leds.start s out) :
    ¬(s.IsLit .red ∧ s.IsLit .blue) ∧
    Leds.lights out = (List.range (Leds.lights out).length).map Led.nth ∧
    (∀ (l : Led) d, LedObs.kernel (.semGiven l.gives d) ∈ out → d = false) ∧
    (∀ l : Led, 0 < (s.machine.kernel.sem l.takes).count → ¬s.machine.kernel.Linked l.task) ∧
    ¬(s.machine.kernel.Linked Led.red.task ∧ s.machine.kernel.Linked Led.blue.task) := by
  obtain ⟨hs, t, ht, -, hlights, hgiven⟩ := Leds.at_of_reach h
  refine ⟨?_, hlights, hgiven, fun l hpos => Leds.not_linked h hpos, ?_⟩
  · rintro ⟨hred, hblue⟩
    have hr : t = .shining .red := t.eq_of_shining ((ht _).1.trans (hs.lit _ hred))
    have hb : t = .shining .blue := t.eq_of_shining ((ht _).1.trans (hs.lit _ hblue))
    cases hr.symm.trans hb
  · rintro ⟨hred, hblue⟩
    obtain ⟨l, hl⟩ := t.exists_passed fun l => by
      rw [(ht l).1]
      cases l with
      | red => exact Leds.phase_of_linked h hred
      | blue => exact Leds.phase_of_linked h hblue
    have hnot := Leds.not_linked h ((ht l).2 ▸ hl)
    cases l with
    | red => exact hnot hred
    | blue => exact hnot hblue

namespace Leds

/-- Another task goes to sleep. -/
def otherSleeps : List LedAction :=
  [.machine (.call (.schedDelayMs 1000)), .machine .exec, .machine .exec, .machine .pendSV]

/-- The red LED is lit for half a second, and the turn goes to the blue one. -/
def firstTurns : List LedAction :=
  otherSleeps ++ otherSleeps ++ otherSleeps ++ otherSleeps ++
    [.statement, .statement, .statement, .machine .exec, .machine .exec, .machine .pendSV,
      .statement, .statement, .machine .exec, .machine .pendSV,
      .machine (.tick 500), .machine .pendSV, .machine .exec, .statement, .statement, .statement,
      .machine .exec, .machine .pendSV, .machine .exec, .machine .exec, .statement, .statement]

theorem firstTurns_possible : (Run.exec step start firstTurns).isSome = true := by decide +kernel

end Leds

theorem leds_alternate_firstTurns :
    let r := (Run.exec Leds.step Leds.start Leds.firstTurns).get Leds.firstTurns_possible
    r.1.IsLit .blue ∧ ¬r.1.IsLit .red ∧ Leds.lights r.2 = [.red, .blue] := by
  intro r
  have h := leds_alternate (s := r.1)
    (Run.Reach.exec (by decide +kernel) Leds.firstTurns_possible)
  have hblue : r.1.IsLit .blue := by decide +kernel
  have hlength : (Leds.lights r.2).length = 2 := by decide +kernel
  refine ⟨hblue, fun hred => h.1 ⟨hred, hblue⟩, ?_⟩
  rw [h.2.1, hlength]
  rfl

end TamgaOs
