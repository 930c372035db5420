import TamgaOs.Machine.Objects
import TamgaOs.Machine.Split
import TamgaOs.Properties.Semaphore

/-!
# Where the tokens of a semaphore go

`sem_give` pops a waiter and passes the token through the count, which saturates. A token is lost
when nobody waits, which is meant, and also when a waiter has been popped: several gives in a row can
fill the count before the first popped task has tested again.

## Main definitions

* `TokenLedger`, `Machine.counted`: the machine beside a ledger of the takes and the gives.
* `Ctl.takes`: the program points of `sem_take` and `sem_trytake`.
* `Machine.AllThrough`: nobody is linked, and there is a token for every taker on its way.

## Main results

* `TokensKept`, `Split.tokens_of_reach`: where the tokens have gone, in every run.
* `semTokens_conserved_iff`: the tokens are conserved, and `k` gives get `k` blocked tasks through,
  exactly as long as no give finds the count at its maximum and a task linked.
-/

namespace TamgaOs

/-- What has happened to the tokens of every semaphore. -/
structure TokenLedger where
  takes : ℕ → ℕ := fun _ => 0
  gives : ℕ → ℕ := fun _ => 0
  /-- The gives at the maximum with nobody linked. -/
  dropped : ℕ → ℕ := fun _ => 0
  /-- The gives at the maximum that have popped a linked task. -/
  merged : ℕ → ℕ := fun _ => 0

namespace Machine

variable (m : Machine) (a : Action) (s : ℕ)

/-- The action executes `sem_give`. -/
def Gives : Prop := a = .exec ∧ m.active.map m.ctl = some (.sem (.give s))

instance : Decidable (m.Gives a s) := inferInstanceAs (Decidable (_ ∧ _))

/-- The action executes `sem_give` while the count is at its maximum. -/
def GivesFull : Prop := m.Gives a s ∧ (m.kernel.sem s).count = (m.kernel.sem s).max

instance : Decidable (m.GivesFull a s) := inferInstanceAs (Decidable (_ ∧ _))

/-- The ledger after an action. -/
def tokenLedger (o : List Obs) (g : TokenLedger) : TokenLedger where
  takes s := g.takes s + o.count (.semTaken s)
  gives s := g.gives s + if m.Gives a s then 1 else 0
  dropped s := g.dropped s + if m.GivesFull a s ∧ m.kernel.head (.sem s) = none then 1 else 0
  merged s := g.merged s + if m.GivesFull a s ∧ m.kernel.head (.sem s) ≠ none then 1 else 0

/-- The machine with a ledger of its tokens. -/
def counted : Machine × TokenLedger → Action → Option ((Machine × TokenLedger) × List Obs) :=
  Run.annotate step tokenLedger

end Machine

variable {m m' : Machine} {a : Action} {o out : List Obs} {s : ℕ} {k k' : Kernel} {t : TaskPtr}
  {c c' : SemCtl} {g : TokenLedger}

/-! ### Every run -/

/-- A step of a semaphore call takes a token or adds one. -/
theorem semStep_tokens (h : semStep k t c = some (k', c', o)) (s : ℕ) :
    (k'.sem s).max = (k.sem s).max ∧
      (k'.sem s).count + (o.count (.semTaken s) : ℤ) = (k.sem s).count +
        (if c = .give s ∧ (k.sem s).count < (k.sem s).max then 1 else 0) ∧
      (o.count (.semTaken s) = 0 ∨ (o.count (.semTaken s) : ℤ) ≤ (k.sem s).count) := by
  have htaken : ∀ u : ℕ, 0 < (k.sem u).count →
      ((k.setSemCount u ((k.sem u).count - 1)).sem s).max = (k.sem s).max ∧
      ((k.setSemCount u ((k.sem u).count - 1)).sem s).count +
        ([Obs.semTaken u].count (.semTaken s) : ℤ) = (k.sem s).count + 0 ∧
      ([Obs.semTaken u].count (.semTaken s) = 0 ∨
        ([Obs.semTaken u].count (.semTaken s) : ℤ) ≤ (k.sem s).count) := by
    intro u hpos
    rw [Kernel.sem_setSemCount]
    rcases eq_or_ne s u with rfl | hne
    · simp only [List.count_singleton_self, if_true]
      exact ⟨trivial, by omega, Or.inr (by omega)⟩
    · simp [hne, hne.symm]
  cases c with
  | take u retry =>
    rw [if_neg (by simp)]
    rcases semStep_take h with ⟨hpos, rfl, rfl, rfl⟩ | ⟨-, hb, rfl, rfl⟩
    · exact htaken u hpos
    · simp [(SameObjects.blockOn hb).sem]
  | blocked u =>
    cases h
    simp
  | give u =>
    cases h
    have hsem : (k.semGive u).sem = (k.semIncr u).sem := by
      have hpop : ((k.wqPop (.sem u)).1.semIncr u).sem = (k.semIncr u).sem := by
        have hsame := (SameObjects.wqPop k (.sem u)).sem
        unfold Kernel.semIncr
        rw [hsame]
        split_ifs
        · unfold Kernel.setSemCount
          rw [hsame]
        · exact hsame
      unfold Kernel.semGive
      split
      · rename_i k₁ w he
        rw [(SameObjects.schedWakeTask _ w).sem, ← hpop, he]
      · rename_i k₁ he
        rw [← hpop, he]
    rw [hsem]
    rcases eq_or_ne s u with rfl | hne
    · rw [Kernel.count_semIncr, Kernel.max_semIncr]
      simp only [true_and]
      split_ifs <;> simp
    · rw [Kernel.sem_semIncr_of_ne k hne]
      simp [hne.symm]
  | trytake u =>
    rw [if_neg (by simp)]
    by_cases hpos : 0 < (k.sem u).count
    · simp only [semStep, Kernel.semTrytake, if_pos hpos] at h
      cases h
      exact htaken u hpos
    · simp only [semStep, Kernel.semTrytake, if_neg hpos] at h
      cases h
      simp
  | taken u | given u | trytaken u r => cases h

/-- One action of the machine takes a token or adds one. -/
theorem Machine.step_tokens (hs : m.step a = some (m', o)) (s : ℕ) :
    (m'.kernel.sem s).max = (m.kernel.sem s).max ∧
      (m'.kernel.sem s).count + (o.count (.semTaken s) : ℤ) = (m.kernel.sem s).count +
        (if m.Gives a s ∧ (m.kernel.sem s).count < (m.kernel.sem s).max then 1 else 0) ∧
      (o.count (.semTaken s) = 0 ∨ (o.count (.semTaken s) : ℤ) ≤ (m.kernel.sem s).count) := by
  have hquiet : a ≠ .exec → m'.kernel.sem = m.kernel.sem → o = [] →
      (m'.kernel.sem s).max = (m.kernel.sem s).max ∧
      (m'.kernel.sem s).count + (o.count (.semTaken s) : ℤ) = (m.kernel.sem s).count +
        (if m.Gives a s ∧ (m.kernel.sem s).count < (m.kernel.sem s).max then 1 else 0) ∧
      (o.count (.semTaken s) = 0 ∨ (o.count (.semTaken s) : ℤ) ≤ (m.kernel.sem s).count) := by
    rintro ha hsem rfl
    simp [hsem, Gives, ha]
  rcases Machine.step_cases hs with ⟨c, i, rfl, -, -, rfl, rfl⟩ |
    ⟨x, t, k', c', rfl, hact, -, hst, rfl⟩ | ⟨c, rfl, -, rfl, rfl⟩ | ⟨rfl, -, -, rfl, rfl⟩ |
    ⟨n, rfl, rfl, rfl⟩ | ⟨n, k', rfl, hk, rfl, rfl⟩
  · exact hquiet (by simp) rfl rfl
  · have hgives : m.Gives .exec s ↔ m.ctl x = .sem (.give s) := by
      simp [Gives, hact]
    simp only [hgives, kernel_resume]
    cases hc : m.ctl x with
    | sem c =>
      rw [hc] at hst
      obtain ⟨⟨k₁, c₁, o₁⟩, hsem, he⟩ := Option.map_eq_some_iff.1 hst
      cases he
      simpa using semStep_tokens hsem s
    | app | mutex c | queue c | event c | notify c | sched c =>
      rw [hc] at hst
      obtain ⟨F, hF, hstores⟩ := ctlStep_family_stores hst
      have hne : F ≠ .sem := by rintro rfl; cases hF
      have hcount : o.count (.semTaken s) = 0 :=
        List.count_eq_zero.2 fun hmem => hne (ctlStep_family hF hst _ hmem).symm
      rw [hstores.objects.sem hne, hcount]
      simp
  · exact hquiet (by simp) rfl rfl
  · exact hquiet (by simp) rfl rfl
  · exact hquiet (by simp) rfl rfl
  · exact hquiet (by simp) (SameObjects.schedTickN hk).sem rfl

/-- Where the tokens have gone: they have been taken, are still there, have been dropped with nobody
waiting, or have been lost on the way to a waiter. -/
structure TokensKept (first : ℤ) (s : ℕ) (k : Kernel) (g : TokenLedger) : Prop where
  inBounds : (k.sem s).InBounds
  balance : (g.takes s : ℤ) + (k.sem s).count + g.dropped s + g.merged s = first + g.gives s
  merged_le : g.merged s ≤ g.gives s

theorem TokensKept.init (hb : (k.sem s).InBounds) : TokensKept (k.sem s).count s k {} :=
  ⟨hb, by simp, le_rfl⟩

theorem TokensKept.step {first : ℤ} (h : TokensKept first s m.kernel g)
    (hs : m.step a = some (m', o)) : TokensKept first s m'.kernel (m.tokenLedger a o g) := by
  obtain ⟨⟨hlo, hhi⟩, heq, hle⟩ := h
  obtain ⟨hmax, hcount, htaken⟩ := m.step_tokens hs s
  have hfull : m.GivesFull a s ↔
      m.Gives a s ∧ ¬(m.kernel.sem s).count < (m.kernel.sem s).max :=
    and_congr_right fun _ => ⟨fun he => he.not_lt, fun hn => le_antisymm hhi (not_lt.1 hn)⟩
  suffices hkept : (m'.kernel.sem s).InBounds ∧
      ((m.tokenLedger a o g).takes s : ℤ) + (m'.kernel.sem s).count + (m.tokenLedger a o g).dropped s +
        (m.tokenLedger a o g).merged s = first + (m.tokenLedger a o g).gives s ∧
      (m.tokenLedger a o g).merged s ≤ (m.tokenLedger a o g).gives s from
    ⟨hkept.1, hkept.2.1, hkept.2.2⟩
  simp only [Sem.InBounds, Machine.tokenLedger, hmax, hfull] at hle heq hlo hhi ⊢
  by_cases hgive : m.Gives a s
  · by_cases hlt : (m.kernel.sem s).count < (m.kernel.sem s).max
    · simp only [hgive, hlt, true_and, not_true, false_and, if_true, if_false] at hcount ⊢
      omega
    · by_cases hhead : m.kernel.head (.sem s) = none <;>
        simp [hgive, hlt, hhead] at hcount ⊢ <;> omega
  · simp only [hgive, false_and, if_false] at hcount ⊢
    omega

theorem Machine.tokens_of_reach {m₀ : Machine} {ok : Machine × TokenLedger → Action → Prop}
    (hb : (m₀.kernel.sem s).InBounds) (h : Run.Reach counted ok (m₀, {}) (m, g) out) :
    TokensKept (m₀.kernel.sem s).count s m.kernel g := by
  have hinv : TokensKept (m₀.kernel.sem s).count s (m, g).1.kernel (m, g).2 := by
    refine h.invariant (I := fun p => TokensKept (m₀.kernel.sem s).count s p.1.kernel p.2)
      (.init hb) ?_
    rintro ⟨m, g⟩ ⟨m', g'⟩ a o hkept - hst
    obtain ⟨hs, rfl⟩ := Run.annotate_eq_some.1 hst
    exact hkept.step hs
  exact hinv

/-- The tick does not touch the semaphores, also where other actions come between its statements. -/
theorem Split.tokens_of_reach {p₀ p : Split} {ok : Split × TokenLedger → SplitAction → Prop}
    (hb : (p₀.kernel.sem s).InBounds)
    (h : Run.Reach (Split.noted Machine.tokenLedger) ok (p₀, {}) (p, g) out) :
    TokensKept (p₀.kernel.sem s).count s p.kernel g := by
  have hinv : TokensKept (p₀.kernel.sem s).count s (p, g).1.kernel (p, g).2 := by
    refine h.invariant (I := fun p => TokensKept (p₀.kernel.sem s).count s p.1.kernel p.2)
      (.init hb) ?_
    rintro ⟨p, g⟩ ⟨p', g'⟩ b o hkept - hst
    obtain ⟨hs, rfl⟩ := Run.annotate_eq_some.1 hst
    have hsame : ∀ {k : Kernel} {b : SplitAction}, k.sem = p.kernel.sem → (∀ a, b.op = some a →
        ∃ n, a = .tick n) → TokensKept (p₀.kernel.sem s).count s k
          (Split.splitting.note Machine.tokenLedger p b [] g) := by
      intro k b hsem htick
      obtain ⟨hbounds, hbalance, hle⟩ := hkept
      rw [← hsem] at hbounds hbalance
      cases hop : b.op with
      | none =>
        simp only [Run.Splitting.note, Split.splitting, hop]
        exact ⟨hbounds, hbalance, hle⟩
      | some a =>
        obtain ⟨n, rfl⟩ := htick a hop
        simp only [Run.Splitting.note, Split.splitting, hop]
        refine ⟨hbounds, ?_, ?_⟩
        · simpa [Machine.tokenLedger, Machine.Gives, Machine.GivesFull] using hbalance
        · simpa [Machine.tokenLedger, Machine.Gives, Machine.GivesFull] using hle
    rcases Split.step_cases hs with ⟨a', m', rfl, -, -, hm, rfl⟩ | ⟨rfl, -, -, rfl, rfl⟩ |
      ⟨n, rfl, -, -, -, rfl, rfl⟩ | ⟨c, k', c', rfl, -, -, htick, rfl, rfl⟩ |
      ⟨n, c, k', c', rfl, -, -, -, htick, rfl, rfl⟩
    · exact hkept.step hm
    · exact hsame (b := .sysTick) rfl fun a ha => ⟨1, (Option.some.inj ha).symm⟩
    · exact hsame (b := .idleTick n) rfl fun a ha => ⟨n, (Option.some.inj ha).symm⟩
    · exact hsame (b := .statement) (TickStmt.of_tickStep htick).objects.sem nofun
    · exact hsame (b := .statement) (TickStmt.of_tickStep htick).objects.sem nofun
  exact hinv

/-! ### The tasks that wait -/

/-- The program points of `sem_take(s)`. -/
def Ctl.inTake (s : ℕ) : Ctl → Bool
  | .sem (.take u _) | .sem (.blocked u) => decide (u = s)
  | _ => false

/-- The program points of `sem_take(s)` and `sem_trytake(s)`. -/
def Ctl.takes (s : ℕ) : Ctl → Bool
  | .sem (.take u _) | .sem (.blocked u) | .sem (.trytake u) => decide (u = s)
  | _ => false

/-- The call takes a token of `s`. -/
def Call.takes (s : ℕ) : Call → Bool
  | .semTake u | .semTrytake u => decide (u = s)
  | _ => false

theorem Ctl.takes_of_inTake {c : Ctl} (h : c.inTake s = true) : c.takes s = true := by
  unfold Ctl.inTake at h
  split at h <;> first | exact h | cases h

theorem Ctl.eq_blocked_of_waitsOn {c : Ctl} (h : c.waitsOn = some (.sem s)) :
    c = .sem (.blocked s) := by
  unfold Ctl.waitsOn at h
  split at h
  · cases h
    rfl
  · cases h
  · rename_i op _
    cases op <;> cases h
  · cases h
  · cases h

theorem Ctl.inTake_of_waitsOn {c : Ctl} (h : c.waitsOn = some (.sem s)) : c.inTake s = true := by
  rw [Ctl.eq_blocked_of_waitsOn h]
  exact decide_eq_true rfl

theorem Ctl.inTake_of_retries {c : Ctl} (h : c.retries = some (.sem s)) : c.inTake s = true := by
  unfold Ctl.retries at h
  split at h
  · cases h
    exact decide_eq_true rfl
  · cases h
  · rename_i op _
    cases op <;> cases h
  · cases h

theorem Ctl.takes_of_family {c : Ctl} (h : c.family ≠ some .sem) : c.takes s = false := by
  cases c <;> first | rfl | exact absurd rfl h

theorem Ctl.takes_of_index (h : c.index ≠ s) : (Ctl.sem c).takes s = false := by
  cases c <;> first | rfl | exact decide_eq_false h

/-- A call stays with its semaphore. -/
theorem semStep_index (h : semStep k t c = some (k', c', o)) : c'.index = c.index := by
  cases c with
  | take u retry =>
    simp only [semStep] at h
    split at h <;> cases h <;> rfl
  | blocked u | give u =>
    cases h
    rfl
  | trytake u =>
    simp only [semStep] at h
    split at h <;> cases h <;> rfl
  | taken u | given u | trytaken u r => cases h

theorem Ctl.takes_of_atRest {c : Ctl} (h : c.atRest = true) : c.takes s = false := by
  unfold Ctl.takes
  split <;> first | rfl | cases h

theorem Call.takes_entry (c : Call) : c.entry.takes s = c.takes s := by cases c <;> rfl

namespace Machine

/-- How many of the tasks have not left `sem_take(s)` yet. -/
def stillInTake (m : Machine) (s : ℕ) (ts : List TaskPtr) : ℕ :=
  ts.countP fun t => (m.ctl (.thread t)).inTake s

/-- The tasks `ts` are blocked in `sem_take(s)`, and there is no other taker. -/
structure BlockedTakers (m : Machine) (s : ℕ) (ts : List TaskPtr) : Prop where
  waiters : m.kernel.Waiters (.sem s) ts
  only : ∀ x, (m.ctl x).takes s = true → ∃ t ∈ ts, x = .thread t

/-- No task is linked, and every task of `ts` that is still on its way finds a token. -/
def AllThrough (m : Machine) (s : ℕ) (ts : List TaskPtr) : Prop :=
  m.kernel.Waiters (.sem s) [] ∧ (m.stillInTake s ts : ℤ) ≤ (m.kernel.sem s).count

end Machine

/-- What holds while the tasks `ts`, which were blocked in `sem_take(s)`, are served: nobody else
takes, every give pops one of them, and unless a token has been lost there is one for every task that
has been popped. -/
structure Served (s : ℕ) (ts : List TaskPtr) (m : Machine) (L : WaitList → List TaskPtr)
    (g : TokenLedger) : Prop where
  only : ∀ x, (m.ctl x).takes s = true →
    (∃ t ∈ ts, x = .thread t) ∧ (m.ctl x).inTake s = true
  through : g.takes s + m.stillInTake s ts = ts.length
  lower : ts.length ≤ (L (.sem s)).length + g.gives s
  upper : g.merged s = 0 → (L (.sem s)).length ≤ ts.length - g.gives s
  enough : g.merged s = 0 →
    (m.stillInTake s ts : ℤ) ≤ (m.kernel.sem s).count + (L (.sem s)).length
  dropped : g.gives s ≤ ts.length → g.dropped s = 0

namespace Served

variable {ts : List TaskPtr} {L L' : WaitList → List TaskPtr} {g' : TokenLedger}

theorem init (hs : Sound m L) (h : m.BlockedTakers s ts) (hb : (m.kernel.sem s).InBounds) :
    Served s ts m L {} := by
  have hL : L (.sem s) = ts := (hs.coherent.waiters _).unique h.waiters
  have hin : ∀ t ∈ ts, (m.ctl (.thread t)).inTake s = true := fun t ht =>
    Ctl.inTake_of_waitsOn (hs.coherent.linked _ t (hL ▸ ht)).2
  have hall : m.stillInTake s ts = ts.length := List.countP_eq_length.2 hin
  refine ⟨fun x hx => ?_, by simp [hall], by simp [hL], by simp [hL], fun _ => ?_, fun _ => rfl⟩
  · obtain ⟨t, ht, rfl⟩ := h.only x hx
    exact ⟨⟨t, ht, rfl⟩, hin t ht⟩
  · rw [hall, hL]
    have := hb.1
    omega

/-- A step that is not about the semaphore. -/
theorem same (h : Served s ts m L g) (htakes : ∀ x, (m'.ctl x).takes s = true →
      (m'.ctl x).inTake s = true ∧ (m.ctl x).takes s = true)
    (hin : ∀ x, (m'.ctl x).inTake s = (m.ctl x).inTake s) (hL : L' (.sem s) = L (.sem s))
    (hcount : (m'.kernel.sem s).count = (m.kernel.sem s).count)
    (hg : g'.takes s = g.takes s ∧ g'.gives s = g.gives s ∧ g'.dropped s = g.dropped s ∧
      g'.merged s = g.merged s) : Served s ts m' L' g' := by
  obtain ⟨ht, hgi, hd, hm⟩ := hg
  have hstill : m'.stillInTake s ts = m.stillInTake s ts :=
    List.countP_congr fun t _ => by rw [hin]
  refine ⟨fun x hx => ⟨(h.only x (htakes x hx).2).1, (htakes x hx).1⟩, ?_, ?_, ?_, ?_, ?_⟩
  · rw [ht, hstill]
    exact h.through
  · rw [hL, hgi]
    exact h.lower
  · rw [hL, hgi, hm]
    exact h.upper
  · rw [hL, hm, hstill, hcount]
    exact h.enough
  · rw [hgi, hd]
    exact h.dropped

/-- A step of a thread changes at most whether this task is still in `sem_take(s)`. -/
theorem stillInTake_resume {t : TaskPtr} {c' : Ctl} (hnodup : ts.Nodup) (ht : t ∈ ts) :
    (m.resume (.thread t) k' c').stillInTake s ts + ((m.ctl (.thread t)).inTake s).toNat =
      m.stillInTake s ts + (c'.inTake s).toNat := by
  have hperm := List.perm_cons_erase ht
  have hrest : (ts.erase t).countP (fun u => (Function.update m.ctl (.thread t) c' (.thread u)).inTake s) =
      (ts.erase t).countP fun u => (m.ctl (.thread u)).inTake s := by
    refine List.countP_congr fun u hu => ?_
    have hne : u ≠ t := fun he => (hnodup.mem_erase_iff.1 (he ▸ hu)).1 rfl
    rw [Function.update_of_ne (by simpa using hne)]
  unfold Machine.stillInTake
  simp only [Machine.ctl_resume]
  rw [hperm.countP_eq, hperm.countP_eq, List.countP_cons, List.countP_cons, hrest,
    Function.update_self]
  cases c'.inTake s <;> cases (m.ctl (.thread t)).inTake s <;> simp

theorem stillInTake_same {x : Ctx} {c' : Ctl} (h : c'.inTake s = (m.ctl x).inTake s) :
    (m.resume x k' c').stillInTake s ts = m.stillInTake s ts := by
  refine List.countP_congr fun u _ => ?_
  rw [Machine.ctl_resume, Function.update_apply]
  split_ifs with he
  · rw [he, h]
  · rfl

theorem ledger_same (hgives : ¬m.Gives a s) (ho : o.count (.semTaken s) = 0) :
    (m.tokenLedger a o g).takes s = g.takes s ∧ (m.tokenLedger a o g).gives s = g.gives s ∧
      (m.tokenLedger a o g).dropped s = g.dropped s ∧
      (m.tokenLedger a o g).merged s = g.merged s := by
  simp [Machine.tokenLedger, Machine.GivesFull, hgives, ho]

/-- A step of a call on the semaphore. -/
theorem step_sem (h : Served s ts m L g) (hs : Sound m L) (hnodup : ts.Nodup)
    (hb : (m.kernel.sem s).InBounds) {x : Ctx} (hact : m.active = some x)
    (hx : Runs m.kernel x t) (hc : m.ctl x = .sem c) (hindex : c.index = s)
    (hst : semStep m.kernel t c = some (k', c', o)) (he : SemEffect m.kernel L t c k' c' L') :
    Served s ts (m.resume x k' (.sem c')) L' (m.tokenLedger .exec o g) := by
  obtain ⟨hlo, hhi⟩ := hb
  have honly : ∀ {c' : Ctl}, (c'.takes s = true → c'.inTake s = true ∧ ∃ u ∈ ts, x = .thread u) →
      ∀ y, (Function.update m.ctl x c' y).takes s = true → (∃ u ∈ ts, y = .thread u) ∧
        (Function.update m.ctl x c' y).inTake s = true := by
    intro c' hnew y hy
    rcases eq_or_ne y x with rfl | hne
    · rw [Function.update_self] at hy ⊢
      exact (hnew hy).symm
    · rw [Function.update_of_ne hne] at hy ⊢
      exact h.only y hy
  have hmember : (m.ctl x).takes s = true → x = .thread t → t ∈ ts := by
    rintro htakes rfl
    obtain ⟨⟨v, hv, he⟩, -⟩ := h.only _ htakes
    cases he
    exact hv
  have hstill : x = .thread t → t ∈ ts → (m.resume x k' (.sem c')).stillInTake s ts +
      ((m.ctl x).inTake s).toNat = m.stillInTake s ts + ((Ctl.sem c').inTake s).toNat := by
    rintro rfl ht
    exact stillInTake_resume hnodup ht
  have hsame : (Ctl.sem c').inTake s = (m.ctl x).inTake s →
      (m.resume x k' (.sem c')).stillInTake s ts = m.stillInTake s ts := stillInTake_same
  obtain ⟨hfirst, hthrough, hlower, hupper, henough, hdropped⟩ := h
  obtain ⟨-, htokens, -⟩ := semStep_tokens hst s
  have hgives : m.Gives .exec s ↔ c = .give s := by simp [Machine.Gives, hact, hc]
  obtain ⟨htakes, hgo, hdrop, hmerge⟩ :
      (m.tokenLedger .exec o g).takes s = g.takes s + o.count (.semTaken s) ∧
      (m.tokenLedger .exec o g).gives s = g.gives s +
        (if c = .give s then 1 else 0) ∧
      (m.tokenLedger .exec o g).dropped s = g.dropped s +
        (if (c = .give s ∧ (m.kernel.sem s).count = (m.kernel.sem s).max) ∧
          m.kernel.head (.sem s) = none then 1 else 0) ∧
      (m.tokenLedger .exec o g).merged s = g.merged s +
        (if (c = .give s ∧ (m.kernel.sem s).count = (m.kernel.sem s).max) ∧
          m.kernel.head (.sem s) ≠ none then 1 else 0) := by
    simp [Machine.tokenLedger, Machine.GivesFull, hgives]
  have hsilent : c = .give s → o.count (.semTaken s) = 0 := by
    rintro rfl
    cases hst
    simp
  generalize m.tokenLedger .exec o g = g' at *
  generalize o.count (.semTaken s) = taken at *
  have hcount : ((m.resume x k' (.sem c')).kernel.sem s).count = (k'.sem s).count :=
    rfl
  rw [hc] at hmember hstill hsame
  cases he with
  | @take u retry hpos =>
    obtain rfl : u = s := hindex
    obtain rfl := hs.coherent.thread_of_not_isrSafe hx (by rw [hc]; rfl)
    have hless := hstill rfl (hmember (decide_eq_true rfl) rfl)
    have hless₁ : ((m.kernel.setSemCount u ((m.kernel.sem u).count - 1)).sem u).count =
        (m.kernel.sem u).count - 1 := by
      rw [Kernel.sem_setSemCount, if_pos rfl]
    rw [hless₁] at htokens hcount
    simp [Ctl.inTake] at htokens hgo hdrop hmerge hless
    exact ⟨honly (fun hf => by cases hf), by omega, by omega, by omega, by omega, by omega⟩
  | @block u retry k' hle hq =>
    obtain rfl : u = s := hindex
    obtain rfl := hs.coherent.thread_of_not_isrSafe hx (by rw [hc]; rfl)
    have ht := hmember (decide_eq_true rfl) rfl
    -- The task that would block is on its way, so there is a token for it.
    have hway : (L (.sem u)).length < m.stillInTake u ts := by
      have hfree := (hs.coherent.free_of_runs hx (by rw [hc]; simp)).1.1 (.sem u)
      have hwaits := (hs.coherent.waiters (.sem u)).nodup
      have hsub : t :: L (.sem u) ⊆ ts.filter fun v => (m.ctl (.thread v)).inTake u := by
        intro v hv
        rcases List.mem_cons.1 hv with rfl | hv
        · exact List.mem_filter.2 ⟨ht, by rw [hc]; exact decide_eq_true rfl⟩
        · have hin := Ctl.inTake_of_waitsOn (hs.coherent.linked _ v hv).2
          obtain ⟨⟨w, hw, he⟩, -⟩ := hfirst _ (Ctl.takes_of_inTake hin)
          cases he
          exact List.mem_filter.2 ⟨hw, hin⟩
      have hle := ((List.nodup_cons.2 ⟨hfree, hwaits⟩).subperm hsub).length_le
      rwa [List.length_cons, ← List.countP_eq_length_filter] at hle
    have hkeep := hsame rfl
    have hlength : (Function.update L (.sem u) (m.kernel.enqueued t (L (.sem u))) (.sem u)).length =
        (L (.sem u)).length + 1 := by
      rw [Function.update_self, Kernel.enqueued, List.orderedInsert_length]
    rw [hq.sem] at htokens hcount
    simp at htokens hgo hdrop hmerge
    exact ⟨honly (fun hf => ⟨hf, t, ht, rfl⟩), by omega, by omega, by omega, by omega, by omega⟩
  | @resume u =>
    obtain rfl : u = s := hindex
    have hkeep := hsame rfl
    simp at htokens hgo hdrop hmerge
    refine ⟨honly fun hf => ⟨hf, (hfirst x ?_).1⟩, by omega, by omega, by omega, by omega, by omega⟩
    rw [hc]
    exact hf
  | @give u hl =>
    obtain rfl : u = s := hindex
    have hkeep := hsame rfl
    have hhead : m.kernel.head (.sem u) = none := by
      have hw := hs.coherent.waiters (.sem u)
      rw [hl] at hw
      exact hw
    have hempty : (L (.sem u)).length = 0 := by rw [hl]; rfl
    have hzero := hsilent rfl
    simp [hhead] at htokens hgo hdrop hmerge
    split_ifs at htokens hdrop <;>
      exact ⟨honly (fun hf => by cases hf), by omega, by omega, by omega, by omega, by omega⟩
  | @wake u w xs k' hl hq =>
    obtain rfl : u = s := hindex
    have hkeep := hsame rfl
    have hhead : m.kernel.head (.sem u) = some w := by
      have hw := hs.coherent.waiters (.sem u)
      rw [hl] at hw
      exact hw.1
    have hlength : (L (.sem u)).length = xs.length + 1 := by rw [hl]; rfl
    have hrest : (Function.update L (.sem u) xs (.sem u)).length = xs.length := by
      rw [Function.update_self]
    have hzero := hsilent rfl
    simp [hhead] at htokens hgo hdrop hmerge
    split_ifs at htokens hmerge <;>
      exact ⟨honly (fun hf => by cases hf), by omega, by omega, by omega, by omega, by omega⟩
  | @trytake u hpos | @tryfail u hle =>
    obtain rfl : u = s := hindex
    obtain ⟨-, hin⟩ := hfirst x (by rw [hc]; exact decide_eq_true rfl)
    rw [hc] at hin
    cases hin

/-- A context that begins a call, or executes a step, of something else. -/
theorem same_update {x : Ctx} {c' : Ctl} (hold : (m.ctl x).takes s = false)
    (hnew : c'.takes s = false) (y : Ctx) :
    ((Function.update m.ctl x c' y).takes s = true →
      (Function.update m.ctl x c' y).takes s = true ∧ (m.ctl y).takes s = true) ∧
    (Function.update m.ctl x c' y).inTake s = (m.ctl y).inTake s := by
  have hout : ∀ {c : Ctl}, c.takes s = false → c.inTake s = false := fun h =>
    Bool.eq_false_iff.2 fun hin => by rw [Ctl.takes_of_inTake hin] at h; cases h
  rcases eq_or_ne y x with rfl | hne
  · rw [Function.update_self]
    exact ⟨fun h => (by rw [hnew] at h; cases h), (hout hnew).trans (hout hold).symm⟩
  · rw [Function.update_of_ne hne]
    exact ⟨fun h => ⟨h, h⟩, rfl⟩

/-- An orderly step in which nobody else begins to take. -/
theorem step (h : Served s ts m L g) (hs : Sound m L) (hok : m.Orderly a)
    (hno : a.Within fun c => c.takes s = false) (hnodup : ts.Nodup)
    (hb : (m.kernel.sem s).InBounds) (hst : m.step a = some (m', o)) :
    ∃ L', Sound m' L' ∧ Served s ts m' L' (m.tokenLedger a o g) := by
  have hquiet : a ≠ .exec → o = [] → (m.tokenLedger a o g).takes s = g.takes s ∧
      (m.tokenLedger a o g).gives s = g.gives s ∧
      (m.tokenLedger a o g).dropped s = g.dropped s ∧
      (m.tokenLedger a o g).merged s = g.merged s := fun ha ho =>
    ledger_same (fun hg => ha hg.1) (by rw [ho]; rfl)
  have hkeep : ∀ {x : Ctx} {c' : Ctl} {m' : Machine} {L' : WaitList → List TaskPtr}
      {g' : TokenLedger}, m'.ctl = Function.update m.ctl x c' → (m.ctl x).takes s = false →
      c'.takes s = false → L' (.sem s) = L (.sem s) →
      (m'.kernel.sem s).count = (m.kernel.sem s).count →
      (g'.takes s = g.takes s ∧ g'.gives s = g.gives s ∧ g'.dropped s = g.dropped s ∧
        g'.merged s = g.merged s) → Served s ts m' L' g' := by
    intro x c' m' L' g' hctl hold hnew hL hcount hg
    refine h.same (fun y hy => ?_) (fun y => ?_) hL hcount hg
    · rw [hctl] at hy ⊢
      have hy' := ((same_update hold hnew y).1 hy).2
      rw [(same_update hold hnew y).2]
      exact ⟨(h.only y hy').2, hy'⟩
    · rw [hctl]
      exact (same_update hold hnew y).2
  have hstay : ∀ {m' : Machine} {L' : WaitList → List TaskPtr} {g' : TokenLedger},
      m'.ctl = m.ctl → L' (.sem s) = L (.sem s) →
      (m'.kernel.sem s).count = (m.kernel.sem s).count →
      (g'.takes s = g.takes s ∧ g'.gives s = g.gives s ∧ g'.dropped s = g.dropped s ∧
        g'.merged s = g.merged s) → Served s ts m' L' g' := by
    intro m' L' g' hctl hL hcount hg
    refine h.same (fun y hy => ?_) (fun y => by rw [hctl]) hL hcount hg
    rw [hctl] at hy ⊢
    exact ⟨(h.only y hy).2, hy⟩
  by_cases hexec : a = .exec
  · subst hexec
    rcases Machine.step_cases hst with ⟨_, _, he, _⟩ | ⟨x, t, k', c', -, hact, hcur, hstep, rfl⟩ |
      ⟨_, he, _⟩ | ⟨he, _⟩ | ⟨_, he, _⟩ | ⟨_, _, he, _⟩
    · cases he
    · obtain ⟨L', -, hs', hlists⟩ := hs.exec hact hcur hok hstep
      refine ⟨L', hs', ?_⟩
      by_cases habout : ∃ c, m.ctl x = .sem c ∧ c.index = s
      · obtain ⟨c, hc, hindex⟩ := habout
        rw [hc] at hstep
        obtain ⟨⟨k₁, c₁, o₁⟩, hsem, he⟩ := Option.map_eq_some_iff.1 hstep
        cases he
        have hx := Machine.runs hact hcur
        obtain ⟨L'', heff, hco⟩ := semStep_spec hs.coherent hx hc hsem
        obtain rfl : L'' = L' :=
          funext fun l => (hco.waiters l).unique (hs'.coherent.waiters l)
        exact h.step_sem hs hnodup hb hact hx hc hindex hsem heff
      · obtain ⟨hold, hnew, hL, hcount⟩ : (m.ctl x).takes s = false ∧ c'.takes s = false ∧
            L' (.sem s) = L (.sem s) ∧ (k'.sem s).count = (m.kernel.sem s).count := by
          by_cases hF : (m.ctl x).family = some .sem
          · obtain ⟨c, hc⟩ : ∃ c, m.ctl x = .sem c := by
              cases hc : m.ctl x with
              | sem c => exact ⟨c, rfl⟩
              | app | mutex c | queue c | event c | notify c | sched c => rw [hc] at hF; cases hF
            have hne : s ≠ c.index := fun he => habout ⟨c, hc, he.symm⟩
            rw [hc] at hstep
            obtain ⟨⟨k₁, c₁, o₁⟩, hsem, he⟩ := Option.map_eq_some_iff.1 hstep
            cases he
            obtain ⟨L'', heff, hco⟩ :=
              semStep_spec hs.coherent (Machine.runs hact hcur) hc hsem
            obtain ⟨hsem', hL⟩ := heff.frame hne
            refine ⟨by rw [hc]; exact Ctl.takes_of_index hne.symm,
              Ctl.takes_of_index (semStep_index hsem ▸ hne.symm), ?_, by rw [hsem']⟩
            rw [← hL]
            exact (hs'.coherent.waiters _).unique (hco.waiters _)
          · obtain ⟨F, hF', hstores⟩ := ctlStep_family_stores hstep
            have hne : F ≠ .sem := by
              rintro rfl
              exact hF hF'
            refine ⟨Ctl.takes_of_family hF, Ctl.takes_of_family ?_, hlists _ (Ne.symm hF), ?_⟩
            · rw [Ctl.family_ctlStep hstep]
              exact hF
            · rw [hstores.objects.sem hne]
        have hgives : ¬m.Gives .exec s := by
          rintro ⟨-, he⟩
          rw [hact] at he
          exact habout ⟨_, Option.some.inj he, rfl⟩
        obtain ⟨-, htokens, -⟩ := Machine.step_tokens hst s
        rw [if_neg fun hg => hgives hg.1, Machine.kernel_resume, hcount] at htokens
        exact hkeep rfl hold hnew hL hcount (ledger_same hgives (by omega))
    · cases he
    · cases he
    · cases he
    · cases he
  · obtain ⟨L', he, hs'⟩ := hs.step hok hst
    refine ⟨L', hs', ?_⟩
    cases he with
    | call hact hrest =>
      exact hkeep rfl (Ctl.takes_of_atRest hrest) ((Call.takes_entry _).trans hno) rfl rfl
        (hquiet (by simp) rfl)
    | irq hsafe =>
      exact hkeep rfl (Ctl.takes_of_atRest (hs.finished m.depth le_rfl))
        ((Call.takes_entry _).trans hno) rfl rfl (hquiet (by simp) rfl)
    | pendSV | clock => exact hstay rfl rfl rfl (hquiet (by simp) rfl)
    | @tick n k' L' he =>
      refine hstay rfl ?_ (by rw [he.quiet.sem]) (hquiet (by simp) rfl)
      -- A tick expires no waiter of a semaphore: none of them has a delay.
      rw [he.lists, List.filter_eq_self]
      intro u hu
      have hblocked := Ctl.eq_blocked_of_waitsOn (hs.coherent.linked _ u hu).2
      rw [Bool.not_eq_true', Bool.eq_false_iff]
      intro hexp
      have hpos := Kernel.delayTicks_pos_of_expires hexp
      rcases hs.coherent.delay u hpos with hd | hw
      · rw [hblocked] at hd
        cases hd
      · have htimed := hw.timed
        rw [hblocked] at htimed
        cases htimed
    | sem | mutex | queue | event | sched => exact absurd rfl hexec

end Served

/-- When `k` takers are blocked and nobody else takes, `k` gives get all of them through, unless a
token has been lost on the way. -/
theorem Machine.allThrough_iff {cfg : Config} {m₀ m : Machine} {out₀ out : List Obs}
    {ts : List TaskPtr}
    (h₀ : Run.Reach Machine.step (fun _ a => a.Within Call.Steady) (Machine.start cfg) m₀ out₀)
    (hb : (m₀.kernel.sem s).InBounds) (hblocked : m₀.BlockedTakers s ts)
    (h : Run.Reach Machine.counted
      (fun _ a => a.Within Call.Steady ∧ a.Within fun c => c.takes s = false) (m₀, {}) (m, g) out)
    (hgives : g.gives s = ts.length) : m.AllThrough s ts ↔ g.merged s = 0 := by
  obtain ⟨L₀, hs₀⟩ := Machine.sound_of_reach (fun _ _ => And.right)
    (Machine.orderly_of_steady (fun _ _ => id) h₀)
  have hnodup : ts.Nodup := hblocked.waiters.nodup
  -- The run that follows is a run from the start, so each of its steps is orderly.
  obtain ⟨L, hs, hserved⟩ : ∃ L, Sound m L ∧ Served s ts m L g := by
    have hrun : (∃ out, Run.Reach Machine.step (fun _ a => a.Within Call.Steady)
        (Machine.start cfg) (m, g).1 out) ∧ ((m, g).1.kernel.sem s).InBounds ∧
        ∃ L, Sound (m, g).1 L ∧ Served s ts (m, g).1 L (m, g).2 := by
      refine h.invariant (I := fun p => (∃ out, Run.Reach Machine.step
        (fun _ a => a.Within Call.Steady) (Machine.start cfg) p.1 out) ∧
        (p.1.kernel.sem s).InBounds ∧ ∃ L, Sound p.1 L ∧ Served s ts p.1 L p.2)
        ⟨⟨out₀, h₀⟩, hb, L₀, hs₀, .init hs₀ hblocked hb⟩ ?_
      rintro ⟨m, g⟩ ⟨m', g'⟩ a o ⟨⟨out, hr⟩, hbm, L, hs, hserved⟩ ⟨hwithin, hno⟩ hst
      obtain ⟨hstep, rfl⟩ := Run.annotate_eq_some.1 hst
      have hone : Run.Reach Machine.counted (fun _ _ => True) (m, {}) (m', _) _ :=
        Run.Reach.init.step trivial (Run.annotate_eq_some.2 ⟨hstep, rfl⟩)
      exact ⟨⟨_, hr.step hwithin hstep⟩, (Machine.tokens_of_reach hbm hone).inBounds,
        hserved.step hs (Machine.orderly_of_within (fun _ _ => id) hr hwithin) hno hnodup hbm hstep⟩
    exact hrun.2.2
  obtain ⟨-, htokens, hle⟩ := Machine.tokens_of_reach hb h
  have hdropped := hserved.dropped hgives.le
  have hthrough := hserved.through
  constructor
  · rintro ⟨-, hfound⟩
    rcases eq_or_ne ts [] with rfl | hne
    · rw [List.length_nil] at hgives
      omega
    -- Tokens do not lie there while a task is blocked and nobody else is on the way.
    have hzero : (m₀.kernel.sem s).count ≤ 0 := by
      have hL : L₀ (.sem s) = ts := (hs₀.coherent.waiters _).unique hblocked.waiters
      obtain ⟨P, hcard, hP⟩ := hs₀.covered (.sem s) (hL ▸ hne)
      have hempty : P = ∅ := by
        refine Finset.eq_empty_of_forall_notMem fun u hu => ?_
        have hlinked : ∀ v, (m₀.ctl (.thread v)).inTake s = true →
            (m₀.ctl (.thread v)).waitsOn = some (.sem s) ∧ v ∈ L₀ (.sem s) := by
          intro v hv
          obtain ⟨w, hw, he⟩ := hblocked.only _ (Ctl.takes_of_inTake hv)
          cases he
          exact ⟨(hs₀.coherent.linked _ v (hL ▸ hw)).2, hL ▸ hw⟩
        rcases hP u hu with hr | ⟨hw, hnot, -⟩
        · obtain ⟨hwaits, -⟩ := hlinked u (Ctl.inTake_of_retries hr)
          rw [Ctl.eq_blocked_of_waitsOn hwaits] at hr
          cases hr
        · exact hnot (hlinked u (Ctl.inTake_of_waitsOn hw)).2
      rw [hempty, Finset.card_empty] at hcard
      have havail : (m₀.kernel.sem s).count.toNat = 0 := Nat.le_zero.1 hcard
      omega
    omega
  · intro hmerged
    have hupper := hserved.upper hmerged
    have henough := hserved.enough hmerged
    have hnone : L (.sem s) = [] := List.length_eq_zero_iff.1 (by omega)
    refine ⟨hnone ▸ hs.coherent.waiters (.sem s), ?_⟩
    rw [hnone] at henough
    simpa using henough

/-- Tokens are conserved at every point of every run, whatever comes between the statements of the
ticks, if and only if no give finds the count at its maximum and a task linked; and with whole ticks `k`
gives get `k` blocked takers through exactly then. -/
theorem semTokens_conserved_iff (cfg : Config)
    (hcfg : ∀ x, 0 ≤ (cfg.sem x).count ∧ (cfg.sem x).count ≤ (cfg.sem x).max) (x : ℕ) :
    (∀ s g out, Run.Reach (Split.noted Machine.tokenLedger) (fun _ _ => True) (Split.start cfg, {})
      (s, g) out →
      ((g.takes x : ℤ) + (s.kernel.sem x).count =
        (cfg.sem x).count + g.gives x - g.dropped x ↔ g.merged x = 0)) ∧
    ∀ s₀ out₀ ts s g out,
      Run.Reach Split.step (Split.Whole fun _ a => a.Within Call.Steady) (Split.start cfg) s₀ out₀ →
      s₀.ticking = false → s₀.machine.BlockedTakers x ts →
      Run.Reach (Split.noted Machine.tokenLedger)
        (Split.WholeNoted Machine.tokenLedger fun _ a =>
          a.Within Call.Steady ∧ a.Within fun c => c.takes x = false) (s₀, {}) (s, g) out →
      s.ticking = false → g.gives x = ts.length → (s.machine.AllThrough x ts ↔ g.merged x = 0) := by
  have hstart : (Machine.start cfg).kernel.sem x = cfg.sem x := by
    change cfg.created.sem x = cfg.sem x
    rw [cfg.fresh_created.sem]
  refine ⟨fun s g out h => ?_, fun s₀ out₀ ts s g out h₀ hs₀ hblocked h hs hgives => ?_⟩
  · have hb : ((Split.start cfg).kernel.sem x).InBounds := by
      change ((Machine.start cfg).kernel.sem x).InBounds
      rw [hstart]
      exact hcfg x
    have hbalance := (Split.tokens_of_reach hb h).balance
    change _ = ((Machine.start cfg).kernel.sem x).count + _ at hbalance
    rw [hstart] at hbalance
    omega
  · have hm₀ := Split.reach_machine h₀ hs₀
    have hb := Machine.inBounds_of_reach hcfg (fun _ _ => And.right)
      (Machine.orderly_of_steady (fun _ _ => id) hm₀) x
    exact Machine.allThrough_iff hm₀ hb hblocked (Split.continue_noted hm₀ hs₀ h hs) hgives

/-- Two tasks are blocked in `sem_take`. -/
def takersUpTo (max : ℤ) : Config := { priorities := [1, 2], sem := fun _ => ⟨0, max⟩ }

def blockTwo : List Action :=
  [.call (.semTake 0), .exec, .pendSV, .call (.semTake 0), .exec, .pendSV]

/-- An interrupt handler gives two tokens before either task has run again. -/
def giveTwice : List Action := [.irq (.semGive 0), .exec, .irq (.semGive 0), .exec]

def twoTakersBlocked : Scenario where
  config := takersUpTo 2
  actions := blockTwo
  possible := by decide +kernel

theorem twoTakersBlocked_blocked : twoTakersBlocked.final.BlockedTakers 0 [.tcb 0, .tcb 1] := by
  have hreach : Run.Reach Machine.step (fun _ a => a.Within Call.Steady)
      (Machine.start (takersUpTo 2)) twoTakersBlocked.final twoTakersBlocked.reports :=
    twoTakersBlocked.reach (by decide +kernel)
  obtain ⟨L, hs⟩ := Machine.sound_of_reach (fun _ _ => And.right)
    (Machine.orderly_of_steady (fun _ _ => id) hreach)
  have hdepth : twoTakersBlocked.final.depth = 0 := by decide +kernel
  have hcount : twoTakersBlocked.final.kernel.taskCount = 2 := by decide +kernel
  refine ⟨by decide +kernel, fun x hx => ?_⟩
  cases x with
  | isr i =>
    rw [Ctl.takes_of_atRest (hs.finished i (by omega))] at hx
    cases hx
  | thread t =>
    obtain ⟨i, hi, rfl⟩ := hs.coherent.table t fun he => by rw [he] at hx; cases hx
    rw [hcount] at hi
    obtain rfl | rfl : i = 0 ∨ i = 1 := by omega
    · exact ⟨.tcb 0, by simp, rfl⟩
    · exact ⟨.tcb 1, by simp, rfl⟩

theorem giveTwice_possible :
    (Run.exec Machine.counted (twoTakersBlocked.final, {}) giveTwice).isSome = true := by
  decide +kernel

/-- With a maximum of 2 both tasks get through. -/
theorem giveTwice_allThrough :
    let r := (Run.exec Machine.counted (twoTakersBlocked.final, {}) giveTwice).get giveTwice_possible
    r.1.1.AllThrough 0 [.tcb 0, .tcb 1] := by
  intro r
  have h₀ : Run.Reach Machine.step (fun m a => a.Within Call.Steady ∧ m.Timely a)
      (Machine.start (takersUpTo 2)) twoTakersBlocked.final twoTakersBlocked.reports :=
    twoTakersBlocked.reach (by decide +kernel)
  have hrun : Run.Reach Machine.counted
      (fun p a => (a.Within Call.Steady ∧ a.Within fun c => c.takes 0 = false) ∧ p.1.Timely a)
      (twoTakersBlocked.final, {}) (r.1.1, r.1.2) r.2 :=
    Run.Reach.exec (by decide +kernel) giveTwice_possible
  have hgives : r.1.2.gives 0 = [TaskPtr.tcb 0, .tcb 1].length := by decide +kernel
  have hmerged : r.1.2.merged 0 = 0 := by decide +kernel
  have hblocked := twoTakersBlocked_blocked
  generalize r.1.1 = m, r.1.2 = g, r.2 = out at hrun hgives hmerged ⊢
  obtain ⟨s₀, hs₀, hm₀, hreach₀⟩ := Split.exists_of_machine h₀
  rw [← hm₀] at h₀ hrun hblocked
  obtain ⟨s, hs, rfl, hreach⟩ := Split.exists_of_continued h₀ hs₀ hrun
  exact ((semTokens_conserved_iff (takersUpTo 2) (fun _ => by simp [takersUpTo]) 0).2 _ _ _ _ _ _
    hreach₀ hs₀ hblocked hreach hs hgives).2 hmerged

theorem giveTwice_counted : (Run.exec Machine.counted (Machine.start (takersUpTo 1), {})
    (blockTwo ++ giveTwice)).isSome = true := by
  decide +kernel

/-- With a maximum of 1 the second token is lost: its task has been popped and finds none. -/
theorem giveTwice_merged : ∃ s g out,
    Run.Reach (Split.noted Machine.tokenLedger)
      (Split.WholeNoted Machine.tokenLedger fun _ a => a.Within Call.Steady)
      (Split.start (takersUpTo 1), {}) (s, g) out ∧ s.ticking = false ∧
    (g.takes 0 : ℤ) + (s.kernel.sem 0).count ≠
      ((takersUpTo 1).sem 0).count + g.gives 0 - g.dropped 0 := by
  have hrun : Run.Reach Machine.counted (fun p a => a.Within Call.Steady ∧ p.1.Timely a)
      (Machine.start (takersUpTo 1), {}) _ _ := .exec (by decide +kernel) giveTwice_counted
  have hlost : ∀ r, r = (Run.exec Machine.counted (Machine.start (takersUpTo 1), {})
        (blockTwo ++ giveTwice)).get giveTwice_counted →
      (r.1.2.takes 0 : ℤ) + (r.1.1.kernel.sem 0).count ≠
        ((takersUpTo 1).sem 0).count + r.1.2.gives 0 - r.1.2.dropped 0 := by
    rintro r rfl
    decide +kernel
  obtain ⟨r, hr⟩ : ∃ r, r = (Run.exec Machine.counted (Machine.start (takersUpTo 1), {})
    (blockTwo ++ giveTwice)).get giveTwice_counted := ⟨_, rfl⟩
  rw [← hr] at hrun
  obtain ⟨s, hs, hm, hreach⟩ := Split.exists_of_noted (m := r.1.1) (g := r.1.2) hrun
  have hne := hlost r hr
  rw [← hm] at hne
  exact ⟨s, _, _, hreach, hs, hne⟩

end TamgaOs
