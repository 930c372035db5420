import TamgaOs.Kernel.Critical

/-!
# Critical sections are atomic

The contexts interleave instruction by instruction, and between `mrs` and `cpsid` an interrupt may
still be taken. The value that `mrs` has read is nevertheless the value of PRIMASK when `cpsid` is
executed, so that sections nest and no context runs while another one is in a section.

## Main results

* `Critical.Sound.step`: what every instruction keeps.
* `criticalSections_exclude`: PRIMASK is set as long as the running context is in a section, and no
  other context is in one.
* `criticalSections_atomic`: what has been executed is a sequence of whole sections and of single
  instructions outside of them.
-/

namespace TamgaOs

namespace Critical

variable {κ σ : Type*}

/-- The trace entries of one section or of an instruction outside. -/
abbrev Block (es : List (κ × CriticalOp σ)) : Prop :=
  Bracketing.Block (fun e : κ × CriticalOp σ => e.2.bracket) Prod.fst es

/-- The trace entries of a section that has not ended. -/
abbrev Open (n : ℕ) (es : List (κ × CriticalOp σ)) : Prop :=
  Bracketing.Open (fun e : κ × CriticalOp σ => e.2.bracket) n es

/-- The shared variables after the instructions of a trace. -/
def run (es : List (κ × CriticalOp σ)) (x : σ) : σ := es.foldl (fun y e => e.2.apply y) x

theorem run_append (es es' : List (κ × CriticalOp σ)) (x : σ) :
    run (es ++ es') x = run es' (run es x) :=
  List.foldl_append

/-- Only the value that the outermost exit restores is clear. -/
def Restores : List Bool → Prop
  | [] => True
  | p :: ps => (p = true ↔ ps ≠ []) ∧ Restores ps

/-- The trace is a sequence of blocks and of the section that the running context is in. -/
def Blocked (s : Critical κ σ) (out : List (κ × CriticalOp σ)) : Prop :=
  ∃ (blocks : List (List (κ × CriticalOp σ))) (tail : List (κ × CriticalOp σ)),
    blocks.flatten ++ tail = out ∧ (∀ b ∈ blocks, Block b) ∧
    (∀ e ∈ tail, e.1 = s.running) ∧
    (s.saved s.running = [] ∧ tail = [] ∨
      ∃ n, (s.saved s.running).length = n + 1 ∧ Open n tail)

/-- What holds after every instruction. -/
structure Sound (x : σ) (s : Critical κ σ) (out : List (κ × CriticalOp σ)) : Prop where
  mask : s.primask = true ↔ s.saved s.running ≠ []
  alone : ∀ c, c ≠ s.running → s.saved c = []
  restores : Restores (s.saved s.running)
  read : ∀ c p, s.read c = some p → (p = true ↔ s.saved c ≠ [])
  blocked : s.Blocked out
  shared : s.shared = run out x

theorem Sound.init (c : κ) (x : σ) : Sound x (init c x) [] where
  mask := by simp [Critical.init]
  alone _ _ := rfl
  restores := trivial
  read c p h := by simp [Critical.init] at h
  blocked := ⟨[], [], rfl, by simp, by simp, .inl ⟨rfl, rfl⟩⟩
  shared := rfl

variable {s s' : Critical κ σ} {x : σ} {out : List (κ × CriticalOp σ)} {op : CriticalOp σ}

/-- An instruction that neither begins nor ends a section. -/
theorem Blocked.plain (h : s.Blocked out) (hop : op.bracket = .plain)
    (hrun : s'.running = s.running) (hsaved : s'.saved = s.saved) :
    s'.Blocked (out ++ [(s.running, op)]) := by
  obtain ⟨blocks, tail, rfl, hblocks, htail, hopen⟩ := h
  have hown : ∀ e ∈ [(s.running, op)], e.1 = s.running := by simp
  rcases hopen with ⟨hnil, rfl⟩ | ⟨n, hlen, hopen⟩
  · refine ⟨blocks ++ [[(s.running, op)]], [], by simp, fun b hb => ?_, by simp,
      .inl ⟨by rw [hrun, hsaved, hnil], rfl⟩⟩
    rcases List.mem_append.1 hb with hb | hb
    · exact hblocks b hb
    · obtain rfl := List.mem_singleton.1 hb
      exact ⟨⟨s.running, hown⟩, .inr ⟨_, rfl, hop⟩⟩
  · refine ⟨blocks, tail ++ [(s.running, op)], by rw [List.append_assoc], hblocks, fun e he => ?_,
      .inr ⟨n, by rw [hrun, hsaved, hlen], hopen.plain hop⟩⟩
    rw [hrun]
    exact (List.mem_append.1 he).elim (htail e) (hown e)

/-- Another context runs, as nobody is in a section. -/
theorem Blocked.switch (h : s.Blocked out) (hnil : s.saved s.running = [])
    (hnil' : s'.saved s'.running = []) : s'.Blocked out := by
  obtain ⟨blocks, tail, rfl, hblocks, -, hopen⟩ := h
  rcases hopen with ⟨-, rfl⟩ | ⟨n, hlen, -⟩
  · exact ⟨blocks, [], rfl, hblocks, by simp, .inl ⟨hnil', rfl⟩⟩
  · rw [hnil] at hlen
    cases hlen

variable [DecidableEq κ]

/-- The running context begins a section. -/
theorem Blocked.cpsid {p : Bool} (h : s.Blocked out) (hrun : s'.running = s.running)
    (hsaved : s'.saved = Function.update s.saved s.running (p :: s.saved s.running)) :
    s'.Blocked (out ++ [(s.running, .cpsid)]) := by
  obtain ⟨blocks, tail, rfl, hblocks, htail, hopen⟩ := h
  have hself : s'.saved s'.running = p :: s.saved s.running := by
    rw [hrun, hsaved, Function.update_self]
  have hown : ∀ e ∈ tail ++ [(s.running, .cpsid)], e.1 = s'.running := fun e he => by
    rw [hrun]
    exact (List.mem_append.1 he).elim (htail e) fun he => congrArg Prod.fst (List.mem_singleton.1 he)
  refine ⟨blocks, tail ++ [(s.running, .cpsid)], by rw [List.append_assoc], hblocks, hown, .inr ?_⟩
  rcases hopen with ⟨hnil, rfl⟩ | ⟨n, hlen, hopen⟩
  · exact ⟨0, by rw [hself, hnil]; rfl, .first rfl .nil⟩
  · exact ⟨n + 1, by rw [hself, List.length_cons, hlen], hopen.opens rfl⟩

/-- The running context ends a section. -/
theorem Blocked.msr {p : Bool} {ps : List Bool} (h : s.Blocked out)
    (hrun : s'.running = s.running) (hps : s.saved s.running = p :: ps)
    (hsaved : s'.saved = Function.update s.saved s.running ps) :
    s'.Blocked (out ++ [(s.running, .msr)]) := by
  obtain ⟨blocks, tail, rfl, hblocks, htail, hopen⟩ := h
  have hself : s'.saved s'.running = ps := by rw [hrun, hsaved, Function.update_self]
  have hown : ∀ e ∈ tail ++ [(s.running, .msr)], e.1 = s.running := fun e he =>
    (List.mem_append.1 he).elim (htail e) fun he => congrArg Prod.fst (List.mem_singleton.1 he)
  rcases hopen with ⟨hnil, -⟩ | ⟨n, hlen, hopen⟩
  · rw [hps] at hnil
    cases hnil
  · rw [hps, List.length_cons, Nat.add_right_cancel_iff] at hlen
    cases n with
    | zero =>
      -- The outermost section ends: it is one more block.
      refine ⟨blocks ++ [tail ++ [(s.running, .msr)]], [], by simp, fun b hb => ?_, by simp,
        .inl ⟨by rw [hself, List.length_eq_zero_iff.1 hlen], rfl⟩⟩
      rcases List.mem_append.1 hb with hb | hb
      · exact hblocks b hb
      · obtain rfl := List.mem_singleton.1 hb
        exact ⟨⟨s.running, hown⟩, .inl (hopen.close_first rfl)⟩
    | succ n =>
      exact ⟨blocks, tail ++ [(s.running, .msr)], by rw [List.append_assoc], hblocks,
        fun e he => (hown e he).trans hrun.symm, .inr ⟨n, by rw [hself, hlen], hopen.closes rfl⟩⟩

/-- The inversion of `execStep`. -/
theorem execStep_cases (h : s.execStep op = some s') :
    (op = .mrs ∧ s' = { s with read := Function.update s.read s.running (some s.primask) }) ∨
    (∃ p, op = .cpsid ∧ s.read s.running = some p ∧ s' = { s with
      primask := true
      read := Function.update s.read s.running none
      saved := Function.update s.saved s.running (p :: s.saved s.running) }) ∨
    (∃ p ps, op = .msr ∧ s.read s.running = none ∧ s.saved s.running = p :: ps ∧
      s' = { s with primask := p, saved := Function.update s.saved s.running ps }) ∨
    (∃ f, op = .store f ∧ s' = { s with shared := f s.shared }) := by
  cases op with
  | mrs =>
    left
    simp only [execStep] at h
    split at h
    · exact ⟨rfl, (Option.some.inj h).symm⟩
    · cases h
  | cpsid =>
    right; left
    simp only [execStep] at h
    split at h
    · cases h
    · rename_i p hp
      exact ⟨p, rfl, hp, (Option.some.inj h).symm⟩
  | msr =>
    right; right; left
    simp only [execStep] at h
    split at h
    · rename_i p ps hread hps
      exact ⟨p, ps, rfl, hread, hps, (Option.some.inj h).symm⟩
    · cases h
  | store f =>
    right; right; right
    simp only [execStep] at h
    split at h
    · exact ⟨f, rfl, (Option.some.inj h).symm⟩
    · cases h

theorem Sound.execStep (hs : Sound x s out) (h : s.execStep op = some s') :
    Sound x s' (out ++ [(s.running, op)]) := by
  have hshared : ∀ y, y = op.apply s.shared → y = run (out ++ [(s.running, op)]) x := by
    rintro y rfl
    rw [run_append, ← hs.shared]
    rfl
  rcases execStep_cases h with ⟨rfl, rfl⟩ | ⟨p, rfl, hp, rfl⟩ | ⟨p, ps, rfl, hread, hps, rfl⟩ |
    ⟨f, rfl, rfl⟩
  · refine { hs with
      read := fun c q hq => ?_
      blocked := hs.blocked.plain rfl rfl rfl
      shared := hshared _ rfl }
    dsimp only at hq
    by_cases hc : c = s.running
    · subst hc
      rw [Function.update_self] at hq
      cases hq
      exact hs.mask
    · rw [Function.update_of_ne hc] at hq
      exact hs.read c q hq
  · -- What was read before is still right: nobody has left this context in a section.
    have hpp := hs.read _ _ hp
    have hself : Function.update s.saved s.running (p :: s.saved s.running) s.running =
      p :: s.saved s.running := Function.update_self ..
    have hother : ∀ c, c ≠ s.running →
        Function.update s.saved s.running (p :: s.saved s.running) c = s.saved c :=
      fun c hc => Function.update_of_ne hc ..
    refine ⟨by simp, fun c hc => (hother c hc).trans (hs.alone c hc), ?_, fun c q hq => ?_,
      hs.blocked.cpsid rfl rfl, hshared _ rfl⟩
    · change Restores (Function.update s.saved s.running (p :: s.saved s.running) s.running)
      rw [hself]
      exact ⟨hpp, hs.restores⟩
    · have hc : c ≠ s.running := by
        rintro rfl
        simp at hq
      change q = true ↔ Function.update s.saved s.running (p :: s.saved s.running) c ≠ []
      rw [hother c hc]
      exact hs.read c q (by simpa [hc] using hq)
  · have hrest := hs.restores
    rw [hps] at hrest
    have hself : Function.update s.saved s.running ps s.running = ps := Function.update_self ..
    have hother : ∀ c, c ≠ s.running → Function.update s.saved s.running ps c = s.saved c :=
      fun c hc => Function.update_of_ne hc ..
    refine ⟨?_, fun c hc => (hother c hc).trans (hs.alone c hc), ?_, fun c q hq => ?_,
      hs.blocked.msr rfl hps rfl, hshared _ rfl⟩
    · change p = true ↔ Function.update s.saved s.running ps s.running ≠ []
      rw [hself]
      exact hrest.1
    · change Restores (Function.update s.saved s.running ps s.running)
      rw [hself]
      exact hrest.2
    · have hc : c ≠ s.running := by
        rintro rfl
        rw [hread] at hq
        cases hq
      change q = true ↔ Function.update s.saved s.running ps c ≠ []
      rw [hother c hc]
      exact hs.read c q hq
  · exact { hs with
      blocked := hs.blocked.plain rfl rfl rfl
      shared := hshared _ rfl }

/-- Whoever is in no section leaves all other contexts outside. -/
theorem Sound.switch (hs : Sound x s out) (hnil : s.saved s.running = []) (c : κ) :
    Sound x { s with running := c } out := by
  have hall : ∀ d, s.saved d = [] := fun d => by
    by_cases hd : d = s.running
    · rw [hd, hnil]
    · exact hs.alone d hd
  exact
    { hs with
      mask := by
        change s.primask = true ↔ s.saved c ≠ []
        rw [hs.mask, hnil, hall c]
      alone := fun d _ => hall d
      restores := by
        change Restores (s.saved c)
        rw [hall c]
        trivial
      blocked := hs.blocked.switch hnil (hall c) }

theorem Sound.step {a : CriticalAction κ σ} {o : List (κ × CriticalOp σ)} (hs : Sound x s out)
    (h : s.step a = some (s', o)) : Sound x s' (out ++ o) := by
  cases a with
  | exec op =>
    obtain ⟨s'', hexec, he⟩ := Option.map_eq_some_iff.1 h
    cases he
    exact hs.execStep hexec
  | switch c =>
    simp only [Critical.step] at h
    split at h
    · rename_i hmask
      cases h
      rw [List.append_nil]
      refine hs.switch ?_ c
      by_contra hne
      rw [hs.mask.2 hne] at hmask
      cases hmask
    · rename_i hnil
      cases h
      rw [List.append_nil]
      exact hs.switch hnil c
    · cases h

end Critical

variable {κ σ : Type*} [DecidableEq κ] {c₀ : κ} {x₀ : σ} {s : Critical κ σ}
  {out : List (κ × CriticalOp σ)}

theorem Critical.sound_of_reach
    (h : Run.Reach Critical.step (fun _ _ => True) (Critical.init c₀ x₀) s out) :
    Critical.Sound x₀ s out :=
  h.induct (Critical.Sound.init c₀ x₀) fun _ _ _ _ _ _ hs _ hstep => hs.step hstep

/-- PRIMASK is set exactly as long as the running context is in a section, no other context is in
one, and only the exit from the outermost section clears PRIMASK. -/
theorem criticalSections_exclude
    (h : Run.Reach Critical.step (fun _ _ => True) (Critical.init c₀ x₀) s out) :
    (s.primask = true ↔ s.saved s.running ≠ []) ∧
    (∀ c, c ≠ s.running → s.saved c = []) ∧
    ∀ c p ps, s.saved c = p :: ps → (p = true ↔ ps ≠ []) := by
  have hs := Critical.sound_of_reach h
  refine ⟨hs.mask, hs.alone, fun c p ps hc => ?_⟩
  have hrun : c = s.running := by
    by_contra hne
    rw [hs.alone c hne] at hc
    cases hc
  have hrest := hs.restores
  rw [← hrun, hc] at hrest
  exact hrest.1

namespace Critical

/-- A handler comes between `mrs` and `cpsid` of a task, which then calls a function that has a
section of its own. -/
def interrupted : List (CriticalAction Bool ℕ) :=
  [.exec .mrs, .switch true, .exec .mrs, .exec .cpsid, .exec (.store (· + 1)), .exec .msr,
    .switch false, .exec .cpsid, .exec .mrs, .exec .cpsid, .exec (.store (· * 2))]

theorem interrupted_possible :
    (Run.exec step (init false 1) interrupted).isSome = true := by
  decide +kernel

theorem interrupted_left_possible :
    (Run.exec step (init false 1) (interrupted ++ [.exec .msr, .exec .msr])).isSome = true := by
  decide +kernel

end Critical

open Critical in
theorem criticalSections_exclude_interrupted :
    let s := ((Run.exec step (init false 1) interrupted).get interrupted_possible).1
    s.saved false = [true, false] ∧ (s.primask = true ↔ s.saved s.running ≠ []) ∧
      s.saved true = [] := by
  intro s
  have h := criticalSections_exclude
    (Run.Reach.exec (.of_forall _ fun _ _ _ => trivial) interrupted_possible)
  exact ⟨by decide +kernel, h.1, h.2.1 true (by decide +kernel)⟩

/-- Whenever interrupts are enabled, what has been executed so far is a sequence of blocks: each is
a whole section of one context, or one instruction outside of all sections. Executing the blocks
one after the other leads to the same shared variables. -/
theorem criticalSections_atomic
    (h : Run.Reach Critical.step (fun _ _ => True) (Critical.init c₀ x₀) s out)
    (hmask : s.primask = false) :
    ∃ blocks : List (List (κ × CriticalOp σ)), blocks.flatten = out ∧
      (∀ b ∈ blocks, Critical.Block b) ∧
      s.shared = blocks.foldl (fun x b => Critical.run b x) x₀ := by
  have hs := Critical.sound_of_reach h
  obtain ⟨blocks, tail, rfl, hblocks, -, hopen⟩ := hs.blocked
  have hnil : s.saved s.running = [] := by
    by_contra hne
    rw [hs.mask.2 hne] at hmask
    cases hmask
  rcases hopen with ⟨-, rfl⟩ | ⟨n, hlen, -⟩
  · refine ⟨blocks, (List.append_nil _).symm, hblocks, ?_⟩
    rw [hs.shared, List.append_nil, Critical.run, List.foldl_flatten]
    rfl
  · rw [hnil] at hlen
    cases hlen

open Critical in
theorem criticalSections_atomic_interrupted :
    ∃ blocks : List (List (Bool × CriticalOp ℕ)), (∀ b ∈ blocks, Block b) ∧
      4 = blocks.foldl (fun x b => run b x) 1 := by
  obtain ⟨blocks, -, hblocks, hshared⟩ := criticalSections_atomic
    (Run.Reach.exec (.of_forall _ fun _ _ _ => trivial) interrupted_left_possible)
    (by decide +kernel)
  exact ⟨blocks, hblocks, hshared⟩

end TamgaOs
