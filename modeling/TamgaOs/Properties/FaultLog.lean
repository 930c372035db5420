import TamgaOs.Kernel.FaultLog
import TamgaOs.Library.Run

/-!
# The crash record after a reset

A reset can end `fault_log_write` between any two stores and line cleans. What the next boot reads is
the earlier record before the first line is cleaned, and the new one after the second. In between the
first line, with the magic number, is new and the second one is old.

## Main definitions

* `nextBoot`: what `fault_log_check_and_clear` returns after a write that a reset has cut short.
* `WholeRecord`: it returns the record of one write.
* `LinesAgree`: the two records in the memory between the two line cleans are the same one.

## Main results

* `nextBoot_whole_iff`: the record is whole, except after a reset between the two line cleans that
  finds different records.
* `boots_whole`: over any number of boots.
-/

namespace TamgaOs

variable {m : BackupSram} {entry : FaultLog} {k : ℕ}

/-- The record that is in Backup SRAM itself. -/
def sramRecord (m : BackupSram) : FaultLog := fun f => m.backing f.addr

/-- `fault_log_write` after `k` of its stores and line cleans. -/
def writeCutAt (m : BackupSram) (entry : FaultLog) (k : ℕ) : BackupSram :=
  m.run dcacheLine ((faultLogWrite entry).take k)

/-- A reset ends `fault_log_write` after `k` of its stores and line cleans; the next boot calls
`fault_log_check_and_clear`. -/
def nextBoot (m : BackupSram) (entry : FaultLog) (k : ℕ) : Option FaultLog :=
  (faultLogCheckAndClear (writeCutAt m entry k).discard).2

/-- What is returned is nothing, the new record, or the record that was there before. -/
def WholeRecord (m : BackupSram) (entry : FaultLog) (r : Option FaultLog) : Prop :=
  ∀ record, r = some record →
    record = entry ∨ (m.backing bkpsramBase = faultLogMagic ∧ record = sramRecord m)

/-- The new first line together with the old second line is the new record, or the old one. -/
def LinesAgree (m : BackupSram) (entry : FaultLog) : Prop :=
  (∀ f, dcacheLine f.addr ≠ dcacheLine bkpsramBase → entry f = sramRecord m f) ∨
    (m.backing bkpsramBase = faultLogMagic ∧
      ∀ f, dcacheLine f.addr = dcacheLine bkpsramBase → entry f = sramRecord m f)

theorem nextBoot_eq : nextBoot m entry k =
    if (writeCutAt m entry k).backing bkpsramBase = faultLogMagic then
      some (sramRecord (writeCutAt m entry k))
    else none := by
  unfold nextBoot faultLogCheckAndClear
  rw [WriteBack.load_discard, ite_not, apply_ite Prod.snd]
  rfl

/-- All the stores of `fault_log_write`. -/
def stored (m : BackupSram) (entry : FaultLog) : BackupSram :=
  m.run dcacheLine (WriteBack.stores (faultLogStores entry))

theorem load_stored_field (f : FaultField) :
    (stored m entry).load dcacheLine f.addr = entry f := by
  refine WriteBack.run_stores_load (nodup_faultLogStores entry) ?_
  exact List.mem_append_left _ (List.mem_map.2 ⟨f, FaultField.mem_all f, rfl⟩)

theorem load_stored_magic : (stored m entry).load dcacheLine bkpsramBase = faultLogMagic :=
  WriteBack.run_stores_load (nodup_faultLogStores entry)
    (List.mem_append_right _ (List.mem_singleton_self _))

theorem backing_stored : (stored m entry).backing = m.backing :=
  WriteBack.backing_run_stores _

/-- The record has two lines. -/
theorem FaultField.line_addr (f : FaultField) :
    dcacheLine f.addr = dcacheLine bkpsramBase ∨
      dcacheLine f.addr = dcacheLine bkpsramBase + 1 := by
  cases f <;> decide

/-- Before the first line is cleaned nothing has got to Backup SRAM. -/
theorem backing_writeCutAt_of_le (hk : k ≤ 16) : (writeCutAt m entry k).backing = m.backing := by
  have htake : (faultLogWrite entry).take k =
      WriteBack.stores ((faultLogStores entry).take k) := by
    unfold faultLogWrite WriteBack.stores
    rw [List.take_append_of_le_length (by simpa using hk), List.map_take]
  rw [writeCutAt, htake, WriteBack.backing_run_stores]

theorem faultLogWrite_eq : faultLogWrite entry = WriteBack.stores (faultLogStores entry) ++
    [.clean (dcacheLine bkpsramBase), .clean (dcacheLine bkpsramBase + 1)] := by
  rw [faultLogWrite, cleanDcacheRange_record]

/-- Between the two line cleans. -/
theorem writeCutAt_between : writeCutAt m entry 17 =
    (stored m entry).clean dcacheLine (dcacheLine bkpsramBase) := by
  have htake : (faultLogWrite entry).take 17 =
      WriteBack.stores (faultLogStores entry) ++ [.clean (dcacheLine bkpsramBase)] := by
    rw [faultLogWrite_eq]
    rfl
  rw [writeCutAt, htake, WriteBack.run_append]
  rfl

/-- After the two line cleans. -/
theorem writeCutAt_of_lt (hk : 17 < k) : writeCutAt m entry k =
    ((stored m entry).clean dcacheLine (dcacheLine bkpsramBase)).clean dcacheLine
      (dcacheLine bkpsramBase + 1) := by
  have hlength : (faultLogWrite entry).length = 18 := by
    rw [faultLogWrite_eq]
    rfl
  rw [writeCutAt, List.take_of_length_le (by omega), faultLogWrite_eq, WriteBack.run_append]
  rfl

/-- A reset before the first line is cleaned leaves the old record. -/
theorem nextBoot_of_le (hk : k ≤ 16) : nextBoot m entry k =
    if m.backing bkpsramBase = faultLogMagic then some (sramRecord m) else none := by
  rw [nextBoot_eq]
  unfold sramRecord
  rw [backing_writeCutAt_of_le hk]

/-- A reset between the two line cleans leaves a record of two lines. -/
theorem nextBoot_between : nextBoot m entry 17 = some fun f =>
    if dcacheLine f.addr = dcacheLine bkpsramBase then entry f else sramRecord m f := by
  have hbacking : (writeCutAt m entry 17).backing = fun a =>
      if dcacheLine a = dcacheLine bkpsramBase then (stored m entry).load dcacheLine a
      else m.backing a := by
    rw [writeCutAt_between, WriteBack.backing_clean, backing_stored]
  rw [nextBoot_eq]
  unfold sramRecord
  simp only [hbacking, if_true, load_stored_magic, load_stored_field]

/-- A reset after the two line cleans leaves the new record. -/
theorem nextBoot_of_lt (hk : 17 < k) : nextBoot m entry k = some entry := by
  have hbacking : ∀ a, dcacheLine a = dcacheLine bkpsramBase ∨
      dcacheLine a = dcacheLine bkpsramBase + 1 →
      (writeCutAt m entry k).backing a = (stored m entry).load dcacheLine a := by
    intro a ha
    rw [writeCutAt_of_lt hk, WriteBack.backing_clean, WriteBack.load_clean, WriteBack.backing_clean]
    dsimp only
    rcases ha with h | h <;> simp [h]
  rw [nextBoot_eq, hbacking _ (Or.inl rfl), load_stored_magic, if_pos rfl]
  congr 1
  funext f
  exact (hbacking _ f.line_addr).trans (load_stored_field f)

/-- A reset between the two line cleans is harmless when the two lines still make up one record. -/
theorem wholeRecord_between_iff :
    WholeRecord m entry (nextBoot m entry 17) ↔ LinesAgree m entry := by
  rw [nextBoot_between]
  constructor
  · intro h
    rcases h _ rfl with he | ⟨hmagic, he⟩
    · refine Or.inl fun f hf => ?_
      have hfield := congrFun he f
      rw [if_neg hf] at hfield
      exact hfield.symm
    · refine Or.inr ⟨hmagic, fun f hf => ?_⟩
      have hfield := congrFun he f
      rw [if_pos hf] at hfield
      exact hfield
  · rintro h record he
    obtain rfl := Option.some.inj he
    rcases h with hnew | ⟨hmagic, hold⟩
    · refine Or.inl (funext fun f => ?_)
      split_ifs with hf
      · rfl
      · exact (hnew f hf).symm
    · refine Or.inr ⟨hmagic, funext fun f => ?_⟩
      split_ifs with hf
      · exact hold f hf
      · rfl

theorem wholeRecord_of_linesAgree (h : k = 17 → LinesAgree m entry) :
    WholeRecord m entry (nextBoot m entry k) := by
  rcases Nat.lt_trichotomy k 17 with hk | rfl | hk
  · intro record he
    rw [nextBoot_of_le (Nat.le_of_lt_succ hk)] at he
    split_ifs at he with hmagic
    exact Or.inr ⟨hmagic, (Option.some.inj he).symm⟩
  · exact wholeRecord_between_iff.2 (h rfl)
  · intro record he
    rw [nextBoot_of_lt hk] at he
    exact Or.inl (Option.some.inj he).symm

/-- Whatever was in Backup SRAM and in the cache before: after a reset at any point of
`fault_log_write` the next boot gets no record or the record of one write, if and only if the reset
does not fall between the two line cleans with two records that differ. -/
theorem nextBoot_whole_iff (m : BackupSram) (entry : FaultLog) (k : ℕ) :
    WholeRecord m entry (nextBoot m entry k) ↔ (k = 17 → LinesAgree m entry) := by
  refine ⟨fun h hk => ?_, wholeRecord_of_linesAgree⟩
  subst hk
  exact wholeRecord_between_iff.1 h

/-- A second fault has been written with a first one still there, and a reset falls between the two
line cleans: `r2` is of the second fault and `r3` of the first. -/
theorem nextBoot_mixed :
    let m : BackupSram :=
      { backing := fun a => if a = bkpsramBase then faultLogMagic else 1
        cached := fun _ => false
        contents := fun _ => 0 }
    ¬WholeRecord m (fun _ => 2) (nextBoot m (fun _ => 2) 17) := by
  intro m hwhole
  rcases hwhole _ nextBoot_between with he | ⟨-, he⟩
  · exact absurd (congrFun he .r3) (by decide)
  · exact absurd (congrFun he .r2) (by decide)

/-! ### Any number of boots -/

/-- What a boot does: it looks for a record, and a fault writes one. -/
inductive FaultObs
  | reported (record : FaultLog)
  | wrote (entry : FaultLog)

/-- One boot: `fault_log_check_and_clear`, and a fault later in which a reset ends
`fault_log_write` after `k` of its stores and line cleans. -/
def boot (m : BackupSram) (fault : FaultLog × ℕ) : Option (BackupSram × List FaultObs) :=
  let r := faultLogCheckAndClear m
  some ((writeCutAt r.1 fault.1 fault.2).discard,
    r.2.toList.map .reported ++ [.wrote fault.1])

/-- No reset falls between the two line cleans and finds two records that differ. -/
def CutsWhole (m : BackupSram) (fault : FaultLog × ℕ) : Prop :=
  fault.2 = 17 → LinesAgree (faultLogCheckAndClear m).1 fault.1

/-- The record is of an earlier write, or was there in the beginning. -/
def FromOneWrite (m₀ : BackupSram) (out : List FaultObs) (record : FaultLog) : Prop :=
  .wrote record ∈ out ∨ (m₀.backing bkpsramBase = faultLogMagic ∧ record = sramRecord m₀)

/-- Every record that has been reported is of a write before. -/
def AllFromOneWrite (m₀ : BackupSram) (out : List FaultObs) : Prop :=
  ∀ pre record post, out = pre ++ .reported record :: post → FromOneWrite m₀ pre record

theorem AllFromOneWrite.concat {m₀ : BackupSram} {out : List FaultObs} {x : FaultObs}
    (h : AllFromOneWrite m₀ out) (hx : ∀ record, x = .reported record → FromOneWrite m₀ out record) :
    AllFromOneWrite m₀ (out ++ [x]) := by
  intro pre record post he
  rcases List.eq_nil_or_concat post with rfl | ⟨post, y, rfl⟩
  · obtain ⟨rfl, hlast⟩ := List.append_inj' he rfl
    exact hx record (List.singleton_inj.1 hlast)
  · rw [List.concat_eq_append, ← List.cons_append, ← List.append_assoc] at he
    exact h pre record post (List.append_inj' he rfl).1

/-- After `fault_log_check_and_clear` there is no record, and the fields are as they were. -/
theorem backing_check (hm : m.load dcacheLine = m.backing) :
    (faultLogCheckAndClear m).1.backing bkpsramBase ≠ faultLogMagic ∧
      (faultLogCheckAndClear m).2 =
        (if m.backing bkpsramBase = faultLogMagic then some (sramRecord m) else none) := by
  have hclean : cleanDcacheRange bkpsramBase 4 = [.clean (dcacheLine bkpsramBase)] := by
    simp [cleanDcacheRange, cleanDcacheFrom, bkpsramBase, dcacheLineSize, dcacheLine]
  unfold faultLogCheckAndClear
  rw [hm]
  by_cases hmagic : m.backing bkpsramBase = faultLogMagic
  · rw [if_neg (not_not.2 hmagic), if_pos hmagic, hclean]
    refine ⟨?_, rfl⟩
    show ((m.store dcacheLine bkpsramBase 0).clean dcacheLine (dcacheLine bkpsramBase)).backing
      bkpsramBase ≠ faultLogMagic
    simp only [WriteBack.backing_clean, if_true, WriteBack.load_store, Function.update_self]
    decide
  · rw [if_pos hmagic, if_neg hmagic]
    exact ⟨hmagic, rfl⟩

/-- Over any number of boots: every record that a boot reports is the record of one earlier write,
as long as no reset falls between the two line cleans and finds two records that differ. -/
theorem boots_whole {m₀ m : BackupSram} {out pre post : List FaultObs} {record : FaultLog}
    (h₀ : m₀.load dcacheLine = m₀.backing) (h : Run.Reach boot CutsWhole m₀ m out)
    (hout : out = pre ++ .reported record :: post) : FromOneWrite m₀ pre record := by
  have hinv : m.load dcacheLine = m.backing ∧
      (m.backing bkpsramBase = faultLogMagic → FromOneWrite m₀ out (sramRecord m)) ∧
      AllFromOneWrite m₀ out := by
    refine h.induct (I := fun m out => m.load dcacheLine = m.backing ∧
      (m.backing bkpsramBase = faultLogMagic → FromOneWrite m₀ out (sramRecord m)) ∧
      AllFromOneWrite m₀ out)
      ⟨h₀, fun hmagic => Or.inr ⟨hmagic, rfl⟩, fun pre record post he => by simp at he⟩ ?_
    rintro m m' ⟨entry, k⟩ out o - ⟨hm, hrecord, hreported⟩ hok hstep
    obtain ⟨hclear, hcheck⟩ := backing_check hm
    obtain ⟨rfl, rfl⟩ : (writeCutAt (faultLogCheckAndClear m).1 entry k).discard = m' ∧
        (faultLogCheckAndClear m).2.toList.map .reported ++ [.wrote entry] = o := by
      simpa [boot] using hstep
    refine ⟨rfl, fun hmagic => Or.inl ?_, ?_⟩
    · -- The record that the next boot would get is of one write, and the old one has been cleared.
      have hwhole : WholeRecord (faultLogCheckAndClear m).1 entry _ := wholeRecord_of_linesAgree hok
      rw [WriteBack.backing_discard] at hmagic
      rw [WholeRecord, nextBoot_eq, if_pos hmagic] at hwhole
      have hnew : sramRecord (writeCutAt (faultLogCheckAndClear m).1 entry k) = entry :=
        (hwhole _ rfl).resolve_right fun hold => hclear hold.1
      show FaultObs.wrote (sramRecord (writeCutAt (faultLogCheckAndClear m).1 entry k)) ∈ _
      rw [hnew]
      simp
    · rw [← List.append_assoc]
      refine AllFromOneWrite.concat ?_ fun record he => by cases he
      rw [hcheck]
      split_ifs with hmagic
      · refine hreported.concat fun record he => ?_
        cases he
        exact hrecord hmagic
      · rw [Option.toList_none, List.map_nil, List.append_nil]
        exact hreported
  exact hinv.2.2 pre record post hout

end TamgaOs
