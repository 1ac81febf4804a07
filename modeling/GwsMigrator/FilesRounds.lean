import GwsMigrator.FailedFolders

/-! The rounds of `_migrate`. However the parent links of a batch run, the loop over what is put
off ends, and it ends with every item settled once. -/
namespace GwsMigrator

section
variable (g : Graph) (user : UserMapping) (workload : String) (mode : Mode)

/-- What `_process_file` returns for the items of a pass, newest first. -/
def outcomes (feed : Enumeration SourceFile) (w : World) : List (SourceFile × Verdict) :=
  (migrateVisited g user workload mode feed w).map (fun x =>
    (x.2.2, (processFile g user workload mode x.2.1 x.2.2 x.1).1))

/-- The outcomes by which an item leaves the rounds. -/
def finalOutcomes (os : List (SourceFile × Verdict)) : List (SourceFile × Verdict) :=
  os.filter (fun o => o.2 ≠ .deferred)

variable {g user workload mode}

/-- The failed items of a batch are those with a failed outcome, if every item has one final
outcome. -/
theorem failed_perm {os : List (SourceFile × Verdict)} {items : List SourceFile}
    (hfinal : ((finalOutcomes os).map Prod.fst).Perm items) (hnodup : items.Nodup) :
    ((os.filter (fun o => o.2 = .failed)).map Prod.fst).Perm
      (items.filter (fun f => (f, Verdict.failed) ∈ os)) := by
  have honce : ((finalOutcomes os).map Prod.fst).Nodup := hfinal.nodup_iff.mpr hnodup
  -- among the final outcomes of an item only one can be there
  have hsame : os.filter (fun o => o.2 = .failed) =
      (finalOutcomes os).filter (fun o => (o.1, Verdict.failed) ∈ os) := by
    calc os.filter (fun o => o.2 = .failed)
        = (finalOutcomes os).filter (fun o => o.2 = .failed) := by
          rw [finalOutcomes, List.filter_filter]
          apply List.filter_congr
          intro o _
          cases o.2 <;> rfl
      _ = (finalOutcomes os).filter (fun o => (o.1, Verdict.failed) ∈ os) := by
          apply List.filter_congr
          intro o ho
          have hos : o ∈ os := (List.mem_filter.mp ho).1
          rw [decide_eq_decide]
          constructor
          · intro hfailed
            rw [← hfailed]
            exact hos
          · intro hmem
            have hother : (o.1, Verdict.failed) ∈ finalOutcomes os :=
              List.mem_filter.mpr ⟨hmem, by simp⟩
            have heq : o = (o.1, Verdict.failed) :=
              List.inj_on_of_nodup_map honce ho hother rfl
            rw [heq]
  rw [hsame]
  have hmap : ((finalOutcomes os).filter (fun o => (o.1, Verdict.failed) ∈ os)).map Prod.fst =
      ((finalOutcomes os).map Prod.fst).filter (fun f => (f, Verdict.failed) ∈ os) := by
    rw [List.filter_map]
    rfl
  rw [hmap]
  exact hfinal.filter _

theorem countedFailed_length (taken : List (Worklist.Taken FilesLoop SourceFile)) :
    (countedFailed g user workload mode taken).length =
      ((taken.map (fun x => (x.2.2, (processFile g user workload mode x.2.1 x.2.2 x.1).1))).filter
        (fun o => o.2 = .failed)).length := by
  induction taken with
  | nil => rfl
  | cons x taken ih =>
    rw [countedFailed_cons, List.length_append, ih, List.map_cons, List.filter_cons, failedId]
    split
    · simp_all
      omega
    · simp_all

/-- The loop settles an item by the step that does not put it off. -/
theorem finalOutcomes_eq (items : List SourceFile) (w : World) :
    (finalOutcomes (outcomes g user workload mode { items := items } w)).map Prod.fst =
      Worklist.settled (fileStep g user workload mode)
        (migrateVisited g user workload mode { items := items } w) := by
  rw [finalOutcomes, outcomes, Worklist.settled, List.filter_map, List.map_map]
  congr 1
  apply List.filter_congr
  intro x _
  rw [fileStep_eq]
  simp

variable (g user workload mode)

/-- The loop of `_migrate` ends for every batch, and in a batch with distinct source ids each item
gets one outcome other than deferred; the returned count is that of the failed items. -/
theorem migrateFiles_accounts (items : List SourceFile) (w : World) :
    let first := Worklist.runBatch (fileStep g user workload mode) true { world := w } items
    let st := migrateFiles g user workload mode { items := items } w
    let os := outcomes g user workload mode { items := items } w
    Worklist.LoopEnds (fileStep g user workload mode) SourceFile.sourceId SourceFile.parentId
        first.1 first.2 st ∧
      ((items.map SourceFile.sourceId).Nodup → ((finalOutcomes os).map Prod.fst).Perm items ∧
        st.failures = (items.filter (fun f => (f, Verdict.failed) ∈ os)).length) := by
  intro first st os
  refine ⟨Worklist.process_ends _ _ _ _ _, fun hnodup => ?_⟩
  have hfinal : ((finalOutcomes os).map Prod.fst).Perm items := by
    rw [finalOutcomes_eq]
    exact Worklist.process_settled_perm _ _ _ (fun s f => fileStep_forced s f) _ items hnodup
  have hcount : st.failures = (os.filter (fun o => o.2 = .failed)).length := by
    rw [migrateFiles_failures, countedFailed_length]
    rfl
  refine ⟨hfinal, ?_⟩
  rw [hcount, ← (failed_perm hfinal hnodup.of_map).length_eq, List.length_map]

end

/-- Two folders that are each other's parent: both are forced, and both are made. -/
theorem migrateFiles_accounts_cycle :
    let a : SourceFile := { sourceId := "a", name := "a", parentId := some "b", isFolder := true }
    let b : SourceFile := { sourceId := "b", name := "b", parentId := some "a", isFolder := true }
    let os := outcomes calmGraph ⟨"a@source", "a@dest"⟩ "files" .full { items := [a, b] } {}
    ((finalOutcomes os).map Prod.fst).Perm [a, b] := by
  intro a b os
  have hall := migrateFiles_accounts calmGraph ⟨"a@source", "a@dest"⟩ "files" .full [a, b] {}
  exact (hall.2 (by decide)).1

end GwsMigrator
