import GwsMigrator.FilesOnce
import GwsMigrator.SyncedJobs

/-! A files pass against the change log of the drive. -/
namespace GwsMigrator
open ChangeFeed

/-- The files and folders of a user's drive. A full pass makes a folder again although it is
done. -/
def files : Workload SourceFile where
  name := "files"
  sourceId := SourceFile.sourceId
  marker := SourceFile.contentHash
  live f := f.isFolder = true ∨ f.action ≠ .skip
  skipsDone f := f.isFolder = false

section
variable (g : Graph) (user : UserMapping) (mode : Mode)

/-- The row holds a hash only if it is done. -/
def HashDone (db : Db) (k : ItemKey) : Prop :=
  ∀ hash, db.getItemHash k = some hash → db.isDone k = true

/-- A folder that is done in its current version does not fail in this step: its parent has not
failed, and the folder is made where it goes. -/
def FolderHolds (t : Worklist.Taken FilesLoop SourceFile) : Prop :=
  t.2.2.isFolder = true →
  files.applied user t.2.1.world.db t.2.2.sourceId = some (files.marker t.2.2) →
  (∀ p, t.2.2.HasParent p → t.2.1.dest user "files" p = none → p ∉ t.2.1.failed) ∧
  ∀ parentDest, Placed user "files" t.2.1 t.2.2 t.1 parentDest →
    ∃ id, g.ask t.2.1.world
      (.ensureFolder (fileKey user "files" t.2.2.sourceId) parentDest t.2.2.name) = .ok id

/-- No folder that is done in its current version fails in the pass. -/
def FilesPass.FoldersHold (w : World) (p : FilesPass) : Prop :=
  ∀ feed w', p.feed g user w = some (feed, w') →
    ∀ t ∈ migrateVisited g user "files" p.mode feed w', FolderHolds g user t

variable {g user mode} {st st' : FilesLoop} {f : SourceFile} {defer : Bool} {v : Verdict}

theorem HashDone.congr {db db' : Db} {k : ItemKey} (h : HashDone db k)
    (hrow : db'.getItemState k = db.getItemState k) : HashDone db' k := by
  intro hash hhash
  rw [Db.getItemHash_eq, hrow, ← Db.getItemHash_eq] at hhash
  rw [Db.isDone_eq, hrow, ← Db.isDone_eq]
  exact h hash hhash

theorem FileChange.applied {row : ItemValues} {made : Option Token} {write : Option DriveWrite}
    {fails : Bool} (h : FileChange user "files" st st' f (some row) made write fails)
    (hdone : row.status = .done) :
    files.applied user st'.world.db f.sourceId = some row.sourceHash := by
  have hrow : RowWritten (files.key user f.sourceId) row st.world.db st'.world.db :=
    ⟨h.rows, h.cursors⟩
  exact hrow.applied hdone

/-- A file that a delta pass leaves alone is there in this version: its hash is in the row, and a
row with a hash is done. -/
theorem unchanged_applied (hhashes : HashDone st.world.db (files.key user f.sourceId))
    (halone : leftAlone user "files" .delta st.world.db f = true) :
    files.applied user st.world.db f.sourceId = some (files.marker f) := by
  obtain ⟨stored, hstored, heq⟩ := (Option.any_eq_true _ _).mp halone
  have hmarker : f.contentHash = some stored := of_decide_eq_true heq
  have hdone := hhashes stored hstored
  rw [Db.isDone_eq] at hdone
  obtain ⟨s, hs, hstatus⟩ := (Option.any_eq_true _ _).mp hdone
  refine Db.applied_eq_some.mpr ⟨s, hs, of_decide_eq_true hstatus, ?_⟩
  have hhash : (st.world.db.getItemState (files.key user f.sourceId)).bind (·.sourceHash) =
      some stored := (Db.getItemHash_eq ..).symm.trans hstored
  rw [hs] at hhash
  exact hhash.trans hmarker.symm

/-- What a step on an item that is not put off leaves of it. -/
theorem FileStep.settles (h : FileStep g user "files" mode st f defer v st') (hv : v ≠ .deferred)
    (hlive : files.live f) (hhashes : HashDone st.world.db (files.key user f.sourceId))
    (hholds : mode = .full → FolderHolds g user (defer, st, f)) (n : ℕ) :
    Settles files user (mode = .full) f st.world.db st'.world.db n
      (n + if v = .failed then 1 else 0) := by
  -- a full pass gets no further with a file that is done
  have hopen : GwsMigrator.leftAlone user "files" mode st.world.db f = false → mode = .full →
      files.applied user st.world.db f.sourceId = none := by
    intro halone hfull
    rw [hfull] at halone
    rw [← Option.not_isSome_iff_eq_none]
    intro hdone
    have hrow : GwsMigrator.leftAlone user "files" .full st.world.db f = true :=
      Db.applied_isSome.mp hdone
    rw [hrow] at halone
    exact absurd halone (by simp)
  -- a folder is never skipped
  have hfolder : f.isFolder = true → ∀ {n'}, (n < n' ∨
      files.applied user st'.world.db f.sourceId = some (files.marker f)) →
      (mode = .full → files.applied user st.world.db f.sourceId = some (files.marker f) →
        files.applied user st'.world.db f.sourceId = some (files.marker f)) →
      Settles files user (mode = .full) f st.world.db st'.world.db n n' := by
    intro hf n' hout hkept
    refine ⟨Or.inr hout, fun _ hskips => ?_, hkept⟩
    have hfile : f.isFolder = false := hskips
    rw [hf] at hfile
    exact absurd hfile (by simp)
  cases h with
  | leftAlone file alone =>
    cases mode with
    | full => exact .of_skipped rfl file (Db.applied_isSome.mpr alone) rfl
    | delta =>
      exact .of_open (fun hfull => absurd hfull (by simp))
        (Or.inr (unchanged_applied hhashes alone))
  | skipped _ row file alone action =>
    rcases hlive with hf | haction
    · rw [file] at hf
      exact absurd hf (by simp)
    · exact absurd action haction
  | deferred => exact absurd rfl hv
  | parentFailed _ row p parent unknown parentIn file =>
    cases hf : f.isFolder with
    | true =>
      apply hfolder hf (Or.inl (Nat.lt_succ_self n))
      intro hfull happlied
      exact absurd parentIn ((hholds hfull hf happlied).1 p parent unknown)
    | false => exact .of_open (hopen (file hf).1) (Or.inl (Nat.lt_succ_self n))
  | folderMade _ row parentDest id folder placed answered status dest hash change =>
    have happlied := change.applied status
    rw [hash] at happlied
    exact hfolder folder (Or.inr happlied) (fun _ _ => happlied)
  | folderFailed _ row parentDest e folder placed answered =>
    apply hfolder folder (Or.inl (Nat.lt_succ_self n))
    intro hfull happlied
    obtain ⟨id, hok⟩ := (hholds hfull folder happlied).2 parentDest placed
    rw [answered] at hok
    exact absurd hok (by simp)
  | transferred _ row parentDest write file alone action placed written status dest hash change =>
    have happlied := change.applied status
    rw [hash] at happlied
    exact .of_open (hopen alone) (Or.inr happlied)
  | transferFailed _ row parentDest file alone =>
    exact .of_open (hopen alone) (Or.inl (Nat.lt_succ_self n))

/-- During a pass over `items` that began with the store `db`, with the items in `P` settled:
no other row changed, and no failure and no full pass lost an item of them. -/
structure FilesPassing (user : UserMapping) (mode : Mode) (items : List SourceFile) (db : Db)
    (P : Set String) (st : FilesLoop) : Prop where
  rows : ∀ k, (∀ x ∈ items, x.sourceId ∈ P → k ≠ files.key user x.sourceId) →
    st.world.db.getItemState k = db.getItemState k
  cursors : st.world.db.getCursor = db.getCursor
  settled : ∀ x ∈ items, x.sourceId ∈ P → files.live x →
    Settles files user (mode = .full) x db st.world.db 0 st.failures

variable {items : List SourceFile} {db : Db} {P : Set String}

theorem FilesPassing.row (h : FilesPassing user mode items db P st) {id : String} (hid : id ∉ P) :
    st.world.db.getItemState (files.key user id) = db.getItemState (files.key user id) := by
  apply h.rows
  intro x _ hP hkey
  exact hid (Workload.key_inj.mp hkey ▸ hP)

/-- An item that is put off changes nothing. -/
theorem FilesPassing.put_off (h : FilesPassing user mode items db P st)
    (hchange : FileChange user "files" st st' f none none none false) :
    FilesPassing user mode items db P st' := by
  have hrows : st'.world.db.getItemState = st.world.db.getItemState := hchange.rows
  refine ⟨?_, hchange.cursors.trans h.cursors, fun x hx hP hlive => ?_⟩
  · rw [hrows]
    exact h.rows
  · refine (h.settled x hx hP hlive).congr rfl (Db.applied_congr (congrFun hrows _)) ?_
    rw [hchange.failures]
    exact id

/-- One item more is settled. -/
theorem FilesPassing.settle (h : FilesPassing user mode items db P st) (hf : f ∈ items)
    (hopen : f.sourceId ∉ P) (hstep : FileStep g user "files" mode st f defer v st')
    (hown : files.live f → Settles files user (mode = .full) f st.world.db st'.world.db
      st'.failures (st'.failures + if v = .failed then 1 else 0))
    (hnodup : (items.map SourceFile.sourceId).Nodup) :
    FilesPassing user mode items db (insert f.sourceId P)
      { st' with failures := st'.failures + if v = .failed then 1 else 0 } := by
  obtain ⟨row, made, write, fails, hchange, -⟩ := hstep.anyChange
  have hothers : ∀ k, k ≠ files.key user f.sourceId →
      st'.world.db.getItemState k = st.world.db.getItemState k := hstep.onlyTouches.rows
  have hbefore : files.applied user st.world.db f.sourceId = files.applied user db f.sourceId :=
    Db.applied_congr (h.row hopen)
  refine ⟨fun k hk => ?_, hchange.cursors.trans h.cursors, fun x hx hP hlive => ?_⟩
  · rw [hothers k (hk f hf (Set.mem_insert _ _))]
    exact h.rows k (fun x hx hP => hk x hx (Set.mem_insert_of_mem _ hP))
  · by_cases hxf : x.sourceId = f.sourceId
    · obtain rfl : x = f := List.inj_on_of_nodup_map hnodup hx hf hxf
      exact (hown hlive).congr hbefore.symm rfl (Nat.lt_of_le_of_lt (Nat.zero_le _))
    · have hset := h.settled x hx ((Set.mem_insert_iff.mp hP).resolve_left hxf) hlive
      refine hset.congr rfl ?_ (fun hlt => ?_)
      · exact Db.applied_congr (hothers _ (fun he => hxf (Workload.key_inj.mp he)))
      · rw [← hchange.failures] at hlt
        exact Nat.lt_of_lt_of_le hlt (Nat.le_add_right _ _)

/-- A step of the loop, on an item that is not settled yet. -/
theorem FilesPassing.step (h : FilesPassing user mode items db P st) (hf : f ∈ items)
    (hopen : f.sourceId ∉ P) (hnodup : (items.map SourceFile.sourceId).Nodup)
    (hhashes : ∀ id, HashDone db (files.key user id))
    (hholds : mode = .full → FolderHolds g user (defer, st, f)) :
    FilesPassing user mode items db
      (if (fileStep g user "files" mode defer st f).1 then P else insert f.sourceId P)
      (fileStep g user "files" mode defer st f).2 := by
  have hstep := processFile_step g user "files" mode st f defer
  rw [fileStep_eq]
  by_cases hv : (processFile g user "files" mode st f defer).1 = .deferred
  · rw [hv] at hstep
    have hput := h.put_off hstep.put_off.1
    simp only [hv, decide_true, if_true, reduceCtorEq, if_false, Nat.add_zero]
    exact hput
  · simp only [hv, decide_false, Bool.false_eq_true, if_false]
    refine h.settle hf hopen hstep (fun hlive => ?_) hnodup
    -- its row is the one from before the pass
    exact hstep.settles hv hlive ((hhashes _).congr (h.row hopen)) hholds _

/-- The invariant of a run that notes its steps: it stands while they all hold the folders. -/
def HeldPassing (g : Graph) (user : UserMapping) (mode : Mode) (items : List SourceFile) (db : Db)
    (P : Set String) (t : FilesLoop × List (Worklist.Taken FilesLoop SourceFile)) : Prop :=
  (∀ x ∈ t.2, mode = .full → FolderHolds g user x) → FilesPassing user mode items db P t.1

theorem HeldPassing.step (defer : Bool)
    {t : FilesLoop × List (Worklist.Taken FilesLoop SourceFile)}
    (h : HeldPassing g user mode items db P t) (hf : f ∈ items) (hopen : f.sourceId ∉ P)
    (hnodup : (items.map SourceFile.sourceId).Nodup)
    (hhashes : ∀ id, HashDone db (files.key user id)) :
    HeldPassing g user mode items db
      (if (Worklist.traced (fileStep g user "files" mode) defer t f).1 then P
        else insert f.sourceId P)
      (Worklist.traced (fileStep g user "files" mode) defer t f).2 := fun hall =>
  (h (fun x hx => hall x (List.mem_cons_of_mem _ hx))).step hf hopen hnodup hhashes
    (hall _ List.mem_cons_self)

variable (g user mode) in
/-- All of a feed is settled by `_migrate`. Only the first run over the items is made if the
enumeration raises, and some may be left. -/
theorem migrateFiles_passing (feed : Enumeration SourceFile) (w : World)
    (hnodup : (feed.items.map SourceFile.sourceId).Nodup)
    (hhashes : ∀ id, HashDone w.db (files.key user id))
    (hholds : mode = .full →
      ∀ t ∈ migrateVisited g user "files" mode feed w, FolderHolds g user t) :
    ∃ P, FilesPassing user mode feed.items w.db P (migrateFiles g user "files" mode feed w) ∧
      (feed.raised = none → ∀ x ∈ feed.items, x.sourceId ∈ P) := by
  have hstart : HeldPassing g user mode feed.items w.db ∅ ({ world := w }, []) :=
    fun _ => ⟨fun _ _ => rfl, rfl, fun _ _ hP => absurd hP (Set.notMem_empty _)⟩
  unfold migrateVisited at hholds
  unfold migrateFiles
  by_cases hraised : feed.raised.isSome = true
  · rw [if_pos hraised] at hholds ⊢
    obtain ⟨P, -, -, hJ, -⟩ := Worklist.runBatch_rule
      (Worklist.traced (fileStep g user "files" mode)) SourceFile.sourceId true (fun _ => True)
      (fun _ _ _ _ => trivial) feed.items
      (fun P t f hf _ hJ hopen => HeldPassing.step true hJ hf hopen hnodup hhashes)
      hnodup ∅ ({ world := w }, []) (fun _ _ => Set.notMem_empty _) trivial hstart
    refine ⟨P, ?_, fun hnone => ?_⟩
    · rw [← (Worklist.runBatch_traced (fileStep g user "files" mode) true _ [] feed.items).1]
      exact hJ (fun x hx hfull => hholds hfull x hx)
    · rw [hnone] at hraised
      exact absurd hraised (by simp)
  · rw [if_neg hraised] at hholds ⊢
    -- over the whole feed every item is settled once, deferred or not
    have hrun : ∃ P, (∀ x ∈ feed.items, x.sourceId ∈ P) ∧
        HeldPassing g user mode feed.items w.db P
          (Worklist.process (Worklist.traced (fileStep g user "files" mode)) SourceFile.sourceId
            SourceFile.parentId ({ world := w }, []) feed.items) := by
      refine Worklist.process_induction
        (J := fun P t => HeldPassing g user mode feed.items w.db P t)
        (.of_step (fun t f => fileStep_forced t.1 f) ?_) hnodup _ hstart
      intro d P t f hf hJ hopen
      exact hJ.step d hf hopen hnodup hhashes
    obtain ⟨P, hall, hJ⟩ := hrun
    refine ⟨P, ?_, fun _ => hall⟩
    rw [← Worklist.process_traced]
    exact hJ (fun x hx hfull => hholds hfull x hx)

/-- A pass over a feed, with a failure to its account if it broke off. -/
theorem FilesPassing.passed (h : FilesPassing user mode items db P st) (n : ℕ)
    (hn : st.failures ≤ n) (hall : n = 0 → ∀ x ∈ items, x.sourceId ∈ P) :
    Passed files user (mode = .full) items db st.world.db n := by
  refine ⟨fun k hk => ?_, h.cursors, fun x hx hlive => ?_⟩
  · exact h.rows k (fun x hx _ he => hk (he ▸ List.mem_map.mpr ⟨x, hx, rfl⟩))
  · by_cases hP : x.sourceId ∈ P
    · exact (h.settled x hx hP hlive).congr rfl rfl (fun hlt => Nat.lt_of_lt_of_le hlt hn)
    · -- an item that is still open is as it was
      have hsame : files.applied user st.world.db x.sourceId = files.applied user db x.sourceId :=
        Db.applied_congr (h.row hP)
      have hpos : 0 < n := Nat.pos_of_ne_zero (fun hzero => hP (hall hzero x hx))
      exact ⟨Or.inr (Or.inl hpos), fun _ _ _ => hsame, fun _ => hsame.trans⟩

/-- A files pass over a feed without repetitions settles it, unless it fails a folder that is
there. -/
theorem runFiles_ran_of_nodup {p : FilesPass} {w : World}
    (hnodup : ∀ since, startFrom p.mode (w.db.getCursor ⟨user.sourceId, "files"⟩) = some since →
      ((p.source since).items.map SourceFile.sourceId).Nodup)
    (hhashes : ∀ id, HashDone w.db (files.key user id))
    (hholds : p.mode = .full → p.FoldersHold g user w) :
    Ran files user p.mode p.source w.db (p.run g user w).db := by
  have huser := SameStore.after g w (.getUser user.destId)
  have hdrive := huser.trans (SameStore.after g (g.after w (.getUser user.destId)) .ensureOnedrive)
  simp only [FilesPass.FoldersHold, FilesPass.feed] at hholds
  simp only [FilesPass.run, runFiles]
  cases hans₁ : g.ask w (.getUser user.destId) with
  | error e => exact .idle _ huser
  | ok _ =>
    simp only
    cases hans₂ : g.ask (g.after w (.getUser user.destId)) .ensureOnedrive with
    | error e => exact .idle _ hdrive
    | ok _ =>
      simp only
      cases hstart : startFrom p.mode
          ((g.after (g.after w (.getUser user.destId)) .ensureOnedrive).db.getCursor
            ⟨user.sourceId, "files"⟩) with
      | none => exact .idle _ hdrive
      | some since =>
        rw [hans₁, hans₂] at hholds
        simp only [hstart, Option.map_some] at hholds
        obtain ⟨P, hpassing, hall⟩ := migrateFiles_passing g user p.mode (p.source since)
          (g.after (g.after w (.getUser user.destId)) .ensureOnedrive)
          (hnodup since hstart) (fun id => (hhashes id).congr (congrFun hdrive.rows _))
          (fun hfull => hholds hfull _ _ rfl)
        simp only [filesPass]
        by_cases hraised : (p.source since).raised.isSome = true
        · rw [if_pos hraised]
          have hpass := hpassing.passed _ (Nat.le_succ _) (fun h => by omega)
          exact Ran.after hdrive (.passed since _ _ _ hstart hpass rfl (Or.inl rfl))
        · rw [if_neg hraised]
          have hnone : (p.source since).raised = none := by simpa using hraised
          have hpass := hpassing.passed _ (Nat.le_refl _) (fun _ => hall hnone)
          exact Ran.of_advance hdrive hstart hpass (fun _ => hnone)

/-- A files pass reads its feed and settles it, unless it fails a folder that is there. -/
theorem runFiles_ran {tok : ℕ → Token} {log : List SourceFile} {p : FilesPass} {w : World}
    (hreads : Reads files tok log p.source) (hsynced : Synced files user tok log w.db)
    (hhashes : ∀ id, HashDone w.db (files.key user id))
    (hholds : p.mode = .full → p.FoldersHold g user w) :
    Ran files user p.mode p.source w.db (p.run g user w).db :=
  runFiles_ran_of_nodup (fun _ hstart => hsynced.feeds hreads hstart) hhashes hholds

/-- No step leaves a hash in a row that is not done. -/
theorem FileStep.hashDone (h : FileStep g user "files" mode st f defer v st')
    (hbefore : HashDone st.world.db (files.key user f.sourceId)) :
    HashDone st'.world.db (files.key user f.sourceId) := by
  have hrow : ∀ {row : ItemValues} {made : Option Token} {write : Option DriveWrite} {fails : Bool},
      FileChange user "files" st st' f (some row) made write fails →
      (row.status = .done ∨ row.sourceHash = none) →
      HashDone st'.world.db (files.key user f.sourceId) := by
    intro row made write fails hchange hgood hash hhash
    have hstate : st'.world.db.getItemState (files.key user f.sourceId) = some row := by
      rw [hchange.rows]
      exact Function.update_self ..
    rw [Db.getItemHash_eq, hstate] at hhash
    rw [Db.isDone_eq, hstate]
    rcases hgood with hdone | hnone
    · simpa using hdone
    · exact absurd (hnone.symm.trans hhash) (by simp)
  -- a row is written as done, or else without a hash
  cases h with
  | leftAlone => exact hbefore
  | skipped _ row _ _ _ _ _ change hash => exact hrow change (Or.inr hash)
  | deferred _ p _ _ _ _ _ change => exact hbefore.congr (change.quiet_row _)
  | parentFailed _ row p _ _ _ _ _ _ change hash => exact hrow change (Or.inr hash)
  | folderMade _ row parentDest id _ _ _ status _ _ change => exact hrow change (Or.inl status)
  | folderFailed _ row parentDest e _ _ _ _ _ change hash => exact hrow change (Or.inr hash)
  | transferred _ row parentDest write _ _ _ _ _ status _ _ change =>
    exact hrow change (Or.inl status)
  | transferFailed _ row parentDest _ _ _ _ _ _ _ hash change => exact hrow change (Or.inr hash)

theorem FilesPass.run_hashDone (p : FilesPass) (w : World)
    (h : ∀ id, HashDone w.db (files.key user id)) :
    ∀ id, HashDone (p.run g user w).db (files.key user id) := by
  refine p.run_invariant (fun w => ∀ id, HashDone w.db (files.key user id)) (fun _ _ => True)
    (fun w₁ w₂ hrows _ h₁ id => (h₁ id).congr (congrFun hrows _)) ?_ w
    (fun _ _ _ _ _ => trivial) h
  intro d st f hst _ id
  have hstep := processFile_step g user "files" p.mode st f d
  rw [fileStep_eq]
  by_cases hid : id = f.sourceId
  · subst hid
    exact hstep.hashDone (hst _)
  · exact (hst id).congr (hstep.onlyTouches.rows _ (fun he => hid (Workload.key_inj.mp he)))

end

end GwsMigrator
