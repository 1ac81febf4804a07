import GwsMigrator.FilesSteps
import GwsMigrator.GuardedRuns
import GwsMigrator.ScriptedGraph

/-! One destination item for each source file, over any history of passes that leave an
uploaded file alone, skip it, or update it in a delta pass. A full pass that meets such a file
in another state uploads it again. -/
namespace GwsMigrator
open Dialogue

namespace World

variable (w : World) (k : ItemKey)

def NotMade : Prop := writesOf k w.log = [] ∧ w.db.recorded k = none

/-- The row is the one that a skip leaves. -/
def Skipped : Prop := ∃ v, w.db.getItemState k = some v ∧ v.status = .skipped ∧ v.destId = none

/-- The item was uploaded once, as `d`, and only updated under this id since. Its row holds
the id, unless the source has it skipped. -/
structure MadeAs (d : Token) : Prop where
  writes : ∃ first updates, writesOf k w.log = updates ++ [first] ∧ first.isNew = true ∧
    first.id = d ∧ ∀ write ∈ updates, write.isNew = false ∧ write.id = d
  row : w.db.recorded k = some d ∨ w.Skipped k

def OneItem : Prop := w.NotMade k ∨ ∃ d, w.MadeAs k d

end World

structure FilesPass where
  mode : Mode
  source : Option Token → Enumeration SourceFile

section
variable (g : Graph) (user : UserMapping)

def FilesPass.run (w : World) (p : FilesPass) : World := (runFiles g user p.mode p.source w).world

/-- The state in which a pass starts to enumerate, with what it enumerates. -/
def FilesPass.feed (w : World) (p : FilesPass) : Option (Enumeration SourceFile × World) :=
  let w₁ := g.after w (.getUser user.destId)
  let w₂ := g.after w₁ .ensureOnedrive
  match g.ask w (.getUser user.destId), g.ask w₁ .ensureOnedrive with
  | .ok _, .ok _ => (startFrom p.mode (w₂.db.getCursor ⟨user.sourceId, "files"⟩)).map
      (fun since => (p.source since, w₂))
  | _, _ => none

/-- An item with the source id is a file, which is skipped, left alone, not uploaded yet, or
up for an update: in a delta pass, with an id in its row. -/
def StepKeeps (mode : Mode) (sourceId : String) (st : FilesLoop) (f : SourceFile) : Prop :=
  f.sourceId = sourceId → f.isFolder = false ∧
    (f.action = .skip ∨ leftAlone user "files" mode st.world.db f = true ∨
      writesOf (fileKey user "files" sourceId) st.world.log = [] ∨
      (mode = .delta ∧ (st.world.db.recorded (fileKey user "files" sourceId)).isSome))

/-- Every step of the pass meets `ok`. -/
def FilesPass.Meets (ok : FilesLoop → SourceFile → Prop) (w : World) (p : FilesPass) : Prop :=
  ∀ feed w', p.feed g user w = some (feed, w') →
    ∀ x ∈ migrateVisited g user "files" p.mode feed w', ok x.2.1 x.2.2

variable {g user} {workload : String} {mode : Mode} {st st' : FilesLoop} {f : SourceFile}

theorem FileChange.recorded {v : ItemValues} {made : Option Token} {write : Option DriveWrite}
    {fails : Bool} (h : FileChange user workload st st' f (some v) made write fails) :
    st'.world.db.recorded (fileKey user workload f.sourceId) = v.destId := by
  rw [Db.recorded_eq, h.rows]
  simp

@[simp] theorem World.Skipped.recorded_eq {w : World} {k : ItemKey} (h : w.Skipped k) :
    w.db.recorded k = none := by
  obtain ⟨v, hv, -, hnone⟩ := h
  rw [Db.recorded_eq, hv]
  exact hnone

theorem World.MadeAs.writes_ne_nil {w : World} {k : ItemKey} {d : Token} (h : w.MadeAs k d) :
    writesOf k w.log ≠ [] := by
  obtain ⟨first, updates, heq, -⟩ := h.writes
  rw [heq]
  simp

/-- What the two forms say depends on the row and the writes of the item only. -/
theorem World.NotMade.congr {w w' : World} {k : ItemKey} (h : w.NotMade k)
    (hr : w'.db.getItemState k = w.db.getItemState k)
    (hw : GwsMigrator.writesOf k w'.log = GwsMigrator.writesOf k w.log) : w'.NotMade k := by
  rw [NotMade, Db.recorded_eq, hr, hw, ← Db.recorded_eq]
  exact h

theorem World.MadeAs.congr {w w' : World} {k : ItemKey} {d : Token} (h : w.MadeAs k d)
    (hr : w'.db.getItemState k = w.db.getItemState k)
    (hw : GwsMigrator.writesOf k w'.log = GwsMigrator.writesOf k w.log) : w'.MadeAs k d := by
  refine ⟨by rw [hw]; exact h.writes, ?_⟩
  rw [Db.recorded_eq, Skipped, hr, ← Db.recorded_eq]
  exact h.row

theorem FileChange.quiet_row (h : FileChange user workload st st' f none none none false)
    (k : ItemKey) : st'.world.db.getItemState k = st.world.db.getItemState k := by
  rw [h.rows]
  rfl

/-- A file with an id in its row that is up for an update has no other id to be updated as. -/
theorem World.MadeAs.existingDest_eq {d : Token}
    (h : st.world.MadeAs (fileKey user workload f.sourceId) d)
    (halone : leftAlone user workload mode st.world.db f = false) (haction : f.action ≠ .skip)
    (hkeeps : f.action = .skip ∨ leftAlone user workload mode st.world.db f = true ∨
      GwsMigrator.writesOf (fileKey user workload f.sourceId) st.world.log = [] ∨
      (mode = .delta ∧ (st.world.db.recorded (fileKey user workload f.sourceId)).isSome)) :
    existingDest user workload mode st.world.db f = some d := by
  -- the row is looked up in a delta pass only; in a full pass the file was left alone or skipped
  rcases hkeeps with hk | hk | hk | ⟨hdelta, hsome⟩
  · exact absurd hk haction
  · rw [halone] at hk
    exact absurd hk (by simp)
  · exact absurd hk h.writes_ne_nil
  · rcases h.row with hr | hskip
    · rw [hdelta]
      exact hr
    · rw [hskip.recorded_eq] at hsome
      exact absurd hsome (by simp)

/-- A file that was never uploaded is not updated. -/
theorem World.NotMade.existingDest_eq
    (h : st.world.NotMade (fileKey user workload f.sourceId)) :
    existingDest user workload mode st.world.db f = none := by
  cases mode with
  | full => rfl
  | delta => exact h.2

/-- A step on an uploaded file updates it under its id, or leaves the drive as it is. -/
theorem FileStep.madeAs {defer : Bool} {v : Verdict} {d : Token}
    (h : FileStep g user workload mode st f defer v st') (hfile : f.isFolder = false)
    (hkeeps : f.action = .skip ∨ GwsMigrator.leftAlone user workload mode st.world.db f = true ∨
      GwsMigrator.writesOf (fileKey user workload f.sourceId) st.world.log = [] ∨
      (mode = .delta ∧ (st.world.db.recorded (fileKey user workload f.sourceId)).isSome))
    (hmade : st.world.MadeAs (fileKey user workload f.sourceId) d) :
    st'.world.MadeAs (fileKey user workload f.sourceId) d := by
  cases h with
  | leftAlone file alone => exact hmade
  | skipped _ row file alone action status noDest change =>
    refine ⟨?_, Or.inr ⟨row, ?_, status, noDest⟩⟩
    · rw [change.writesOf (by simp)]
      exact hmade.writes
    · rw [change.rows]
      simp
  | deferred _ p parent unknown notFailed may file change =>
    exact hmade.congr (change.quiet_row _) (change.writesOf (by simp))
  | parentFailed _ row p parent unknown parentIn file status noDest change =>
    obtain ⟨halone, haction, hex⟩ := file hfile
    rw [hmade.existingDest_eq halone haction hkeeps] at hex
    exact absurd hex (by simp)
  | folderMade _ row parentDest id folder => exact SourceFile.not_both hfile folder
  | folderFailed _ row parentDest e folder => exact SourceFile.not_both hfile folder
  | transferred _ row parentDest write file alone action placed written status dest hash change =>
    rw [hmade.existingDest_eq alone action hkeeps] at written
    obtain ⟨first, updates, heq, hnew, hid, hupd⟩ := hmade.writes
    have hsrc : ∀ x ∈ some write, x.src = fileKey user workload f.sourceId := by
      simpa using written.src_eq
    -- the row names the item, so the write can only be an update of it
    have hupdate : write.isNew = false ∧ write.id = d := by
      cases written with
      | updated id content name fetched => exact ⟨rfl, rfl⟩
    refine ⟨⟨first, write :: updates, ?_, hnew, hid, ?_⟩, Or.inl ?_⟩
    · rw [change.writesOf hsrc, heq]
      rfl
    · intro x hx
      rcases List.mem_cons.mp hx with rfl | hx
      · exact hupdate
      · exact hupd x hx
    · rw [change.recorded, dest, hupdate.2]
  | transferFailed _ row parentDest file alone action placed call status dest hash change =>
    rw [hmade.existingDest_eq alone action hkeeps] at dest
    refine ⟨?_, Or.inl (change.recorded.trans dest)⟩
    rw [change.writesOf (by simp)]
    exact hmade.writes

/-- A step on a file that was never uploaded uploads it at most once. -/
theorem FileStep.notMade {defer : Bool} {v : Verdict}
    (h : FileStep g user workload mode st f defer v st') (hfile : f.isFolder = false)
    (hnot : st.world.NotMade (fileKey user workload f.sourceId)) :
    st'.world.OneItem (fileKey user workload f.sourceId) := by
  -- a row without an id, and nothing written
  have hnone : ∀ {row : ItemValues}, row.destId = none →
      FileChange user workload st st' f (some row) none none false →
      st'.world.OneItem (fileKey user workload f.sourceId) := by
    intro row hrow change
    refine Or.inl ⟨?_, change.recorded.trans hrow⟩
    rw [change.writesOf (by simp)]
    exact hnot.1
  cases h with
  | leftAlone file alone => exact Or.inl hnot
  | skipped _ row file alone action status noDest change => exact hnone noDest change
  | deferred _ p parent unknown notFailed may file change =>
    exact Or.inl (hnot.congr (change.quiet_row _) (change.writesOf (by simp)))
  | parentFailed _ row p parent unknown parentIn file status noDest change =>
    exact hnone noDest change
  | folderMade _ row parentDest id folder => exact SourceFile.not_both hfile folder
  | folderFailed _ row parentDest e folder => exact SourceFile.not_both hfile folder
  | transferred _ row parentDest write file alone action placed written status dest hash change =>
    rw [hnot.existingDest_eq] at written
    have hsrc : ∀ x ∈ some write, x.src = fileKey user workload f.sourceId := by
      simpa using written.src_eq
    refine Or.inr ⟨write.id, ⟨write, [], ?_, ?_, rfl, by simp⟩, Or.inl ?_⟩
    · rw [change.writesOf hsrc, hnot.1]
      rfl
    · cases written with
      | uploaded id parent content name fetched under answered => exact newFileWrite_isNew ..
    · exact change.recorded.trans dest
  | transferFailed _ row parentDest file alone action placed call status dest hash change =>
    rw [hnot.existingDest_eq] at dest
    exact hnone dest change

/-- A step on any item keeps what is known about one source id. -/
theorem fileStep_keeps (sourceId : String) (defer : Bool) (st : FilesLoop) (f : SourceFile)
    (hkeeps : StepKeeps user mode sourceId st f) :
    (st.world.OneItem (fileKey user "files" sourceId) →
      (fileStep g user "files" mode defer st f).2.world.OneItem (fileKey user "files" sourceId)) ∧
    ∀ d, st.world.MadeAs (fileKey user "files" sourceId) d →
      (fileStep g user "files" mode defer st f).2.world.MadeAs
        (fileKey user "files" sourceId) d := by
  have hstep := processFile_step g user "files" mode st f defer
  rw [fileStep_eq]
  simp only
  -- a step on another item touches neither the row nor the writes of this one
  by_cases hid : f.sourceId = sourceId
  · obtain ⟨hfile, hkeep⟩ := hkeeps hid
    subst hid
    refine ⟨?_, fun d hmade => hstep.madeAs hfile hkeep hmade⟩
    rintro (hnot | ⟨d, hmade⟩)
    · exact hstep.notMade hfile hnot
    · exact Or.inr ⟨d, hstep.madeAs hfile hkeep hmade⟩
  · have hne : fileKey user "files" sourceId ≠ fileKey user "files" f.sourceId :=
      fileKey_inj.not.mpr (Ne.symm hid)
    have hrow := hstep.onlyTouches.rows _ hne
    have hwrites := hstep.onlyTouches.writesOf_of_ne hne
    refine ⟨?_, fun d hmade => hmade.congr hrow hwrites⟩
    rintro (hnot | ⟨d, hmade⟩)
    · exact Or.inl (hnot.congr hrow hwrites)
    · exact Or.inr ⟨d, hmade.congr hrow hwrites⟩

variable (g user) in
/-- What a pass of the files job does: it stops early with the stores as they were, or runs
`_migrate`. -/
theorem runFiles_cases (mode : Mode) (source : Option Token → Enumeration SourceFile)
    (w : World) :
    ((runFiles g user mode source w).world.db.getItemState = w.db.getItemState ∧
      driveWrites (runFiles g user mode source w).world.log = driveWrites w.log) ∨
    ∃ feed w', FilesPass.feed g user w ⟨mode, source⟩ = some (feed, w') ∧
      w'.db.getItemState = w.db.getItemState ∧ driveWrites w'.log = driveWrites w.log ∧
      (runFiles g user mode source w).world.db.getItemState =
        (migrateFiles g user "files" mode feed w').world.db.getItemState ∧
      driveWrites (runFiles g user mode source w).world.log =
        driveWrites (migrateFiles g user "files" mode feed w').world.log := by
  have hcall : ∀ (w : World) (c : Call), driveWrite ⟨c, g.ask w c⟩ = none →
      driveWrites (g.after w c).log = driveWrites w.log := by
    intro w c hc
    rw [driveWrites, Graph.after_log, List.filterMap_cons_none hc]
    rfl
  have h₁ := hcall w (.getUser user.destId) rfl
  have h₂ := (hcall (g.after w (.getUser user.destId)) .ensureOnedrive rfl).trans h₁
  simp only [runFiles, FilesPass.feed]
  cases g.ask w (.getUser user.destId) with
  | error e => exact Or.inl ⟨rfl, h₁⟩
  | ok _ =>
    simp only
    cases g.ask (g.after w (.getUser user.destId)) .ensureOnedrive with
    | error e => exact Or.inl ⟨rfl, h₂⟩
    | ok _ =>
      simp only
      cases startFrom mode ((g.after (g.after w (.getUser user.destId)) .ensureOnedrive).db.getCursor
          ⟨user.sourceId, "files"⟩) with
      | none => exact Or.inl ⟨rfl, h₂⟩
      | some since =>
        refine Or.inr ⟨source since, _, rfl, rfl, h₂, ?_, ?_⟩
        · funext k
          simp only [filesPass]
          split
          · rfl
          · rw [advanceCursor_getItemState]
        · simp only [filesPass]
          split
          · rfl
          · rw [advanceCursor_log]

/-- What depends on the rows and the writes only and is kept by every step that meets `ok`,
a pass whose steps meet it keeps. -/
theorem FilesPass.run_invariant (p : FilesPass) (I : World → Prop)
    (ok : FilesLoop → SourceFile → Prop)
    (hcongr : ∀ w₁ w₂ : World, w₂.db.getItemState = w₁.db.getItemState →
      driveWrites w₂.log = driveWrites w₁.log → I w₁ → I w₂)
    (hstep : ∀ d st f, I st.world → ok st f →
      I (fileStep g user "files" p.mode d st f).2.world)
    (w : World) (hok : p.Meets g user ok w) (h : I w) : I (p.run g user w) := by
  rw [FilesPass.run]
  obtain ⟨hrows, hwrites⟩ | ⟨feed, w', hfeed, hrows', hwrites', hrows, hwrites⟩ :=
    runFiles_cases g user p.mode p.source w
  · exact hcongr _ _ hrows hwrites h
  · apply hcongr _ _ hrows hwrites
    have hstart := hcongr _ _ hrows' hwrites' h
    have hmet := hok feed w' hfeed
    unfold migrateVisited at hmet
    unfold migrateFiles
    by_cases hraised : feed.raised.isSome = true
    · rw [if_pos hraised] at hmet ⊢
      exact Worklist.runBatch_guarded (I := fun st => I st.world)
        (fun d st f _ hst hk => hstep d st f hst hk) true _ hmet hstart
    · rw [if_neg hraised] at hmet ⊢
      exact Worklist.process_guarded (I := fun st => I st.world)
        (fun d st f _ hst hk => hstep d st f hst hk) _ hmet hstart

theorem FilesPass.run_oneItem (p : FilesPass) (w : World) (sourceId : String)
    (hkeeps : p.Meets g user (StepKeeps user p.mode sourceId) w)
    (h : w.OneItem (fileKey user "files" sourceId)) :
    (p.run g user w).OneItem (fileKey user "files" sourceId) := by
  refine p.run_invariant (fun w => w.OneItem (fileKey user "files" sourceId))
    (StepKeeps user p.mode sourceId) ?_
    (fun d st f hst hk => (fileStep_keeps sourceId d st f hk).1 hst) w hkeeps h
  intro w₁ w₂ hrows hwrites h₁
  have hfilter : writesOf (fileKey user "files" sourceId) w₂.log =
      writesOf (fileKey user "files" sourceId) w₁.log := by
    rw [GwsMigrator.writesOf, hwrites, GwsMigrator.writesOf]
  rcases h₁ with hnot | ⟨d, hmade⟩
  · exact Or.inl (hnot.congr (congrFun hrows _) hfilter)
  · exact Or.inr ⟨d, hmade.congr (congrFun hrows _) hfilter⟩

theorem FilesPass.run_madeAs (p : FilesPass) (w : World) (sourceId : String)
    (hkeeps : p.Meets g user (StepKeeps user p.mode sourceId) w) {d : Token}
    (h : w.MadeAs (fileKey user "files" sourceId) d) :
    (p.run g user w).MadeAs (fileKey user "files" sourceId) d := by
  refine p.run_invariant (fun w => w.MadeAs (fileKey user "files" sourceId) d)
    (StepKeeps user p.mode sourceId) ?_
    (fun _ st f hst hk => (fileStep_keeps sourceId _ st f hk).2 d hst) w hkeeps h
  intro w₁ w₂ hrows hwrites h₁
  apply h₁.congr (congrFun hrows _)
  rw [GwsMigrator.writesOf, hwrites, GwsMigrator.writesOf]

end

def filesHistory (g : Graph) (user : UserMapping) (w : World) (history : List FilesPass) : World :=
  history.foldl (FilesPass.run g user) w

/-- Every pass of the history meets the guard of the file with the source id. -/
def KeepsFile (g : Graph) (user : UserMapping) (sourceId : String) (w : World)
    (history : List FilesPass) : Prop :=
  Runs.Guarded (FilesPass.run g user)
    (fun w p => p.Meets g user (StepKeeps user p.mode sourceId) w) w history

/-- A file is uploaded once, whatever the passes and failures, and its row keeps the id until
the source has it skipped. -/
theorem files_one_item (g : Graph) (user : UserMapping) (history later : List FilesPass)
    (sourceId : String) (hkeeps : KeepsFile g user sourceId {} (history ++ later)) :
    (filesHistory g user {} history).OneItem (fileKey user "files" sourceId) ∧
    ∀ d, (filesHistory g user {} history).db.recorded (fileKey user "files" sourceId) = some d →
      (filesHistory g user {} (history ++ later)).MadeAs (fileKey user "files" sourceId) d := by
  obtain ⟨hfirst, hlater⟩ := (Runs.guarded_append _ _ _ _ _).mp hkeeps
  have hone : (filesHistory g user {} history).OneItem (fileKey user "files" sourceId) :=
    Runs.guarded_run_invariant (FilesPass.run g user)
      (fun w => w.OneItem (fileKey user "files" sourceId)) _
      (fun w p hw hp => p.run_oneItem w sourceId hp hw) _ _ (Or.inl ⟨rfl, rfl⟩) hfirst
  refine ⟨hone, fun d hd => ?_⟩
  -- a row that holds an id belongs to an item that was made, under this id
  have hmade : (filesHistory g user {} history).MadeAs (fileKey user "files" sourceId) d := by
    rcases hone with hnot | ⟨d', hmade⟩
    · rw [hnot.2] at hd
      exact absurd hd (by simp)
    · rcases hmade.row with hr | hskip
      · rw [hr] at hd
        exact Option.some.inj hd ▸ hmade
      · rw [hskip.recorded_eq] at hd
        exact absurd hd (by simp)
  rw [filesHistory, List.foldl_append]
  exact Runs.guarded_run_invariant (FilesPass.run g user)
    (fun w => w.MadeAs (fileKey user "files" sourceId) d) _
    (fun w p hw hp => p.run_madeAs w sourceId hp hw) _ _ hmade hlater

/-- A file with one destination item was uploaded at most once. -/
theorem World.OneItem.uploads_le {w : World} {k : ItemKey} (h : w.OneItem k) :
    (writesOf k w.log).countP DriveWrite.isNew ≤ 1 := by
  rcases h with hnot | ⟨d, hmade⟩
  · rw [hnot.1]
    simp
  · obtain ⟨first, updates, heq, -, -, hupd⟩ := hmade.writes
    have hzero : updates.countP DriveWrite.isNew = 0 := by
      rw [List.countP_eq_zero]
      intro write hw
      simp [(hupd write hw).1]
    have hlast := List.countP_le_length (p := DriveWrite.isNew) (l := [first])
    rw [heq, List.countP_append, hzero]
    simpa using hlast

/-- A full pass uploads a file, a delta pass fails to update it, a full pass retries. -/
def retriedUpdate : List FilesPass :=
  let file (hash : String) : SourceFile :=
    { sourceId := "a", name := "a.txt", contentHash := some hash }
  [⟨.full, fun _ => { items := [file "v1"], lastCursor := some firstCursor }⟩,
   ⟨.delta, fun _ => { items := [file "v2"], lastCursor := some secondCursor }⟩,
   ⟨.full, fun _ => { items := [file "v2"], lastCursor := some thirdCursor }⟩]

/-- The retry uploads the file a second time. -/
theorem retriedUpdate_duplicates :
    ¬ ∀ (g : Graph) (user : UserMapping) (history later : List FilesPass) (sourceId : String),
      (∀ p ∈ history ++ later, ∀ since, ∀ f ∈ (p.source since).items,
        f.sourceId = sourceId → f.isFolder = false) →
      (filesHistory g user {} history).OneItem (fileKey user "files" sourceId) ∧
      ∀ d, (filesHistory g user {} history).db.recorded (fileKey user "files" sourceId) = some d →
        (filesHistory g user {} (history ++ later)).MadeAs (fileKey user "files" sourceId) d := by
  intro h
  let g := scriptedGraph (fun _ c => match c with
    | .updateFileContent .. => some (.http 500 "no")
    | _ => none)
  let user : UserMapping := ⟨"a@source", "a@dest"⟩
  have hfiles : ∀ p ∈ retriedUpdate ++ [], ∀ since, ∀ f ∈ (p.source since).items,
      f.sourceId = "a" → f.isFolder = false := by
    intro p hp since f hf _
    simp only [retriedUpdate, List.append_nil, List.mem_cons, List.not_mem_nil, or_false] at hp
    rcases hp with rfl | rfl | rfl <;>
    · rw [List.mem_singleton.mp hf]
  have hone := (h g user retriedUpdate [] "a" hfiles).1
  have htwo : (writesOf (fileKey user "files" "a")
      (filesHistory g user {} retriedUpdate).log).countP DriveWrite.isNew = 2 := by decide
  have hle := hone.uploads_le
  omega

/-- A file that is uploaded by a full pass and updated by a delta pass keeps its one item. -/
theorem files_one_item_updated :
    let user : UserMapping := ⟨"a@source", "a@dest"⟩
    (filesHistory calmGraph user {} (retriedUpdate.take 1)).OneItem (fileKey user "files" "a") ∧
    ∃ d, (filesHistory calmGraph user {} (retriedUpdate.take 2)).MadeAs
      (fileKey user "files" "a") d := by
  intro user
  have hkeeps : KeepsFile calmGraph user "a" {}
      (retriedUpdate.take 1 ++ (retriedUpdate.drop 1).take 1) := by
    refine ⟨?_, ?_, trivial⟩
    · intro feed w' hfeed x hx _
      obtain ⟨rfl, rfl⟩ := Prod.mk.inj (Option.some.inj hfeed)
      rw [List.mem_singleton.mp hx]
      exact ⟨rfl, Or.inr (Or.inr (Or.inl rfl))⟩
    · intro feed w' hfeed x hx _
      obtain ⟨rfl, rfl⟩ := Prod.mk.inj (Option.some.inj hfeed)
      rw [List.mem_singleton.mp hx]
      exact ⟨rfl, Or.inr (Or.inr (Or.inr ⟨rfl, by decide⟩))⟩
  obtain ⟨hone, hmade⟩ := files_one_item calmGraph user _ _ "a" hkeeps
  exact ⟨hone, _, hmade _ rfl⟩

end GwsMigrator
