import GwsMigrator.FilesJob
import GwsMigrator.MailProgram
import GwsMigrator.WorklistPrograms

/-! `run_files` as the calls and the sessions it makes, one by one. -/
namespace GwsMigrator.Sessions
open Program

/-- `_FolderIndex` and the count of failures. -/
structure FilesVars where
  ids : AList (fun _ : String => Token) := ∅
  failed : Finset String := ∅
  rootId : Option Token := none
  failures : ℕ := 0

section
variable (user : UserMapping) (workload : String) (mode : Mode)

/-- `_FolderIndex.resolve`. -/
def resolve (vars : FilesVars) (parentId : Option String) :
    JobProgram (Option (Option Token) × FilesVars) :=
  match parentId with
  | none => pure (some none, vars)
  | some p =>
    if p = "" then pure (some none, vars)
    else
      match vars.ids.lookup p with
      | some dest => pure (some (some dest), vars)
      | none => do
        match ← session (.getFolderDest (fileKey user workload p)) with
        | some dest => pure (some (some dest), { vars with ids := vars.ids.insert p dest })
        | none => pure (none, vars)

def failRow (f : SourceFile) (destId : Option Token) (lastError : String) : JobProgram Unit :=
  session (.upsertItem (fileKey user workload f.sourceId)
    { destId := destId, status := .failed, lastError := some lastError })

/-- `_parent_for`. -/
def parentFor (vars : FilesVars) (f : SourceFile) (defer : Bool) :
    JobProgram (Except Verdict (Option Token) × FilesVars) := do
  match ← resolve user workload vars f.parentId with
  | (some dest, vars) => pure (.ok dest, vars)
  | (none, vars) =>
    let parentId := f.parentId.getD ""
    if parentId ∈ vars.failed then
      failRow user workload f none ("parent folder " ++ parentId ++ " failed to migrate")
      pure (.error .failed, vars)
    else if defer then pure (.error .deferred, vars)
    -- forced: an unknown parent is taken for the root
    else pure (.ok none, vars)

def processFolder (vars : FilesVars) (f : SourceFile) (defer : Bool) :
    JobProgram (Verdict × FilesVars) := do
  let k := fileKey user workload f.sourceId
  match ← parentFor user workload vars f defer with
  | (.error stop, vars) => pure (stop, vars)
  | (.ok parentDest, vars) =>
    match ← call (.ensureFolder k parentDest f.name) with
    | .error e =>
      failRow user workload f none e.text
      -- what is inside the folder fails with it
      pure (.failed, { vars with failed := insert f.sourceId vars.failed })
    | .ok destId =>
      session (.recordFolder k destId f.name
        { sourceHash := f.contentHash, destId := some destId, status := .done })
      pure (.ok, { vars with ids := vars.ids.insert f.sourceId destId })

/-- The skip test. -/
def leftAlone (f : SourceFile) : JobProgram Bool :=
  match mode with
  | .full => session (.isDone (fileKey user workload f.sourceId))
  | .delta => do
    let stored ← session (.getItemHash (fileKey user workload f.sourceId))
    pure (stored.any (fun stored => f.contentHash = some stored))

def existingDest (f : SourceFile) : JobProgram (Option Token) :=
  match mode with
  | .full => pure none
  | .delta => session (.recorded (fileKey user workload f.sourceId))

/-- `_root_id`. -/
def getRootId (vars : FilesVars) : JobProgram (Except Exc Token × FilesVars) :=
  match vars.rootId with
  | some id => pure (.ok id, vars)
  | none => do
    match ← call .getRoot with
    | .ok id => pure (.ok id, { vars with rootId := some id })
    | .error e => pure (.error e, vars)

def uploadTo (f : SourceFile) (parent : Token) (content : Bytes) (finalName : String) :
    JobProgram (Except Exc Token) :=
  let k := fileKey user workload f.sourceId
  if content.length ≤ smallFileThreshold then call (.uploadSmallFile k parent finalName content)
  else call (.uploadLargeFile k parent finalName content)

def uploadFile (vars : FilesVars) (f : SourceFile) (parentDest : Option Token) (content : Bytes)
    (finalName : String) : JobProgram (Except Exc Token × FilesVars) :=
  match parentDest with
  | some parent => do
    let id ← uploadTo user workload f parent content finalName
    pure (id, vars)
  | none => do
    match ← getRootId vars with
    | (.error e, vars) => pure (.error e, vars)
    | (.ok root, vars) =>
      let id ← uploadTo user workload f root content finalName
      pure (id, vars)

def writeFile (vars : FilesVars) (f : SourceFile) (existing : Option Token)
    (parentDest : Option Token) : JobProgram (Except Exc Token × FilesVars) := do
  let k := fileKey user workload f.sourceId
  match ← call (.fetchFile k f) with
  | .error e => pure (.error e, vars)
  | .ok (content, finalName) =>
    match existing with
    | some id =>
      match ← call (.updateFileContent k id content) with
      | .ok _ => pure (.ok id, vars)
      | .error e => pure (.error e, vars)
    | none => uploadFile user workload vars f parentDest content finalName

def transferFile (vars : FilesVars) (f : SourceFile) (existing : Option Token)
    (parentDest : Option Token) : JobProgram (Verdict × FilesVars) := do
  match ← writeFile user workload vars f existing parentDest with
  | (.ok destId, vars) =>
    session (.upsertItem (fileKey user workload f.sourceId)
      { sourceHash := f.contentHash, destId := some destId, status := .done })
    pure (.ok, vars)
  | (.error e, vars) =>
    failRow user workload f existing e.text
    pure (.failed, vars)

/-- `_process_file`. -/
def processFile (vars : FilesVars) (f : SourceFile) (defer : Bool) :
    JobProgram (Verdict × FilesVars) :=
  if f.isFolder then processFolder user workload vars f defer
  else do
    if ← leftAlone user workload mode f then pure (.ok, vars)
    else if f.action = .skip then
      session (.upsertItem (fileKey user workload f.sourceId) { status := .skipped })
      pure (.ok, vars)
    else
      match ← existingDest user workload mode f with
      -- an update needs no parent
      | some id => transferFile user workload vars f (some id) none
      | none =>
        match ← parentFor user workload vars f defer with
        | (.error stop, vars) => pure (stop, vars)
        | (.ok parentDest, vars) => transferFile user workload vars f none parentDest

/-- One round of `_run`. -/
def fileStep (defer : Bool) (vars : FilesVars) (f : SourceFile) :
    JobProgram (Bool × FilesVars) := do
  match ← processFile user workload mode vars f defer with
  | (.deferred, vars) => pure (true, vars)
  | (.failed, vars) => pure (false, { vars with failures := vars.failures + 1 })
  | (.ok, vars) => pure (false, vars)

/-- `_migrate`. -/
def migrateFiles (feed : Enumeration SourceFile) : JobProgram FilesVars :=
  -- what was put off is lost when the feed raises
  if feed.raised.isSome then do
    let r ← Worklist.runBatchM (fileStep user workload mode) true {} feed.items
    pure r.1
  else
    Worklist.processM (fileStep user workload mode) SourceFile.sourceId SourceFile.parentId {}
      feed.items

def filesPass (feed : Enumeration SourceFile) : JobProgram Outcome := do
  let vars ← migrateFiles user workload mode feed
  let out : Outcome := { failures := vars.failures, raised := feed.raised }
  if feed.raised.isSome then pure out
  else advanceCursor out ⟨user.sourceId, workload⟩ vars.failures feed.lastCursor

/-- `run_files`. -/
def runFiles (source : Option Token → Enumeration SourceFile) : JobProgram Outcome := do
  match ← call (.getUser user.destId) with
  | .error e => pure { raised := some e }
  | .ok _ =>
    match ← call .ensureOnedrive with
    | .error e => pure { raised := some e }
    | .ok _ =>
      match ← readCursor mode ⟨user.sourceId, "files"⟩ with
      | none => pure {}
      | some since => filesPass user "files" mode (source since)

end

end GwsMigrator.Sessions

namespace GwsMigrator
open Program

def FilesLoop.vars (st : FilesLoop) : Sessions.FilesVars :=
  { ids := st.ids, failed := st.failed, rootId := st.rootId, failures := st.failures }

section running

variable (g : Graph) (user : UserMapping) (workload : String) (mode : Mode) (w : World)

theorem run_resolve (st : FilesLoop) (parentId : Option String) :
    (Sessions.resolve user workload st.vars parentId).run (serve g) st.world =
      let r := resolve user workload st parentId
      ((r.1, r.2.vars), r.2.world) := by
  cases parentId with
  | none => rfl
  | some p =>
    simp only [Sessions.resolve, resolve]
    by_cases hp : p = ""
    · rw [if_pos hp, if_pos hp]
      rfl
    rw [if_neg hp, if_neg hp]
    have hids : st.vars.ids = st.ids := rfl
    rw [hids]
    cases st.ids.lookup p with
    | some dest => rfl
    | none =>
      simp only [perform_bind, run_request, serve]
      cases st.world.db.getFolderDest (fileKey user workload p) <;> rfl

theorem run_parentFor (st : FilesLoop) (f : SourceFile) (defer : Bool) :
    (Sessions.parentFor user workload st.vars f defer).run (serve g) st.world =
      let r := parentFor user workload st f defer
      ((r.1, r.2.vars), r.2.world) := by
  simp only [Sessions.parentFor, parentFor, run_bind, run_resolve]
  generalize resolve user workload st f.parentId = resolved
  obtain ⟨found, st₁⟩ := resolved
  cases found with
  | some dest => rfl
  | none =>
    have hfailed : st₁.vars.failed = st₁.failed := rfl
    simp only [hfailed]
    by_cases hmem : f.parentId.getD "" ∈ st₁.failed
    · rw [if_pos hmem, if_pos hmem]
      rfl
    · rw [if_neg hmem, if_neg hmem]
      cases defer <;> rfl

theorem run_processFolder (st : FilesLoop) (f : SourceFile) (defer : Bool) :
    (Sessions.processFolder user workload st.vars f defer).run (serve g) st.world =
      let r := processFolder g user workload st f defer
      ((r.1, r.2.vars), r.2.world) := by
  simp only [Sessions.processFolder, processFolder, run_bind, run_parentFor]
  generalize parentFor user workload st f defer = placed
  obtain ⟨found, st₁⟩ := placed
  cases found with
  | error stop => rfl
  | ok parentDest =>
    simp only [perform_bind, run_request, serve]
    cases g.ask st₁.world (.ensureFolder (fileKey user workload f.sourceId) parentDest f.name) <;>
      rfl

theorem run_leftAlone (f : SourceFile) :
    (Sessions.leftAlone user workload mode f).run (serve g) w =
      (leftAlone user workload mode w.db f, w) := by
  cases mode <;> rfl

theorem run_existingDest (f : SourceFile) :
    (Sessions.existingDest user workload mode f).run (serve g) w =
      (existingDest user workload mode w.db f, w) := by
  cases mode <;> rfl

theorem run_getRootId (st : FilesLoop) :
    (Sessions.getRootId st.vars).run (serve g) st.world =
      let r := getRootId g st
      ((r.1, r.2.vars), r.2.world) := by
  obtain ⟨world, ids, failed, rootId, failures⟩ := st
  cases rootId with
  | some id => rfl
  | none =>
    simp only [Sessions.getRootId, getRootId, FilesLoop.vars, perform_bind, run_request, serve]
    cases g.ask world .getRoot <;> rfl

theorem run_uploadFile (st : FilesLoop) (f : SourceFile) (parentDest : Option Token)
    (content : Bytes) (finalName : String) :
    (Sessions.uploadFile user workload st.vars f parentDest content finalName).run (serve g)
        st.world =
      let r := uploadFile g user workload st f parentDest content finalName
      ((r.1, r.2.vars), r.2.world) := by
  -- the upload itself, whichever parent was found for it
  have hupload : ∀ (st : FilesLoop) parent,
      (Sessions.uploadTo user workload f parent content finalName >>= fun id =>
        (pure (id, st.vars) : JobProgram (Except Exc Token × Sessions.FilesVars))).run (serve g)
          st.world =
        let r := uploadTo g user workload st f parent content finalName
        ((r.1, r.2.vars), r.2.world) := by
    intro st parent
    simp only [Sessions.uploadTo, uploadTo, run_bind, run_pure]
    split <;> rfl
  cases parentDest with
  | some parent => exact hupload st parent
  | none =>
    rw [Sessions.uploadFile, uploadFile, run_bind, run_getRootId]
    generalize getRootId g st = rooted
    obtain ⟨root, st₁⟩ := rooted
    cases root with
    | error e => rfl
    | ok root => exact hupload st₁ root

theorem run_writeFile (st : FilesLoop) (f : SourceFile) (existing parentDest : Option Token) :
    (Sessions.writeFile user workload st.vars f existing parentDest).run (serve g) st.world =
      let r := writeFile g user workload st f existing parentDest
      ((r.1, r.2.vars), r.2.world) := by
  simp only [Sessions.writeFile, writeFile, perform_bind, run_request, serve]
  cases g.ask st.world (.fetchFile (fileKey user workload f.sourceId) f) with
  | error e => rfl
  | ok fetched =>
    obtain ⟨content, finalName⟩ := fetched
    cases existing with
    | none =>
      exact run_uploadFile g user workload
        { st with world := g.after st.world (.fetchFile (fileKey user workload f.sourceId) f) }
        f parentDest content finalName
    | some id =>
      simp only [run_request, serve]
      cases g.ask (g.after st.world (.fetchFile (fileKey user workload f.sourceId) f))
        (.updateFileContent (fileKey user workload f.sourceId) id content) <;> rfl

theorem run_transferFile (st : FilesLoop) (f : SourceFile) (existing parentDest : Option Token) :
    (Sessions.transferFile user workload st.vars f existing parentDest).run (serve g) st.world =
      let r := transferFile g user workload st f existing parentDest
      ((r.1, r.2.vars), r.2.world) := by
  simp only [Sessions.transferFile, transferFile, run_bind, run_writeFile]
  generalize writeFile g user workload st f existing parentDest = written
  obtain ⟨answer, st₁⟩ := written
  cases answer <;> rfl

/-- The loop body makes the calls and sessions that it stands for. -/
theorem run_processFile (st : FilesLoop) (f : SourceFile) (defer : Bool) :
    (Sessions.processFile user workload mode st.vars f defer).run (serve g) st.world =
      let r := processFile g user workload mode st f defer
      ((r.1, r.2.vars), r.2.world) := by
  unfold Sessions.processFile processFile
  -- the order of the tests is the source's: folder, left alone, skip, existing
  by_cases hfolder : f.isFolder = true
  · rw [if_pos hfolder, if_pos hfolder]
    exact run_processFolder g user workload st f defer
  rw [if_neg hfolder, if_neg hfolder, run_bind, run_leftAlone]
  by_cases halone : leftAlone user workload mode st.world.db f = true
  · rw [if_pos halone, if_pos halone]
    rfl
  rw [if_neg halone, if_neg halone]
  by_cases haction : f.action = .skip
  · rw [if_pos haction, if_pos haction]
    rfl
  rw [if_neg haction, if_neg haction, run_bind, run_existingDest]
  cases existingDest user workload mode st.world.db f with
  | some id => exact run_transferFile g user workload st f (some id) none
  | none =>
    simp only [run_bind, run_parentFor]
    generalize parentFor user workload st f defer = placed
    obtain ⟨found, st₁⟩ := placed
    cases found with
    | error stop => rfl
    | ok parentDest => exact run_transferFile g user workload st₁ f none parentDest

theorem run_fileStep (defer : Bool) (st : FilesLoop) (f : SourceFile) :
    (Sessions.fileStep user workload mode defer st.vars f).run (serve g) st.world =
      let r := fileStep g user workload mode defer st f
      ((r.1, r.2.vars), r.2.world) := by
  simp only [Sessions.fileStep, fileStep, run_bind, run_processFile]
  generalize processFile g user workload mode st f defer = processed
  obtain ⟨v, st₁⟩ := processed
  cases v <;> rfl

theorem run_migrateFiles (feed : Enumeration SourceFile) :
    (Sessions.migrateFiles user workload mode feed).run (serve g) w =
      let st := migrateFiles g user workload mode feed w
      (st.vars, st.world) := by
  have hstep := run_fileStep g user workload mode
  have hvars : FilesLoop.vars { world := w } = {} := rfl
  unfold Sessions.migrateFiles migrateFiles
  by_cases hraised : feed.raised.isSome = true
  · rw [if_pos hraised, if_pos hraised, run_bind]
    have hbatch := Worklist.run_runBatchM FilesLoop.vars FilesLoop.world hstep true
      { world := w } feed.items
    rw [hvars] at hbatch
    rw [hbatch]
    rfl
  · rw [if_neg hraised, if_neg hraised]
    have hall := Worklist.run_processM SourceFile.sourceId SourceFile.parentId FilesLoop.vars
      FilesLoop.world hstep { world := w } feed.items
    rw [hvars] at hall
    exact hall

theorem run_filesPass (feed : Enumeration SourceFile) :
    (Sessions.filesPass user workload mode feed).run (serve g) w =
      let r := filesPass g user workload mode feed w
      (r.outcome, r.world) := by
  simp only [Sessions.filesPass, filesPass, run_bind, run_migrateFiles]
  generalize migrateFiles g user workload mode feed w = st
  simp only [FilesLoop.vars]
  by_cases hraised : feed.raised.isSome = true
  · rw [if_pos hraised, if_pos hraised]
    rfl
  · rw [if_neg hraised, if_neg hraised]
    exact run_advanceCursor g
      { world := st.world, failures := st.failures, raised := feed.raised }
      ⟨user.sourceId, workload⟩ st.failures feed.lastCursor

/-- `run_files` as a program leaves what the job leaves. -/
theorem run_runFiles (source : Option Token → Enumeration SourceFile) :
    (Sessions.runFiles user mode source).run (serve g) w =
      let r := runFiles g user mode source w
      (r.outcome, r.world) := by
  simp only [Sessions.runFiles, runFiles, perform_bind, run_request, serve]
  cases g.ask w (.getUser user.destId) with
  | error e => rfl
  | ok _ =>
    simp only [run_request, serve]
    cases g.ask (g.after w (.getUser user.destId)) .ensureOnedrive with
    | error e => rfl
    | ok _ =>
      generalize g.after (g.after w (.getUser user.destId)) .ensureOnedrive = w₂
      simp only [run_bind, run_readCursor]
      cases startFrom mode (w₂.db.getCursor ⟨user.sourceId, "files"⟩) with
      | none => rfl
      | some since => exact run_filesPass g user "files" mode w₂ (source since)

end running

section touched

variable {keys : Set CursorKey} {user : UserMapping} {workload : String} {mode : Mode}

theorem uses_uploadFile (vars : Sessions.FilesVars) (f : SourceFile) (parentDest : Option Token)
    (content : Bytes) (finalName : String) :
    (Sessions.uploadFile user workload vars f parentDest content finalName).Uses
      (Request.Within keys) := by
  have hupload : ∀ parent, (Sessions.uploadTo user workload f parent content finalName).Uses
      (Request.Within keys) := by
    intro parent
    unfold Sessions.uploadTo
    simp only
    split <;> exact uses_call _
  cases parentDest with
  | some parent => exact uses_bind (hupload parent) (fun _ => uses_pure _)
  | none =>
    have hroot : (Sessions.getRootId vars).Uses (Request.Within keys) := by
      unfold Sessions.getRootId
      split
      · exact uses_pure _
      · apply uses_bind (uses_call _)
        intro answer
        cases answer <;> exact uses_pure _
    apply uses_bind hroot
    intro rooted
    obtain ⟨root, vars'⟩ := rooted
    cases root with
    | error e => exact uses_pure _
    | ok root => exact uses_bind (hupload root) (fun _ => uses_pure _)

variable (hk : ⟨user.sourceId, workload⟩ ∈ keys)
include hk

theorem uses_parentFor (vars : Sessions.FilesVars) (f : SourceFile) (defer : Bool) :
    (Sessions.parentFor user workload vars f defer).Uses (Request.Within keys) := by
  have hrow : ∀ p, (fileKey user workload p).owner ∈ keys := fun _ => hk
  have hresolve : (Sessions.resolve user workload vars f.parentId).Uses (Request.Within keys) := by
    unfold Sessions.resolve
    split
    · exact uses_pure _
    split
    · exact uses_pure _
    split
    · exact uses_pure _
    refine uses_bind (uses_perform (hrow _)) (fun dest => ?_)
    cases dest <;> exact uses_pure _
  apply uses_bind hresolve
  intro resolved
  obtain ⟨found, vars'⟩ := resolved
  cases found with
  | some dest => exact uses_pure _
  | none =>
    simp only
    split
    · exact uses_bind (uses_perform (hrow _)) (fun _ => uses_pure _)
    split <;> exact uses_pure _

theorem uses_transferFile (vars : Sessions.FilesVars) (f : SourceFile)
    (existing parentDest : Option Token) :
    (Sessions.transferFile user workload vars f existing parentDest).Uses
      (Request.Within keys) := by
  have hrow : (fileKey user workload f.sourceId).owner ∈ keys := hk
  have hwrite : (Sessions.writeFile user workload vars f existing parentDest).Uses
      (Request.Within keys) := by
    apply uses_bind (uses_call _)
    intro fetched
    obtain e | ⟨content, finalName⟩ := fetched
    · exact uses_pure _
    cases existing with
    | none => exact uses_uploadFile vars f parentDest content finalName
    | some id =>
      apply uses_bind (uses_call _)
      intro answer
      cases answer <;> exact uses_pure _
  apply uses_bind hwrite
  intro written
  obtain ⟨answer, vars'⟩ := written
  cases answer <;> exact uses_bind (uses_perform hrow) (fun _ => uses_pure _)

theorem uses_processFile (vars : Sessions.FilesVars) (f : SourceFile) (defer : Bool) :
    (Sessions.processFile user workload mode vars f defer).Uses (Request.Within keys) := by
  have hrow : (fileKey user workload f.sourceId).owner ∈ keys := hk
  unfold Sessions.processFile
  split
  · apply uses_bind (uses_parentFor hk vars f defer)
    intro placed
    obtain ⟨found, vars'⟩ := placed
    cases found with
    | error stop => exact uses_pure _
    | ok parentDest =>
      apply uses_bind (uses_call _)
      intro answer
      cases answer <;> exact uses_bind (uses_perform hrow) (fun _ => uses_pure _)
  -- in either mode the row read is the file's own
  have halone : (Sessions.leftAlone user workload mode f).Uses (Request.Within keys) := by
    cases mode with
    | full => exact uses_perform hrow
    | delta => exact uses_bind (uses_perform hrow) (fun _ => uses_pure _)
  apply uses_bind halone
  intro alone
  split
  · exact uses_pure _
  split
  · exact uses_bind (uses_perform hrow) (fun _ => uses_pure _)
  have hexisting : (Sessions.existingDest user workload mode f).Uses (Request.Within keys) := by
    cases mode with
    | full => exact uses_pure _
    | delta => exact uses_perform hrow
  apply uses_bind hexisting
  intro existing
  cases existing with
  | some id => exact uses_transferFile hk vars f (some id) none
  | none =>
    apply uses_bind (uses_parentFor hk vars f defer)
    intro placed
    obtain ⟨found, vars'⟩ := placed
    cases found with
    | error stop => exact uses_pure _
    | ok parentDest => exact uses_transferFile hk vars' f none parentDest

theorem uses_filesPass (feed : Enumeration SourceFile) :
    (Sessions.filesPass user workload mode feed).Uses (Request.Within keys) := by
  have hstep : ∀ d vars f, (Sessions.fileStep user workload mode d vars f).Uses
      (Request.Within keys) := by
    intro d vars f
    apply uses_bind (uses_processFile hk vars f d)
    intro processed
    obtain ⟨v, vars'⟩ := processed
    cases v <;> exact uses_pure _
  have hmigrate : (Sessions.migrateFiles user workload mode feed).Uses (Request.Within keys) := by
    unfold Sessions.migrateFiles
    split
    · exact uses_bind (Worklist.uses_runBatchM hstep true _ _) (fun _ => uses_pure _)
    · exact Worklist.uses_processM hstep _ _
  apply uses_bind hmigrate
  intro vars
  simp only
  split
  · exact uses_pure _
  · exact uses_advanceCursor hk _ _ _

end touched

/-- A files run stays with the file rows of its user. -/
theorem uses_runFiles {keys : Set CursorKey} {user : UserMapping}
    (hk : ⟨user.sourceId, "files"⟩ ∈ keys) (mode : Mode)
    (source : Option Token → Enumeration SourceFile) :
    (Sessions.runFiles user mode source).Uses (Request.Within keys) := by
  apply uses_bind (uses_call _)
  intro found
  cases found with
  | error e => exact uses_pure _
  | ok _ =>
    apply uses_bind (uses_call _)
    intro drive
    cases drive with
    | error e => exact uses_pure _
    | ok _ =>
      apply uses_bind (uses_readCursor hk mode)
      intro since
      cases since with
      | none => exact uses_pure _
      | some since => exact uses_filesPass hk (source since)

end GwsMigrator
