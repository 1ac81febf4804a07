import GwsMigrator.GraphCalls
import GwsMigrator.Worklist
import Mathlib.Data.Finset.Insert

/-! `workloads/files_job.py`: one pass over the files and folders of a drive. -/
namespace GwsMigrator

/-- `_FolderIndex` without the set of parents already warned about, with what else changes
during `_migrate`. -/
structure FilesLoop where
  world : World
  ids : AList (fun _ : String => Token) := ∅
  failed : Finset String := ∅
  rootId : Option Token := none
  failures : ℕ := 0

inductive Verdict where
  | ok
  | failed
  | deferred
deriving DecidableEq, Repr

/-- `_SMALL_FILE_THRESHOLD`. -/
def smallFileThreshold : ℕ := 4 * 1024 * 1024

section
variable (g : Graph) (user : UserMapping) (workload : String) (mode : Mode)

def fileKey (sourceId : String) : ItemKey := ⟨user.sourceId, workload, sourceId⟩

variable {user workload} in
theorem fileKey_inj {a b : String} : fileKey user workload a = fileKey user workload b ↔ a = b := by
  simp [fileKey]

/-- `_FolderIndex.resolve`: nothing when the parent is unknown, a resolved `none` is the
drive root. -/
def resolve (st : FilesLoop) (parentId : Option String) : Option (Option Token) × FilesLoop :=
  match parentId with
  | none => (some none, st)
  | some p =>
    if p = "" then (some none, st)
    else
      match st.ids.lookup p with
      | some dest => (some (some dest), st)
      | none =>
        match st.world.db.getFolderDest (fileKey user workload p) with
        -- what an earlier pass made is taken into the cache
        | some dest => (some (some dest), { st with ids := st.ids.insert p dest })
        | none => (none, st)

def failRow (st : FilesLoop) (f : SourceFile) (destId : Option Token) (lastError : String) :
    FilesLoop :=
  { st with world := st.world.upsertItem (fileKey user workload f.sourceId)
              { destId := destId, status := .failed, lastError := some lastError } }

/-- `_parent_for`: the destination parent, or the verdict that stops the item here. -/
def parentFor (st : FilesLoop) (f : SourceFile) (defer : Bool) :
    Except Verdict (Option Token) × FilesLoop :=
  match resolve user workload st f.parentId with
  | (some dest, st) => (.ok dest, st)
  | (none, st) =>
    let parentId := f.parentId.getD ""
    -- under a failed folder an item fails too, whatever its kind
    if parentId ∈ st.failed then
      let err := "parent folder " ++ parentId ++ " failed to migrate"
      (.error .failed, failRow user workload st f none err)
    else if defer then (.error .deferred, st)
    -- forced through: the item goes to the drive root
    else (.ok none, st)

/-- The branch of `_process_file` for folders. -/
def processFolder (st : FilesLoop) (f : SourceFile) (defer : Bool) : Verdict × FilesLoop :=
  let k := fileKey user workload f.sourceId
  match parentFor user workload st f defer with
  | (.error stop, st) => (stop, st)
  | (.ok parentDest, st) =>
    let call := Call.ensureFolder k parentDest f.name
    let w := g.after st.world call
    match g.ask st.world call with
    | .error e =>
      -- the children must not fall through to the root
      let st := { st with world := w, failed := insert f.sourceId st.failed }
      (.failed, failRow user workload st f none e.text)
    | .ok destId =>
      let row := { sourceHash := f.contentHash, destId := some destId, status := .done }
      (.ok, { st with world := (w.upsertFolder k destId f.name).upsertItem k row,
                      ids := st.ids.insert f.sourceId destId })

/-- The skip test: done in a full pass, in a delta pass an unchanged content hash. -/
def leftAlone (db : Db) (f : SourceFile) : Bool :=
  match mode with
  | .full => db.isDone (fileKey user workload f.sourceId)
  | .delta => (db.getItemHash (fileKey user workload f.sourceId)).any
      (fun stored => f.contentHash = some stored)

/-- The id under which a delta pass updates a file in place. -/
def existingDest (db : Db) (f : SourceFile) : Option Token :=
  match mode with
  | .full => none
  | .delta => db.recorded (fileKey user workload f.sourceId)

/-- `_root_id`. -/
def getRootId (st : FilesLoop) : Except Exc Token × FilesLoop :=
  match st.rootId with
  | some id => (.ok id, st)
  | none =>
    let w := g.after st.world .getRoot
    match g.ask st.world .getRoot with
    | .ok id => (.ok id, { st with world := w, rootId := some id })
    | .error e => (.error e, { st with world := w })

/-- The upload into a known folder, by the size of the content. -/
def uploadTo (st : FilesLoop) (f : SourceFile) (parent : Token) (content : Bytes)
    (finalName : String) : Except Exc Token × FilesLoop :=
  let k := fileKey user workload f.sourceId
  if content.length ≤ smallFileThreshold then
    let call := Call.uploadSmallFile k parent finalName content
    (g.ask st.world call, { st with world := g.after st.world call })
  else
    let call := Call.uploadLargeFile k parent finalName content
    (g.ask st.world call, { st with world := g.after st.world call })

/-- The upload of a file that is new at the destination, at the root if it has no parent. -/
def uploadFile (st : FilesLoop) (f : SourceFile) (parentDest : Option Token) (content : Bytes)
    (finalName : String) : Except Exc Token × FilesLoop :=
  match parentDest with
  | some parent => uploadTo g user workload st f parent content finalName
  | none =>
    match getRootId g st with
    | (.error e, st) => (.error e, st)
    | (.ok root, st) => uploadTo g user workload st f root content finalName

/-- The body of the `try`: fetch the content, then update the existing item or upload. -/
def writeFile (st : FilesLoop) (f : SourceFile) (existing : Option Token)
    (parentDest : Option Token) : Except Exc Token × FilesLoop :=
  let k := fileKey user workload f.sourceId
  let fetched := { st with world := g.after st.world (.fetchFile k f) }
  match g.ask st.world (.fetchFile k f) with
  | .error e => (.error e, fetched)
  | .ok (content, finalName) =>
    match existing with
    | some id =>
      let call := Call.updateFileContent k id content
      let st := { fetched with world := g.after fetched.world call }
      match g.ask fetched.world call with
      | .ok _ => (.ok id, st)
      | .error e => (.error e, st)
    | none => uploadFile g user workload fetched f parentDest content finalName

/-- Fetch and write one file, and record how it went. -/
def transferFile (st : FilesLoop) (f : SourceFile) (existing : Option Token)
    (parentDest : Option Token) : Verdict × FilesLoop :=
  match writeFile g user workload st f existing parentDest with
  | (.ok destId, st) =>
    let row := { sourceHash := f.contentHash, destId := some destId, status := .done }
    (.ok, { st with world := st.world.upsertItem (fileKey user workload f.sourceId) row })
  -- the id stays in the row, the hash does not
  | (.error e, st) => (.failed, failRow user workload st f existing e.text)

/-- `_process_file`. -/
def processFile (st : FilesLoop) (f : SourceFile) (defer : Bool) : Verdict × FilesLoop :=
  if f.isFolder then processFolder g user workload st f defer
  -- the skip is silent: it is not a failure
  else if leftAlone user workload mode st.world.db f then (.ok, st)
  else if f.action = .skip then
    let w := st.world.upsertItem (fileKey user workload f.sourceId) { status := .skipped }
    (.ok, { st with world := w })
  else
    match existingDest user workload mode st.world.db f with
    -- an update in place needs no parent
    | some id => transferFile g user workload st f (some id) none
    | none =>
      match parentFor user workload st f defer with
      | (.error stop, st) => (stop, st)
      | (.ok parentDest, st) => transferFile g user workload st f none parentDest

/-- One round of `_run`: whether the item is put off, and the failures counted. -/
def fileStep (defer : Bool) (st : FilesLoop) (f : SourceFile) : Bool × FilesLoop :=
  match processFile g user workload mode st f defer with
  | (.deferred, st) => (true, st)
  | (.failed, st) => (false, { st with failures := st.failures + 1 })
  | (.ok, st) => (false, st)

/-- `_migrate`. An enumeration that raises does so during the first run over the items. -/
def migrateFiles (feed : Enumeration SourceFile) (w : World) : FilesLoop :=
  -- what was put off until then is not tried again
  if feed.raised.isSome then
    (Worklist.runBatch (fileStep g user workload mode) true { world := w } feed.items).1
  else
    Worklist.process (fileStep g user workload mode) SourceFile.sourceId SourceFile.parentId
      { world := w } feed.items

/-- `_migrate` and the cursor save behind it. -/
def filesPass (feed : Enumeration SourceFile) (w : World) : JobResult :=
  let st := migrateFiles g user workload mode feed w
  let r : JobResult := { world := st.world, failures := st.failures, raised := feed.raised }
  if feed.raised.isSome then r
  else advanceCursor r ⟨user.sourceId, workload⟩ st.failures feed.lastCursor

/-- `run_files`, outside whatif mode. -/
def runFiles (source : Option Token → Enumeration SourceFile) (w : World) : JobResult :=
  let w₁ := g.after w (.getUser user.destId)
  match g.ask w (.getUser user.destId) with
  | .error e => { world := w₁, raised := some e }
  | .ok _ =>
    let w₂ := g.after w₁ .ensureOnedrive
    match g.ask w₁ .ensureOnedrive with
    | .error e => { world := w₂, raised := some e }
    | .ok _ =>
      match startFrom mode (w₂.db.getCursor ⟨user.sourceId, "files"⟩) with
      | none => { world := w₂ }
      | some since => filesPass g user "files" mode (source since) w₂

end

end GwsMigrator
