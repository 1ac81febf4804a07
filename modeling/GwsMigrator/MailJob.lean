import GwsMigrator.GraphCalls

/-! `workloads/mail_job.py`: the mail pass of one user. -/
namespace GwsMigrator

/-- The local variables of `run_mail` that its loop changes. `tried` is no variable of the
source: it lists the further copies attempted so far, by message and place in folder_paths. -/
structure MailLoop where
  world : World
  folderCache : AList (fun _ : String => Token) := ∅
  failures : ℕ := 0
  tried : List (ItemKey × ℕ) := []

structure MailResult extends JobResult where
  tried : List (ItemKey × ℕ) := []

def messageKey (user : UserMapping) (sourceId : String) : ItemKey :=
  ⟨user.sourceId, "mail", sourceId⟩

/-- `microsoft/mail.py: WELL_KNOWN_FOLDER_IDS`. -/
def wellKnownFolderId (part : String) : Option Token :=
  match part with
  | "Inbox" => some ⟨"inbox", by decide⟩
  | "SentItems" => some ⟨"sentitems", by decide⟩
  | "Drafts" => some ⟨"drafts", by decide⟩
  | "DeletedItems" => some ⟨"deleteditems", by decide⟩
  | "JunkEmail" => some ⟨"junkemail", by decide⟩
  | "Archive" => some ⟨"archive", by decide⟩
  | _ => none

/-- `microsoft/mail.py: resolve_folder_segment`. -/
def resolveFolderSegment (part : String) (isTopLevel : Bool) : Option Token :=
  if isTopLevel then wellKnownFolderId part else none

/-- `path.split("\\")`. -/
def pathParts (path : String) : List String := (path.toList.splitOn '\\').map String.ofList

theorem pathParts_ne_nil (path : String) : pathParts path ≠ [] := by
  simp [pathParts, List.splitOn_ne_nil]

/-- The segments of a path join to the path itself. -/
theorem join_pathParts (path : String) : "\\".intercalate (pathParts path) = path := by
  apply String.toList_inj.mp
  have hlists : (pathParts path).map String.toList = path.toList.splitOn '\\' := by
    rw [pathParts, List.map_map]
    have hid : String.toList ∘ String.ofList = id := by
      funext l
      exact String.toList_ofList
    rw [hid, List.map_id]
  rw [String.toList_intercalate, hlists]
  exact List.intercalate_splitOn '\\'

section
variable (g : Graph) (user : UserMapping) (importMode : ImportMode)

/-- A segment that is not cached: its well-known id, or the folder found or created. -/
def openSegment (w : World) (part : String) (isTopLevel : Bool) (parentId : Option Token) :
    Except Exc Token × World :=
  match resolveFolderSegment part isTopLevel with
  | some fid => (.ok fid, w)
  | none =>
    let call := Call.ensureMailFolder part parentId
    (g.ask w call, g.after w call)

/-- The loop of `_get_folder` over the segments of a path. -/
def walkFolder (st : MailLoop) (walked : List String) (parentId : Option Token) :
    List String → Except Exc Unit × MailLoop
  | [] => (.ok (), st)
  | part :: rest =>
    let current := "\\".intercalate (walked ++ [part])
    match st.folderCache.lookup current with
    -- a segment that an earlier path has opened
    | some fid => walkFolder st (walked ++ [part]) (some fid) rest
    | none =>
      match openSegment g st.world part (walked = []) parentId with
      | (.error e, w) => (.error e, { st with world := w })
      | (.ok fid, w) =>
        let st := { st with
          world := w.upsertFolder ⟨user.sourceId, "mail", current⟩ fid current,
          folderCache := st.folderCache.insert current fid }
        walkFolder st (walked ++ [part]) (some fid) rest

/-- The closure `_get_folder`. -/
def getFolder (st : MailLoop) (path : String) : Except Exc Token × MailLoop :=
  match st.folderCache.lookup path with
  | some fid => (.ok fid, st)
  | none =>
    match walkFolder g user st [] none (pathParts path) with
    | (.error e, st) => (.error e, st)
    | (.ok _, st) =>
      match st.folderCache.lookup path with
      | some fid => (.ok fid, st)
      -- the KeyError of `folder_cache[path]`; the segments of a path join to the path itself
      | none => (.error (.other path), st)

/-- The closure `_import_into`. Flags of a MIME import are patched after the fact, and a
failure of that patch is only logged. -/
def importInto (w : World) (k : ItemKey) (slot : ℕ) (folderId : Token) (msg : SourceMessage) :
    Except Exc Token × World :=
  let call := Call.importMessage k slot folderId msg importMode
  match g.ask w call with
  | .error e => (.error e, g.after w call)
  | .ok dest =>
    match importMode with
    | .json => (.ok dest, g.after w call)
    -- the patch is made whatever comes back, and its answer is dropped
    | .mime => (.ok dest, g.after (g.after w call) (.patchMessageFlags dest msg))

/-- `_import_into(_get_folder(path), msg)`. -/
def importCopy (st : MailLoop) (k : ItemKey) (slot : ℕ) (path : String) (msg : SourceMessage) :
    Except Exc Token × MailLoop :=
  match getFolder g user st path with
  | (.error e, st) => (.error e, st)
  | (.ok folderId, st) =>
    let (dest, w) := importInto g importMode st.world k slot folderId msg
    (dest, { st with world := w })

/-- One further copy, after the message is recorded as done: whatever fails is only logged. -/
def importExtra (k : ItemKey) (msg : SourceMessage) (st : MailLoop) (extra : String × ℕ) :
    MailLoop :=
  (importCopy g user importMode { st with tried := (k, extra.2) :: st.tried } k extra.2 extra.1
    msg).2

/-- `msg.folder_paths or ["Inbox"]`, as the first path and the others with their places. -/
def targetPaths (msg : SourceMessage) : String × List (String × ℕ) :=
  match msg.folderPaths with
  | [] => ("Inbox", [])
  | path :: extras => (path, extras.zipIdx 1)

def failMessage (st : MailLoop) (k : ItemKey) (lastError : String) : MailLoop :=
  { st with
    world := st.world.upsertItem k { status := .failed, lastError := some lastError },
    failures := st.failures + 1 }

/-- The loop body of `run_mail`. -/
def processMessage (st : MailLoop) (msg : SourceMessage) : MailLoop :=
  let k := messageKey user msg.sourceId
  -- mail is skipped as done in both modes
  if st.world.db.isDone k then st
  -- a stub for a message that the source could not fetch
  else if msg.fetchError ≠ "" then failMessage st k msg.fetchError
  else
    let (path, extras) := targetPaths msg
    match importCopy g user importMode st k 0 path msg with
    | (.error e, st) => failMessage st k e.text
    | (.ok dest, st) =>
      -- recorded before the further copies, so that nothing after can import it again
      let row := { sourceHash := orNone msg.dedupHash, destId := some dest, status := .done }
      extras.foldl (importExtra g user importMode k msg)
        { st with world := st.world.upsertItem k row }

/-- The loop of `run_mail` with the cursor save behind it. -/
def migrateMail (feed : Enumeration SourceMessage) (w : World) : MailResult :=
  let st := feed.items.foldl (processMessage g user importMode) { world := w }
  let r : JobResult := { world := st.world, failures := st.failures, raised := feed.raised }
  if feed.raised.isSome then { r with tried := st.tried }
  else
    { advanceCursor r ⟨user.sourceId, "mail"⟩ st.failures feed.lastCursor with tried := st.tried }

/-- `run_mail`, outside whatif mode. -/
def runMail (mode : Mode) (source : Option Token → Enumeration SourceMessage) (w : World) :
    MailResult :=
  let w' := g.after w (.getUser user.destId)
  match g.ask w (.getUser user.destId) with
  | .error e => { world := w', raised := some e }
  | .ok _ =>
    match startFrom mode (w'.db.getCursor ⟨user.sourceId, "mail"⟩) with
    | none => { world := w' }
    | some since => migrateMail g user importMode (source since) w'

end

end GwsMigrator
