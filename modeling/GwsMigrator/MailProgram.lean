import GwsMigrator.MailJob
import GwsMigrator.StoreSessions

/-! `run_mail` as the calls and the sessions it makes, one by one. -/
namespace GwsMigrator.Sessions
open Program

/-- What a job returns. -/
structure Outcome where
  failures : ℕ := 0
  raised : Option Exc := none
  saved : List (String × Token) := []
deriving DecidableEq

/-- A call to the outside. -/
abbrev call (c : Call) : JobProgram c.Ans := perform (Request.call c)

/-- One `session_scope` block. -/
abbrev session (r : Request) : JobProgram r.Ans := perform r

/-- The cursor save at the end of every pass. -/
def advanceCursor (out : Outcome) (k : CursorKey) (failures : ℕ) (lastCursor : Option Token) :
    JobProgram Outcome :=
  match lastCursor with
  | some c =>
    if failures = 0 then do
      session (.saveCursor k c)
      pure { out with saved := out.saved ++ [(k.workload, c)] }
    else pure out
  | none => pure out

/-- The cursor is read in a delta pass alone. -/
def readCursor (mode : Mode) (k : CursorKey) : JobProgram (Option (Option Token)) :=
  match mode with
  | .full => pure (some none)
  -- without a cursor there is nothing to go on from
  | .delta => do
    let stored ← session (.getCursor k)
    pure (stored.map some)

/-- What `run_mail` keeps in memory from message to message. -/
structure MailVars where
  folderCache : AList (fun _ : String => Token) := ∅
  failures : ℕ := 0

section
variable (user : UserMapping) (importMode : ImportMode)

def openSegment (part : String) (isTopLevel : Bool) (parentId : Option Token) :
    JobProgram (Except Exc Token) :=
  match resolveFolderSegment part isTopLevel with
  | some fid => pure (.ok fid)
  | none => call (.ensureMailFolder part parentId)

/-- The loop of `_get_folder`. -/
def walkFolder (vars : MailVars) (walked : List String) (parentId : Option Token) :
    List String → JobProgram (Except Exc Unit × MailVars)
  | [] => pure (.ok (), vars)
  | part :: rest =>
    let current := "\\".intercalate (walked ++ [part])
    match vars.folderCache.lookup current with
    | some fid => walkFolder vars (walked ++ [part]) (some fid) rest
    | none => do
      match ← openSegment part (walked = []) parentId with
      | .error e => pure (.error e, vars)
      | .ok fid =>
        session (.upsertFolder ⟨user.sourceId, "mail", current⟩ fid current)
        let vars := { vars with folderCache := vars.folderCache.insert current fid }
        walkFolder vars (walked ++ [part]) (some fid) rest

/-- `_get_folder`. -/
def getFolder (vars : MailVars) (path : String) : JobProgram (Except Exc Token × MailVars) :=
  match vars.folderCache.lookup path with
  | some fid => pure (.ok fid, vars)
  | none => do
    match ← walkFolder user vars [] none (pathParts path) with
    | (.error e, vars) => pure (.error e, vars)
    | (.ok _, vars) =>
      match vars.folderCache.lookup path with
      | some fid => pure (.ok fid, vars)
      | none => pure (.error (.other path), vars)

/-- `_import_into`. -/
def importInto (k : ItemKey) (slot : ℕ) (folderId : Token) (msg : SourceMessage) :
    JobProgram (Except Exc Token) := do
  match ← call (.importMessage k slot folderId msg importMode) with
  | .error e => pure (.error e)
  | .ok dest =>
    match importMode with
    | .json => pure (.ok dest)
    | .mime =>
      -- a message whose flags are not patched is imported all the same
      let _ ← call (.patchMessageFlags dest msg)
      pure (.ok dest)

def importCopy (vars : MailVars) (k : ItemKey) (slot : ℕ) (path : String) (msg : SourceMessage) :
    JobProgram (Except Exc Token × MailVars) := do
  match ← getFolder user vars path with
  | (.error e, vars) => pure (.error e, vars)
  | (.ok folderId, vars) =>
    let dest ← importInto importMode k slot folderId msg
    pure (dest, vars)

def importExtra (k : ItemKey) (msg : SourceMessage) (vars : MailVars) (extra : String × ℕ) :
    JobProgram MailVars := do
  let copied ← importCopy user importMode vars k extra.2 extra.1 msg
  pure copied.2

def failMessage (vars : MailVars) (k : ItemKey) (lastError : String) : JobProgram MailVars := do
  session (.upsertItem k { status := .failed, lastError := some lastError })
  pure { vars with failures := vars.failures + 1 }

/-- The loop body of `run_mail`. -/
def processMessage (vars : MailVars) (msg : SourceMessage) : JobProgram MailVars := do
  let k := messageKey user msg.sourceId
  if ← session (.isDone k) then pure vars
  else if msg.fetchError ≠ "" then failMessage vars k msg.fetchError
  else
    let (path, extras) := targetPaths msg
    match ← importCopy user importMode vars k 0 path msg with
    | (.error e, vars) => failMessage vars k e.text
    | (.ok dest, vars) =>
      session (.upsertItem k
        { sourceHash := orNone msg.dedupHash, destId := some dest, status := .done })
      -- whether the further copies succeed is not recorded
      extras.foldlM (importExtra user importMode k msg) vars

def migrateMail (feed : Enumeration SourceMessage) : JobProgram Outcome := do
  let vars ← feed.items.foldlM (processMessage user importMode) {}
  let out : Outcome := { failures := vars.failures, raised := feed.raised }
  if feed.raised.isSome then pure out
  else advanceCursor out ⟨user.sourceId, "mail"⟩ vars.failures feed.lastCursor

/-- `run_mail`. -/
def runMail (mode : Mode) (source : Option Token → Enumeration SourceMessage) :
    JobProgram Outcome := do
  match ← call (.getUser user.destId) with
  | .error e => pure { raised := some e }
  | .ok _ =>
    match ← readCursor mode ⟨user.sourceId, "mail"⟩ with
    | none => pure {}
    | some since => migrateMail user importMode (source since)

end

end GwsMigrator.Sessions

namespace GwsMigrator
open Program

def JobResult.outcome (r : JobResult) : Sessions.Outcome :=
  { failures := r.failures, raised := r.raised, saved := r.saved }

def MailLoop.vars (st : MailLoop) : Sessions.MailVars :=
  { folderCache := st.folderCache, failures := st.failures }

section running

variable (g : Graph) (user : UserMapping) (importMode : ImportMode) (w : World)

/-- The save at the end of a pass is the one of the job. -/
theorem run_advanceCursor (r : JobResult) (k : CursorKey) (failures : ℕ)
    (lastCursor : Option Token) :
    (Sessions.advanceCursor r.outcome k failures lastCursor).run (serve g) r.world =
      ((advanceCursor r k failures lastCursor).outcome,
        (advanceCursor r k failures lastCursor).world) := by
  unfold Sessions.advanceCursor advanceCursor
  cases lastCursor with
  | none => rfl
  | some c =>
    simp only
    split <;> rfl

theorem run_readCursor (mode : Mode) (k : CursorKey) :
    (Sessions.readCursor mode k).run (serve g) w = (startFrom mode (w.db.getCursor k), w) := by
  cases mode with
  | full => rfl
  | delta =>
    simp only [Sessions.readCursor, perform_bind, run_request, serve, startFrom]
    cases w.db.getCursor k <;> rfl

theorem run_openSegment (part : String) (isTopLevel : Bool) (parentId : Option Token) :
    (Sessions.openSegment part isTopLevel parentId).run (serve g) w =
      openSegment g w part isTopLevel parentId := by
  unfold Sessions.openSegment openSegment
  cases resolveFolderSegment part isTopLevel <;> rfl

theorem run_walkFolder (st : MailLoop) (walked : List String) (parentId : Option Token)
    (parts : List String) :
    (Sessions.walkFolder user st.vars walked parentId parts).run (serve g) st.world =
      let r := walkFolder g user st walked parentId parts
      ((r.1, r.2.vars), r.2.world) := by
  induction parts generalizing st walked parentId with
  | nil => rfl
  | cons part rest ih =>
    have hcache : st.vars.folderCache = st.folderCache := rfl
    simp only [Sessions.walkFolder, walkFolder, hcache]
    cases st.folderCache.lookup ("\\".intercalate (walked ++ [part])) with
    | some fid => exact ih st (walked ++ [part]) (some fid)
    | none =>
      simp only [run_bind, run_openSegment]
      generalize openSegment g st.world part (walked = []) parentId = opened
      obtain ⟨fid, w⟩ := opened
      cases fid with
      | error e => rfl
      | ok fid => exact ih ⟨_, _, _, st.tried⟩ (walked ++ [part]) (some fid)

theorem run_getFolder (st : MailLoop) (path : String) :
    (Sessions.getFolder user st.vars path).run (serve g) st.world =
      let r := getFolder g user st path
      ((r.1, r.2.vars), r.2.world) := by
  have hcache : ∀ st : MailLoop, st.vars.folderCache = st.folderCache := fun _ => rfl
  simp only [Sessions.getFolder, getFolder, hcache]
  cases st.folderCache.lookup path with
  | some fid => rfl
  | none =>
    simp only [run_bind, run_walkFolder]
    generalize walkFolder g user st [] none (pathParts path) = walked
    obtain ⟨found, st₁⟩ := walked
    cases found with
    | error e => rfl
    | ok _ =>
      simp only [hcache]
      cases st₁.folderCache.lookup path <;> rfl

theorem run_importInto (k : ItemKey) (slot : ℕ) (folderId : Token) (msg : SourceMessage) :
    (Sessions.importInto importMode k slot folderId msg).run (serve g) w =
      importInto g importMode w k slot folderId msg := by
  simp only [Sessions.importInto, importInto, perform_bind, run_request, serve]
  cases g.ask w (.importMessage k slot folderId msg importMode) with
  | error e => rfl
  | ok dest => cases importMode <;> rfl

theorem run_importCopy (st : MailLoop) (k : ItemKey) (slot : ℕ) (path : String)
    (msg : SourceMessage) :
    (Sessions.importCopy user importMode st.vars k slot path msg).run (serve g) st.world =
      let r := importCopy g user importMode st k slot path msg
      ((r.1, r.2.vars), r.2.world) := by
  simp only [Sessions.importCopy, importCopy, run_bind, run_getFolder]
  generalize getFolder g user st path = found
  obtain ⟨folder, st₁⟩ := found
  cases folder with
  | error e => rfl
  | ok folderId =>
    simp only [run_bind, run_importInto, run_pure]
    rfl

theorem run_importExtra (k : ItemKey) (msg : SourceMessage) (st : MailLoop)
    (extra : String × ℕ) :
    (Sessions.importExtra user importMode k msg st.vars extra).run (serve g) st.world =
      let st' := importExtra g user importMode k msg st extra
      (st'.vars, st'.world) := by
  have hcopy := run_importCopy g user importMode { st with tried := (k, extra.2) :: st.tried } k
    extra.2 extra.1 msg
  simp only [Sessions.importExtra, importExtra, run_bind, run_pure]
  exact congrArg (fun r => (r.1.2, r.2)) hcopy

/-- The loop body makes the calls and sessions that it stands for. -/
theorem run_processMessage (st : MailLoop) (msg : SourceMessage) :
    (Sessions.processMessage user importMode st.vars msg).run (serve g) st.world =
      let st' := processMessage g user importMode st msg
      (st'.vars, st'.world) := by
  unfold Sessions.processMessage processMessage
  simp only [perform_bind, run_request]
  dsimp +instances only [serve]
  by_cases hdone : st.world.db.isDone (messageKey user msg.sourceId) = true
  · rw [if_pos hdone, if_pos hdone]
    rfl
  rw [if_neg hdone, if_neg hdone]
  by_cases herr : msg.fetchError ≠ ""
  · rw [if_pos herr, if_pos herr]
    rfl
  rw [if_neg herr, if_neg herr]
  simp only [run_bind, run_importCopy]
  generalize importCopy g user importMode st (messageKey user msg.sourceId) 0 _ msg = copied
  obtain ⟨dest, st₁⟩ := copied
  cases dest with
  | error e => rfl
  | ok dest =>
    let row : ItemValues :=
      { sourceHash := orNone msg.dedupHash, destId := some dest, status := .done }
    -- the row is done before the extra copies, whose failures are only logged
    have hextras := run_foldlM MailLoop.vars MailLoop.world (targetPaths msg).2
      (fun st extra _ =>
        run_importExtra g user importMode (messageKey user msg.sourceId) msg st extra)
      { st₁ with world := st₁.world.upsertItem (messageKey user msg.sourceId) row }
    exact hextras

theorem run_migrateMail (feed : Enumeration SourceMessage) :
    (Sessions.migrateMail user importMode feed).run (serve g) w =
      let r := migrateMail g user importMode feed w
      (r.outcome, r.world) := by
  have hloop := run_foldlM MailLoop.vars MailLoop.world feed.items
    (fun st msg _ => run_processMessage g user importMode st msg) { world := w }
  have hstart : MailLoop.vars { world := w } = {} := rfl
  rw [hstart] at hloop
  simp only [Sessions.migrateMail, migrateMail, run_bind]
  rw [hloop]
  generalize feed.items.foldl (processMessage g user importMode) { world := w } = st
  simp only [MailLoop.vars]
  by_cases hraised : feed.raised.isSome = true
  · rw [if_pos hraised, if_pos hraised]
    rfl
  · rw [if_neg hraised, if_neg hraised]
    exact run_advanceCursor g
      { world := st.world, failures := st.failures, raised := feed.raised }
      ⟨user.sourceId, "mail"⟩ st.failures feed.lastCursor

/-- `run_mail` as a program leaves what the job leaves. -/
theorem run_runMail (mode : Mode) (source : Option Token → Enumeration SourceMessage) :
    (Sessions.runMail user importMode mode source).run (serve g) w =
      let r := runMail g user importMode mode source w
      (r.outcome, r.world) := by
  simp only [Sessions.runMail, runMail, perform_bind, run_request, serve]
  cases g.ask w (.getUser user.destId) with
  | error e => rfl
  | ok _ =>
    simp only [run_bind, run_readCursor]
    cases startFrom mode ((g.after w (.getUser user.destId)).db.getCursor
      ⟨user.sourceId, "mail"⟩) with
    | none => rfl
    | some since => exact run_migrateMail g user importMode _ (source since)

end running

section touched

variable {keys : Set CursorKey} {user : UserMapping}

theorem uses_call (c : Call) : (Sessions.call c).Uses (Request.Within keys) :=
  uses_perform trivial

theorem uses_advanceCursor {k : CursorKey} (hk : k ∈ keys) (out : Sessions.Outcome)
    (failures : ℕ) (lastCursor : Option Token) :
    (Sessions.advanceCursor out k failures lastCursor).Uses (Request.Within keys) := by
  unfold Sessions.advanceCursor
  cases lastCursor with
  | none => exact uses_pure out
  | some c =>
    simp only
    split
    · exact uses_bind (uses_perform hk) (fun _ => uses_pure _)
    · exact uses_pure out

theorem uses_readCursor {k : CursorKey} (hk : k ∈ keys) (mode : Mode) :
    (Sessions.readCursor mode k).Uses (Request.Within keys) := by
  cases mode with
  | full => exact uses_pure _
  | delta => exact uses_bind (uses_perform hk) (fun _ => uses_pure _)

variable (hk : ⟨user.sourceId, "mail"⟩ ∈ keys) (importMode : ImportMode)
include hk

theorem uses_walkFolder (vars : Sessions.MailVars) (walked : List String)
    (parentId : Option Token) (parts : List String) :
    (Sessions.walkFolder user vars walked parentId parts).Uses (Request.Within keys) := by
  induction parts generalizing vars walked parentId with
  | nil => exact uses_pure _
  | cons part rest ih =>
    simp only [Sessions.walkFolder]
    split
    · exact ih _ _ _
    · have hopen : (Sessions.openSegment part (walked = []) parentId).Uses
          (Request.Within keys) := by
        unfold Sessions.openSegment
        split
        · exact uses_pure _
        · exact uses_call _
      apply uses_bind hopen
      intro opened
      cases opened with
      | error e => exact uses_pure _
      | ok fid => exact uses_bind (uses_perform hk) (fun _ => ih _ _ _)

theorem uses_getFolder (vars : Sessions.MailVars) (path : String) :
    (Sessions.getFolder user vars path).Uses (Request.Within keys) := by
  unfold Sessions.getFolder
  split
  · exact uses_pure _
  · apply uses_bind (uses_walkFolder hk vars [] none (pathParts path))
    intro walked
    obtain ⟨found, vars'⟩ := walked
    cases found with
    | error e => exact uses_pure _
    | ok _ =>
      simp only
      split <;> exact uses_pure _

theorem uses_importCopy (vars : Sessions.MailVars) (k : ItemKey) (slot : ℕ) (path : String)
    (msg : SourceMessage) :
    (Sessions.importCopy user importMode vars k slot path msg).Uses (Request.Within keys) := by
  apply uses_bind (uses_getFolder hk vars path)
  intro found
  obtain ⟨folder, vars'⟩ := found
  cases folder with
  | error e => exact uses_pure _
  | ok folderId =>
    refine uses_bind (uses_bind (uses_call _) (fun dest => ?_)) (fun _ => uses_pure _)
    cases dest with
    | error e => exact uses_pure _
    | ok dest =>
      cases importMode with
      | json => exact uses_pure _
      | mime => exact uses_bind (uses_call _) (fun _ => uses_pure _)

theorem uses_processMessage (vars : Sessions.MailVars) (msg : SourceMessage) :
    (Sessions.processMessage user importMode vars msg).Uses (Request.Within keys) := by
  have hrow : (messageKey user msg.sourceId).owner ∈ keys := hk
  have hfail : ∀ vars text, (Sessions.failMessage vars (messageKey user msg.sourceId) text).Uses
      (Request.Within keys) :=
    fun vars text => uses_bind (uses_perform hrow) (fun _ => uses_pure _)
  refine uses_bind (uses_perform hrow) (fun isDone => ?_)
  split
  · exact uses_pure _
  split
  · exact hfail vars _
  apply uses_bind (uses_importCopy hk importMode vars _ 0 _ msg)
  intro copied
  obtain ⟨dest, vars'⟩ := copied
  cases dest with
  | error e => exact hfail vars' _
  | ok dest =>
    refine uses_bind (uses_perform hrow) (fun _ => uses_foldlM _ (fun vars extra _ => ?_) vars')
    exact uses_bind (uses_importCopy hk importMode vars _ _ _ msg) (fun _ => uses_pure _)

/-- A mail run stays with the mail rows of its user. -/
theorem uses_runMail (mode : Mode) (source : Option Token → Enumeration SourceMessage) :
    (Sessions.runMail user importMode mode source).Uses (Request.Within keys) := by
  apply uses_bind (uses_call _)
  intro found
  cases found with
  | error e => exact uses_pure _
  | ok _ =>
    apply uses_bind (uses_readCursor hk mode)
    intro since
    cases since with
    | none => exact uses_pure _
    | some since =>
      refine uses_bind (uses_foldlM _ (fun vars msg _ => uses_processMessage hk importMode vars msg)
        {}) (fun vars => ?_)
      simp only
      split
      · exact uses_pure _
      · exact uses_advanceCursor hk _ _ _

end touched

end GwsMigrator
