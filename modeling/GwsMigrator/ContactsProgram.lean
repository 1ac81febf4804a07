import GwsMigrator.ContactsJob
import GwsMigrator.MailProgram

/-! `run_contacts` as the calls and the sessions it makes, one by one. -/
namespace GwsMigrator.Sessions
open Program

/-- What `run_contacts` keeps in memory from contact to contact. -/
structure ContactsVars where
  folderCache : AList (fun _ : String => Token) := ∅
  failures : ℕ := 0

section
variable (user : UserMapping) (mode : Mode)

/-- `_get_folder`. -/
def getContactFolder (vars : ContactsVars) (name : String) :
    JobProgram (Except Exc Token × ContactsVars) :=
  match vars.folderCache.lookup name with
  | some id => pure (.ok id, vars)
  | none => do
    match ← call (.ensureContactFolder name) with
    | .ok id => pure (.ok id, { vars with folderCache := vars.folderCache.insert name id })
    | .error e => pure (.error e, vars)

/-- `microsoft/contacts.py: delete_contact`. -/
def deleteContact (id : Token) : JobProgram (Except Exc Unit) := do
  match ← call (.deleteContact id) with
  -- gone already
  | .error (.http 404 _) => pure (.ok ())
  | r => pure r

def failContact (vars : ContactsVars) (k : ItemKey) (e : Exc) (destId : Option Token)
    (sourceHash : Option String) : JobProgram ContactsVars := do
  session (.upsertItem k
    { destId := destId, sourceHash := sourceHash, status := .failed, lastError := some e.text })
  pure { vars with failures := vars.failures + 1 }

/-- A tombstone. -/
def removeContact (vars : ContactsVars) (c : SourceContact) (destExisting : Option Token) :
    JobProgram ContactsVars :=
  let k := contactKey user c.sourceId
  match destExisting with
  | some id => do
    match ← deleteContact id with
    | .error e => failContact vars k e (some id) none
    | .ok _ =>
      session (.upsertItem k { status := .skipped })
      pure vars
  | none => do
    session (.upsertItem k { status := .skipped })
    pure vars

def writeContact (vars : ContactsVars) (c : SourceContact) (destExisting : Option Token) :
    JobProgram (Except Exc Token × ContactsVars) :=
  match destExisting with
  | some id => do
    match ← call (.updateContact id c.graphBody) with
    | .ok _ => pure (.ok id, vars)
    | .error e => pure (.error e, vars)
  | none => do
    match ← getContactFolder vars c.folderName with
    | (.error e, vars) => pure (.error e, vars)
    | (.ok folder, vars) =>
      match ← call (.createContact (contactKey user c.sourceId) folder c.graphBody) with
      | .ok id => pure (.ok id, vars)
      | .error e => pure (.error e, vars)

/-- The photo is best-effort. -/
def copyPhoto (c : SourceContact) (destId : Token) : JobProgram Unit :=
  if c.photoRef = "" then pure ()
  else do
    match ← call (.fetchContactPhoto c) with
    | .ok (some photo) =>
      if photo = [] then pure ()
      else
        let _ ← call (.setContactPhoto destId photo)
        pure ()
    | _ => pure ()

def migrateContact (vars : ContactsVars) (c : SourceContact) (state : Option ItemValues) :
    JobProgram ContactsVars := do
  let k := contactKey user c.sourceId
  let destExisting := state.bind (·.destId)
  match ← writeContact user vars c destExisting with
  | (.ok id, vars) =>
    session (.upsertItem k
      { destId := some id, status := .done, sourceHash := orNone c.sourceHash })
    -- the row is written first, whatever comes of the photo
    copyPhoto c id
    pure vars
  -- the old id and hash stay in the failed row
  | (.error e, vars) => failContact vars k e destExisting (state.bind (·.sourceHash))

/-- The loop body of `run_contacts`. -/
def processContact (vars : ContactsVars) (c : SourceContact) : JobProgram ContactsVars := do
  let state ← session (.getItemState (contactKey user c.sourceId))
  if c.isDeleted then removeContact user vars c (state.bind (·.destId))
  else if contactSettled mode c state then pure vars
  else migrateContact user vars c state

/-- The user lookup and the default folder. -/
def startContacts : JobProgram (Except Exc Unit × ContactsVars) := do
  match ← call (.getUser user.destId) with
  | .error e => pure (.error e, {})
  | .ok _ =>
    match ← getContactFolder {} "Imported Contacts" with
    | (.error e, vars) => pure (.error e, vars)
    | (.ok _, vars) => pure (.ok (), vars)

def migrateContacts (feed : Enumeration SourceContact) (vars : ContactsVars) :
    JobProgram Outcome := do
  let vars ← feed.items.foldlM (processContact user mode) vars
  let out : Outcome := { failures := vars.failures, raised := feed.raised }
  if feed.raised.isSome then pure out
  else advanceCursor out ⟨user.sourceId, "contacts"⟩ vars.failures feed.lastCursor

/-- `run_contacts`. -/
def runContacts (source : Option Token → Enumeration SourceContact) : JobProgram Outcome := do
  match ← readCursor mode ⟨user.sourceId, "contacts"⟩ with
  | none => pure {}
  | some since =>
    match ← startContacts user with
    | (.error e, _) => pure { raised := some e }
    | (.ok _, vars) => migrateContacts user mode (source since) vars

end

end GwsMigrator.Sessions

namespace GwsMigrator
open Program

def ContactsLoop.vars (st : ContactsLoop) : Sessions.ContactsVars :=
  { folderCache := st.folderCache, failures := st.failures }

section running

variable (g : Graph) (user : UserMapping) (mode : Mode) (w : World)

theorem run_getContactFolder (st : ContactsLoop) (name : String) :
    (Sessions.getContactFolder st.vars name).run (serve g) st.world =
      let r := getContactFolder g st name
      ((r.1, r.2.vars), r.2.world) := by
  have hcache : st.vars.folderCache = st.folderCache := rfl
  simp only [Sessions.getContactFolder, getContactFolder, hcache]
  cases st.folderCache.lookup name with
  | some id => rfl
  | none =>
    simp only [perform_bind, run_request, serve]
    cases g.ask st.world (.ensureContactFolder name) <;> rfl

theorem run_deleteContact (id : Token) :
    (Sessions.deleteContact id).run (serve g) w = deleteContact g w id := by
  simp only [Sessions.deleteContact, deleteContact, perform_bind, run_request, serve]
  generalize g.ask w (.deleteContact id) = answer
  obtain ⟨status, text⟩ | text | _ := answer
  · by_cases hgone : status = 404
    · subst hgone
      rfl
    · simp [hgone]
  · rfl
  · rfl

theorem run_removeContact (st : ContactsLoop) (c : SourceContact) (destExisting : Option Token) :
    (Sessions.removeContact user st.vars c destExisting).run (serve g) st.world =
      let st' := removeContact g user st c destExisting
      (st'.vars, st'.world) := by
  simp only [Sessions.removeContact, removeContact]
  cases destExisting with
  | none => rfl
  | some id =>
    simp only [run_bind, run_deleteContact]
    generalize deleteContact g st.world id = deleted
    obtain ⟨answer, w⟩ := deleted
    cases answer <;> rfl

theorem run_writeContact (st : ContactsLoop) (c : SourceContact) (destExisting : Option Token) :
    (Sessions.writeContact user st.vars c destExisting).run (serve g) st.world =
      let r := writeContact g user st c destExisting
      ((r.1, r.2.vars), r.2.world) := by
  simp only [Sessions.writeContact, writeContact]
  cases destExisting with
  | some id =>
    simp only [perform_bind, run_request, serve]
    cases g.ask st.world (.updateContact id c.graphBody) <;> rfl
  | none =>
    simp only [run_bind, run_getContactFolder]
    generalize getContactFolder g st c.folderName = found
    obtain ⟨folder, st₁⟩ := found
    cases folder with
    | error e => rfl
    | ok folder =>
      simp only [perform_bind, run_request, serve]
      cases g.ask st₁.world (.createContact (contactKey user c.sourceId) folder c.graphBody) <;> rfl

theorem run_copyPhoto (c : SourceContact) (destId : Token) :
    (Sessions.copyPhoto c destId).run (serve g) w = ((), copyPhoto g w c destId) := by
  unfold Sessions.copyPhoto copyPhoto
  by_cases href : c.photoRef = ""
  · rw [if_pos href, if_pos href]
    rfl
  rw [if_neg href, if_neg href]
  simp only [perform_bind, run_request, serve]
  cases g.ask w (.fetchContactPhoto c) with
  | error e => rfl
  | ok photo =>
    cases photo with
    | none => rfl
    | some photo =>
      simp only
      split <;> rfl

theorem run_migrateContact (st : ContactsLoop) (c : SourceContact) (state : Option ItemValues) :
    (Sessions.migrateContact user st.vars c state).run (serve g) st.world =
      let st' := migrateContact g user st c state
      (st'.vars, st'.world) := by
  simp only [Sessions.migrateContact, migrateContact, run_bind, run_writeContact]
  generalize writeContact g user st c (state.bind (·.destId)) = written
  obtain ⟨answer, st₁⟩ := written
  cases answer with
  | error e => rfl
  | ok id =>
    simp only [perform_bind, run_request, serve, run_bind, run_copyPhoto, run_pure]
    rfl

/-- The loop body makes the calls and sessions that it stands for. -/
theorem run_processContact (st : ContactsLoop) (c : SourceContact) :
    (Sessions.processContact user mode st.vars c).run (serve g) st.world =
      let st' := processContact g user mode st c
      (st'.vars, st'.world) := by
  unfold Sessions.processContact processContact
  simp only [perform_bind, run_request]
  dsimp +instances only [serve]
  generalize st.world.db.getItemState (contactKey user c.sourceId) = state
  by_cases hdeleted : c.isDeleted = true
  · rw [if_pos hdeleted, if_pos hdeleted]
    exact run_removeContact g user st c _
  rw [if_neg hdeleted, if_neg hdeleted]
  by_cases hsettled : contactSettled mode c state = true
  · rw [if_pos hsettled, if_pos hsettled]
    rfl
  · rw [if_neg hsettled, if_neg hsettled]
    exact run_migrateContact g user st c state

theorem run_startContacts :
    (Sessions.startContacts user).run (serve g) w =
      let r := startContacts g user w
      ((r.1, r.2.vars), r.2.world) := by
  simp only [Sessions.startContacts, startContacts, perform_bind, run_request, serve]
  cases g.ask w (.getUser user.destId) with
  | error e => rfl
  | ok _ =>
    have hfolder := run_getContactFolder g { world := g.after w (.getUser user.destId) }
      "Imported Contacts"
    have hvars : ContactsLoop.vars { world := g.after w (.getUser user.destId) } = {} := rfl
    rw [hvars] at hfolder
    simp only [run_bind]
    rw [hfolder]
    generalize getContactFolder g { world := g.after w (.getUser user.destId) }
      "Imported Contacts" = found
    obtain ⟨folder, st⟩ := found
    cases folder <;> rfl

theorem run_migrateContacts (feed : Enumeration SourceContact) (st : ContactsLoop) :
    (Sessions.migrateContacts user mode feed st.vars).run (serve g) st.world =
      let r := migrateContacts g user mode feed st
      (r.outcome, r.world) := by
  have hloop := run_foldlM ContactsLoop.vars ContactsLoop.world feed.items
    (fun st c _ => run_processContact g user mode st c) st
  simp only [Sessions.migrateContacts, migrateContacts, run_bind]
  rw [hloop]
  generalize feed.items.foldl (processContact g user mode) st = st'
  simp only [ContactsLoop.vars]
  by_cases hraised : feed.raised.isSome = true
  · rw [if_pos hraised, if_pos hraised]
    rfl
  · rw [if_neg hraised, if_neg hraised]
    exact run_advanceCursor g
      { world := st'.world, failures := st'.failures, raised := feed.raised }
      ⟨user.sourceId, "contacts"⟩ st'.failures feed.lastCursor

/-- `run_contacts` as a program leaves what the job leaves. -/
theorem run_runContacts (source : Option Token → Enumeration SourceContact) :
    (Sessions.runContacts user mode source).run (serve g) w =
      let r := runContacts g user mode source w
      (r.outcome, r.world) := by
  simp only [Sessions.runContacts, runContacts, run_bind, run_readCursor]
  cases startFrom mode (w.db.getCursor ⟨user.sourceId, "contacts"⟩) with
  | none => rfl
  | some since =>
    simp only [run_bind, run_startContacts]
    generalize startContacts g user w = started
    obtain ⟨answer, st⟩ := started
    cases answer with
    | error e => rfl
    | ok _ => exact run_migrateContacts g user mode (source since) st

end running

section touched

variable {keys : Set CursorKey} {user : UserMapping} {mode : Mode}

theorem uses_getContactFolder (vars : Sessions.ContactsVars) (name : String) :
    (Sessions.getContactFolder vars name).Uses (Request.Within keys) := by
  unfold Sessions.getContactFolder
  split
  · exact uses_pure _
  · apply uses_bind (uses_call _)
    intro answer
    cases answer <;> exact uses_pure _

variable (hk : ⟨user.sourceId, "contacts"⟩ ∈ keys)
include hk

theorem uses_failContact (vars : Sessions.ContactsVars) (c : SourceContact) (e : Exc)
    (destId : Option Token) (sourceHash : Option String) :
    (Sessions.failContact vars (contactKey user c.sourceId) e destId sourceHash).Uses
      (Request.Within keys) :=
  uses_bind (uses_perform hk) (fun _ => uses_pure _)

theorem uses_removeContact (vars : Sessions.ContactsVars) (c : SourceContact)
    (destExisting : Option Token) :
    (Sessions.removeContact user vars c destExisting).Uses (Request.Within keys) := by
  unfold Sessions.removeContact
  cases destExisting with
  | none => exact uses_bind (uses_perform hk) (fun _ => uses_pure _)
  | some id =>
    have hdelete : (Sessions.deleteContact id).Uses (Request.Within keys) := by
      apply uses_bind (uses_call _)
      intro answer
      split <;> exact uses_pure _
    apply uses_bind hdelete
    intro deleted
    cases deleted with
    | error e => exact uses_failContact hk vars c e _ _
    | ok _ => exact uses_bind (uses_perform hk) (fun _ => uses_pure _)

omit hk in
theorem uses_writeContact (vars : Sessions.ContactsVars) (c : SourceContact)
    (destExisting : Option Token) :
    (Sessions.writeContact user vars c destExisting).Uses (Request.Within keys) := by
  unfold Sessions.writeContact
  cases destExisting with
  | some id =>
    apply uses_bind (uses_call _)
    intro answer
    cases answer <;> exact uses_pure _
  | none =>
    apply uses_bind (uses_getContactFolder vars c.folderName)
    intro found
    obtain ⟨folder, vars'⟩ := found
    cases folder with
    | error e => exact uses_pure _
    | ok folder =>
      apply uses_bind (uses_call _)
      intro answer
      cases answer <;> exact uses_pure _

omit hk in
theorem uses_copyPhoto (c : SourceContact) (destId : Token) :
    (Sessions.copyPhoto c destId).Uses (Request.Within keys) := by
  unfold Sessions.copyPhoto
  split
  · exact uses_pure _
  · apply uses_bind (uses_call _)
    intro answer
    split
    · split
      · exact uses_pure _
      · exact uses_bind (uses_call _) (fun _ => uses_pure _)
    · exact uses_pure _

theorem uses_processContact (vars : Sessions.ContactsVars) (c : SourceContact) :
    (Sessions.processContact user mode vars c).Uses (Request.Within keys) := by
  refine uses_bind (uses_perform hk) (fun state => ?_)
  split
  · exact uses_removeContact hk vars c _
  split
  · exact uses_pure _
  apply uses_bind (uses_writeContact vars c _)
  intro written
  obtain ⟨answer, vars'⟩ := written
  cases answer with
  | error e => exact uses_failContact hk vars' c e _ _
  | ok id =>
    exact uses_bind (uses_perform hk)
      (fun _ => uses_bind (uses_copyPhoto c id) (fun _ => uses_pure _))

/-- A contacts run stays with the contact rows of its user. -/
theorem uses_runContacts (source : Option Token → Enumeration SourceContact) :
    (Sessions.runContacts user mode source).Uses (Request.Within keys) := by
  apply uses_bind (uses_readCursor hk mode)
  intro since
  cases since with
  | none => exact uses_pure _
  | some since =>
    -- before the loop there are only calls: the user, the contact folder
    have hstart : (Sessions.startContacts user).Uses (Request.Within keys) := by
      apply uses_bind (uses_call _)
      intro found
      cases found with
      | error e => exact uses_pure _
      | ok _ =>
        apply uses_bind (uses_getContactFolder _ _)
        intro folder
        obtain ⟨answer, vars⟩ := folder
        cases answer <;> exact uses_pure _
    apply uses_bind hstart
    intro started
    obtain ⟨answer, vars⟩ := started
    cases answer with
    | error e => exact uses_pure _
    | ok _ =>
      refine uses_bind (uses_foldlM _ (fun vars c _ => uses_processContact hk vars c) vars)
        (fun vars => ?_)
      simp only
      split
      · exact uses_pure _
      · exact uses_advanceCursor hk _ _ _

end touched

end GwsMigrator
