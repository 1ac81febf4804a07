import GwsMigrator.GraphCalls

/-! `workloads/contacts_job.py`: the contacts pass of one user. -/
namespace GwsMigrator

/-- The local variables of `run_contacts` that its loop changes. -/
structure ContactsLoop where
  world : World
  folderCache : AList (fun _ : String => Token) := ∅
  failures : ℕ := 0

def contactKey (user : UserMapping) (sourceId : String) : ItemKey :=
  ⟨user.sourceId, "contacts", sourceId⟩

section
variable (g : Graph) (user : UserMapping) (mode : Mode)

/-- The closure `_get_folder`. -/
def getContactFolder (st : ContactsLoop) (name : String) : Except Exc Token × ContactsLoop :=
  match st.folderCache.lookup name with
  | some id => (.ok id, st)
  | none =>
    let w := g.after st.world (.ensureContactFolder name)
    match g.ask st.world (.ensureContactFolder name) with
    | .ok id => (.ok id, { st with world := w, folderCache := st.folderCache.insert name id })
    | .error e => (.error e, { st with world := w })

/-- `microsoft/contacts.py: delete_contact`: already gone (404) counts as done. -/
def deleteContact (w : World) (id : Token) : Except Exc Unit × World :=
  match g.ask w (.deleteContact id) with
  -- the contact is gone already, which is what was wanted
  | .error (.http 404 _) => (.ok (), g.after w (.deleteContact id))
  | r => (r, g.after w (.deleteContact id))

/-- A tombstone: remove the migrated copy, if there is one. -/
def removeContact (st : ContactsLoop) (c : SourceContact) (destExisting : Option Token) :
    ContactsLoop :=
  let k := contactKey user c.sourceId
  match destExisting with
  | some id =>
    match deleteContact g st.world id with
    | (.error e, w) =>
      -- the id stays, so that the next tombstone tries again
      { st with world := w.failItem k e (some id) none, failures := st.failures + 1 }
    | (.ok _, w) => { st with world := w.upsertItem k { status := .skipped } }
  | none => { st with world := st.world.upsertItem k { status := .skipped } }

/-- Update the recorded copy or create one: the id it lives under, or what was raised. -/
def writeContact (st : ContactsLoop) (c : SourceContact) (destExisting : Option Token) :
    Except Exc Token × ContactsLoop :=
  match destExisting with
  -- a recorded id means that the contact exists, even after a failed update
  | some id =>
    let w := g.after st.world (.updateContact id c.graphBody)
    match g.ask st.world (.updateContact id c.graphBody) with
    | .ok _ => (.ok id, { st with world := w })
    | .error e => (.error e, { st with world := w })
  | none =>
    match getContactFolder g st c.folderName with
    | (.error e, st) => (.error e, st)
    | (.ok folder, st) =>
      let call := Call.createContact (contactKey user c.sourceId) folder c.graphBody
      match g.ask st.world call with
      | .ok id => (.ok id, { st with world := g.after st.world call })
      | .error e => (.error e, { st with world := g.after st.world call })

/-- The photo is best-effort: whatever fails here is only logged. -/
def copyPhoto (w : World) (c : SourceContact) (destId : Token) : World :=
  if c.photoRef = "" then w
  else
    let w' := g.after w (.fetchContactPhoto c)
    match g.ask w (.fetchContactPhoto c) with
    -- Python's truth test on the bytes
    | .ok (some photo) => if photo = [] then w' else g.after w' (.setContactPhoto destId photo)
    | _ => w'

/-- The part of the loop body that creates or updates a contact. -/
def migrateContact (st : ContactsLoop) (c : SourceContact) (state : Option ItemValues) :
    ContactsLoop :=
  let k := contactKey user c.sourceId
  let destExisting := state.bind (·.destId)
  match writeContact g user st c destExisting with
  | (.ok id, st) =>
    let w := st.world.upsertItem k
      { destId := some id, status := .done, sourceHash := orNone c.sourceHash }
    { st with world := copyPhoto g w c id }
  -- the row keeps the id, and the hash that the copy still has
  | (.error e, st) =>
    { st with world := st.world.failItem k e destExisting (state.bind (·.sourceHash)),
              failures := st.failures + 1 }

/-- `state and state.status == "done"`, and the change marker does not ask for an update. -/
def contactSettled (c : SourceContact) (state : Option ItemValues) : Bool :=
  state.any (fun s => s.status = .done ∧
    (mode ≠ .delta ∨ (c.sourceHash ≠ "" ∧ s.sourceHash = some c.sourceHash)))

/-- The loop body of `run_contacts`. -/
def processContact (st : ContactsLoop) (c : SourceContact) : ContactsLoop :=
  let state := st.world.db.getItemState (contactKey user c.sourceId)
  if c.isDeleted then removeContact g user st c (state.bind (·.destId))
  -- a skip is no failure, and the cursor save behind the loop does not know of it
  else if contactSettled mode c state then st
  else migrateContact g user st c state

/-- The user lookup and the default folder, touched so that it exists even for an
empty source. -/
def startContacts (w : World) : Except Exc Unit × ContactsLoop :=
  let w' := g.after w (.getUser user.destId)
  match g.ask w (.getUser user.destId) with
  | .error e => (.error e, { world := w' })
  | .ok _ =>
    match getContactFolder g { world := w' } "Imported Contacts" with
    | (.error e, st) => (.error e, st)
    | (.ok _, st) => (.ok (), st)

/-- The loop of `run_contacts` with the cursor save behind it. -/
def migrateContacts (feed : Enumeration SourceContact) (st : ContactsLoop) : JobResult :=
  let st := feed.items.foldl (processContact g user mode) st
  let r : JobResult := { world := st.world, failures := st.failures, raised := feed.raised }
  -- an exception of the iterator leaves the function before the cursor is saved
  if feed.raised.isSome then r
  else advanceCursor r ⟨user.sourceId, "contacts"⟩ st.failures feed.lastCursor

/-- `run_contacts`, outside whatif mode. -/
def runContacts (source : Option Token → Enumeration SourceContact) (w : World) : JobResult :=
  match startFrom mode (w.db.getCursor ⟨user.sourceId, "contacts"⟩) with
  | none => { world := w }
  | some since =>
    match startContacts g user w with
    | (.error e, st) => { world := st.world, raised := some e }
    | (.ok _, st) => migrateContacts g user mode (source since) st

end

end GwsMigrator
