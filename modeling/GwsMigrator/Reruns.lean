import GwsMigrator.ContactsCalls
import GwsMigrator.FilesRerun
import GwsMigrator.MailSteps
import GwsMigrator.ScriptedGraph

/-! Full passes of the mail, contacts and files jobs over a snapshot that an earlier full pass
without failures has migrated: they write nothing, neither at the destination nor in the rows. -/
namespace GwsMigrator
open Dialogue

section mail

variable {g : Graph} (user : UserMapping) (importMode : ImportMode)

/-- A walk that fails at no call ends with the whole path in the cache. -/
theorem walkFolder_calm (hcalm : NoFailure g) (parts : List String) (st : MailLoop)
    (walked : List String) (parentId : Option Token) :
    (walkFolder g user st walked parentId parts).1 = .ok () ∧
      (parts ≠ [] → ∃ fid, (walkFolder g user st walked parentId parts).2.folderCache.lookup
        ("\\".intercalate (walked ++ parts)) = some fid) := by
  induction parts generalizing st walked parentId with
  | nil => exact ⟨rfl, fun h => absurd rfl h⟩
  | cons part rest ih =>
    -- once a segment is cached the walk goes on to the next, or is at its end
    have hnext : ∀ (st₁ : MailLoop) (fid : Token),
        st₁.folderCache.lookup ("\\".intercalate (walked ++ [part])) = some fid →
        (walkFolder g user st₁ (walked ++ [part]) (some fid) rest).1 = .ok () ∧
        ∃ fid', (walkFolder g user st₁ (walked ++ [part]) (some fid) rest).2.folderCache.lookup
          ("\\".intercalate (walked ++ part :: rest)) = some fid' := by
      intro st₁ fid hcached
      obtain ⟨hok, hend⟩ := ih st₁ (walked ++ [part]) (some fid)
      refine ⟨hok, ?_⟩
      cases rest with
      | nil => exact ⟨fid, hcached⟩
      | cons next rest =>
        rw [List.append_assoc] at hend
        exact hend (List.cons_ne_nil _ _)
    simp only [walkFolder]
    cases hcached : st.folderCache.lookup ("\\".intercalate (walked ++ [part])) with
    | some fid =>
      obtain ⟨hok, hend⟩ := hnext st fid hcached
      exact ⟨hok, fun _ => hend⟩
    | none =>
      obtain ⟨fid, w, hopen⟩ : ∃ fid w,
          openSegment g st.world part (walked = []) parentId = (.ok fid, w) := by
        unfold openSegment
        cases resolveFolderSegment part (walked = []) with
        | some fid => exact ⟨fid, st.world, rfl⟩
        | none =>
          obtain ⟨fid, hask⟩ := hcalm.ask_eq_ok st.world (.ensureMailFolder part parentId)
          refine ⟨fid, g.after st.world (.ensureMailFolder part parentId), ?_⟩
          simp only [hask]
      rw [hopen]
      -- the part is in the cache now, and the rest of the path goes on from it
      have hinserted := hnext
        { st with
          world := w.upsertFolder ⟨user.sourceId, "mail", "\\".intercalate (walked ++ [part])⟩ fid
            ("\\".intercalate (walked ++ [part]))
          folderCache := st.folderCache.insert ("\\".intercalate (walked ++ [part])) fid }
        fid (AList.lookup_insert st.folderCache)
      exact ⟨hinserted.1, fun _ => hinserted.2⟩

theorem getFolder_calm (hcalm : NoFailure g) (st : MailLoop) (path : String) :
    ∃ fid, (getFolder g user st path).1 = .ok fid := by
  unfold getFolder
  cases st.folderCache.lookup path with
  | some fid => exact ⟨fid, rfl⟩
  | none =>
    have hwalk := walkFolder_calm user hcalm (pathParts path) st [] none
    simp only
    generalize walkFolder g user st [] none (pathParts path) = result at hwalk ⊢
    obtain ⟨answer, st₁⟩ := result
    obtain ⟨hok, hend⟩ := hwalk
    obtain ⟨fid, hcached⟩ := hend (pathParts_ne_nil path)
    rw [List.nil_append, join_pathParts] at hcached
    obtain rfl : answer = .ok () := hok
    simp only at hcached ⊢
    rw [hcached]
    exact ⟨fid, rfl⟩

/-- A message that could be fetched is not counted as failed. -/
theorem processMessage_calm (hcalm : NoFailure g) (st : MailLoop) (msg : SourceMessage)
    (hfetched : msg.fetchError = "") :
    (processMessage g user importMode st msg).failures = st.failures := by
  simp only [processMessage]
  by_cases hdone : st.world.db.isDone (messageKey user msg.sourceId) = true
  · rw [if_pos hdone]
  · rw [if_neg hdone, if_neg (not_not.mpr hfetched)]
    obtain ⟨fid, hfolder⟩ := getFolder_calm user hcalm st (targetPaths msg).1
    have hquiet := getFolder_quiet g user st (targetPaths msg).1
    simp only [importCopy]
    generalize getFolder g user st (targetPaths msg).1 = result at hfolder hquiet ⊢
    obtain ⟨answer, st₁⟩ := result
    obtain rfl : answer = .ok fid := hfolder
    obtain ⟨dest, hask⟩ := hcalm.ask_eq_ok st₁.world
      (.importMessage (messageKey user msg.sourceId) 0 fid msg importMode)
    obtain ⟨w, himport⟩ : ∃ w, importInto g importMode st₁.world (messageKey user msg.sourceId) 0
        fid msg = (.ok dest, w) := by
      simp only [importInto, hask]
      cases importMode <;> exact ⟨_, rfl⟩
    simp only [himport]
    exact (importExtras_copies g user importMode _ msg _ (targetPaths_slots msg).1 _).failures.trans
      hquiet.failures

/-- What a first pass leaves of a message: done, or failed as it could not be fetched. -/
def MailSettled (db : Db) (msg : SourceMessage) : Prop :=
  (msg.fetchError = "" → db.isDone (messageKey user msg.sourceId) = true) ∧
  (msg.fetchError ≠ "" → db.core (messageKey user msg.sourceId) = some (.failed, none, none))

theorem processMessage_settles (hcalm : NoFailure g) (st : MailLoop) (msg : SourceMessage)
    (hunseen : st.world.db.getItemState (messageKey user msg.sourceId) = none) :
    MailSettled user (processMessage g user importMode st msg).world.db msg := by
  have hnot : ¬ st.world.db.isDone (messageKey user msg.sourceId) = true := by
    simp [Db.isDone_eq, hunseen]
  constructor
  · intro hfetched
    have hcount := processMessage_calm user importMode hcalm st msg hfetched
    -- the step did not count it, so it imported it
    cases processMessage_step g user importMode st msg with
    | skipped done same => exact absurd done hnot
    | failed notDone v status rows cursors imports failures => omega
    | imported notDone v status rows =>
      rw [isDone_of_rows rows, if_pos rfl]
      exact decide_eq_true status
  · intro hfailed
    rw [processMessage, if_neg hnot, if_pos hfailed, failMessage, World.upsertItem_db, Db.core,
      Db.getItemState_upsertItem_self]
    rfl

theorem MessageStep.rows_of_ne {k k' : ItemKey} {st st' : MailLoop} (h : MessageStep k st st')
    (hk : k' ≠ k) : st'.world.db.getItemState k' = st.world.db.getItemState k' := by
  cases h with
  | skipped done same => rw [same]
  | failed notDone v status rows => rw [rows, Function.update_of_ne hk]
  | imported notDone v status rows => rw [rows, Function.update_of_ne hk]

/-- A message is settled by its own step and left alone by the others. -/
theorem migrateMail_settles (hcalm : NoFailure g) (items : List SourceMessage) (st : MailLoop)
    (hnodup : (items.map SourceMessage.sourceId).Nodup)
    (hunseen : ∀ k, st.world.db.getItemState k = none) :
    ∀ msg ∈ items, MailSettled user
      (items.foldl (processMessage g user importMode) st).world.db msg := by
  have hrow : ∀ (s : MailLoop) (a b : SourceMessage), a.sourceId ≠ b.sourceId →
      (processMessage g user importMode s a).world.db.getItemState (messageKey user b.sourceId) =
        s.world.db.getItemState (messageKey user b.sourceId) := by
    intro s a b hne
    apply (processMessage_step g user importMode s a).rows_of_ne
    simpa [messageKey] using hne.symm
  apply Runs.foldl_settles (processMessage g user importMode) SourceMessage.sourceId
    (fun s msg => s.world.db.getItemState (messageKey user msg.sourceId) = none)
    (fun s msg => MailSettled user s.world.db msg) items hnodup
  · exact fun s msg _ h => processMessage_settles user importMode hcalm s msg h
  · exact fun s a _ b _ hne h => (hrow s a b hne).trans h
  · intro s a _ b _ hne h
    rw [MailSettled, Db.isDone_eq, Db.core, hrow s a b hne, ← Db.isDone_eq]
    exact h
  · exact fun msg _ => hunseen _

/-- A further pass meets only what it leaves alone, or fails again as before. -/
theorem processMessage_again (st : MailLoop) (msg : SourceMessage)
    (hsettled : MailSettled user st.world.db msg) :
    (processMessage g user importMode st msg).world.db.core = st.world.db.core ∧
      (processMessage g user importMode st msg).world.log = st.world.log := by
  by_cases hdone : st.world.db.isDone (messageKey user msg.sourceId) = true
  · rw [processMessage, if_pos hdone]
    exact ⟨rfl, rfl⟩
  · -- it is not done because it could not be fetched, and fails in the same way
    have hfailed : msg.fetchError ≠ "" := fun hfetched => hdone (hsettled.1 hfetched)
    rw [processMessage, if_neg hdone, if_pos hfailed]
    exact ⟨Db.core_upsertItem _ _ (hsettled.2 hfailed), rfl⟩

theorem MailSettled.congr {db db' : Db} {msg : SourceMessage} (h : MailSettled user db msg)
    (hcore : db'.core = db.core) : MailSettled user db' msg := by
  rw [MailSettled, Db.isDone_eq_core, hcore, ← Db.isDone_eq_core]
  exact h

theorem migrateMail_again (items : List SourceMessage) (st : MailLoop)
    (hsettled : ∀ msg ∈ items, MailSettled user st.world.db msg) :
    (items.foldl (processMessage g user importMode) st).world.db.core = st.world.db.core ∧
      (items.foldl (processMessage g user importMode) st).world.log = st.world.log := by
  have hsame := Runs.foldl_same (processMessage g user importMode)
    (fun st => (st.world.db.core, st.world.log)) (fun st msg => MailSettled user st.world.db msg)
    (fun _ _ _ hview h => h.congr user (congrArg Prod.fst hview))
    (fun st msg h => Prod.ext_iff.mpr (processMessage_again user importMode st msg h)) items st
    hsettled
  exact Prod.ext_iff.mp hsame

end mail

section contacts

variable {g : Graph} (user : UserMapping)

theorem getContactFolder_calm (hcalm : NoFailure g) (st : ContactsLoop) (name : String) :
    ∃ id, (getContactFolder g st name).1 = .ok id := by
  unfold getContactFolder
  cases st.folderCache.lookup name with
  | some id => exact ⟨id, rfl⟩
  | none =>
    obtain ⟨id, hask⟩ := hcalm.ask_eq_ok st.world (.ensureContactFolder name)
    refine ⟨id, ?_⟩
    simp only [hask]

/-- A contact without a row is created. -/
theorem migrateContact_calm (hcalm : NoFailure g) (st : ContactsLoop) (c : SourceContact) :
    (migrateContact g user st c none).failures = st.failures := by
  obtain ⟨folder, hfolder⟩ := getContactFolder_calm hcalm st c.folderName
  have hsame := (getContactFolder_same g st c.folderName).2
  simp only [migrateContact, writeContact, Option.bind_none]
  generalize getContactFolder g st c.folderName = result at hfolder hsame ⊢
  obtain ⟨answer, st₁⟩ := result
  obtain rfl : answer = .ok folder := hfolder
  obtain ⟨id, hask⟩ := hcalm.ask_eq_ok st₁.world
    (.createContact (contactKey user c.sourceId) folder c.graphBody)
  simp only [hask]
  exact hsame

/-- What a first pass leaves of a contact: done, or for a tombstone skipped. -/
def ContactSettled (db : Db) (c : SourceContact) : Prop :=
  (c.isDeleted = false → db.isDone (contactKey user c.sourceId) = true) ∧
  (c.isDeleted = true → db.core (contactKey user c.sourceId) = some (.skipped, none, none))

variable (mode : Mode)

theorem processContact_settled (hcalm : NoFailure g) (st : ContactsLoop) (c : SourceContact)
    (hunseen : st.world.db.getItemState (contactKey user c.sourceId) = none) :
    ContactSettled user (processContact g user mode st c).world.db c := by
  constructor
  · intro hlive
    have hnotDeleted : ¬ c.isDeleted = true := by simp [hlive]
    have hopen : ¬ contactSettled mode c none = true := by simp [contactSettled]
    simp only [processContact, hunseen, if_neg hnotDeleted, if_neg hopen]
    have hcount := migrateContact_calm user hcalm st c
    obtain ⟨v, hrow, ⟨hdone, -, -⟩ | hfailed⟩ := migrateContact_row g user st c none
    · rw [← Db.applied_isSome]
      exact Option.isSome_of_eq_some (hrow.applied hdone)
    · omega
  · intro hdeleted
    simp only [processContact, hunseen, if_pos hdeleted, Option.bind_none, removeContact,
      World.upsertItem_db, Db.core, Db.getItemState_upsertItem_self]
    rfl

theorem migrateContacts_settles (hcalm : NoFailure g) (items : List SourceContact)
    (st : ContactsLoop) (hnodup : (items.map SourceContact.sourceId).Nodup)
    (hunseen : ∀ k, st.world.db.getItemState k = none) :
    ∀ c ∈ items, ContactSettled user (items.foldl (processContact g user mode) st).world.db c := by
  have hrow : ∀ (s : ContactsLoop) (a b : SourceContact), a.sourceId ≠ b.sourceId →
      (processContact g user mode s a).world.db.getItemState (contactKey user b.sourceId) =
        s.world.db.getItemState (contactKey user b.sourceId) := by
    intro s a b hne
    apply (processContact_rowStep g user mode s a).rows
    simpa [contactKey, Workload.key, contacts] using hne.symm
  apply Runs.foldl_settles (processContact g user mode) SourceContact.sourceId
    (fun s c => s.world.db.getItemState (contactKey user c.sourceId) = none)
    (fun s c => ContactSettled user s.world.db c) items hnodup
  · exact fun s c _ h => processContact_settled user mode hcalm s c h
  · exact fun s a _ b _ hne h => (hrow s a b hne).trans h
  · intro s a _ b _ hne h
    rw [ContactSettled, Db.isDone_eq, Db.core, hrow s a b hne, ← Db.isDone_eq]
    exact h
  · exact fun c _ => hunseen _

/-- In a further full pass a done contact is left alone and a tombstone finds no copy. -/
theorem processContact_again (st : ContactsLoop) (c : SourceContact)
    (hsettled : ContactSettled user st.world.db c) :
    (processContact g user .full st c).world.db.core = st.world.db.core ∧
      (processContact g user .full st c).world.log = st.world.log := by
  by_cases hdeleted : c.isDeleted = true
  · -- the row of a skipped tombstone has no id, so no call is made
    have hskipped := hsettled.2 hdeleted
    obtain ⟨v, hv, hcore⟩ := Option.map_eq_some_iff.mp hskipped
    have hnone : v.destId = none := congrArg (fun x => x.2.1) hcore
    simp only [processContact, if_pos hdeleted, hv, Option.bind_some, hnone, removeContact]
    exact ⟨Db.core_upsertItem _ _ hskipped, rfl⟩
  · have hdone := hsettled.1 (by simpa using hdeleted)
    have hleft : contactSettled .full c
        (st.world.db.getItemState (contactKey user c.sourceId)) = true := by
      rw [Db.isDone_eq] at hdone
      obtain ⟨v, hv, hstatus⟩ := (Option.any_eq_true _ _).mp hdone
      rw [hv]
      simpa [contactSettled] using hstatus
    have hsame : processContact g user .full st c = st := by
      simp only [processContact, if_neg hdeleted, if_pos hleft]
    rw [hsame]
    exact ⟨rfl, rfl⟩

theorem ContactSettled.congr {db db' : Db} {c : SourceContact} (h : ContactSettled user db c)
    (hcore : db'.core = db.core) : ContactSettled user db' c := by
  rw [ContactSettled, Db.isDone_eq_core, hcore, ← Db.isDone_eq_core]
  exact h

theorem migrateContacts_again (items : List SourceContact) (st : ContactsLoop)
    (hsettled : ∀ c ∈ items, ContactSettled user st.world.db c) :
    (items.foldl (processContact g user .full) st).world.db.core = st.world.db.core ∧
      (items.foldl (processContact g user .full) st).world.log = st.world.log := by
  have hsame := Runs.foldl_same (processContact g user .full)
    (fun st => (st.world.db.core, st.world.log)) (fun st c => ContactSettled user st.world.db c)
    (fun _ _ _ hview h => h.congr user (congrArg Prod.fst hview))
    (fun st c h => Prod.ext_iff.mpr (processContact_again user st c h)) items st hsettled
  exact Prod.ext_iff.mp hsame

end contacts

/-- All that a source has for one of the jobs. -/
inductive Snapshot where
  | mail (importMode : ImportMode) (items : List SourceMessage)
  | contacts (items : List SourceContact)
  | files (items : List SourceFile)

namespace Snapshot

/-- The source ids are distinct, and the parent links of files make no cycle. -/
def Sound : Snapshot → Prop
  | mail _ items => (items.map SourceMessage.sourceId).Nodup
  | contacts items => (items.map SourceContact.sourceId).Nodup
  | files items => (items.map SourceFile.sourceId).Nodup ∧
      Worklist.Acyclic SourceFile.sourceId SourceFile.parentId items

section
variable (g : Graph) (user : UserMapping)

/-- A full pass, after which the source offers a cursor or none. -/
def pass (snapshot : Snapshot) (w : World) (lastCursor : Option Token) : World :=
  match snapshot with
  | mail importMode items =>
    (runMail g user importMode .full (fun _ => { items := items, lastCursor := lastCursor })
      w).world
  | contacts items =>
    (runContacts g user .full (fun _ => { items := items, lastCursor := lastCursor }) w).world
  | files items =>
    (runFiles g user .full (fun _ => { items := items, lastCursor := lastCursor }) w).world

/-- What a first pass without failures leaves. -/
def Settled (snapshot : Snapshot) (w : World) : Prop :=
  match snapshot with
  | mail _ items => ∀ msg ∈ items, MailSettled user w.db msg
  | contacts items => (∀ c ∈ items, ContactSettled user w.db c) ∧
      ∃ id, Returned g w.log (.ensureContactFolder "Imported Contacts") id
  | files items => FilesSettled g user "files" items w

end

variable {g : Graph} {user : UserMapping}

theorem core_advanceCursor (r : JobResult) (k : CursorKey) (failures : ℕ)
    (lastCursor : Option Token) :
    (advanceCursor r k failures lastCursor).world.db.core = r.world.db.core := by
  funext k'
  rw [Db.core, advanceCursor_getItemState, Db.core]

variable (user) in
/-- Without failures a mail pass is its loop, as far as rows and calls go. -/
theorem pass_mail (hcalm : NoFailure g) (importMode : ImportMode) (items : List SourceMessage)
    (w : World) (lastCursor : Option Token) :
    let st := items.foldl (processMessage g user importMode)
      { world := g.after w (.getUser user.destId) }
    ((mail importMode items).pass g user w lastCursor).db.core = st.world.db.core ∧
      ((mail importMode items).pass g user w lastCursor).log = st.world.log := by
  obtain ⟨id, hask⟩ := hcalm.ask_eq_ok w (.getUser user.destId)
  simp only [pass, runMail, hask, startFrom, migrateMail, Option.isSome_none, Bool.false_eq_true,
    if_false]
  exact ⟨core_advanceCursor .., advanceCursor_log ..⟩

variable (user) in
/-- A contacts pass looks for the default folder before its loop. -/
theorem pass_contacts (hcalm : NoFailure g) (items : List SourceContact) (w : World)
    (lastCursor : Option Token) :
    ∃ id start, g.answer (g.after w (.getUser user.destId)).log
        (.ensureContactFolder "Imported Contacts") = .ok id ∧
      start.world = g.after (g.after w (.getUser user.destId))
        (.ensureContactFolder "Imported Contacts") ∧
      ((contacts items).pass g user w lastCursor).db.core =
        (items.foldl (processContact g user .full) start).world.db.core ∧
      ((contacts items).pass g user w lastCursor).log =
        (items.foldl (processContact g user .full) start).world.log := by
  obtain ⟨id, hask⟩ := hcalm.ask_eq_ok w (.getUser user.destId)
  obtain ⟨folder, hfolder⟩ := hcalm.ask_eq_ok (g.after w (.getUser user.destId))
    (.ensureContactFolder "Imported Contacts")
  let start : ContactsLoop :=
    { world := g.after (g.after w (.getUser user.destId))
        (.ensureContactFolder "Imported Contacts")
      folderCache := (∅ : AList (fun _ : String => Token)).insert "Imported Contacts" folder }
  refine ⟨folder, start, hfolder, rfl, ?_⟩
  simp only [pass, runContacts, startFrom, startContacts, hask, getContactFolder,
    AList.lookup_empty, hfolder, migrateContacts, Option.isSome_none, Bool.false_eq_true,
    if_false]
  exact ⟨core_advanceCursor .., advanceCursor_log ..⟩

variable (user) in
/-- A files pass asks for the user and the drive first. -/
theorem pass_files (hcalm : NoFailure g) (items : List SourceFile) (w : World)
    (lastCursor : Option Token) :
    let w₂ := g.after (g.after w (.getUser user.destId)) .ensureOnedrive
    let st := migrateFiles g user "files" .full { items := items, lastCursor := lastCursor } w₂
    ((files items).pass g user w lastCursor).db.core = st.world.db.core ∧
      ((files items).pass g user w lastCursor).db.getFolderDest = st.world.db.getFolderDest ∧
      ((files items).pass g user w lastCursor).log = st.world.log := by
  obtain ⟨id, hask⟩ := hcalm.ask_eq_ok w (.getUser user.destId)
  obtain ⟨drive, hdrive⟩ := hcalm.ask_eq_ok (g.after w (.getUser user.destId)) .ensureOnedrive
  simp only [pass, runFiles, hask, hdrive, startFrom, filesPass, Option.isSome_none,
    Bool.false_eq_true, if_false]
  refine ⟨core_advanceCursor .., ?_, advanceCursor_log ..⟩
  unfold advanceCursor
  split <;> [split; skip] <;> rfl

/-- The first pass, from an empty state. -/
theorem pass_settles (snapshot : Snapshot) (hsound : snapshot.Sound) (hcalm : NoFailure g)
    (w : World) (hitems : ∀ k, w.db.getItemState k = none)
    (hfolders : ∀ k, w.db.getFolderDest k = none) (lastCursor : Option Token) :
    snapshot.Settled g user (snapshot.pass g user w lastCursor) := by
  cases snapshot with
  | mail importMode items =>
    obtain ⟨hcore, -⟩ := pass_mail user hcalm importMode items w lastCursor
    have hend := migrateMail_settles user importMode hcalm items
      { world := g.after w (.getUser user.destId) } hsound hitems
    exact fun msg hmsg => (hend msg hmsg).congr user hcore
  | contacts items =>
    obtain ⟨id, start, hanswer, hstart, hcore, hlog⟩ := pass_contacts user hcalm items w lastCursor
    have hunseen : ∀ k, start.world.db.getItemState k = none := by
      intro k
      rw [hstart]
      exact hitems k
    have hend := migrateContacts_settles user .full hcalm items start hsound hunseen
    refine ⟨fun c hc => (hend c hc).congr user hcore, id,
      (g.after w (.getUser user.destId)).log, ?_, hanswer⟩
    -- the answer about the folder stays in the log while the contacts are processed
    have hgrows : start.world.log <:+
        (items.foldl (processContact g user .full) start).world.log :=
      List.foldlRecOn items _
        (motive := fun st : ContactsLoop => start.world.log <:+ st.world.log) List.suffix_rfl
        (fun st hst c _ => hst.trans (processContact_calls g user .full st c).suffix)
    rw [hlog]
    rw [hstart, Graph.after_log, Graph.ask, hanswer] at hgrows
    exact hgrows
  | files items =>
    obtain ⟨hcore, hmap, hlog⟩ := pass_files user hcalm items w lastCursor
    have hunseen : Unseen user "files"
        (g.after (g.after w (.getUser user.destId)) .ensureOnedrive) :=
      ⟨fun id => hitems _, fun id => hfolders _⟩
    have hend := migrate_settled g user "files" .full
      { items := items, lastCursor := lastCursor } _ hcalm hunseen rfl hsound.1 hsound.2
    exact hend.congr hcore hmap (hlog ▸ List.suffix_rfl)

/-- A further pass. -/
theorem pass_again (dest : Destination) (hgoverns : dest.Governs g) (snapshot : Snapshot)
    (hcalm : NoFailure g) (w : World) (hsettled : snapshot.Settled g user w)
    (lastCursor : Option Token) :
    (snapshot.pass g user w lastCursor).db.core = w.db.core ∧
      dest.Untouched w.log (snapshot.pass g user w lastCursor).log ∧
      snapshot.Settled g user (snapshot.pass g user w lastCursor) := by
  -- a lookup writes nothing
  have hask : ∀ (w : World) (c : Call), dest.writes w.log c = false →
      dest.Untouched w.log (g.after w c).log :=
    fun w c hc => (Destination.Untouched.refl dest w.log).cons _ hc
  have huser := hask w (.getUser user.destId) rfl
  cases snapshot with
  | mail importMode items =>
    obtain ⟨hcore, hlog⟩ := pass_mail user hcalm importMode items w lastCursor
    obtain ⟨hcores, hlogs⟩ := migrateMail_again (g := g) user importMode items
      { world := g.after w (.getUser user.destId) } hsettled
    refine ⟨hcore.trans hcores, ?_, fun msg hmsg =>
      (hsettled msg hmsg).congr user (hcore.trans hcores)⟩
    rw [hlog, hlogs]
    exact huser
  | contacts items =>
    obtain ⟨hcontacts, id, hreturned⟩ := hsettled
    obtain ⟨id', start, -, hstart, hcore, hlog⟩ := pass_contacts user hcalm items w lastCursor
    have hstartCore : start.world.db.core = w.db.core := by
      rw [hstart]
      rfl
    obtain ⟨hcores, hlogs⟩ := migrateContacts_again (g := g) user items start
      (fun c hc => (hcontacts c hc).congr user hstartCore)
    -- the default folder was found or made by the first pass
    have hfound : dest.writes (g.after w (.getUser user.destId)).log
        (.ensureContactFolder "Imported Contacts") = false := by
      obtain ⟨before, hbefore, hanswer⟩ := hreturned
      rw [hgoverns.contactFolders] at hanswer
      have hasked : dest.contactHost.Asked none "Imported Contacts" before
          (g.after w (.getUser user.destId)).log :=
        ⟨_, rfl, hbefore.trans huser.grows⟩
      exact (hgoverns.contactsSteady.found_again hasked hanswer).1
    have hend := huser.trans (hask (g.after w (.getUser user.destId))
      (.ensureContactFolder "Imported Contacts") hfound)
    rw [← hstart, ← hlogs, ← hlog] at hend
    have hsame := hcore.trans (hcores.trans hstartCore)
    exact ⟨hsame, hend, fun c hc => (hcontacts c hc).congr user hsame, id,
      hreturned.grow hend.grows⟩
  | files items =>
    obtain ⟨hcore, hmap, hlog⟩ := pass_files user hcalm items w lastCursor
    have hdrive := huser.trans (hask (g.after w (.getUser user.destId)) .ensureOnedrive rfl)
    have hstart : FilesSettled g user "files" items
        (g.after (g.after w (.getUser user.destId)) .ensureOnedrive) :=
      FilesSettled.congr hsettled rfl rfl hdrive.grows
    have hend := migrate_again user "files" hgoverns hcalm
      { items := items, lastCursor := lastCursor } _ hstart
    refine ⟨hcore.trans hend.core, ?_, hend.settled.congr hcore hmap (hlog ▸ List.suffix_rfl)⟩
    rw [hlog]
    exact hdrive.trans hend.untouched

end Snapshot

/-- After a full pass from an empty state in which no call fails, any number of further full
passes over the same snapshot write nothing at the destination and leave the status, the
destination id and the hash of every row as they are. -/
theorem reruns_write_nothing (g : Graph) (dest : Destination) (user : UserMapping)
    (hgoverns : dest.Governs g) (hcalm : NoFailure g) (snapshot : Snapshot)
    (hsound : snapshot.Sound) (w : World) (hitems : ∀ k, w.db.getItemState k = none)
    (hfolders : ∀ k, w.db.getFolderDest k = none) (first : Option Token)
    (cursors : List (Option Token)) :
    let w₁ := snapshot.pass g user w first
    let w' := cursors.foldl (snapshot.pass g user) w₁
    w'.db.core = w₁.db.core ∧ dest.Untouched w₁.log w'.log := by
  intro w₁ w'
  have hstart : snapshot.Settled g user w₁ :=
    snapshot.pass_settles hsound hcalm w hitems hfolders first
  -- each pass leaves what the first one left
  have hrun : w'.db.core = w₁.db.core ∧ dest.Untouched w₁.log w'.log ∧
      snapshot.Settled g user w' :=
    List.foldlRecOn cursors _
      (motive := fun w : World => w.db.core = w₁.db.core ∧ dest.Untouched w₁.log w.log ∧
        snapshot.Settled g user w) ⟨rfl, Destination.Untouched.refl dest _, hstart⟩
      (fun w hw c _ => by
        obtain ⟨hcore, huntouched, hsettled⟩ :=
          snapshot.pass_again dest hgoverns hcalm w hw.2.2 c
        exact ⟨hcore.trans hw.1, hw.2.1.trans huntouched, hsettled⟩)
  exact ⟨hrun.1, hrun.2.1⟩

section example_destination

variable (asks : Call → Option (Option Token × String)) (matching : String → Listed → Bool)

/-- The folders that calls have asked for, each made by the first call for its name. -/
def madeFolders : Log Call.Ans → List (Option Token × Listed)
  | [] => []
  | e :: log =>
    match asks e.call with
    | none => madeFolders log
    | some (parent, name) =>
      if (madeFolders log).any (fun x => x.1 = parent && matching name x.2) then madeFolders log
      else
        (parent, { id := freshToken ((madeFolders log).map (·.2.id)), name := name }) ::
          madeFolders log

/-- The folders are listed as they are. -/
def plainAnswers (log : Log Call.Ans) (parent : Option Token) : FolderAnswers where
  listed := { items := ((madeFolders asks matching log).filter (·.1 = parent)).map Prod.snd }
  posted := .ok (freshToken ((madeFolders asks matching log).map (·.2.id)))
  relisted := { items := [] }

def plainHost : FolderHost where
  asks := asks
  matching := matching
  answers log parent _ := plainAnswers asks matching log parent

variable {asks matching}

theorem madeFolders_grow {log log' : Log Call.Ans} (h : log <:+ log') :
    madeFolders asks matching log ⊆ madeFolders asks matching log' := by
  induction log' with
  | nil => rw [List.suffix_nil.mp h]; exact fun x hx => hx
  | cons e log' ih =>
    rcases List.suffix_cons_iff.mp h with rfl | hshorter
    · exact fun x hx => hx
    · intro x hx
      have hmem := ih hshorter hx
      simp only [madeFolders]
      split
      · exact hmem
      · split
        · exact hmem
        · exact List.mem_cons_of_mem _ hmem

theorem mem_plainAnswers {log : Log Call.Ans} {parent : Option Token} {x : Listed} :
    x ∈ (plainAnswers asks matching log parent).listed.items ↔
      (parent, x) ∈ madeFolders asks matching log := by
  simp [plainAnswers]

/-- Names are compared by `fold`. -/
structure ComparedBy (fold : String → String) (matching : String → Listed → Bool) : Prop where
  own : ∀ (name : String) (id : Token), matching name { id := id, name := name } = true
  name : ∀ name x, matching name x = true → fold x.name = fold name
  made : ∀ name name' (id : Token), fold name' = fold name →
    matching name { id := id, name := name' } = true

/-- No two folders in a place have the same name. -/
theorem madeFolders_unique {fold : String → String} (hfold : ComparedBy fold matching)
    (log : Log Call.Ans) :
    (∀ x ∈ madeFolders asks matching log, x.2.isFolder = true) ∧
      ∀ x ∈ madeFolders asks matching log, ∀ y ∈ madeFolders asks matching log, x.1 = y.1 →
        fold x.2.name = fold y.2.name → x = y := by
  induction log with
  | nil => exact ⟨fun x hx => absurd hx List.not_mem_nil, fun x hx => absurd hx List.not_mem_nil⟩
  | cons e log ih =>
    simp only [madeFolders]
    split
    · exact ih
    · next parent name hasks =>
      split
      · exact ih
      · next hnew =>
        -- the new one has a name that none had
        have hfresh : ∀ x ∈ madeFolders asks matching log, x.1 = parent →
            fold x.2.name ≠ fold name := by
          intro x hx hparent heq
          apply hnew
          refine List.any_eq_true.mpr ⟨x, hx, ?_⟩
          have hmatch := hfold.made name x.2.name x.2.id heq
          have hx2 : x.2 = { id := x.2.id, name := x.2.name } := by
            have hfolder := ih.1 x hx
            obtain ⟨p, id, n, b⟩ := x
            simp only at hfolder
            rw [hfolder]
          rw [hx2]
          simp [hparent, hmatch]
        refine ⟨fun x hx => ?_, fun x hx y hy hparents hnames => ?_⟩
        · rcases List.mem_cons.mp hx with rfl | hx
          · rfl
          · exact ih.1 x hx
        · rcases List.mem_cons.mp hx with rfl | hx <;> rcases List.mem_cons.mp hy with rfl | hy
          · rfl
          · exact absurd hnames.symm (hfresh y hy hparents.symm)
          · exact absurd hnames (hfresh x hx hparents)
          · exact ih.2 x hx y hy hparents hnames

theorem plainHost_steady {fold : String → String} (hfold : ComparedBy fold matching) :
    (plainHost asks matching).Steady := by
  have hshown : ∀ parent name log log' x, (plainHost asks matching).Asked parent name log log' →
      (plainAnswers asks matching log parent).Shows (matching name) name x →
      (parent, x) ∈ madeFolders asks matching log' := by
    intro parent name log log' x hasked hshows
    obtain ⟨e, hasks, hlater⟩ := hasked
    cases hshows with
    | listed x hx =>
      exact madeFolders_grow ((List.suffix_cons e log).trans hlater) (mem_plainAnswers.mp hx)
    | created id sent hid =>
      apply madeFolders_grow hlater
      -- a POST is sent only when the listing shows no folder of a matching name
      have hnone : ¬ (madeFolders asks matching log).any
          (fun x => x.1 = parent && matching name x.2) = true := by
        intro hany
        obtain ⟨x, hx, hmatch⟩ := List.any_eq_true.mp hany
        simp only [Bool.and_eq_true, decide_eq_true_eq] at hmatch
        unfold sendsPost at sent
        split at sent
        · next hfind =>
          have hno := (findListed_eq_none hfind).2 x.2 (mem_plainAnswers.mpr (by
            rw [← hmatch.1]
            exact hx))
          rw [hmatch.2] at hno
          cases hno
        · cases sent
      have hasks' : asks e.call = some (parent, name) := hasks
      simp only [madeFolders, hasks', if_neg hnone]
      obtain rfl := Except.ok.inj hid
      exact List.mem_cons_self
    | relisted x sent hx => exact absurd hx List.not_mem_nil
  refine ⟨hfold.own, fun parent name log log' x hasked hshows _ => ?_,
    fun parent name log log' x y hasked hshows hy hx hy' => ?_⟩
  · exact mem_plainAnswers.mpr (hshown parent name log log' x hasked hshows)
  · have hboth := (madeFolders_unique hfold log').2 (parent, y) (mem_plainAnswers.mp hy)
      (parent, x) (hshown parent name log log' x hasked hshows) rfl
      ((hfold.name name y hy').trans (hfold.name name x hx).symm)
    exact congrArg Prod.snd hboth

variable (asks matching) in
theorem plainAnswers_ok (log : Log Call.Ans) (parent : Option Token) (name : String) (e : Exc) :
    ensureNamed (matching name) (plainAnswers asks matching log parent) ≠ .error e := by
  unfold ensureNamed
  have hfind : ∃ found, findListed (matching name) (plainAnswers asks matching log parent).listed =
      .ok found := by
    unfold findListed
    split
    · exact ⟨_, rfl⟩
    · exact ⟨none, rfl⟩
  obtain ⟨found, hfound⟩ := hfind
  rw [hfound]
  cases found <;> simp [plainAnswers]

/-- A destination that starts without folders. -/
def plainDestination : Destination where
  casefold := lower
  drive log parent _ := plainAnswers asksFolder (childFolderNamed lower) log parent
  contactFolders log _ := plainAnswers asksContactFolder contactFolderNamed log none

def plainAnswer (log : Log Call.Ans) : (c : Call) → c.Ans
  | .ensureFolder _ parent name =>
    ensureNamed (childFolderNamed lower name) (plainDestination.drive log parent name)
  | .ensureContactFolder name =>
    ensureNamed (contactFolderNamed name) (plainDestination.contactFolders log name)
  | c => .ok (scriptedResult log c)

def plainGraph : Graph where
  answer := plainAnswer
  elapsed _ _ := 1
  createContact_fresh log src folder body id h := by
    obtain rfl := Except.ok.inj h
    exact freshToken_notMem _
  createEvent_fresh log src cal body id h := by
    obtain rfl := Except.ok.inj h
    exact freshToken_notMem _

theorem plainGraph_noFailure : NoFailure plainGraph := by
  intro log c e h
  cases c with
  | ensureFolder src parent name =>
    exact plainAnswers_ok asksFolder (childFolderNamed lower) log parent name e h
  | ensureContactFolder name =>
    exact plainAnswers_ok asksContactFolder contactFolderNamed log none name e h
  | _ => cases h

theorem plainDestination_governs : plainDestination.Governs plainGraph := by
  have hdrive : ComparedBy lower (childFolderNamed lower) := by
    refine ⟨fun name id => by simp [childFolderNamed], fun name x h => ?_,
      fun name name' id h => by simp [childFolderNamed, h]⟩
    simp only [childFolderNamed, Bool.and_eq_true, decide_eq_true_eq] at h
    exact h.2
  have hcontacts : ComparedBy id contactFolderNamed := by
    refine ⟨fun name id => by simp [contactFolderNamed], fun name x h => ?_,
      fun name name' id h => by simpa [contactFolderNamed] using h⟩
    simpa [contactFolderNamed] using h
  have hplain : (plainHost asksContactFolder contactFolderNamed).Steady :=
    plainHost_steady hcontacts
  -- contact folders are in no other folder
  have hparent : ∀ {parent : Option Token} {name : String} {log log' : Log Call.Ans},
      plainDestination.contactHost.Asked parent name log log' → parent = none := by
    rintro parent name log log' ⟨⟨c, answer⟩, hasks, -⟩
    cases c with
    | ensureContactFolder =>
      obtain ⟨rfl, -⟩ := Prod.mk.inj (Option.some.inj hasks)
      rfl
    | _ => cases hasks
  refine ⟨fun _ _ _ _ => rfl, fun _ _ => rfl, plainHost_steady hdrive, hplain.matches_own, ?_, ?_⟩
  · intro parent name log log' x hasked
    obtain rfl := hparent hasked
    exact hplain.stays none name log log' x hasked
  · intro parent name log log' x y hasked
    obtain rfl := hparent hasked
    exact hplain.distinct none name log log' x y hasked

end example_destination

/-- A folder below something unknown, a folder of the same name in it, and a file that is listed
before both. -/
theorem reruns_write_nothing_nested :
    let user : UserMapping := ⟨"a@source", "a@dest"⟩
    let outer : SourceFile :=
      { sourceId := "d", name := "Reports", parentId := some "shared", isFolder := true }
    let inner : SourceFile :=
      { sourceId := "e", name := "reports", parentId := some "d", isFolder := true }
    let file : SourceFile := { sourceId := "c", name := "c.txt", parentId := some "e" }
    let snapshot := Snapshot.files [file, inner, outer]
    let w₁ := snapshot.pass plainGraph user {} none
    let w' := [none, none].foldl (snapshot.pass plainGraph user) w₁
    w'.db.core = w₁.db.core ∧ plainDestination.Untouched w₁.log w'.log := by
  intro user outer inner file snapshot
  have hacyclic : Worklist.Acyclic SourceFile.sourceId SourceFile.parentId
      [file, inner, outer] := by
    apply Worklist.acyclic_of_rank
      (fun f => if f.sourceId = "d" then 0 else if f.sourceId = "e" then 1 else 2)
    rintro p x ⟨hp, hx, hparent⟩
    simp only [List.mem_cons, List.not_mem_nil, or_false] at hp hx
    rcases hp with rfl | rfl | rfl <;> rcases hx with rfl | rfl | rfl <;>
      revert hparent <;> decide
  exact reruns_write_nothing plainGraph plainDestination user plainDestination_governs
    plainGraph_noFailure snapshot ⟨by decide, hacyclic⟩ {} (fun _ => rfl) (fun _ => rfl) none
    [none, none]

end GwsMigrator
