import GwsMigrator.DeltaFeed
import GwsMigrator.DriveInventory

/-! `google/drive.py` and the files of `connectors/google.py`: a drive listed whole, behind a start
token that is asked for before, or its changes since a token. -/
namespace GwsMigrator.GoogleDrive
open Program PageChains
open DriveInventory (DriveFile)
open DeltaFeed (truthy)

structure FilesPage where
  files : List DriveFile
  nextPageToken : Option String := none

/-- The file of a change. -/
structure ChangedFile extends DriveFile where
  trashed : Bool := false

structure Change where
  type : String := "file"
  fileId : String := ""
  removed : Bool := false
  file : Option ChangedFile := none

structure ChangesPage where
  changes : List Change
  nextPageToken : Option String := none
  newStartPageToken : Option String := none

/-- The requests to the Drive API, about My Drive or about the shared drive with an id. -/
inductive DriveRequest where
  | startPageToken (driveId : Option String)
  | files (driveId : Option String) (pageToken : Option Token)
  | changes (driveId : Option String) (pageToken : String)

abbrev DriveRequest.Ans : DriveRequest → Type
  | .startPageToken _ => Except Exc String
  | .files .. => Except Exc FilesPage
  | .changes .. => Except Exc ChangesPage

abbrev DriveProgram := Program DriveRequest.Ans

/-- The loop of `iter_my_drive_files` and `iter_shared_drive_files` from a page on: the files that
are yielded, and what the generator ends with. -/
def listFiles (driveId : Option String) :
    ℕ → Option Token → DriveProgram (Option (List DriveFile × Option Exc))
  | 0, _ => pure none
  | fuel + 1, pageToken => do
    match ← perform (DriveRequest.files driveId pageToken) with
    -- the files of the pages before this one have been yielded
    | .error e => pure (some ([], some e))
    | .ok resp =>
      match resp.nextPageToken.bind truthy with
      | none => pure (some (resp.files, none))
      | some next => do
        match ← listFiles driveId fuel (some next) with
        | some (more, raised) => pure (some (resp.files ++ more, raised))
        | none => pure none

/-- The file that is taken from a change, if one is. -/
def Change.taken (change : Change) : Option DriveFile :=
  if change.type ≠ "file" ∨ change.removed then none
  else (change.file.filter (fun f => !f.trashed)).map ChangedFile.toDriveFile

/-- The loop of `iter_drive_changes` from a page on. -/
def listChanges (driveId : Option String) :
    ℕ → String → DriveProgram (Option (Except Exc (List DriveFile × String)))
  | 0, _ => pure none
  | fuel + 1, currentToken => do
    match ← perform (DriveRequest.changes driveId currentToken) with
    | .error e => pure (some (.error e))
    | .ok resp =>
      let files := resp.changes.filterMap Change.taken
      match resp.newStartPageToken with
      | some token => pure (some (.ok (files, token)))
      | none =>
        match resp.nextPageToken with
        -- the key is looked up without a default
        | none => pure (some (.error (.other "'nextPageToken'")))
        | some next => do
          match ← listChanges driveId fuel next with
          | some (.ok (more, token)) => pure (some (.ok (files ++ more, token)))
          | r => pure r

/-- `_to_file`, without what only the manifest of a dry run reads. -/
def toFile (gfile : DriveFile) : SourceFile := (DriveInventory.toFile gfile).toSourceFile

@[simp] theorem toFile_sourceId (gfile : DriveFile) : (toFile gfile).sourceId = gfile.id := rfl

/-- `iter_files` and `iter_shared_drive_files`, run to the end. The start token of a full listing
is asked for before the first page. -/
def iterDrive (driveId : Option String) (since : Option Token) (fuel : ℕ) :
    DriveProgram (Option (Enumeration SourceFile)) :=
  match since with
  | none => do
    match ← perform (DriveRequest.startPageToken driveId) with
    | .error e => pure (some { items := [], raised := some e })
    | .ok token => do
      match ← listFiles driveId fuel none with
      | none => pure none
      | some (listed, raised) =>
        -- the cursor has been set by then, also where the listing raises
        pure (some
          { items := listed.map toFile, raised := raised, lastCursor := truthy token })
  | some pageToken => do
    match ← listChanges driveId fuel pageToken.val with
    | none => pure none
    -- all changes are read before the first one is yielded
    | some (.error e) => pure (some { items := [], raised := some e })
    | some (.ok (changed, newToken)) =>
      pure (some { items := changed.map toFile, lastCursor := truthy newToken })

def iterFiles (since : Option Token) (fuel : ℕ) :
    DriveProgram (Option (Enumeration SourceFile)) := iterDrive none since fuel

def iterSharedDriveFiles (driveId : String) (since : Option Token) (fuel : ℕ) :
    DriveProgram (Option (Enumeration SourceFile)) := iterDrive (some driveId) since fuel

/-! What the pages come to. -/

section chains
variable {σ : Type} (serve : (r : DriveRequest) → σ → r.Ans × σ)

abbrev FilesChain (driveId : Option String) :=
  Chain (fun pageToken => serve (.files driveId pageToken))
    (fun page : FilesPage => (page.nextPageToken.bind truthy).map some)

/-- Where the changes go on. The page with the new start token is the last one. -/
def ChangesPage.next (page : ChangesPage) : Option String :=
  if page.newStartPageToken.isSome then none else page.nextPageToken

abbrev ChangesChain (driveId : Option String) :=
  Chain (fun pageToken => serve (.changes driveId pageToken)) ChangesPage.next

variable {serve} {driveId : Option String} {fuel : ℕ} {s t : σ}

theorem listFiles_chain {pageToken : Option Token} {listed : List DriveFile} {raised : Option Exc}
    (h : (listFiles driveId fuel pageToken).run serve s = (some (listed, raised), t)) :
    ∃ pages, FilesChain serve driveId s (some pageToken) pages raised t ∧
      listed = pages.flatMap FilesPage.files := by
  induction fuel generalizing pageToken s listed with
  | zero => cases h
  | succ fuel ih =>
    rw [listFiles, perform_bind, run_request] at h
    rcases hanswer : serve (.files driveId pageToken) s with ⟨e | resp, s₁⟩
    · rw [hanswer] at h
      cases h
      exact ⟨[], .failed hanswer, rfl⟩
    · rw [hanswer] at h
      simp only at h
      cases hnext : resp.nextPageToken.bind truthy with
      | none =>
        rw [hnext] at h
        cases h
        refine ⟨[resp], .page hanswer ?_, by simp⟩
        simp only [hnext, Option.map_none]
        exact .last _
      | some next =>
        rw [hnext] at h
        simp only [run_bind] at h
        rcases hrest : (listFiles driveId fuel (some next)).run serve s₁ with
          ⟨_ | ⟨more, raised'⟩, s₂⟩
        · rw [hrest] at h
          cases h
        · rw [hrest] at h
          cases h
          obtain ⟨pages, hchain, rfl⟩ := ih hrest
          refine ⟨resp :: pages, .page hanswer ?_, by simp⟩
          simp only [hnext, Option.map_some]
          exact hchain

/-- A run that gives the changes has read a chain of pages, the last one with the new token. -/
theorem listChanges_chain {currentToken : String} {changed : List DriveFile} {newToken : String}
    (h : (listChanges driveId fuel currentToken).run serve s =
      (some (.ok (changed, newToken)), t)) :
    ∃ pages, ChangesChain serve driveId s (some currentToken) pages none t ∧
      changed = (pages.flatMap ChangesPage.changes).filterMap Change.taken ∧
      pages.getLast?.bind ChangesPage.newStartPageToken = some newToken := by
  -- along the recursion on the fuel, one page a round
  induction fuel generalizing currentToken s changed with
  | zero => cases h
  | succ fuel ih =>
    rw [listChanges, perform_bind, run_request] at h
    rcases hanswer : serve (.changes driveId currentToken) s with ⟨e | resp, s₁⟩
    · rw [hanswer] at h
      cases h
    · rw [hanswer] at h
      simp only at h
      cases hstart : resp.newStartPageToken with
      | some token =>
        rw [hstart] at h
        cases h
        refine ⟨[resp], .page hanswer ?_, by simp, by simpa using hstart⟩
        rw [ChangesPage.next, hstart, Option.isSome_some, if_pos rfl]
        exact .last _
      | none =>
        rw [hstart] at h
        cases hnext : resp.nextPageToken with
        | none =>
          rw [hnext] at h
          cases h
        | some next =>
          rw [hnext] at h
          simp only [run_bind] at h
          rcases hrest : (listChanges driveId fuel next).run serve s₁ with
            ⟨_ | (e | ⟨more, token⟩), s₂⟩
          · rw [hrest] at h
            cases h
          · rw [hrest] at h
            cases h
          · rw [hrest] at h
            cases h
            obtain ⟨pages, hchain, rfl, hlast⟩ := ih hrest
            refine ⟨resp :: pages, .page hanswer ?_, by simp, ?_⟩
            · rw [ChangesPage.next, hstart, Option.isSome_none, hnext]
              exact hchain
            · cases pages with
              | nil => cases hlast
              | cons page pages => rwa [List.getLast?_cons_cons]

end chains

end GwsMigrator.GoogleDrive
