import GwsMigrator.ChangeWindows
import GwsMigrator.GoogleDrive
import GwsMigrator.SyncCursor

/-! The files of My Drive behind their cursor: none that is there is lost, though files change while
the drive is listed, and none that has gone is touched again at the destination. -/
namespace GwsMigrator.GoogleDrive
open Program PageChains ChangeFeed
open DriveInventory (DriveFile)
open DeltaFeed (truthy truthy_eq)

/-- A version of a file. It has gone when it was trashed or removed. -/
structure DriveVersion where
  file : DriveFile
  gone : Bool := false
deriving DecidableEq

def DriveVersion.id (v : DriveVersion) : String := v.file.id

/-- What a change is about. -/
def Change.version (change : Change) : DriveVersion :=
  match change.file with
  | some f => ⟨f.toDriveFile, change.removed || f.trashed⟩
  | none => ⟨{ id := change.fileId }, true⟩

/-- The changes of files that a listing of changes has. -/
def versionsOf (pages : List ChangesPage) : List DriveVersion :=
  ((pages.flatMap ChangesPage.changes).filter (fun change => change.type = "file")).map
    Change.version

/-- What is taken from some changes: the files that have not gone. -/
theorem taken_versions (changes : List Change) :
    (changes.filterMap Change.taken).map (fun f => DriveVersion.mk f false) =
      ((changes.filter (fun change => change.type = "file")).map Change.version).filter
        (fun v => !v.gone) := by
  induction changes with
  | nil => rfl
  | cons change changes ih =>
    obtain ⟨type, fileId, removed, file⟩ := change
    by_cases htype : type = "file"
    · rcases file with _ | ⟨f, trashed⟩ <;> cases removed <;> try cases trashed
      all_goals
        simp [Change.taken, Change.version, htype, ih]
    · simp [Change.taken, htype, ih]

/-- My Drive behind the Drive API, as far as its answers are relied on. `log` are the versions of
files that the changes tell of, the latest first, and `own` are the files that a listing has if they
are there. Files may change while a listing is read. -/
structure Drive (σ : Type) where
  serve : (r : DriveRequest) → σ → r.Ans × σ
  log : σ → List DriveVersion
  own : DriveFile → Prop
  tok : ℕ → Token
  tok_injective : Function.Injective tok
  grows : ∀ r s, log s <:+ log (serve r s).2
  start : ∀ s token, (serve (.startPageToken none) s).1 = .ok token →
    token = (tok (log s).length).val
  -- a page shows a file as it was at some moment of the listing, and what stays is on some page
  listed : ∀ s t pages e, FilesChain serve none s (some none) pages e t →
    ChangeFeed.Listing DriveVersion.id (log s) (log t)
      ((pages.flatMap FilesPage.files).map (fun f => ⟨f, false⟩))
  whole : ∀ s t pages, FilesChain serve none s (some none) pages none t →
    ∀ f, Lasts DriveVersion.id (log s) (log t) ⟨f, false⟩ → own f →
      f ∈ pages.flatMap FilesPage.files
  -- on the pages of a drive that stands still each file is once, in its current version
  changes : ∀ s t p pages, ChangesChain serve none s (some (tok p).val) pages none t →
    log t = log s →
    Feeds DriveVersion.id (log s) (some p) (versionsOf pages) ∧
      ChangeFeed.Whole DriveVersion.id (fun _ => True) (log s) (some p) (versionsOf pages) ∧
      ∀ token, pages.getLast?.bind ChangesPage.newStartPageToken = some token →
        token = (tok (log s).length).val

variable {σ : Type} (drive : Drive σ)

/-- The files that have to be at the destination. -/
def Drive.workload : Workload DriveVersion where
  name := "files"
  sourceId := DriveVersion.id
  marker v := (toFile v.file).contentHash
  live v := v.gone = false ∧ drive.own v.file ∧ files.live (toFile v.file)
  skipsDone v := files.skipsDone (toFile v.file)

/-- A run of `iter_files` that comes to its end. -/
def Fetches (since : Option Token) (s : σ) (e : Enumeration SourceFile) (s' : σ) : Prop :=
  ∃ fuel, (iterFiles since fuel).run drive.serve s = (some e, s')

variable {drive}

/-- What an enumeration has read: nothing, a part of a listing or all of it, or the changes, if the
drive stood still. -/
inductive Read (drive : Drive σ) (pos : Option ℕ) (s s' : σ) (e : Enumeration SourceFile) : Prop
  | nothing (items : e.items = []) (raised : e.raised ≠ none)
  | listing (fromStart : pos = none) (fs : List DriveFile) (items : e.items = fs.map toFile)
      (listed : ChangeFeed.Listing DriveVersion.id (drive.log s) (drive.log s')
        (fs.map (fun f => ⟨f, false⟩)))
      (whole : e.raised = none → ∀ f,
        Lasts DriveVersion.id (drive.log s) (drive.log s') ⟨f, false⟩ → drive.own f → f ∈ fs)
      (cursor : ∀ c, e.lastCursor = some c → c = drive.tok (drive.log s).length)
  | changes (p : ℕ) (position : pos = some p) (fs : List DriveFile)
      (items : e.items = fs.map toFile)
      (feeds : drive.log s' = drive.log s →
        Feeds DriveVersion.id (drive.log s) (some p) (fs.map (fun f => ⟨f, false⟩)))
      (whole : drive.log s' = drive.log s →
        ChangeFeed.Whole DriveVersion.id (fun v => v.gone = false) (drive.log s) (some p)
          (fs.map (fun f => ⟨f, false⟩)))
      (cursor : drive.log s' = drive.log s →
        ∀ c, e.lastCursor = some c → c = drive.tok (drive.log s).length)

/-- A text that is a token is truthy as that token. -/
theorem eq_of_truthy {text : String} {c t : Token} (h : truthy text = some c)
    (htext : text = t.val) : c = t :=
  Subtype.ext ((truthy_eq h).symm.trans htext)

theorem fetches_read {pos : Option ℕ} {s s' : σ} {e : Enumeration SourceFile}
    (h : Fetches drive (pos.map drive.tok) s e s') : Read drive pos s s' e := by
  obtain ⟨fuel, hrun⟩ := h
  cases pos with
  | none =>
    rw [Option.map_none, iterFiles, iterDrive, perform_bind, run_request] at hrun
    have hstart := drive.start s
    have hgrows := drive.grows (.startPageToken none) s
    rcases hanswer : drive.serve (.startPageToken none) s with ⟨e' | token, s₁⟩
    · rw [hanswer] at hrun
      cases hrun
      exact .nothing rfl (by simp)
    · -- the token is from before the first page, and the log may have grown since then
      rw [hanswer] at hrun hstart hgrows
      simp only [run_bind] at hrun
      rcases hlist : (listFiles none fuel none).run drive.serve s₁ with ⟨_ | ⟨fs, raised⟩, s₂⟩
      · rw [hlist] at hrun
        cases hrun
      · rw [hlist] at hrun
        cases hrun
        obtain ⟨pages, hchain, rfl⟩ := listFiles_chain hlist
        refine .listing rfl _ rfl ((drive.listed _ _ pages _ hchain).mono hgrows) ?_ ?_
        · rintro rfl f hlasts hown
          exact drive.whole _ _ pages hchain f (hlasts.mono hgrows) hown
        · exact fun c hc => eq_of_truthy hc (hstart token rfl)
  | some p =>
    rw [Option.map_some, iterFiles, iterDrive, run_bind] at hrun
    rcases hlist : (listChanges none fuel (drive.tok p).val).run drive.serve s with
      ⟨_ | (e' | ⟨fs, newToken⟩), s₁⟩
    · rw [hlist] at hrun
      cases hrun
    · rw [hlist] at hrun
      cases hrun
      exact .nothing rfl (by simp)
    · rw [hlist] at hrun
      cases hrun
      obtain ⟨pages, hchain, rfl, hlast⟩ := listChanges_chain hlist
      have hversions : ((pages.flatMap ChangesPage.changes).filterMap Change.taken).map
          (fun f => DriveVersion.mk f false) = (versionsOf pages).filter (fun v => !v.gone) :=
        taken_versions _
      refine .changes p rfl _ rfl ?_ ?_ ?_
      · intro hstill
        obtain ⟨hfeeds, -, -⟩ := drive.changes s s₁ p pages hchain hstill
        rw [hversions]
        exact ⟨hfeeds.nodup.sublist (List.filter_sublist.map _),
          fun v hv => hfeeds.sound v (List.mem_of_mem_filter hv)⟩
      · intro hstill
        obtain ⟨-, hwhole, -⟩ := drive.changes s s₁ p pages hchain hstill
        rw [hversions]
        intro v hv hchanged hhere
        exact List.mem_filter.mpr ⟨hwhole v hv hchanged trivial, by simp [hhere]⟩
      · intro hstill c hc
        exact eq_of_truthy hc ((drive.changes s s₁ p pages hchain hstill).2.2 newToken hlast)

/-- What is read of the drive, in the order of the enumeration. -/
theorem Read.files_of {pos : Option ℕ} {s s' : σ} {e : Enumeration SourceFile}
    (h : Read drive pos s s' e) (still : pos.isSome = true → drive.log s' = drive.log s) :
    ∃ fs : List DriveFile, e.items = fs.map toFile ∧ (fs.map DriveFile.id).Nodup := by
  have hkeys : ∀ fs : List DriveFile,
      (fs.map (fun f => DriveVersion.mk f false)).map DriveVersion.id = fs.map DriveFile.id := by
    intro fs
    rw [List.map_map]
    rfl
  cases h with
  | nothing items => exact ⟨[], items, List.nodup_nil⟩
  | listing _ fs items listed => exact ⟨fs, items, hkeys fs ▸ listed.nodup⟩
  | changes p position fs items feeds =>
    exact ⟨fs, items, hkeys fs ▸ (feeds (still (position ▸ rfl))).nodup⟩

theorem nodup_toFile {fs : List DriveFile} (h : (fs.map DriveFile.id).Nodup) :
    ((fs.map toFile).map SourceFile.sourceId).Nodup := by
  rw [List.map_map]
  exact h

variable (drive) in
/-- A pass settles the versions that it read. -/
theorem passed_versions {user : UserMapping} {full : Prop} {fs : List DriveFile} {db db' : Db}
    {n : ℕ} (h : Passed files user full (fs.map toFile) db db' n) :
    Passed drive.workload user full (fs.map (fun f => ⟨f, false⟩)) db db' n := by
  refine ⟨fun k hk => h.rows k ?_, h.cursors, fun v hv hlive => ?_⟩
  · rw [List.map_map] at hk ⊢
    exact hk
  · obtain ⟨f, hf, rfl⟩ := List.mem_map.mp hv
    obtain ⟨houtcome, hskipped, hkept⟩ := h.settled _ (List.mem_map_of_mem hf) hlive.2.2
    exact ⟨houtcome, hskipped, hkept⟩

variable (drive) (g : Graph) (user : UserMapping)

/-- What the store and the drive come to: the drive moves on, or a pass runs, during which it moves
on too. It stands still while changes are read. No full pass meets a file that is done in another
version than the current one, or fails a folder that is done in the current one. -/
inductive Reached : World → σ → Prop
  | start (s : σ) : Reached {} s
  | moved {w : World} {s s' : σ} (before : Reached w s) (moves : drive.log s <:+ drive.log s') :
      Reached w s'
  | passed {w : World} {s s' : σ} (before : Reached w s) (p : FilesPass)
      (fetched : ∀ since,
        startFrom p.mode (w.db.getCursor ⟨user.sourceId, "files"⟩) = some since →
        Fetches drive since s (p.source since) s' ∧
          (since.isSome = true → drive.log s' = drive.log s))
      (moves : drive.log s <:+ drive.log s')
      (fresh : p.mode = .full →
        Fresh drive.workload user (drive.log s) w.db ∧ p.FoldersHold g user w) :
      Reached (p.run g user w) s'

/-- The rows agree with the change log up to the cursor. -/
structure InStep (w : World) (s : σ) : Prop where
  hashes : ∀ id, HashDone w.db (files.key user id)
  synced : Synced drive.workload user drive.tok (drive.log s) w.db

variable {drive g user}

theorem InStep.moved {w : World} {s s' : σ} (h : InStep drive user w s)
    (moves : drive.log s <:+ drive.log s') : InStep drive user w s' := by
  obtain ⟨cursor, hcursor, hup⟩ := h.synced
  exact ⟨h.hashes, cursor, hcursor, hup.grow moves⟩

/-- Only a full pass lists the drive. -/
theorem full_of_startFrom {mode : Mode} {stored : Option Token}
    (h : startFrom mode stored = some none) : mode = .full := by
  cases mode with
  | full => rfl
  | delta => cases stored <;> cases h

section start
variable {p : FilesPass} {w : World} {s s' : σ} {cursor : Option ℕ}
variable (hcursor : w.db.getCursor (drive.workload.cursorKey user) = cursor.map drive.tok)
variable (fetched : ∀ since,
  startFrom p.mode (w.db.getCursor ⟨user.sourceId, "files"⟩) = some since →
  Fetches drive since s (p.source since) s' ∧
    (since.isSome = true → drive.log s' = drive.log s))
include hcursor fetched

/-- A pass starts at a position, and reads from there. -/
theorem read_of_start {since : Option Token}
    (start : startFrom p.mode (w.db.getCursor ⟨user.sourceId, "files"⟩) = some since) :
    ∃ pos : Option ℕ, since = pos.map drive.tok ∧
      ((pos = none ∧ p.mode = .full) ∨ pos = cursor) ∧
      Read drive pos s s' (p.source since) ∧
      (pos.isSome = true → drive.log s' = drive.log s) := by
  obtain ⟨hfetch, hstill⟩ := fetched since start
  have hstart : startFrom p.mode (cursor.map drive.tok) = some since := hcursor ▸ start
  obtain ⟨pos, rfl, hpos⟩ := startFrom_position hstart
  exact ⟨pos, rfl, hpos, fetches_read hfetch, fun h => hstill (by rwa [Option.isSome_map])⟩

/-- The pass has the feed of its start without repetitions. -/
theorem nodup_of_start :
    ∀ since, startFrom p.mode (w.db.getCursor ⟨user.sourceId, "files"⟩) = some since →
      ((p.source since).items.map SourceFile.sourceId).Nodup := by
  intro since start
  obtain ⟨pos, -, -, hread, hstill⟩ := read_of_start hcursor fetched start
  obtain ⟨fs, hitems, hnodup⟩ := hread.files_of hstill
  rw [hitems]
  exact nodup_toFile hnodup

end start

/-- A pass, from what it has read. -/
theorem InStep.passed {w : World} {s s' : σ} (h : InStep drive user w s) (p : FilesPass)
    (fetched : ∀ since,
      startFrom p.mode (w.db.getCursor ⟨user.sourceId, "files"⟩) = some since →
      Fetches drive since s (p.source since) s' ∧
        (since.isSome = true → drive.log s' = drive.log s))
    (moves : drive.log s <:+ drive.log s')
    (fresh : p.mode = .full →
      Fresh drive.workload user (drive.log s) w.db ∧ p.FoldersHold g user w) :
    InStep drive user (p.run g user w) s' := by
  obtain ⟨cursor, hcursor, hup⟩ := h.synced
  refine ⟨p.run_hashDone w h.hashes, ?_⟩
  have hran := runFiles_ran_of_nodup (g := g) (nodup_of_start hcursor fetched) h.hashes
    (fun hfull => (fresh hfull).2)
  cases hran with
  | idle _ same =>
    have happlied : drive.workload.applied user (p.run g user w).db =
        drive.workload.applied user w.db := Workload.applied_of_rows same.rows
    exact ⟨cursor, (congrFun same.cursors _).trans hcursor, happlied ▸ hup.grow moves⟩
  | passed since n db₁ _ start pass rows saved =>
    obtain ⟨pos, rfl, hpos, hread, hstill⟩ := read_of_start hcursor fetched start
    have happlied : drive.workload.applied user (p.run g user w).db =
        drive.workload.applied user db₁ := Workload.applied_of_rows rows
    -- the cursor that the pass leaves, if it does not save one and if it does
    have hleft : (p.run g user w).db.getCursor = db₁.getCursor →
        (p.run g user w).db.getCursor (drive.workload.cursorKey user) = cursor.map drive.tok := by
      intro hsame
      rw [hsame, pass.cursors, hcursor]
    have hmoved : ∀ c, (p.run g user w).db.getCursor =
          Function.update db₁.getCursor (files.cursorKey user) (some c) →
        c = drive.tok (drive.log s).length →
        (p.run g user w).db.getCursor (drive.workload.cursorKey user) =
          (some (drive.log s).length).map drive.tok := by
      rintro c hsaved rfl
      rw [hsaved]
      exact Function.update_self ..
    rw [Synced, happlied]
    cases hread with
    | nothing items raised =>
      -- the cursor cannot have moved, since the source raised
      rcases saved with hsame | ⟨-, hraised, -⟩
      · rw [items] at pass
        have hrows : drive.workload.applied user db₁ = drive.workload.applied user w.db :=
          (@passed_versions σ drive user _ [] _ _ _ pass).applied_nil
        exact ⟨cursor, hleft hsame, hrows ▸ hup.grow moves⟩
      · exact absurd hraised raised
    | listing fromStart fs items listed whole hlast =>
      subst fromStart
      have hfull : p.mode = .full := full_of_startFrom start
      rw [items] at pass
      -- what changed during the listing is behind the token, so that only what lasts counts
      have happlies := (passed_versions drive pass).applies_of
        (Lasts DriveVersion.id (drive.log s) (drive.log s'))
        (fun _ v _ hlive hlasts => (fresh hfull).1 v (hlasts.before moves).1 hlive)
      rcases saved with hsame | ⟨hn, hraised, c, hc, hsaved⟩
      · exact ⟨cursor, hleft hsame, hup.listing moves listed hfull happlies (Or.inl rfl)⟩
      · refine ⟨some (drive.log s).length, hmoved c hsaved (hlast c hc), ?_⟩
        refine hup.listing moves listed hfull happlies (Or.inr ⟨hn, fun v hlasts hlive => ?_, rfl⟩)
        obtain ⟨f, gone⟩ := v
        obtain ⟨rfl, hown, -⟩ := hlive
        exact List.mem_map_of_mem (whole hraised f hlasts hown)
    | changes q position fs items feeds whole hlast =>
      subst position
      -- the drive stood still, and the feed is that of a log
      have hlog := hstill rfl
      rw [items] at pass
      have happlies := (passed_versions drive pass).applies
        (fun hfull v hv hlive => (fresh hfull).1 v ((feeds hlog).sound v hv).1 hlive)
      have hwhole : ChangeFeed.Whole DriveVersion.id drive.workload.live (drive.log s) (some q) _ :=
        fun v hv hchanged hlive => whole hlog v hv hchanged hlive.1
      rw [hlog]
      rcases saved with hsame | ⟨hn, -, c, hc, hsaved⟩
      · exact ⟨cursor, hleft hsame, hup.pass (feeds hlog) hpos happlies (Or.inl rfl)⟩
      · exact ⟨some (drive.log s).length, hmoved c hsaved (hlast hlog c hc),
          hup.pass (feeds hlog) hpos happlies (Or.inr ⟨hn, hwhole, rfl⟩)⟩

theorem Reached.inStep {w : World} {s : σ} (h : Reached drive g user w s) :
    InStep drive user w s := by
  induction h with
  | start s => exact ⟨fun id hash hhash => absurd hhash (by simp [Db.getItemHash]), none, rfl,
      upToDate_none⟩
  | moved before moves ih => exact ih.moved moves
  | passed before p fetched moves fresh ih => exact ih.passed p fetched moves fresh

/-- No file of My Drive is lost behind the files cursor, whatever changes between the passes and
while a full one lists the drive, and whatever calls fail: it is done in its current version, or
every delta pass that reads the changes yields it. -/
theorem drive_nothing_lost {w : World} {s : σ} (h : Reached drive g user w s) :
    ∀ c, w.db.getCursor ⟨user.sourceId, "files"⟩ = some c →
      ∀ e s', Fetches drive (some c) s e s' → drive.log s' = drive.log s → e.raised = none →
        ∀ f, latest DriveVersion.id (drive.log s) f.id = some ⟨f, false⟩ → drive.own f →
          files.live (toFile f) →
          (∃ row, w.db.getItemState (fileKey user "files" f.id) = some row ∧ row.status = .done ∧
            row.sourceHash = (toFile f).contentHash) ∨ toFile f ∈ e.items := by
  intro c hc e s' hfetch hstill hraised f hf hown hlive
  obtain ⟨cursor, hcursor, hup⟩ := h.inStep.synced
  have hstored : cursor.map drive.tok = some c := hcursor.symm.trans hc
  obtain ⟨p, rfl, rfl⟩ := Option.map_eq_some_iff.mp hstored
  have hread : Read drive (some p) s s' e := fetches_read hfetch
  cases hread with
  | nothing items raised => exact absurd hraised raised
  | listing fromStart => cases fromStart
  | changes q position fs items feeds whole hlast =>
    obtain rfl := Option.some.inj position
    by_cases hchanged : changedAt DriveVersion.id (drive.log s) f.id ≤ p
    · exact Or.inl (Db.applied_eq_some.mp
        ((hup p rfl).2 ⟨f, false⟩ hf hchanged ⟨rfl, hown, hlive⟩))
    · refine Or.inr ?_
      rw [items]
      have hmem := whole hstill ⟨f, false⟩ hf (fun q hq => by
        obtain rfl := Option.some.inj hq
        exact Nat.lt_of_not_le hchanged) rfl
      obtain ⟨f', hf', heq⟩ := List.mem_map.mp hmem
      obtain rfl : f' = f := congrArg DriveVersion.file heq
      exact List.mem_map_of_mem hf'

/-! Files that have gone. -/

/-- No row of the file is written and no write is made for it. -/
structure Untouched (user : UserMapping) (id : String) (w w' : World) : Prop where
  row : w'.db.getItemState (fileKey user "files" id) =
    w.db.getItemState (fileKey user "files" id)
  writes : writesOf (fileKey user "files" id) w'.log = writesOf (fileKey user "files" id) w.log

theorem Untouched.trans {id : String} {w w₁ w' : World} (h : Untouched user id w w₁)
    (h' : Untouched user id w₁ w') : Untouched user id w w' :=
  ⟨h'.row.trans h.row, h'.writes.trans h.writes⟩

theorem Untouched.after {id : String} {w : World} {c : Call}
    (hc : driveWrite ⟨c, g.ask w c⟩ = none) : Untouched user id w (g.after w c) := by
  refine ⟨rfl, ?_⟩
  rw [writesOf, driveWrites, Graph.after_log, List.filterMap_cons_none hc]
  rfl

/-- A step on another file. -/
theorem Untouched.step {id : String} {mode : Mode} {d : Bool} {st : FilesLoop} {f : SourceFile}
    (hne : f.sourceId ≠ id) :
    Untouched user id st.world (fileStep g user "files" mode d st f).2.world := by
  have hstep := (processFile_step g user "files" mode st f d).onlyTouches
  have hkey : fileKey user "files" id ≠ fileKey user "files" f.sourceId :=
    fun h => hne (fileKey_inj.mp h).symm
  rw [fileStep_eq]
  refine ⟨hstep.rows _ hkey, ?_⟩
  obtain ⟨ws, hlog, hsrc⟩ := hstep.writes
  have hnone : ws.filter (fun write => write.src = fileKey user "files" id) = [] := by
    rw [List.filter_eq_nil_iff]
    intro write hwrite
    rw [hsrc write hwrite]
    simpa using hkey.symm
  rw [writesOf, hlog, List.filter_append, hnone]
  rfl

variable (g user) in
/-- A run over files without this one. -/
theorem migrateFiles_untouched (mode : Mode) (feed : Enumeration SourceFile) (w : World)
    {id : String} (hother : id ∉ feed.items.map SourceFile.sourceId) :
    Untouched user id w (migrateFiles g user "files" mode feed w).world := by
  have hstep : ∀ d (st : FilesLoop), ∀ f ∈ feed.items, Untouched user id w st.world →
      Untouched user id w (fileStep g user "files" mode d st f).2.world := by
    intro d st f hf hst
    exact hst.trans (.step (fun h => hother (h ▸ List.mem_map_of_mem hf)))
  exact migrateFiles_invariant g user "files" mode hstep w ⟨rfl, rfl⟩

variable (g user) in
theorem migrateFiles_cursors (mode : Mode) (feed : Enumeration SourceFile) (w : World) :
    (migrateFiles g user "files" mode feed w).world.db.getCursor = w.db.getCursor := by
  have hstep : ∀ d (st : FilesLoop), ∀ f ∈ feed.items, st.world.db.getCursor = w.db.getCursor →
      (fileStep g user "files" mode d st f).2.world.db.getCursor = w.db.getCursor := by
    intro d st f _ hst
    obtain ⟨row, made, write, fails, hchange, -⟩ :=
      (processFile_step g user "files" mode st f d).anyChange
    rw [fileStep_eq]
    exact hchange.cursors.trans hst
  exact migrateFiles_invariant g user "files" mode hstep w rfl

variable (g user) in
/-- The same for a feed, behind which the cursor may be saved that it offers. -/
theorem filesPass_untouched (mode : Mode) (feed : Enumeration SourceFile) (w : World)
    {id : String} (hother : id ∉ feed.items.map SourceFile.sourceId) :
    Untouched user id w (filesPass g user "files" mode feed w).world ∧
      ((filesPass g user "files" mode feed w).world.db.getCursor ⟨user.sourceId, "files"⟩ =
          w.db.getCursor ⟨user.sourceId, "files"⟩ ∨
        feed.raised = none ∧ ∃ c, feed.lastCursor = some c ∧
          (filesPass g user "files" mode feed w).world.db.getCursor ⟨user.sourceId, "files"⟩ =
            some c) := by
  have hrun := migrateFiles_untouched g user mode feed w hother
  have hcursors := migrateFiles_cursors g user mode feed w
  simp only [filesPass]
  generalize migrateFiles g user "files" mode feed w = st at hrun hcursors ⊢
  by_cases hraised : feed.raised.isSome = true
  · rw [if_pos hraised]
    exact ⟨hrun, Or.inl (congrFun hcursors _)⟩
  · rw [if_neg hraised]
    have hsaved := advanceCursor_getCursor
      { world := st.world, failures := st.failures, raised := feed.raised }
      ⟨user.sourceId, "files"⟩ st.failures feed.lastCursor
    refine ⟨⟨?_, ?_⟩, ?_⟩
    · rw [advanceCursor_getItemState]
      exact hrun.row
    · rw [advanceCursor_log]
      exact hrun.writes
    · rcases hsaved with hsame | ⟨-, c, hc, hcur⟩
      · exact Or.inl ((congrFun hsame _).trans (congrFun hcursors _))
      · refine Or.inr ⟨by simpa using hraised, c, hc, ?_⟩
        rw [hcur]
        exact Function.update_self ..

/-- A pass that does not meet the file leaves it alone, and the cursor is the stored one or one that
the source offers. -/
theorem run_untouched {p : FilesPass} {w : World} {id : String}
    (hother : ∀ since, startFrom p.mode (w.db.getCursor ⟨user.sourceId, "files"⟩) = some since →
      id ∉ (p.source since).items.map SourceFile.sourceId) :
    Untouched user id w (p.run g user w) ∧
      ((p.run g user w).db.getCursor ⟨user.sourceId, "files"⟩ =
          w.db.getCursor ⟨user.sourceId, "files"⟩ ∨
        ∃ since c, startFrom p.mode (w.db.getCursor ⟨user.sourceId, "files"⟩) = some since ∧
          (p.source since).raised = none ∧ (p.source since).lastCursor = some c ∧
          (p.run g user w).db.getCursor ⟨user.sourceId, "files"⟩ = some c) := by
  have huser : Untouched user id w (g.after w (.getUser user.destId)) := .after rfl
  have hdrive : Untouched user id w
      (g.after (g.after w (.getUser user.destId)) .ensureOnedrive) := huser.trans (.after rfl)
  simp only [FilesPass.run, runFiles]
  -- the user and the drive have to be found, and a delta pass needs a cursor
  cases g.ask w (.getUser user.destId) with
  | error e => exact ⟨huser, Or.inl rfl⟩
  | ok _ =>
    simp only
    cases g.ask (g.after w (.getUser user.destId)) .ensureOnedrive with
    | error e => exact ⟨hdrive, Or.inl rfl⟩
    | ok _ =>
      simp only [Graph.getCursor_after]
      cases hstart : startFrom p.mode (w.db.getCursor ⟨user.sourceId, "files"⟩) with
      | none => exact ⟨hdrive, Or.inl rfl⟩
      | some since =>
        obtain ⟨hpass, hcursor⟩ := filesPass_untouched g user p.mode (p.source since)
          (g.after (g.after w (.getUser user.destId)) .ensureOnedrive) (hother since hstart)
        refine ⟨hdrive.trans hpass, hcursor.imp_right ?_⟩
        rintro ⟨hraised, c, hc, hcur⟩
        exact ⟨since, c, rfl, hraised, hc, hcur⟩

variable (drive g user) in
/-- What comes after a state in which a file does not change any more. -/
inductive Later (id : String) (w₀ : World) (s₀ : σ) : World → σ → Prop
  | here : Later id w₀ s₀ w₀ s₀
  | moved {w : World} {s s' : σ} (before : Later id w₀ s₀ w s)
      (moves : drive.log s <:+ drive.log s')
      (unchanged : changedAt DriveVersion.id (drive.log s') id ≤ (drive.log s).length) :
      Later id w₀ s₀ w s'
  | passed {w : World} {s s' : σ} (before : Later id w₀ s₀ w s) (p : FilesPass)
      (fetched : ∀ since,
        startFrom p.mode (w.db.getCursor ⟨user.sourceId, "files"⟩) = some since →
        Fetches drive since s (p.source since) s' ∧
          (since.isSome = true → drive.log s' = drive.log s))
      (moves : drive.log s <:+ drive.log s')
      (unchanged : changedAt DriveVersion.id (drive.log s') id ≤ (drive.log s).length) :
      Later id w₀ s₀ (p.run g user w) s'

/-- No enumeration has a file that has gone. -/
theorem Read.notMem {pos : Option ℕ} {s s' : σ} {e : Enumeration SourceFile}
    (h : Read drive pos s s' e) (still : pos.isSome = true → drive.log s' = drive.log s)
    (moves : drive.log s <:+ drive.log s') {v : DriveVersion}
    (hv : latest DriveVersion.id (drive.log s) v.id = some v) (hgone : v.gone = true)
    (unchanged : changedAt DriveVersion.id (drive.log s') v.id ≤ (drive.log s).length) :
    v.id ∉ e.items.map SourceFile.sourceId := by
  -- in a log of the meantime it has gone already
  have hnever : ∀ {log₁ : List DriveVersion}, drive.log s <:+ log₁ → log₁ <:+ drive.log s' →
      ∀ f : DriveFile, f.id = v.id → latest DriveVersion.id log₁ f.id ≠ some ⟨f, false⟩ := by
    intro log₁ hlog hlog' f hid hf
    rw [hid, (latest_between hlog hlog' unchanged).1,
      ← (latest_between (List.suffix_refl _) moves unchanged).1, hv] at hf
    rw [Option.some.inj hf] at hgone
    cases hgone
  have hids : ∀ fs : List DriveFile, e.items = fs.map toFile →
      v.id ∈ e.items.map SourceFile.sourceId → ∃ f ∈ fs, f.id = v.id := by
    intro fs hitems hmem
    rw [hitems, List.map_map] at hmem
    exact List.mem_map.mp hmem
  cases h with
  | nothing items => rw [items]; exact List.not_mem_nil
  | listing _ fs items listed =>
    intro hmem
    obtain ⟨f, hf, hid⟩ := hids fs items hmem
    obtain ⟨log₁, hlog, hlog', hlatest⟩ := listed.sound ⟨f, false⟩ (List.mem_map_of_mem hf)
    exact hnever hlog hlog' f hid hlatest
  | changes p position fs items feeds =>
    intro hmem
    obtain ⟨f, hf, hid⟩ := hids fs items hmem
    have hstill := still (position ▸ rfl)
    have hsound := ((feeds hstill).sound ⟨f, false⟩ (List.mem_map_of_mem hf)).1
    exact hnever (List.suffix_refl _) moves f hid hsound

/-- A file that was trashed or removed keeps its row and its copy: over whatever passes run
afterwards, full ones and delta ones, no write is made for it as long as it stays away. -/
theorem gone_file_stays {v : DriveVersion} {w₀ w : World} {s₀ s : σ}
    (hreached : Reached drive g user w₀ s₀)
    (hv : latest DriveVersion.id (drive.log s₀) v.id = some v) (hgone : v.gone = true)
    (h : Later drive g user v.id w₀ s₀ w s) :
    w.db.getItemState (fileKey user "files" v.id) =
        w₀.db.getItemState (fileKey user "files" v.id) ∧
      writesOf (fileKey user "files" v.id) w.log =
        writesOf (fileKey user "files" v.id) w₀.log := by
  have hstays : Untouched user v.id w₀ w ∧
      latest DriveVersion.id (drive.log s) v.id = some v ∧
      ∃ cursor : Option ℕ,
        w.db.getCursor (drive.workload.cursorKey user) = cursor.map drive.tok := by
    induction h with
    | here =>
      obtain ⟨cursor, hcursor, -⟩ := hreached.inStep.synced
      exact ⟨⟨rfl, rfl⟩, hv, cursor, hcursor⟩
    | moved before moves unchanged ih =>
      obtain ⟨hkept, hlatest, hcursor⟩ := ih
      exact ⟨hkept, (latest_between (List.suffix_refl _) moves unchanged).1.symm.trans hlatest,
        hcursor⟩
    | @passed w s s' before p fetched moves unchanged ih =>
      obtain ⟨hkept, hlatest, cursor, hcursor⟩ := ih
      have hlatest' := (latest_between (List.suffix_refl _) moves unchanged).1.symm.trans hlatest
      obtain ⟨hpass, hsaved⟩ := @run_untouched g user p w v.id (fun since start => by
        obtain ⟨pos, -, -, hread, hstill⟩ := read_of_start hcursor fetched start
        exact hread.notMem hstill moves hlatest hgone unchanged)
      refine ⟨hkept.trans hpass, hlatest', ?_⟩
      -- a cursor that is saved is a position again, from which the next pass reads
      rcases hsaved with hsame | ⟨since, c, start, hraised, hc, hcur⟩
      · exact ⟨cursor, hsame.trans hcursor⟩
      · obtain ⟨pos, rfl, -, hread, hstill⟩ := read_of_start hcursor fetched start
        refine ⟨some (drive.log s).length, hcur.trans (congrArg some ?_)⟩
        cases hread with
        | nothing items raised => exact absurd hraised raised
        | listing _ fs _ _ _ hlast => exact hlast c hc
        | changes q position _ _ _ _ hlast => exact hlast (hstill (position ▸ rfl)) c hc
  exact ⟨hstays.1.row, hstays.1.writes⟩

/-! A drive to which a file is added while a full pass lists it. -/

/-- A file is there, another one is added during a listing, and the first one is trashed. -/
inductive Stage where
  | first
  | added
  | trashed
deriving DecidableEq

def notes : DriveFile := { id := "n", name := some "notes.txt", md5Checksum := some "h1" }

def plan : DriveFile := { id := "p", name := some "plan.txt", md5Checksum := some "h2" }

def Stage.log : Stage → List DriveVersion
  | .first => [⟨notes, false⟩]
  | .added => [⟨plan, false⟩, ⟨notes, false⟩]
  | .trashed => [⟨notes, true⟩, ⟨plan, false⟩, ⟨notes, false⟩]

def changeOf (v : DriveVersion) : Change where
  file := some { v.file with trashed := v.gone }

def filesPage (s : Stage) : FilesPage where
  files := ((current DriveVersion.id s.log).filter (fun v => !v.gone)).map DriveVersion.file

def changesPage (s : Stage) (pageToken : String) : ChangesPage where
  changes :=
    (changedSince DriveVersion.id s.log (some (pageToken.toList.length - 1))).map changeOf
  newStartPageToken := some (positionToken s.log.length).val

/-- The second file comes as soon as the first page of a listing is given out. -/
def stageServe : (r : DriveRequest) → Stage → r.Ans × Stage
  | .startPageToken _, s => (.ok (positionToken s.log.length).val, s)
  | .files .., s => (.ok (filesPage s), if s = .first then .added else s)
  | .changes _ pageToken, s => (.ok (changesPage s pageToken), s)

theorem version_changeOf (v : DriveVersion) : (changeOf v).version = v := by
  obtain ⟨f, gone⟩ := v
  cases gone <;> rfl

theorem versionsOf_changesPage (s : Stage) (pageToken : String) :
    versionsOf [changesPage s pageToken] =
      changedSince DriveVersion.id s.log (some (pageToken.toList.length - 1)) := by
  simp only [versionsOf, List.flatMap_singleton, changesPage, List.filter_map, List.map_map]
  rw [List.filter_eq_self.mpr (fun v _ => by rfl)]
  exact (List.map_congr_left (fun v _ => version_changeOf v)).trans (List.map_id _)

/-- The files that are there, in the version that counts. -/
theorem present_filesPage (s : Stage) :
    (filesPage s).files.map (fun f => DriveVersion.mk f false) =
      (current DriveVersion.id s.log).filter (fun v => !v.gone) := by
  rw [filesPage, List.map_map]
  refine (List.map_congr_left (fun v hv => ?_)).trans (List.map_id _)
  have hhere := (List.mem_filter.mp hv).2
  obtain ⟨f, gone⟩ := v
  cases gone
  · rfl
  · cases hhere

theorem mem_filesPage {s : Stage} {f : DriveFile}
    (h : latest DriveVersion.id s.log f.id = some ⟨f, false⟩) : f ∈ (filesPage s).files := by
  have hcurrent : (⟨f, false⟩ : DriveVersion) ∈ current DriveVersion.id s.log :=
    (mem_current s.log ⟨f, false⟩).mpr h
  exact List.mem_map.mpr ⟨⟨f, false⟩, List.mem_filter.mpr ⟨hcurrent, rfl⟩, rfl⟩

/-- A listing is one page. -/
theorem one_filesPage {s t : Stage} {pages : List FilesPage} {e : Option Exc}
    (h : FilesChain stageServe none s (some none) pages e t) :
    pages = [filesPage s] ∧ t = (stageServe (.files none none) s).2 := by
  obtain ⟨hpages, -, ht⟩ := h.unique (.page rfl (.last _))
  exact ⟨hpages, ht⟩

theorem one_changesPage {s t : Stage} {pageToken : String} {pages : List ChangesPage}
    {e : Option Exc} (h : ChangesChain stageServe none s (some pageToken) pages e t) :
    pages = [changesPage s pageToken] :=
  (h.unique (.page rfl (.last _))).1

theorem stage_grows (r : DriveRequest) (s : Stage) : s.log <:+ (stageServe r s).2.log := by
  cases r with
  | startPageToken _ => exact List.suffix_refl _
  | changes _ _ => exact List.suffix_refl _
  | files _ _ =>
    cases s with
    | first => exact ⟨[⟨plan, false⟩], rfl⟩
    | added => exact List.suffix_refl _
    | trashed => exact List.suffix_refl _

def stageDrive : Drive Stage where
  serve := stageServe
  log := Stage.log
  own _ := True
  tok := positionToken
  tok_injective := positionToken_injective
  grows := stage_grows
  start s token h := (Except.ok.inj h).symm
  listed s t pages e h := by
    obtain ⟨rfl, rfl⟩ := one_filesPage h
    rw [List.flatMap_singleton, present_filesPage]
    refine ⟨(nodup_current _).sublist (List.filter_sublist.map _), fun v hv => ?_⟩
    exact ⟨s.log, List.suffix_refl _, stage_grows _ s,
      (mem_current s.log v).mp (List.mem_of_mem_filter hv)⟩
  whole s t pages h f hlasts _ := by
    obtain ⟨rfl, rfl⟩ := one_filesPage h
    rw [List.flatMap_singleton]
    exact mem_filesPage (hlasts.before (stage_grows _ s)).1
  changes s t p pages h _ := by
    obtain rfl := one_changesPage h
    have hposition : (positionToken p).val.toList.length - 1 = p := position_positionToken p
    rw [versionsOf_changesPage, hposition]
    exact ⟨feeds_changedSince _ _, whole_changedSince _ _ _,
      fun token htoken => (Option.some.inj htoken).symm⟩

/-- What the full pass has of the drive. -/
def firstListing : FilesPass where
  mode := .full
  source _ := { items := [toFile notes], lastCursor := some (positionToken 1) }

/-- What comes behind the cursor of the full pass. -/
def changesSinceFirst : Enumeration SourceFile where
  items := [toFile plan]
  lastCursor := some (positionToken 2)

theorem stage_passed (user : UserMapping) :
    Reached stageDrive calmGraph user (firstListing.run calmGraph user {}) .added := by
  refine .passed (.start .first) firstListing (fun since start => ?_) ⟨[⟨plan, false⟩], rfl⟩
    (fun _ => ⟨fun v _ _ _ hash hhash => ?_, fun feed w' hfeed t ht hfolder => ?_⟩)
  · obtain rfl : since = none := (Option.some.inj start).symm
    exact ⟨⟨1, by rfl⟩, fun h => by cases h⟩
  · exact absurd hhash (by simp [Workload.applied, Db.applied, Db.getItemState])
  · obtain ⟨rfl, rfl⟩ := Prod.mk.inj (Option.some.inj hfeed)
    rw [List.mem_singleton.mp ht] at hfolder
    have hfile : (toFile notes).isFolder = false := by decide
    exact absurd (hfile.symm.trans hfolder) (by simp)

/-- The file that was added during the listing is not done, and is in the changes behind the
cursor. -/
theorem drive_nothing_lost_plan :
    Fetches stageDrive (some (positionToken 1)) .added changesSinceFirst .added ∧
      toFile plan ∈ changesSinceFirst.items := by
  let user : UserMapping := ⟨"a@source", "a@dest"⟩
  have hfetch : Fetches stageDrive (some (positionToken 1)) .added changesSinceFirst .added :=
    ⟨1, by rfl⟩
  have hcases := drive_nothing_lost (stage_passed user) (positionToken 1) (by decide)
    changesSinceFirst .added hfetch rfl rfl plan (by decide) trivial (Or.inr (by decide))
  refine ⟨hfetch, hcases.resolve_left ?_⟩
  rintro ⟨row, hrow, -⟩
  have hnone : (firstListing.run calmGraph user {}).db.getItemState
      (fileKey user "files" plan.id) = none := by decide
  rw [hnone] at hrow
  cases hrow

/-- The copy of the file that was trashed stays, whatever passes come. -/
theorem gone_file_stays_notes :
    let user : UserMapping := ⟨"a@source", "a@dest"⟩
    let w := firstListing.run calmGraph user {}
    w.db.isDone (fileKey user "files" "n") = true ∧
      ∀ w' s', Later stageDrive calmGraph user "n" w .trashed w' s' →
        w'.db.getItemState (fileKey user "files" "n") =
          w.db.getItemState (fileKey user "files" "n") := by
  intro user w
  refine ⟨by decide, fun w' s' hlater => ?_⟩
  have hreached : Reached stageDrive calmGraph user w .trashed :=
    (stage_passed user).moved ⟨[⟨notes, true⟩], rfl⟩
  let gone : DriveVersion := ⟨notes, true⟩
  have hgone : latest DriveVersion.id (stageDrive.log .trashed) gone.id = some gone := by decide
  exact (gone_file_stays hreached hgone rfl hlater).1

end GwsMigrator.GoogleDrive
