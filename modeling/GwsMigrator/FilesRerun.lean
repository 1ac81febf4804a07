import GwsMigrator.FilesPlacement
import GwsMigrator.FolderCalls

/-! A full files pass over a batch that an earlier full pass has migrated: it looks up the folders
again and writes nothing. -/
namespace GwsMigrator
open Dialogue Worklist

section
variable (g : Graph) (user : UserMapping) (workload : String) (mode : Mode)
  (items : List SourceFile)

/-- What a full pass without failures leaves of the items with the ids `P`: a folder has its
entry in the folder map and the id in its row, a file is done or skipped. -/
structure FilesRecorded (P : Set String) (st : FilesLoop) : Prop where
  folders : ∀ f ∈ items, f.isFolder = true → f.sourceId ∈ P → ∃ d,
    st.dest user workload f.sourceId = some d ∧
    st.world.db.core (fileKey user workload f.sourceId) = some (.done, some d, f.contentHash) ∧
    ∃ parent, FolderMade user workload st.world f.sourceId parent f.name d ∧
      Returned g st.world.log
        (.ensureFolder (fileKey user workload f.sourceId) parent f.name) d
  skipped : ∀ f ∈ items, f.isFolder = false → f.action = .skip → f.sourceId ∈ P →
    st.world.db.core (fileKey user workload f.sourceId) = some (.skipped, none, none)
  done : ∀ f ∈ items, f.isFolder = false → f.action ≠ .skip → f.sourceId ∈ P →
    st.world.db.isDone (fileKey user workload f.sourceId) = true

/-- What a full pass meets that has nothing left to do. -/
structure FilesSettled (w : World) : Prop where
  folders : ∀ f ∈ items, f.isFolder = true → ∃ d,
    w.db.getFolderDest (fileKey user workload f.sourceId) = some d ∧
    w.db.core (fileKey user workload f.sourceId) = some (.done, some d, f.contentHash) ∧
    Returned g w.log (.ensureFolder (fileKey user workload f.sourceId)
      ((sourceHome items f).bind (fun p => w.db.getFolderDest (fileKey user workload p))) f.name) d
  skipped : ∀ f ∈ items, f.isFolder = false → f.action = .skip →
    w.db.core (fileKey user workload f.sourceId) = some (.skipped, none, none)
  done : ∀ f ∈ items, f.isFolder = false → f.action ≠ .skip →
    w.db.isDone (fileKey user workload f.sourceId) = true
  others : ∀ p, isBatchFolder items p = false →
    w.db.getFolderDest (fileKey user workload p) = none

variable {g user workload mode items} {w₀ : World} {P : Set String} {st st' : FilesLoop}
  {f : SourceFile}

variable (user workload st f) in
theorem parentFor_log (defer : Bool) :
    (parentFor user workload st f defer).2.world.log = st.world.log := by
  have hresolve := resolve_world user workload st f.parentId
  unfold parentFor
  generalize resolve user workload st f.parentId = result at hresolve ⊢
  obtain ⟨found, st₁⟩ := result
  have hlog : st₁.world.log = st.world.log := congrArg World.log hresolve
  cases found with
  | some dest => exact hlog
  | none =>
    simp only
    split
    · exact hlog
    · split <;> exact hlog

variable (g user workload st f) in
/-- The branch for folders makes one call at most. -/
theorem processFolder_log (defer : Bool) :
    (processFolder g user workload st f defer).2.world.log = st.world.log ∨
    ∃ parent, (processFolder g user workload st f defer).2.world.log =
      ⟨.ensureFolder (fileKey user workload f.sourceId) parent f.name,
        g.answer st.world.log
          (.ensureFolder (fileKey user workload f.sourceId) parent f.name)⟩ :: st.world.log := by
  have hparent := parentFor_log user workload st f defer
  unfold processFolder
  generalize parentFor user workload st f defer = result at hparent ⊢
  obtain ⟨found, st₁⟩ := result
  cases found with
  | error stop => exact Or.inl hparent
  | ok parent =>
    have hlog : st₁.world.log = st.world.log := hparent
    refine Or.inr ⟨parent, ?_⟩
    simp only
    cases hask : g.ask st₁.world
        (.ensureFolder (fileKey user workload f.sourceId) parent f.name)
    all_goals
      simp only [failRow, World.upsertItem_log, World.upsertFolder, Graph.after_log, hask]
      rw [← hlog, ← hask]
      rfl

variable (g user workload mode st f) in
theorem processFile_folder_log (folder : f.isFolder = true) (defer : Bool) :
    (processFile g user workload mode st f defer).2.world.log = st.world.log ∨
    ∃ parent, (processFile g user workload mode st f defer).2.world.log =
      ⟨.ensureFolder (fileKey user workload f.sourceId) parent f.name,
        g.answer st.world.log
          (.ensureFolder (fileKey user workload f.sourceId) parent f.name)⟩ :: st.world.log := by
  rw [processFile, if_pos folder]
  exact processFolder_log g user workload st f defer

theorem FilesRecorded.put_off (h : FilesRecorded g user workload items P st)
    (hchange : FileChange user workload st st' f none none none false) :
    FilesRecorded g user workload items P st' := by
  have hrows : st'.world.db.getItemState = st.world.db.getItemState := hchange.rows
  have hdest : st'.dest user workload = st.dest user workload := hchange.dest
  have hcore : st'.world.db.core = st.world.db.core := by
    funext k
    rw [Db.core, hrows, Db.core]
  have hwrites : ∀ k, writesOf k st'.world.log = writesOf k st.world.log := by
    intro k
    rw [writesOf, hchange.quiet_writes, writesOf]
  refine ⟨fun x hx hfolder hP => ?_, fun x hx hfile haction hP => ?_,
    fun x hx hfile haction hP => ?_⟩
  · obtain ⟨d, hd, hrow, parent, hmade, hreturned⟩ := h.folders x hx hfolder hP
    refine ⟨d, ?_, ?_, parent, hmade.congr (hwrites _), hreturned.grow hchange.grows⟩
    · rw [hdest]
      exact hd
    · rw [hcore]
      exact hrow
  · rw [hcore]
    exact h.skipped x hx hfile haction hP
  · rw [Db.isDone_eq, hrows, ← Db.isDone_eq]
    exact h.done x hx hfile haction hP

/-- An item that was settled before keeps its record. -/
theorem FilesRecorded.settle (h : FilesRecorded g user workload items P st)
    (hnodup : (items.map SourceFile.sourceId).Nodup) (hf : f ∈ items)
    {row : Option ItemValues} {made : Option Token} {write : Option DriveWrite} {fails : Bool}
    (hchange : FileChange user workload st st' f row made write fails)
    (htouches : OnlyTouches (fileKey user workload f.sourceId) st.world st'.world)
    (hfolder : f.isFolder = true → ∃ parent d, made = some d ∧
      st'.world.db.core (fileKey user workload f.sourceId) = some (.done, some d, f.contentHash) ∧
      FolderMade user workload st'.world f.sourceId parent f.name d ∧
      Returned g st'.world.log
        (.ensureFolder (fileKey user workload f.sourceId) parent f.name) d)
    (hskipped : f.isFolder = false → f.action = .skip →
      st'.world.db.core (fileKey user workload f.sourceId) = some (.skipped, none, none))
    (hdone : f.isFolder = false → f.action ≠ .skip →
      st'.world.db.isDone (fileKey user workload f.sourceId) = true) :
    FilesRecorded g user workload items (insert f.sourceId P) st' := by
  have hkey : ∀ {x : SourceFile}, x.sourceId ≠ f.sourceId →
      fileKey user workload x.sourceId ≠ fileKey user workload f.sourceId :=
    fun hne => fileKey_inj.not.mpr hne
  refine ⟨fun x hx hxf hP => ?_, fun x hx hfile haction hP => ?_,
    fun x hx hfile haction hP => ?_⟩
  · rcases settled_cases hnodup hf hx hP with rfl | ⟨hP, hne⟩
    · obtain ⟨parent, d, rfl, hrow, hmade, hreturned⟩ := hfolder hxf
      exact ⟨d, hchange.dest_made, hrow, parent, hmade, hreturned⟩
    · obtain ⟨d, hd, hrow, parent, hmade, hreturned⟩ := h.folders x hx hxf hP
      refine ⟨d, (hchange.dest_of_ne hne).trans hd, ?_, parent,
        hmade.congr (htouches.writesOf_of_ne (hkey hne)), hreturned.grow hchange.grows⟩
      rw [Db.core, htouches.rows _ (hkey hne)]
      exact hrow
  · rcases settled_cases hnodup hf hx hP with rfl | ⟨hP, hne⟩
    · exact hskipped hfile haction
    · rw [Db.core, htouches.rows _ (hkey hne)]
      exact h.skipped x hx hfile haction hP
  · rcases settled_cases hnodup hf hx hP with rfl | ⟨hP, hne⟩
    · exact hdone hfile haction
    · rw [Db.isDone_eq, htouches.rows _ (hkey hne), ← Db.isDone_eq]
      exact h.done x hx hfile haction hP

/-- The row that a step leaves. -/
theorem FileChange.core {v : ItemValues} {made : Option Token} {write : Option DriveWrite}
    {fails : Bool} (h : FileChange user workload st st' f (some v) made write fails) :
    st'.world.db.core (fileKey user workload f.sourceId) = some v.core := by
  rw [Db.core, h.rows]
  simp

/-- The call of a folder that was made returned its id. -/
theorem returned_of_folder {parent : Option Token} {d : Token}
    (hlog : st'.world.log = st.world.log ∨ ∃ parent, st'.world.log =
      ⟨.ensureFolder (fileKey user workload f.sourceId) parent f.name,
        g.answer st.world.log
          (.ensureFolder (fileKey user workload f.sourceId) parent f.name)⟩ :: st.world.log)
    (hwrites : driveWrites st'.world.log =
      .folder (fileKey user workload f.sourceId) parent f.name d :: driveWrites st.world.log) :
    st'.world.log = ⟨.ensureFolder (fileKey user workload f.sourceId) parent f.name, .ok d⟩ ::
        st.world.log ∧
      g.answer st.world.log (.ensureFolder (fileKey user workload f.sourceId) parent f.name) =
        .ok d := by
  rcases hlog with hsame | ⟨parent', hcall⟩
  · -- without a call there is no write
    rw [hsame] at hwrites
    exact absurd hwrites.symm (List.cons_ne_self _ _)
  · rw [hcall, driveWrites] at hwrites
    cases hans : g.answer st.world.log
        (.ensureFolder (fileKey user workload f.sourceId) parent' f.name) with
    | error e =>
      rw [hans, List.filterMap_cons_none rfl] at hwrites
      exact absurd hwrites.symm (List.cons_ne_self _ _)
    | ok d' =>
      rw [hans] at hwrites
      have hcons : DriveWrite.folder (fileKey user workload f.sourceId) parent' f.name d' ::
          driveWrites st.world.log =
          .folder (fileKey user workload f.sourceId) parent f.name d :: driveWrites st.world.log :=
        hwrites
      -- the two writes have the same parent and the same id
      obtain ⟨heq, -⟩ := List.cons.inj hcons
      cases heq
      exact ⟨hcall.trans (by rw [hans]), hans⟩

variable (mode) in
/-- A step of the first pass, on an item that is not settled yet. -/
theorem FilesRecorded.step (h : FilesRecorded g user workload items P st)
    (hm : Mapped user workload items w₀ P st) (hcalm : NoFailure g)
    (hempty : Unseen user workload w₀) (hnodup : (items.map SourceFile.sourceId).Nodup)
    (hf : f ∈ items) (hopen : f.sourceId ∉ P) (defer : Bool) :
    FilesRecorded g user workload items
      (if (processFile g user workload mode st f defer).1 = .deferred then P
        else insert f.sourceId P)
      (processFile g user workload mode st f defer).2 := by
  obtain ⟨hnotAlone, hexisting⟩ := hempty.fresh mode hm hf hopen
  have hlog := fun folder => processFile_folder_log g user workload mode st f folder defer
  have hstep := processFile_step g user workload mode st f defer
  have htouches := hstep.onlyTouches
  generalize processFile g user workload mode st f defer = result at *
  obtain ⟨v, st'⟩ := result
  have hok : v ≠ .failed := hstep.not_failed hcalm hm.failed
  cases hstep with
  | leftAlone file alone =>
    rw [hnotAlone] at alone
    cases alone
  | skipped _ row file alone action status noDest change hash =>
    rw [if_neg (by simp)]
    refine h.settle hnodup hf change htouches (SourceFile.not_both file) (fun _ _ => ?_)
      (fun _ haction => absurd action haction)
    rw [change.core, ItemValues.core, status, noDest, hash]
  | deferred _ p parent unknown notFailed may file change =>
    rw [if_pos rfl]
    exact h.put_off change
  | folderMade _ row parentDest id folder placed answered status dest hash change =>
    rw [if_neg (by simp)]
    refine h.settle hnodup hf change htouches (fun _ => ?_)
      (fun file => SourceFile.not_both file folder) (fun file => SourceFile.not_both file folder)
    -- the row, the entry and the answer of the folder call name one destination
    obtain ⟨hlast, hanswer⟩ := returned_of_folder (hlog folder) change.writes
    refine ⟨parentDest, id, rfl, ?_, ?_, st.world.log, ?_, hanswer⟩
    · rw [change.core, ItemValues.core, status, dest, hash]
    · rw [FolderMade, change.writesOf (by simp [DriveWrite.src])]
      rfl
    · rw [hlast]
  | transferred _ row parentDest write file alone action placed written status dest hash change =>
    rw [if_neg (by simp)]
    refine h.settle hnodup hf change htouches (SourceFile.not_both file)
      (fun _ haction => absurd haction action) (fun _ _ => ?_)
    have hcore := change.core
    rw [ItemValues.core, status] at hcore
    exact Db.isDone_of_core _ hcore
  | parentFailed | folderFailed | transferFailed => exact absurd rfl hok

theorem FilesRecorded.counted (h : FilesRecorded g user workload items P st) (n : ℕ) :
    FilesRecorded g user workload items P { st with failures := n } :=
  ⟨h.folders, h.skipped, h.done⟩

/-- The invariant of the first pass. -/
def Recording (g : Graph) (user : UserMapping) (workload : String) (items : List SourceFile)
    (w₀ : World) (P : Set String) (st : FilesLoop) : Prop :=
  Mapped user workload items w₀ P st ∧ FilesRecorded g user workload items P st

variable (mode) in
theorem Recording.step (h : Recording g user workload items w₀ P st) (hcalm : NoFailure g)
    (hempty : Unseen user workload w₀) (hnodup : (items.map SourceFile.sourceId).Nodup)
    (hf : f ∈ items) (hopen : f.sourceId ∉ P) (defer : Bool) :
    Recording g user workload items w₀
      (if (fileStep g user workload mode defer st f).1 then P else insert f.sourceId P)
      (fileStep g user workload mode defer st f).2 := by
  have hmapped := h.1.step hcalm hnodup hf (processFile_step g user workload mode st f defer)
  have hrecorded := h.2.step mode h.1 hcalm hempty hnodup hf hopen defer
  rw [fileStep_eq]
  simp only [decide_eq_true_eq]
  exact ⟨hmapped.counted _, hrecorded.counted _⟩

variable (g user workload mode) in
/-- The end of a first pass. -/
theorem migrate_recording (feed : Enumeration SourceFile) (w : World) (hcalm : NoFailure g)
    (hempty : Unseen user workload w) (hraised : feed.raised = none)
    (hnodup : (feed.items.map SourceFile.sourceId).Nodup) :
    ∃ P, (∀ f ∈ feed.items, f.sourceId ∈ P) ∧
      Recording g user workload feed.items w P (migrateFiles g user workload mode feed w) := by
  rw [migrateFiles_whole g user workload mode hraised]
  refine Worklist.process_induction (J := fun P st => Recording g user workload feed.items w P st)
    (.of_step (fun st f => fileStep_forced st f) ?_) hnodup _ ?_
  · intro d P st f hf hJ hopen
    exact hJ.step mode hcalm hempty hnodup hf hopen d
  · have hnone : ∀ f : SourceFile, f.sourceId ∉ (∅ : Set String) := fun f => Set.notMem_empty _
    exact ⟨mapped_start w, fun f _ _ hP => absurd hP (hnone f),
      fun f _ _ _ hP => absurd hP (hnone f), fun f _ _ _ hP => absurd hP (hnone f)⟩

variable (g user workload mode) in
/-- A first pass without failures leaves nothing to do. -/
theorem migrate_settled (feed : Enumeration SourceFile) (w : World) (hcalm : NoFailure g)
    (hempty : Unseen user workload w) (hraised : feed.raised = none)
    (hnodup : (feed.items.map SourceFile.sourceId).Nodup)
    (hacyclic : Acyclic SourceFile.sourceId SourceFile.parentId feed.items) :
    FilesSettled g user workload feed.items (migrateFiles g user workload mode feed w).world := by
  obtain ⟨P, hall, hmapped, hrecorded⟩ :=
    migrate_recording g user workload mode feed w hcalm hempty hraised hnodup
  obtain ⟨Q, hallQ, hplacing⟩ :=
    migrate_placing g user workload mode feed w hcalm hempty hraised hnodup hacyclic
  refine ⟨fun f hf folder => ?_, fun f hf file action => hrecorded.skipped f hf file action
    (hall f hf), fun f hf file action => hrecorded.done f hf file action (hall f hf),
    fun p hp => ?_⟩
  · obtain ⟨d, hd, hrow, parent, hmade, hreturned⟩ := hrecorded.folders f hf folder (hall f hf)
    obtain ⟨write, hwrites, -, hhome⟩ := hplacing.placed f hf (hallQ f hf) (Or.inl folder)
    -- the call had the parent that the folder map has now
    have hparent : (sourceHome feed.items f).bind (fun p =>
        (migrateFiles g user workload mode feed w).world.db.getFolderDest
          (fileKey user workload p)) = parent := by
      rw [FolderMade, hwrites, List.head?_cons, Option.some.injEq] at hmade
      rw [hmade] at hhome
      cases hsource : sourceHome feed.items f with
      | none =>
        rw [hsource] at hhome
        exact hhome.symm
      | some p =>
        rw [hsource] at hhome
        obtain ⟨d', hd', hfolder, -⟩ := hhome
        exact hfolder.trans hd'.symm
    rw [← hparent] at hreturned
    exact ⟨d, (hmapped.synced _).symm.trans hd, hrow, hreturned⟩
  · -- an id that no folder of the batch has is as unknown as before
    have hkept := hmapped.kept p (fun x hx folder hid _ => by
      have hbatch : isBatchFolder feed.items p = true :=
        List.any_eq_true.mpr ⟨x, hx, by simp [folder, hid]⟩
      rw [hp] at hbatch
      cases hbatch)
    exact (hmapped.synced p).symm.trans (hkept.trans (hempty.folders p))

theorem FilesSettled.congr {w w' : World} (h : FilesSettled g user workload items w)
    (hcore : w'.db.core = w.db.core) (hfolders : w'.db.getFolderDest = w.db.getFolderDest)
    (hlog : w.log <:+ w'.log) : FilesSettled g user workload items w' := by
  refine ⟨fun f hf folder => ?_, fun f hf file action => ?_, fun f hf file action => ?_,
    fun p hp => ?_⟩
  · obtain ⟨d, hd, hrow, hreturned⟩ := h.folders f hf folder
    rw [hfolders, hcore]
    exact ⟨d, hd, hrow, hreturned.grow hlog⟩
  · rw [hcore]
    exact h.skipped f hf file action
  · rw [Db.isDone_eq_core, hcore, ← Db.isDone_eq_core]
    exact h.done f hf file action
  · rw [hfolders]
    exact h.others p hp

/-- Every parent is known by now, so an item goes where the first pass put it. -/
theorem FilesSettled.parent_of_placed (h : FilesSettled g user workload items st.world)
    (hsynced : ∀ p, st.dest user workload p =
      st.world.db.getFolderDest (fileKey user workload p)) {defer : Bool} {parent : Option Token}
    (hplaced : Placed user workload st f defer parent) :
    parent = (sourceHome items f).bind
      (fun p => st.world.db.getFolderDest (fileKey user workload p)) := by
  cases hplaced with
  | noParent hnone =>
    rw [sourceHome_eq_none.mpr (fun p hp => absurd hp (hnone p))]
    rfl
  | under p d hp hd =>
    rw [hsynced] at hd
    -- nothing else is in the folder map
    have hbatch : isBatchFolder items p = true := by
      by_contra hnot
      rw [h.others p (by simpa using hnot)] at hd
      cases hd
    obtain ⟨q, hq, hfolder⟩ := List.any_eq_true.mp hbatch
    simp only [Bool.and_eq_true, decide_eq_true_eq] at hfolder
    have hhome : sourceHome items f = some p :=
      sourceHome_eq_some.mpr ⟨hp, q, hq, hfolder.1, hfolder.2⟩
    rw [hhome]
    exact hd.symm
  | rooted p hp hd =>
    rw [hsynced] at hd
    have hhome : sourceHome items f = none := by
      apply sourceHome_eq_none.mpr
      intro p' hp' q hq folder hid
      obtain rfl := hp'.unique hp
      obtain ⟨d, hd', -⟩ := h.folders q hq folder
      rw [hid, hd] at hd'
      cases hd'
    rw [hhome]
    rfl

/-- What holds in a further full pass that began in `w₁`. -/
structure Repeating (dest : Destination) (g : Graph) (user : UserMapping) (workload : String)
    (items : List SourceFile) (w₁ : World) (st : FilesLoop) : Prop where
  settled : FilesSettled g user workload items st.world
  synced : ∀ p, st.dest user workload p = st.world.db.getFolderDest (fileKey user workload p)
  failed : st.failed = ∅
  core : st.world.db.core = w₁.db.core
  folders : st.world.db.getFolderDest = w₁.db.getFolderDest
  untouched : dest.Untouched w₁.log st.world.log

section again

variable {dest : Destination} {w₁ : World}

/-- A step that writes the same again. -/
theorem Repeating.same (h : Repeating dest g user workload items w₁ st)
    (hcore : st'.world.db.core = st.world.db.core)
    (hfolders : st'.world.db.getFolderDest = st.world.db.getFolderDest)
    (hdest : st'.dest user workload = st.dest user workload) (hfailed : st'.failed = st.failed)
    (hlog : dest.Untouched st.world.log st'.world.log) :
    Repeating dest g user workload items w₁ st' := by
  refine ⟨h.settled.congr hcore hfolders hlog.grows, fun p => ?_, hfailed.trans h.failed,
    hcore.trans h.core, hfolders.trans h.folders, h.untouched.trans hlog⟩
  rw [hdest, hfolders]
  exact h.synced p

/-- A row that is written as it was. -/
theorem FileChange.same_core {v : ItemValues} {made : Option Token} {write : Option DriveWrite}
    {fails : Bool} (h : FileChange user workload st st' f (some v) made write fails)
    (hsame : st.world.db.core (fileKey user workload f.sourceId) = some v.core) :
    st'.world.db.core = st.world.db.core := by
  funext k
  by_cases hk : k = fileKey user workload f.sourceId
  · rw [hk, h.core, hsame]
  · rw [Db.core, h.rows, Option.elim_some, Function.update_of_ne hk, Db.core]

variable (g user workload mode st f) in
/-- An item that is put off has asked nothing. -/
theorem processFile_deferred_log (defer : Bool)
    (h : (processFile g user workload mode st f defer).1 = .deferred) :
    (processFile g user workload mode st f defer).2.world.log = st.world.log := by
  have hparent := parentFor_log user workload st f defer
  -- a file that is fetched is not put off any more
  have htransfer : ∀ st₁ existing parent,
      (transferFile g user workload st₁ f existing parent).1 ≠ .deferred := by
    intro st₁ existing parent
    obtain ⟨st₂, write, v, heq, -⟩ | ⟨st₂, v, heq, -⟩ :=
      transferFile_cases g user workload st₁ f existing parent
    all_goals
      rw [heq]
      simp
  unfold processFile at h ⊢
  by_cases hfolder : f.isFolder = true
  · rw [if_pos hfolder] at h ⊢
    unfold processFolder at h ⊢
    generalize parentFor user workload st f defer = result at hparent h ⊢
    obtain ⟨found, st₁⟩ := result
    cases found with
    | error stop => exact hparent
    | ok parent =>
      simp only at h
      split at h <;> cases h
  · rw [if_neg hfolder] at h ⊢
    by_cases halone : leftAlone user workload mode st.world.db f = true
    · rw [if_pos halone] at h
      cases h
    rw [if_neg halone] at h ⊢
    by_cases haction : f.action = .skip
    · rw [if_pos haction] at h
      cases h
    rw [if_neg haction] at h ⊢
    cases hex : existingDest user workload mode st.world.db f with
    | some id =>
      rw [hex] at h
      exact absurd h (htransfer st (some id) none)
    | none =>
      rw [hex] at h
      simp only at h ⊢
      generalize parentFor user workload st f defer = result at hparent h ⊢
      obtain ⟨found, st₁⟩ := result
      cases found with
      | error stop => exact hparent
      | ok parent => exact absurd h (htransfer st₁ none parent)

variable (g user workload mode st f) in
theorem processFile_skipped_log (file : f.isFolder = false)
    (alone : leftAlone user workload mode st.world.db f = false) (action : f.action = .skip)
    (defer : Bool) :
    (processFile g user workload mode st f defer).2.world.log = st.world.log := by
  have hfolder : ¬ f.isFolder = true := by simp [file]
  have halone : ¬ leftAlone user workload mode st.world.db f = true := by simp [alone]
  rw [processFile, if_neg hfolder, if_neg halone, if_pos action]
  rfl

/-- A folder is looked up again under the same parent, is found, and has the same id. -/
theorem Repeating.folder_again (h : Repeating dest g user workload items w₁ st)
    (hgoverns : dest.Governs g) (hf : f ∈ items) (folder : f.isFolder = true) {defer : Bool}
    {parent : Option Token} {id : Token} {row : ItemValues}
    (placed : Placed user workload st f defer parent)
    (hlog : st'.world.log =
      ⟨.ensureFolder (fileKey user workload f.sourceId) parent f.name, .ok id⟩ :: st.world.log)
    (hanswer : g.answer st.world.log
      (.ensureFolder (fileKey user workload f.sourceId) parent f.name) = .ok id)
    (hrow : row.core = (.done, some id, f.contentHash))
    (hchange : FileChange user workload st st' f (some row) (some id)
      (some (.folder (fileKey user workload f.sourceId) parent f.name id)) false) :
    Repeating dest g user workload items w₁ st' := by
  obtain ⟨d, hd, hcore, before, hbefore, hfirst⟩ := h.settled.folders f hf folder
  rw [← h.settled.parent_of_placed h.synced placed] at hbefore hfirst
  rw [hgoverns.folders] at hfirst hanswer
  -- the folder was asked for before, under this parent and with this name
  have hasked : dest.driveHost.Asked parent f.name before st.world.log := ⟨_, rfl, hbefore⟩
  obtain ⟨hsent, hsame⟩ := hgoverns.driveSteady.found_again hasked hfirst
  obtain rfl : id = d := hsame id hanswer
  refine h.same (hchange.same_core (hcore.trans (congrArg some hrow.symm))) ?_ ?_ ?_ ?_
  · rw [hchange.folders, Option.elim_some, ← hd, Function.update_eq_self]
  · rw [hchange.dest, Option.elim_some, ← hd, ← h.synced, Function.update_eq_self]
  · exact hchange.failed
  · rw [hlog]
    exact (Destination.Untouched.refl dest st.world.log).cons _ hsent

/-- A step of a further pass, whether or not its item may be put off. -/
theorem Repeating.step (h : Repeating dest g user workload items w₁ st)
    (hgoverns : dest.Governs g) (hcalm : NoFailure g) (hf : f ∈ items) (defer : Bool) :
    Repeating dest g user workload items w₁
      (processFile g user workload .full st f defer).2 := by
  have hfolderLog := fun folder => processFile_folder_log g user workload .full st f folder defer
  have hskippedLog := fun file alone action =>
    processFile_skipped_log g user workload .full st f file alone action defer
  have hdeferredLog := processFile_deferred_log g user workload .full st f defer
  have hstep := processFile_step g user workload .full st f defer
  generalize processFile g user workload .full st f defer = result at *
  obtain ⟨v, st'⟩ := result
  -- a file that is not skipped is done
  have hdone : ∀ {Q : Prop}, f.isFolder = false →
      leftAlone user workload .full st.world.db f = false → f.action ≠ .skip → Q := by
    intro Q file alone action
    have hdone := h.settled.done f hf file action
    have halone : st.world.db.isDone (fileKey user workload f.sourceId) = false := alone
    rw [hdone] at halone
    cases halone
  have hok : v ≠ .failed := hstep.not_failed hcalm h.failed
  cases hstep with
  | leftAlone file alone => exact h
  | skipped _ row file alone action status noDest change hash =>
    have hrow : row.core = (.skipped, none, none) := by
      rw [ItemValues.core, status, noDest, hash]
    have hlog : st'.world.log = st.world.log := hskippedLog file alone action
    refine h.same (change.same_core ?_) change.folders change.dest change.failed ?_
    · rw [hrow]
      exact h.settled.skipped f hf file action
    · rw [hlog]
      exact Destination.Untouched.refl dest _
  | deferred _ p parent unknown notFailed may file change =>
    have hrows : st'.world.db.getItemState = st.world.db.getItemState := change.rows
    have hlog : st'.world.log = st.world.log := hdeferredLog rfl
    refine h.same ?_ change.folders change.dest change.failed ?_
    · funext k
      rw [Db.core, hrows, Db.core]
    · rw [hlog]
      exact Destination.Untouched.refl dest _
  | folderMade _ row parentDest id folder placed answered status dest' hash change =>
    obtain ⟨hlog, hanswer⟩ := returned_of_folder (hfolderLog folder) change.writes
    have hrow : row.core = (.done, some id, f.contentHash) := by
      rw [ItemValues.core, status, dest', hash]
    exact h.folder_again hgoverns hf folder placed hlog hanswer hrow change
  | transferred _ row parentDest write file alone action => exact hdone file alone action
  | parentFailed | folderFailed | transferFailed => exact absurd rfl hok

theorem Repeating.counted (h : Repeating dest g user workload items w₁ st) (n : ℕ) :
    Repeating dest g user workload items w₁ { st with failures := n } :=
  ⟨h.settled, h.synced, h.failed, h.core, h.folders, h.untouched⟩

variable (user workload) in
/-- A further full pass over the same items leaves the state as it is and writes nothing. -/
theorem migrate_again (hgoverns : dest.Governs g) (hcalm : NoFailure g)
    (feed : Enumeration SourceFile) (w : World)
    (hsettled : FilesSettled g user workload feed.items w) :
    Repeating dest g user workload feed.items w (migrateFiles g user workload .full feed w) := by
  have hstart : Repeating dest g user workload feed.items w { world := w } := by
    refine ⟨hsettled, fun p => ?_, rfl, rfl, rfl, Destination.Untouched.refl dest _⟩
    simp [FilesLoop.dest]
  have hstep : ∀ d st, ∀ f ∈ feed.items, Repeating dest g user workload feed.items w st →
      Repeating dest g user workload feed.items w (fileStep g user workload .full d st f).2 := by
    intro d st f hf h
    rw [fileStep_eq]
    exact (h.step hgoverns hcalm hf d).counted _
  exact migrateFiles_invariant g user workload .full hstep w hstart

end again

end

end GwsMigrator
