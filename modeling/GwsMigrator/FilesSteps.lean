import GwsMigrator.FilesJob

/-! What one file or folder does to the rows, the folder map and the destination drive. -/
namespace GwsMigrator
open Dialogue

/-- A successful call that writes to the destination drive. -/
inductive DriveWrite where
  | folder (src : ItemKey) (parent : Option Token) (name : String) (id : Token)
  | small (src : ItemKey) (parent : Token) (name : String) (content : Bytes) (id : Token)
  | large (src : ItemKey) (parent : Token) (name : String) (content : Bytes) (id : Token)
  | update (src : ItemKey) (id : Token) (content : Bytes)
deriving DecidableEq

namespace DriveWrite

def src : DriveWrite → ItemKey
  | folder src .. | small src .. | large src .. | update src .. => src

def id : DriveWrite → Token
  | folder _ _ _ id | small _ _ _ _ id | large _ _ _ _ id | update _ id _ => id

/-- The write makes an item that is new at the destination. -/
def isNew : DriveWrite → Bool
  | folder .. | small .. | large .. => true
  | update .. => false

end DriveWrite

def driveWrite : Event Call.Ans → Option DriveWrite
  | ⟨.ensureFolder src parent name, .ok id⟩ => some (.folder src parent name id)
  | ⟨.uploadSmallFile src parent name content, .ok id⟩ => some (.small src parent name content id)
  | ⟨.uploadLargeFile src parent name content, .ok id⟩ => some (.large src parent name content id)
  | ⟨.updateFileContent src id content, .ok _⟩ => some (.update src id content)
  | _ => none

/-- The writes of a log, newest first. -/
def driveWrites (log : Log Call.Ans) : List DriveWrite := log.filterMap driveWrite

def writesOf (k : ItemKey) (log : Log Call.Ans) : List DriveWrite :=
  (driveWrites log).filter (fun write => write.src = k)

section
variable (g : Graph) (user : UserMapping) (workload : String) (mode : Mode)

/-- The steps `_process_file` takes in a pass. -/
def migrateVisited (feed : Enumeration SourceFile) (w : World) :
    List (Worklist.Taken FilesLoop SourceFile) :=
  if feed.raised.isSome then
    Worklist.batchVisited (fileStep g user workload mode) true { world := w } feed.items
  else
    Worklist.visited (fileStep g user workload mode) SourceFile.sourceId SourceFile.parentId
      { world := w } feed.items

/-- A feed that is read to its end goes through the worklist. -/
theorem migrateFiles_whole {feed : Enumeration SourceFile} (h : feed.raised = none) (w : World) :
    migrateFiles g user workload mode feed w =
      Worklist.process (fileStep g user workload mode) SourceFile.sourceId SourceFile.parentId
        { world := w } feed.items := by
  rw [migrateFiles, h]
  exact if_neg Bool.false_ne_true

theorem migrateVisited_whole {feed : Enumeration SourceFile} (h : feed.raised = none)
    (w : World) :
    migrateVisited g user workload mode feed w =
      Worklist.visited (fileStep g user workload mode) SourceFile.sourceId SourceFile.parentId
        { world := w } feed.items := by
  rw [migrateVisited, h]
  exact if_neg Bool.false_ne_true

/-- What every step on an item of the feed keeps, a pass keeps. -/
theorem migrateFiles_invariant {feed : Enumeration SourceFile} {I : FilesLoop → Prop}
    (hstep : ∀ d st, ∀ f ∈ feed.items, I st → I (fileStep g user workload mode d st f).2)
    (w : World) (hstart : I { world := w }) : I (migrateFiles g user workload mode feed w) := by
  unfold migrateFiles
  -- a feed that raises ends the pass with its first batch
  split
  · exact Worklist.runBatch_invariant _ hstep true _ (fun _ hf => hf) _ hstart
  · exact Worklist.process_invariant _ _ _ hstep _ hstart

/-- The destination folder a parent id resolves to. -/
def FilesLoop.dest (st : FilesLoop) (p : String) : Option Token :=
  (st.ids.lookup p).or (st.world.db.getFolderDest (fileKey user workload p))

/-- From `st` to `st'` the item `f` got the row `row` and the folder `made`, if any, wrote
`write`, and joined the failed folders if `fails`. -/
structure FileChange (st st' : FilesLoop) (f : SourceFile) (row : Option ItemValues)
    (made : Option Token) (write : Option DriveWrite) (fails : Bool) : Prop where
  rows : st'.world.db.getItemState =
    row.elim st.world.db.getItemState (fun v =>
      Function.update st.world.db.getItemState (fileKey user workload f.sourceId) (some v))
  folders : st'.world.db.getFolderDest =
    made.elim st.world.db.getFolderDest (fun d =>
      Function.update st.world.db.getFolderDest (fileKey user workload f.sourceId) (some d))
  dest : st'.dest user workload =
    made.elim (st.dest user workload) (fun d =>
      Function.update (st.dest user workload) f.sourceId (some d))
  writes : driveWrites st'.world.log = write.toList ++ driveWrites st.world.log
  failed : st'.failed = if fails then insert f.sourceId st.failed else st.failed
  cursors : st'.world.db.getCursor = st.world.db.getCursor
  failures : st'.failures = st.failures
  grows : st.world.log <:+ st'.world.log

variable {g user workload mode} {st st' : FilesLoop} {f : SourceFile}

theorem FileChange.refl (st : FilesLoop) (f : SourceFile) :
    FileChange user workload st st f none none none false :=
  ⟨rfl, rfl, rfl, rfl, rfl, rfl, rfl, List.suffix_rfl⟩

/-- A quiet step before another one adds nothing. -/
theorem FileChange.after_quiet {st₁ : FilesLoop} {row : Option ItemValues} {made : Option Token}
    {write : Option DriveWrite} {fails : Bool}
    (h : FileChange user workload st st₁ f none none none false)
    (h' : FileChange user workload st₁ st' f row made write fails) :
    FileChange user workload st st' f row made write fails := by
  obtain ⟨h₁, h₂, h₃, h₄, h₅, h₆, h₇, h₈⟩ := h
  simp only [Option.elim_none, Option.toList_none, List.nil_append, Bool.false_eq_true,
    if_false] at h₁ h₂ h₃ h₄ h₅
  exact ⟨by rw [h'.rows, h₁], by rw [h'.folders, h₂], by rw [h'.dest, h₃],
    by rw [h'.writes, h₄], by rw [h'.failed, h₅], h'.cursors.trans h₆, h'.failures.trans h₇,
    h₈.trans h'.grows⟩

theorem FileChange.quiet_writes (h : FileChange user workload st st' f none none none false) :
    driveWrites st'.world.log = driveWrites st.world.log := h.writes

variable (user workload st f) in
theorem fileChange_call {c : Call} (hc : driveWrite ⟨c, g.ask st.world c⟩ = none) :
    FileChange user workload st { st with world := g.after st.world c } f none none none false := by
  refine ⟨rfl, rfl, rfl, ?_, rfl, rfl, rfl, List.suffix_cons _ _⟩
  rw [driveWrites, Graph.after_log, List.filterMap_cons_none hc]
  rfl

theorem fileChange_row (v : ItemValues) :
    FileChange user workload st
      { st with world := st.world.upsertItem (fileKey user workload f.sourceId) v }
      f (some v) none none false :=
  ⟨Db.rows_upsertItem .., rfl, rfl, rfl, rfl, rfl, rfl, List.suffix_rfl⟩

variable (user workload st f) in
theorem resolve_quiet (parentId : Option String) :
    FileChange user workload st (resolve user workload st parentId).2 f none none none false := by
  unfold resolve
  cases parentId with
  | none => exact FileChange.refl st f
  | some p =>
    simp only
    by_cases hp : p = ""
    · rw [if_pos hp]
      exact FileChange.refl st f
    · rw [if_neg hp]
      cases hids : st.ids.lookup p with
      | some dest => exact FileChange.refl st f
      | none =>
        cases hrow : st.world.db.getFolderDest (fileKey user workload p) with
        | none => exact FileChange.refl st f
        | some dest =>
          -- the cache takes over what the folder map says
          have hdest : ({ st with ids := st.ids.insert p dest } : FilesLoop).dest user workload =
              st.dest user workload := by
            funext q
            simp only [FilesLoop.dest]
            by_cases hq : q = p
            · subst hq
              simp [hids, hrow]
            · simp [AList.lookup_insert_ne hq]
          exact ⟨rfl, rfl, hdest, rfl, rfl, rfl, rfl, List.suffix_rfl⟩

variable (user workload st) in
theorem resolve_world (parentId : Option String) :
    (resolve user workload st parentId).2.world = st.world := by
  unfold resolve
  cases parentId with
  | none => rfl
  | some p =>
    simp only
    split
    · rfl
    · split
      · rfl
      · split <;> rfl

theorem SourceFile.not_both {P : Prop} (file : f.isFolder = false) (folder : f.isFolder = true) :
    P := by
  rw [file] at folder
  cases folder

/-- An id that stands for a parent: neither absent nor empty. -/
def SourceFile.HasParent (f : SourceFile) (p : String) : Prop := f.parentId = some p ∧ p ≠ ""

theorem SourceFile.HasParent.unique {p p' : String} (h : f.HasParent p) (h' : f.HasParent p') :
    p = p' :=
  Option.some.inj (h.1.symm.trans h'.1)

variable (user workload st) in
theorem resolve_result (f : SourceFile) :
    ((∀ p, ¬ f.HasParent p) ∧ (resolve user workload st f.parentId).1 = some none) ∨
    ∃ p, f.HasParent p ∧
      (resolve user workload st f.parentId).1 = (st.dest user workload p).map some := by
  unfold resolve SourceFile.HasParent
  cases f.parentId with
  | none => exact Or.inl ⟨by simp, rfl⟩
  | some p =>
    simp only
    by_cases hp : p = ""
    · refine Or.inl ⟨?_, by rw [if_pos hp]⟩
      rintro q ⟨hq, hne⟩
      exact hne (Option.some.inj hq ▸ hp)
    · refine Or.inr ⟨p, ⟨rfl, hp⟩, ?_⟩
      rw [if_neg hp]
      simp only [FilesLoop.dest]
      cases st.ids.lookup p with
      | some dest => rfl
      | none => cases st.world.db.getFolderDest (fileKey user workload p) <;> rfl

variable (user workload) in
/-- Where an item that is not stopped goes: under its parent's folder, or to the root. -/
inductive Placed (st : FilesLoop) (f : SourceFile) (defer : Bool) : Option Token → Prop
  | noParent (h : ∀ p, ¬ f.HasParent p) : Placed st f defer none
  | under (p : String) (d : Token) (hp : f.HasParent p) (hd : st.dest user workload p = some d) :
      Placed st f defer (some d)
  | rooted (p : String) (hp : f.HasParent p) (hd : st.dest user workload p = none)
      (hf : p ∉ st.failed) (hdefer : defer = false) : Placed st f defer none

variable (user workload st) in
/-- What `_parent_for` finds, after nothing but lookups. -/
theorem parentFor_cases (f : SourceFile) (defer : Bool) :
    (∃ parentDest st₁, parentFor user workload st f defer = (.ok parentDest, st₁) ∧
      st₁.world = st.world ∧ FileChange user workload st st₁ f none none none false ∧
      Placed user workload st f defer parentDest) ∨
    (∃ p st₁ v, parentFor user workload st f defer = (.error .failed, st₁) ∧ f.HasParent p ∧
      st.dest user workload p = none ∧ p ∈ st.failed ∧
      (v.status = .failed ∧ v.destId = none ∧ v.sourceHash = none) ∧
      FileChange user workload st st₁ f (some v) none none false) ∨
    (∃ p st₁, parentFor user workload st f defer = (.error .deferred, st₁) ∧ f.HasParent p ∧
      st.dest user workload p = none ∧ p ∉ st.failed ∧ defer = true ∧
      FileChange user workload st st₁ f none none none false) := by
  have hquiet := resolve_quiet user workload st f f.parentId
  have hfailed : (resolve user workload st f.parentId).2.failed = st.failed := hquiet.failed
  have hworld := resolve_world user workload st f.parentId
  -- `_parent_for` looks up the folder first, then the failed set, then whether it may defer
  unfold parentFor
  rcases hr : resolve user workload st f.parentId with ⟨found, st₁⟩
  rw [hr] at hquiet hfailed hworld
  obtain ⟨hnone, hres⟩ | ⟨p, hp, hres⟩ := resolve_result user workload st f
  · rw [hr] at hres
    obtain rfl : found = some none := hres
    exact Or.inl ⟨none, st₁, rfl, hworld, hquiet, .noParent hnone⟩
  · rw [hr] at hres
    obtain rfl : found = (st.dest user workload p).map some := hres
    cases hd : st.dest user workload p with
    | some d => exact Or.inl ⟨some d, st₁, rfl, hworld, hquiet, .under p d hp hd⟩
    | none =>
      simp only [Option.map_none, hp.1, Option.getD_some]
      have hfailed' : st₁.failed = st.failed := hfailed
      by_cases hmem : p ∈ st.failed
      · rw [if_pos (hfailed' ▸ hmem)]
        let v : ItemValues :=
          { destId := none, status := .failed,
            lastError := some ("parent folder " ++ p ++ " failed to migrate") }
        exact Or.inr (Or.inl ⟨p, _, v, rfl, hp, hd, hmem, ⟨rfl, rfl, rfl⟩,
          hquiet.after_quiet (fileChange_row v)⟩)
      · rw [if_neg (hfailed' ▸ hmem)]
        cases defer with
        | true => exact Or.inr (Or.inr ⟨p, st₁, rfl, hp, hd, hmem, rfl, hquiet⟩)
        | false => exact Or.inl ⟨none, st₁, rfl, hworld, hquiet, .rooted p hp hd hmem rfl⟩

/-- The row is written last. -/
theorem FileChange.then_row {made : Option Token} {write : Option DriveWrite} {fails : Bool}
    (h : FileChange user workload st st' f none made write fails) (v : ItemValues) :
    FileChange user workload st
      { st' with world := st'.world.upsertItem (fileKey user workload f.sourceId) v }
      f (some v) made write fails := by
  have hrows : st'.world.db.getItemState = st.world.db.getItemState := h.rows
  refine ⟨?_, h.folders, h.dest, h.writes, h.failed, h.cursors, h.failures, h.grows⟩
  rw [← hrows]
  exact Db.rows_upsertItem ..

variable (user workload st f) in
/-- A call that writes to the drive. -/
theorem fileChange_write {c : Call} {write : DriveWrite}
    (hc : driveWrite ⟨c, g.ask st.world c⟩ = some write) :
    FileChange user workload st { st with world := g.after st.world c } f none none (some write)
      false := by
  refine ⟨rfl, rfl, rfl, ?_, rfl, rfl, rfl, List.suffix_cons _ _⟩
  rw [driveWrites, Graph.after_log, List.filterMap_cons_some hc]
  rfl

/-- The upload of new content, by its size. -/
def newFileWrite (k : ItemKey) (parent : Token) (name : String) (content : Bytes) (id : Token) :
    DriveWrite :=
  if content.length ≤ smallFileThreshold then .small k parent name content id
  else .large k parent name content id

/-- A call was answered so that `write` happened, on a drive with the writes `ws`. -/
def WriteAnswered (g : Graph) (ws : List DriveWrite) (write : DriveWrite) : Prop :=
  ∃ log c, driveWrites log = ws ∧ driveWrite ⟨c, g.answer log c⟩ = some write

/-- A call other than the making of a folder was answered with an error. -/
def CallFailed (g : Graph) : Prop :=
  ∃ log c e, (∀ src parent name, c ≠ .ensureFolder src parent name) ∧ g.answer log c = .error e

theorem NoFailure.not_callFailed (h : NoFailure g) : ¬ CallFailed g := by
  rintro ⟨log, c, e, -, herr⟩
  exact h log c e herr

variable (g user workload st f) in
theorem getRootId_cases :
    (∃ root st₁, getRootId g st = (.ok root, st₁) ∧
      FileChange user workload st st₁ f none none none false) ∨
    (∃ e st₁, getRootId g st = (.error e, st₁) ∧ CallFailed g ∧
      FileChange user workload st st₁ f none none none false) := by
  unfold getRootId
  cases st.rootId with
  | some root => exact Or.inl ⟨root, st, rfl, FileChange.refl st f⟩
  | none =>
    have hcall : FileChange user workload st { st with world := g.after st.world .getRoot } f none
        none none false := fileChange_call user workload st f rfl
    simp only
    cases hans : g.ask st.world .getRoot with
    | ok root =>
      exact Or.inl ⟨root, _, rfl, ⟨hcall.rows, hcall.folders, hcall.dest, hcall.writes,
        hcall.failed, hcall.cursors, hcall.failures, hcall.grows⟩⟩
    | error e =>
      have hfail : CallFailed g := ⟨_, _, e, by simp, hans⟩
      exact Or.inr ⟨e, _, rfl, hfail, ⟨hcall.rows, hcall.folders, hcall.dest, hcall.writes,
        hcall.failed, hcall.cursors, hcall.failures, hcall.grows⟩⟩

variable (g user workload st f) in
theorem uploadTo_cases (parent : Token) (content : Bytes) (name : String) :
    (∃ id st₁, uploadTo g user workload st f parent content name = (.ok id, st₁) ∧
      WriteAnswered g (driveWrites st.world.log)
        (newFileWrite (fileKey user workload f.sourceId) parent name content id) ∧
      FileChange user workload st st₁ f none none
        (some (newFileWrite (fileKey user workload f.sourceId) parent name content id)) false) ∨
    (∃ e st₁, uploadTo g user workload st f parent content name = (.error e, st₁) ∧
      CallFailed g ∧ FileChange user workload st st₁ f none none none false) := by
  simp only [uploadTo]
  by_cases hsmall : content.length ≤ smallFileThreshold
  · rw [if_pos hsmall]
    cases hans : g.ask st.world
        (.uploadSmallFile (fileKey user workload f.sourceId) parent name content) with
    | ok id =>
      have hwrite : driveWrite ⟨.uploadSmallFile (fileKey user workload f.sourceId) parent name
          content, g.ask st.world (.uploadSmallFile (fileKey user workload f.sourceId) parent name
          content)⟩ =
          some (newFileWrite (fileKey user workload f.sourceId) parent name content id) := by
        rw [hans, newFileWrite, if_pos hsmall]
        rfl
      exact Or.inl ⟨id, _, rfl, ⟨_, _, rfl, hwrite⟩, fileChange_write user workload st f hwrite⟩
    | error e =>
      refine Or.inr ⟨e, _, rfl, ⟨_, _, e, by simp, hans⟩, fileChange_call user workload st f ?_⟩
      rw [hans]
      rfl
  · rw [if_neg hsmall]
    cases hans : g.ask st.world
        (.uploadLargeFile (fileKey user workload f.sourceId) parent name content) with
    | ok id =>
      have hwrite : driveWrite ⟨.uploadLargeFile (fileKey user workload f.sourceId) parent name
          content, g.ask st.world (.uploadLargeFile (fileKey user workload f.sourceId) parent name
          content)⟩ =
          some (newFileWrite (fileKey user workload f.sourceId) parent name content id) := by
        rw [hans, newFileWrite, if_neg hsmall]
        rfl
      exact Or.inl ⟨id, _, rfl, ⟨_, _, rfl, hwrite⟩, fileChange_write user workload st f hwrite⟩
    | error e =>
      refine Or.inr ⟨e, _, rfl, ⟨_, _, e, by simp, hans⟩, fileChange_call user workload st f ?_⟩
      rw [hans]
      rfl

variable (g user workload st f) in
theorem uploadFile_cases (parentDest : Option Token) (content : Bytes) (name : String) :
    (∃ id parent st₁, uploadFile g user workload st f parentDest content name = (.ok id, st₁) ∧
      (∀ d, parentDest = some d → parent = d) ∧
      WriteAnswered g (driveWrites st.world.log)
        (newFileWrite (fileKey user workload f.sourceId) parent name content id) ∧
      FileChange user workload st st₁ f none none
        (some (newFileWrite (fileKey user workload f.sourceId) parent name content id)) false) ∨
    (∃ e st₁, uploadFile g user workload st f parentDest content name = (.error e, st₁) ∧
      CallFailed g ∧ FileChange user workload st st₁ f none none none false) := by
  cases parentDest with
  | some parent =>
    obtain ⟨id, st₁, heq, hans, hchange⟩ | ⟨e, st₁, heq, hfail, hchange⟩ :=
      uploadTo_cases g user workload st f parent content name
    · exact Or.inl ⟨id, parent, st₁, heq, fun d hd => Option.some.inj hd, hans, hchange⟩
    · exact Or.inr ⟨e, st₁, heq, hfail, hchange⟩
  | none =>
    simp only [uploadFile]
    -- without a parent the root is looked up first, and that call may fail too
    obtain ⟨root, st₁, hroot, hquiet⟩ | ⟨e, st₁, hroot, hfail, hquiet⟩ :=
      getRootId_cases g user workload st f
    · rw [hroot]
      obtain ⟨id, st₂, heq, hans, hchange⟩ | ⟨e, st₂, heq, hfail, hchange⟩ :=
        uploadTo_cases g user workload st₁ f root content name
      · exact Or.inl ⟨id, root, st₂, heq, fun d hd => absurd hd (by simp),
          hquiet.quiet_writes ▸ hans, hquiet.after_quiet hchange⟩
      · exact Or.inr ⟨e, st₂, heq, hfail, hquiet.after_quiet hchange⟩
    · rw [hroot]
      exact Or.inr ⟨e, st₁, rfl, hfail, hquiet⟩

/-- The content and the name under which the file was fetched, as the log has it. -/
def Fetched (log : Log Call.Ans) (k : ItemKey) (f : SourceFile) (content : Bytes) (name : String) :
    Prop :=
  (⟨.fetchFile k f, .ok (content, name)⟩ : Event Call.Ans) ∈ log

/-- How a file that gets as far as its transfer is written, on a drive with the writes `ws`,
as the log has it in the end. -/
inductive FileWritten (g : Graph) (user : UserMapping) (workload : String) (ws : List DriveWrite)
    (log : Log Call.Ans) (f : SourceFile) (parentDest : Option Token) :
    Option Token → DriveWrite → Prop
  | updated (id : Token) (content : Bytes) (name : String)
      (fetched : Fetched log (fileKey user workload f.sourceId) f content name) :
      FileWritten g user workload ws log f parentDest (some id)
        (.update (fileKey user workload f.sourceId) id content)
  | uploaded (id parent : Token) (content : Bytes) (name : String)
      (fetched : Fetched log (fileKey user workload f.sourceId) f content name)
      (under : ∀ d, parentDest = some d → parent = d)
      (answered : WriteAnswered g ws
        (newFileWrite (fileKey user workload f.sourceId) parent name content id))
      (source : ∃ log, g.answer log (.fetchFile (fileKey user workload f.sourceId) f) =
        .ok (content, name)) :
      FileWritten g user workload ws log f parentDest none
        (newFileWrite (fileKey user workload f.sourceId) parent name content id)

theorem newFileWrite_id (k : ItemKey) (parent : Token) (name : String) (content : Bytes)
    (id : Token) : (newFileWrite k parent name content id).id = id := by
  unfold newFileWrite
  split <;> rfl

theorem newFileWrite_src (k : ItemKey) (parent : Token) (name : String) (content : Bytes)
    (id : Token) : (newFileWrite k parent name content id).src = k := by
  unfold newFileWrite
  split <;> rfl

theorem newFileWrite_isNew (k : ItemKey) (parent : Token) (name : String) (content : Bytes)
    (id : Token) : (newFileWrite k parent name content id).isNew = true := by
  unfold newFileWrite
  split <;> rfl

variable (g user workload st f) in
theorem writeFile_cases (existing parentDest : Option Token) :
    (∃ write st₁, writeFile g user workload st f existing parentDest = (.ok write.id, st₁) ∧
      FileWritten g user workload (driveWrites st.world.log) st₁.world.log f parentDest existing
        write ∧
      FileChange user workload st st₁ f none none (some write) false) ∨
    (∃ e st₁, writeFile g user workload st f existing parentDest = (.error e, st₁) ∧
      CallFailed g ∧ FileChange user workload st st₁ f none none none false) := by
  set k := fileKey user workload f.sourceId with hk
  set st₁ : FilesLoop := { st with world := g.after st.world (.fetchFile k f) } with hst₁
  have hcall : FileChange user workload st st₁ f none none none false :=
    fileChange_call user workload st f rfl
  simp only [writeFile, ← hk]
  cases hfetch : g.ask st.world (.fetchFile k f) with
  | error e =>
    have hfail : CallFailed g := ⟨_, _, e, by simp, hfetch⟩
    exact Or.inr ⟨e, _, rfl, hfail, hcall⟩
  | ok fetched =>
    obtain ⟨content, name⟩ := fetched
    have hnoted : Fetched st₁.world.log k f content name := by
      have hlog : st₁.world.log =
          ⟨.fetchFile k f, g.ask st.world (.fetchFile k f)⟩ :: st.world.log := rfl
      rw [Fetched, hlog, hfetch]
      exact List.mem_cons_self
    -- content goes into the item the row names, or else up as a new file
    cases existing with
    | some id =>
      simp only
      cases hans : g.ask st₁.world (.updateFileContent k id content) with
      | ok _ =>
        have hwrite : driveWrite ⟨.updateFileContent k id content,
            g.ask st₁.world (.updateFileContent k id content)⟩ =
            some (.update k id content) := by
          rw [hans]
          rfl
        have hchange := fileChange_write user workload st₁ f hwrite
        exact Or.inl ⟨.update k id content, _, rfl,
          .updated id content name (hchange.grows.subset hnoted), hcall.after_quiet hchange⟩
      | error e =>
        have hfail : CallFailed g := ⟨_, _, e, by simp, hans⟩
        have hnone : driveWrite ⟨.updateFileContent k id content,
            g.ask st₁.world (.updateFileContent k id content)⟩ = none := by
          rw [hans]
          rfl
        exact Or.inr ⟨e, _, rfl, hfail,
          hcall.after_quiet (fileChange_call user workload st₁ f hnone)⟩
    | none =>
      simp only
      obtain ⟨id, parent, st₂, heq, hunder, hans, hchange⟩ | ⟨e, st₂, heq, hfail, hchange⟩ :=
        uploadFile_cases g user workload st₁ f parentDest content name
      · refine Or.inl ⟨newFileWrite k parent name content id, st₂, ?_, ?_,
          hcall.after_quiet hchange⟩
        · rw [newFileWrite_id]
          exact heq
        · exact .uploaded id parent content name (hchange.grows.subset hnoted) hunder
            (hcall.quiet_writes ▸ hans) ⟨_, hfetch⟩
      · exact Or.inr ⟨e, st₂, heq, hfail, hcall.after_quiet hchange⟩

variable (g user workload st f) in
/-- The transfer writes the file and its row names what was written, or it fails and the row
keeps the id it had. -/
theorem transferFile_cases (existing parentDest : Option Token) :
    (∃ st' write v, transferFile g user workload st f existing parentDest = (.ok, st') ∧
      FileWritten g user workload (driveWrites st.world.log) st'.world.log f parentDest existing
        write ∧ v.status = .done ∧ v.destId = some write.id ∧ v.sourceHash = f.contentHash ∧
      FileChange user workload st st' f (some v) none (some write) false) ∨
    (∃ st' v, transferFile g user workload st f existing parentDest = (.failed, st') ∧
      CallFailed g ∧ v.status = .failed ∧ v.destId = existing ∧ v.sourceHash = none ∧
      FileChange user workload st st' f (some v) none none false) := by
  simp only [transferFile]
  obtain ⟨write, st₁, heq, hwritten, hchange⟩ | ⟨e, st₁, heq, hfail, hchange⟩ :=
    writeFile_cases g user workload st f existing parentDest
  · rw [heq]
    exact Or.inl ⟨_, write, _, rfl, hwritten, rfl, rfl, rfl, hchange.then_row _⟩
  · rw [heq]
    exact Or.inr ⟨_, _, rfl, hfail, rfl, rfl, rfl, hchange.then_row _⟩

variable (g user workload mode st f) in
/-- What `_process_file` does with an item, by the verdict it returns. -/
inductive FileStep (defer : Bool) : Verdict → FilesLoop → Prop
  | leftAlone (file : f.isFolder = false)
      (alone : leftAlone user workload mode st.world.db f = true) : FileStep defer .ok st
  | skipped (st' : FilesLoop) (v : ItemValues) (file : f.isFolder = false)
      (alone : leftAlone user workload mode st.world.db f = false) (action : f.action = .skip)
      (status : v.status = .skipped) (noDest : v.destId = none)
      (change : FileChange user workload st st' f (some v) none none false)
      (hash : v.sourceHash = none) : FileStep defer .ok st'
  | deferred (st' : FilesLoop) (p : String) (parent : f.HasParent p)
      (unknown : st.dest user workload p = none) (notFailed : p ∉ st.failed)
      (may : defer = true)
      (file : f.isFolder = false → leftAlone user workload mode st.world.db f = false ∧
        f.action ≠ .skip ∧ existingDest user workload mode st.world.db f = none)
      (change : FileChange user workload st st' f none none none false) :
      FileStep defer .deferred st'
  | parentFailed (st' : FilesLoop) (v : ItemValues) (p : String) (parent : f.HasParent p)
      (unknown : st.dest user workload p = none) (parentIn : p ∈ st.failed)
      (file : f.isFolder = false → leftAlone user workload mode st.world.db f = false ∧
        f.action ≠ .skip ∧ existingDest user workload mode st.world.db f = none)
      (status : v.status = .failed) (noDest : v.destId = none)
      (change : FileChange user workload st st' f (some v) none none false)
      (hash : v.sourceHash = none) : FileStep defer .failed st'
  | folderMade (st' : FilesLoop) (v : ItemValues) (parentDest : Option Token) (id : Token)
      (folder : f.isFolder = true) (placed : Placed user workload st f defer parentDest)
      (answered : ∃ log, driveWrites log = driveWrites st.world.log ∧
        g.answer log (.ensureFolder (fileKey user workload f.sourceId) parentDest f.name) = .ok id)
      (status : v.status = .done) (dest : v.destId = some id) (hash : v.sourceHash = f.contentHash)
      (change : FileChange user workload st st' f (some v) (some id)
        (some (.folder (fileKey user workload f.sourceId) parentDest f.name id)) false) :
      FileStep defer .ok st'
  | folderFailed (st' : FilesLoop) (v : ItemValues) (parentDest : Option Token) (e : Exc)
      (folder : f.isFolder = true) (placed : Placed user workload st f defer parentDest)
      (answered : g.ask st.world (.ensureFolder (fileKey user workload f.sourceId) parentDest
        f.name) = .error e)
      (status : v.status = .failed) (noDest : v.destId = none)
      (change : FileChange user workload st st' f (some v) none none true)
      (hash : v.sourceHash = none) : FileStep defer .failed st'
  | transferred (st' : FilesLoop) (v : ItemValues) (parentDest : Option Token)
      (write : DriveWrite) (file : f.isFolder = false)
      (alone : leftAlone user workload mode st.world.db f = false) (action : f.action ≠ .skip)
      (placed : existingDest user workload mode st.world.db f = none →
        Placed user workload st f defer parentDest)
      (written : FileWritten g user workload (driveWrites st.world.log) st'.world.log f parentDest
        (existingDest user workload mode st.world.db f) write)
      (status : v.status = .done) (dest : v.destId = some write.id)
      (hash : v.sourceHash = f.contentHash)
      (change : FileChange user workload st st' f (some v) none (some write) false) :
      FileStep defer .ok st'
  | transferFailed (st' : FilesLoop) (v : ItemValues) (parentDest : Option Token)
      (file : f.isFolder = false)
      (alone : leftAlone user workload mode st.world.db f = false) (action : f.action ≠ .skip)
      (placed : existingDest user workload mode st.world.db f = none →
        Placed user workload st f defer parentDest)
      (call : CallFailed g) (status : v.status = .failed)
      (dest : v.destId = existingDest user workload mode st.world.db f) (hash : v.sourceHash = none)
      (change : FileChange user workload st st' f (some v) none none false) :
      FileStep defer .failed st'

/-- Where no call fails and no folder is known to have failed, no step fails. -/
theorem FileStep.not_failed {defer : Bool} {v : Verdict} (hcalm : NoFailure g)
    (hfailed : st.failed = ∅) (h : FileStep g user workload mode st f defer v st') :
    v ≠ .failed := by
  cases h with
  | leftAlone | skipped | deferred | folderMade | transferred => simp
  | parentFailed _ row p parent unknown parentIn =>
    rw [hfailed] at parentIn
    exact absurd parentIn (Finset.notMem_empty p)
  | folderFailed _ row parentDest e folder placed answered => exact absurd answered (hcalm _ _ e)
  | transferFailed _ row parentDest file alone action placed call =>
    exact absurd call hcalm.not_callFailed

/-- A folder that is made goes into the folder map and the cache at once. -/
theorem FileChange.then_folder {write : Option DriveWrite}
    (h : FileChange user workload st st' f none none write false) (id : Token) (name : String) :
    FileChange user workload st
      { st' with
        world := st'.world.upsertFolder (fileKey user workload f.sourceId) id name
        ids := st'.ids.insert f.sourceId id }
      f none (some id) write false := by
  have hfolders : st'.world.db.getFolderDest = st.world.db.getFolderDest := h.folders
  have hdest : st'.dest user workload = st.dest user workload := h.dest
  refine ⟨h.rows, ?_, ?_, h.writes, h.failed, h.cursors, h.failures, h.grows⟩
  · funext k
    simp only [World.upsertFolder_db, Db.getFolderDest_upsertFolder, hfolders, Option.elim_some,
      Function.update_apply]
  · funext q
    rw [Option.elim_some, Function.update_apply, ← hdest]
    by_cases hq : q = f.sourceId
    · subst hq
      simp [FilesLoop.dest]
    · have hkey : fileKey user workload q ≠ fileKey user workload f.sourceId := by
        exact fileKey_inj.not.mpr hq
      simp only [FilesLoop.dest, World.upsertFolder_db, Db.getFolderDest_upsertFolder, hkey,
        AList.lookup_insert_ne hq, hq, if_false]

theorem FileChange.then_failed (h : FileChange user workload st st' f none none none false) :
    FileChange user workload st { st' with failed := insert f.sourceId st'.failed } f none none none
      true := by
  have hfailed : st'.failed = st.failed := h.failed
  exact ⟨h.rows, h.folders, h.dest, h.writes, by rw [if_pos rfl, hfailed], h.cursors, h.failures,
    h.grows⟩

variable (g user workload mode st f) in
theorem processFolder_step (folder : f.isFolder = true) (defer : Bool) :
    FileStep g user workload mode st f defer (processFolder g user workload st f defer).1
      (processFolder g user workload st f defer).2 := by
  simp only [processFolder]
  obtain ⟨parentDest, st₁, heq, hworld, hquiet, hplaced⟩ |
    ⟨p, st₁, v, heq, hp, hd, hmem, ⟨hstatus, hnone, hhash⟩, hchange⟩ |
    ⟨p, st₁, heq, hp, hd, hmem, hdefer, hquiet⟩ := parentFor_cases user workload st f defer
  · rw [heq]
    simp only
    -- the folder call answers, or its exception is recorded as the folder's failure
    cases hans : g.ask st₁.world (.ensureFolder (fileKey user workload f.sourceId) parentDest
        f.name) with
    | ok id =>
      have hwrite : driveWrite ⟨.ensureFolder (fileKey user workload f.sourceId) parentDest f.name,
          g.ask st₁.world (.ensureFolder (fileKey user workload f.sourceId) parentDest f.name)⟩ =
          some (.folder (fileKey user workload f.sourceId) parentDest f.name id) := by
        rw [hans]
        rfl
      have hcall := hquiet.after_quiet (fileChange_write user workload st₁ f hwrite)
      exact .folderMade _ _ parentDest id folder hplaced
        ⟨st₁.world.log, hquiet.quiet_writes, hans⟩ rfl rfl rfl
        ((hcall.then_folder id f.name).then_row _)
    | error e =>
      have hnone : driveWrite ⟨.ensureFolder (fileKey user workload f.sourceId) parentDest f.name,
          g.ask st₁.world (.ensureFolder (fileKey user workload f.sourceId) parentDest f.name)⟩ =
          none := by
        rw [hans]
        rfl
      have hcall := hquiet.after_quiet (fileChange_call user workload st₁ f hnone)
      exact .folderFailed _ _ parentDest e folder hplaced (hworld ▸ hans) rfl rfl
        (hcall.then_failed.then_row _) rfl
  · rw [heq]
    exact .parentFailed st₁ v p hp hd hmem (fun file => SourceFile.not_both file folder) hstatus
      hnone hchange hhash
  · rw [heq]
    exact .deferred st₁ p hp hd hmem hdefer (fun file => SourceFile.not_both file folder) hquiet

variable (g user workload mode st f) in
theorem processFile_step (defer : Bool) :
    FileStep g user workload mode st f defer (processFile g user workload mode st f defer).1
      (processFile g user workload mode st f defer).2 := by
  unfold processFile
  by_cases hfolder : f.isFolder = true
  · rw [if_pos hfolder]
    exact processFolder_step g user workload mode st f hfolder defer
  · have hfile : f.isFolder = false := by simpa using hfolder
    rw [if_neg hfolder]
    by_cases halone : leftAlone user workload mode st.world.db f = true
    · rw [if_pos halone]
      exact .leftAlone hfile halone
    · have halone' : leftAlone user workload mode st.world.db f = false := by simpa using halone
      rw [if_neg halone]
      by_cases haction : f.action = .skip
      · rw [if_pos haction]
        exact .skipped _ { status := .skipped } hfile halone' haction rfl rfl (fileChange_row _) rfl
      · rw [if_neg haction]
        -- an id to update under comes before any parent is looked for
        cases hex : existingDest user workload mode st.world.db f with
        | some id =>
          simp only
          obtain ⟨st', write, v, heq, hwritten, hstatus, hdest, hhash, hchange⟩ |
            ⟨st', v, heq, hcall, hstatus, hdest, hhash, hchange⟩ :=
            transferFile_cases g user workload st f (some id) none
          · rw [heq]
            exact .transferred st' v none write hfile halone' haction
              (fun h => by rw [hex] at h; exact absurd h (by simp)) (hex ▸ hwritten) hstatus hdest
              hhash hchange
          · rw [heq]
            exact .transferFailed st' v none hfile halone' haction
              (fun h => by rw [hex] at h; exact absurd h (by simp)) hcall hstatus (hex ▸ hdest)
              hhash hchange
        | none =>
          simp only
          obtain ⟨parentDest, st₁, heq, -, hquiet, hplaced⟩ |
            ⟨p, st₁, v, heq, hp, hd, hmem, ⟨hstatus, hnone, hhash⟩, hchange⟩ |
            ⟨p, st₁, heq, hp, hd, hmem, hdefer, hquiet⟩ := parentFor_cases user workload st f defer
          · rw [heq]
            simp only
            obtain ⟨st', write, v, heq, hwritten, hstatus, hdest, hhash, hchange⟩ |
              ⟨st', v, heq, hcall, hstatus, hdest, hhash, hchange⟩ :=
              transferFile_cases g user workload st₁ f none parentDest
            · rw [heq]
              rw [hquiet.quiet_writes] at hwritten
              exact .transferred st' v parentDest write hfile halone' haction (fun _ => hplaced)
                (hex ▸ hwritten) hstatus hdest hhash (hquiet.after_quiet hchange)
            · rw [heq]
              exact .transferFailed st' v parentDest hfile halone' haction (fun _ => hplaced) hcall
                hstatus (hex ▸ hdest) hhash (hquiet.after_quiet hchange)
          · rw [heq]
            exact .parentFailed st₁ v p hp hd hmem (fun _ => ⟨halone', haction, hex⟩) hstatus hnone
              hchange hhash
          · rw [heq]
            exact .deferred st₁ p hp hd hmem hdefer (fun _ => ⟨halone', haction, hex⟩) hquiet

variable (g user workload mode st f) in
/-- The loop counts the failures on top of what the item does. -/
theorem fileStep_eq (defer : Bool) :
    fileStep g user workload mode defer st f =
      (decide ((processFile g user workload mode st f defer).1 = .deferred),
        { (processFile g user workload mode st f defer).2 with
          failures := (processFile g user workload mode st f defer).2.failures +
            if (processFile g user workload mode st f defer).1 = .failed then 1 else 0 }) := by
  unfold fileStep
  rcases processFile g user workload mode st f defer with ⟨v, st'⟩
  cases v <;> rfl

theorem FileWritten.src_eq {ws : List DriveWrite} {log : Log Call.Ans}
    {parentDest existing : Option Token} {write : DriveWrite}
    (h : FileWritten g user workload ws log f parentDest existing write) :
    write.src = fileKey user workload f.sourceId := by
  cases h with
  | updated id content name fetched => rfl
  | uploaded id parent content name fetched under answered => exact newFileWrite_src ..

/-- A put-off item leaves all as it was. -/
theorem FileStep.put_off {defer : Bool}
    (h : FileStep g user workload mode st f defer .deferred st') :
    FileChange user workload st st' f none none none false ∧ defer = true := by
  cases h with
  | deferred _ p parent unknown notFailed may file change => exact ⟨change, may⟩

/-- A forced item is never put off. -/
theorem fileStep_forced (st : FilesLoop) (f : SourceFile) :
    (fileStep g user workload mode false st f).1 = false := by
  rw [fileStep_eq, decide_eq_false_iff_not]
  intro hv
  have hstep := processFile_step g user workload mode st f false
  rw [hv] at hstep
  exact absurd hstep.put_off.2 (by simp)

/-- Whatever the item does, it changes nothing but its own row, folder and writes. -/
theorem FileStep.anyChange {defer : Bool} {v : Verdict}
    (h : FileStep g user workload mode st f defer v st') :
    ∃ row made write fails, FileChange user workload st st' f row made write fails ∧
      ∀ x ∈ write, x.src = fileKey user workload f.sourceId := by
  cases h with
  | leftAlone => exact ⟨none, none, none, false, FileChange.refl st f, by simp⟩
  | skipped _ v _ _ _ _ _ change => exact ⟨_, _, _, _, change, by simp⟩
  | deferred _ p _ _ _ _ _ change => exact ⟨_, _, _, _, change, by simp⟩
  | parentFailed _ v p _ _ _ _ _ _ change => exact ⟨_, _, _, _, change, by simp⟩
  | folderMade _ v parentDest id _ _ _ _ _ _ change =>
    exact ⟨_, _, _, _, change, by simp [DriveWrite.src]⟩
  | folderFailed _ v parentDest e _ _ _ _ _ change => exact ⟨_, _, _, _, change, by simp⟩
  | transferred _ v parentDest write _ _ _ _ written _ _ _ change =>
    exact ⟨_, _, _, _, change, by simpa using written.src_eq⟩
  | transferFailed _ v parentDest _ _ _ _ _ _ _ _ change => exact ⟨_, _, _, _, change, by simp⟩

/-- From `w` to `w'` only the row, the folder and the destination items of `k₀` changed. -/
structure OnlyTouches (k₀ : ItemKey) (w w' : World) : Prop where
  rows : ∀ k, k ≠ k₀ → w'.db.getItemState k = w.db.getItemState k
  folders : ∀ k, k ≠ k₀ → w'.db.getFolderDest k = w.db.getFolderDest k
  writes : ∃ ws, driveWrites w'.log = ws ++ driveWrites w.log ∧ ∀ write ∈ ws, write.src = k₀

section change
variable {row : Option ItemValues} {made : Option Token} {write : Option DriveWrite} {fails : Bool}

theorem FileChange.onlyTouches (h : FileChange user workload st st' f row made write fails)
    (hsrc : ∀ x ∈ write, x.src = fileKey user workload f.sourceId) :
    OnlyTouches (fileKey user workload f.sourceId) st.world st'.world := by
  refine ⟨fun k hk => ?_, fun k hk => ?_, write.toList, h.writes, by simpa using hsrc⟩
  · rw [h.rows]
    cases row <;> simp [Function.update_of_ne hk]
  · rw [h.folders]
    cases made <;> simp [Function.update_of_ne hk]

/-- A step moves no destination but that of its own item. -/
theorem FileChange.dest_of_ne (h : FileChange user workload st st' f row made write fails)
    {p : String} (hp : p ≠ f.sourceId) : st'.dest user workload p = st.dest user workload p := by
  rw [h.dest]
  cases made with
  | none => rfl
  | some d => exact Function.update_of_ne hp ..

theorem FileChange.dest_made {d : Token}
    (h : FileChange user workload st st' f row (some d) write fails) :
    st'.dest user workload f.sourceId = some d := by
  rw [h.dest]
  exact Function.update_self ..

end change

theorem FileStep.onlyTouches {defer : Bool} {v : Verdict}
    (h : FileStep g user workload mode st f defer v st') :
    OnlyTouches (fileKey user workload f.sourceId) st.world st'.world := by
  obtain ⟨row, made, write, fails, hchange, hsrc⟩ := h.anyChange
  exact hchange.onlyTouches hsrc

theorem FileStep.dest_of_ne {defer : Bool} {v : Verdict}
    (hstep : FileStep g user workload mode st f defer v st') {p : String} (hp : p ≠ f.sourceId) :
    st'.dest user workload p = st.dest user workload p := by
  obtain ⟨row, made, write, fails, hchange, -⟩ := hstep.anyChange
  exact hchange.dest_of_ne hp

/-- What is settled once `f` is: `f` itself, or an item with another id that was settled before. -/
theorem settled_cases {items : List SourceFile} {P : Set String}
    (hnodup : (items.map SourceFile.sourceId).Nodup) (hf : f ∈ items) {x : SourceFile}
    (hx : x ∈ items) (hP : x.sourceId ∈ insert f.sourceId P) :
    x = f ∨ (x.sourceId ∈ P ∧ x.sourceId ≠ f.sourceId) := by
  by_cases hid : x.sourceId = f.sourceId
  · exact Or.inl (List.inj_on_of_nodup_map hnodup hx hf hid)
  · exact Or.inr ⟨(Set.mem_insert_iff.mp hP).resolve_left hid, hid⟩

theorem OnlyTouches.writesOf_of_ne {k₀ k : ItemKey} {w w' : World} (h : OnlyTouches k₀ w w')
    (hk : k ≠ k₀) : writesOf k w'.log = writesOf k w.log := by
  obtain ⟨ws, heq, hsrc⟩ := h.writes
  have hnone : ws.filter (fun write => write.src = k) = [] := by
    rw [List.filter_eq_nil_iff]
    intro write hw
    simp [hsrc write hw, Ne.symm hk]
  rw [writesOf, heq, List.filter_append, hnone]
  rfl

theorem FileChange.writesOf {row : Option ItemValues} {made : Option Token}
    {write : Option DriveWrite} {fails : Bool}
    (h : FileChange user workload st st' f row made write fails)
    (hsrc : ∀ x ∈ write, x.src = fileKey user workload f.sourceId) :
    writesOf (fileKey user workload f.sourceId) st'.world.log =
      write.toList ++ writesOf (fileKey user workload f.sourceId) st.world.log := by
  rw [GwsMigrator.writesOf, h.writes, List.filter_append]
  congr 1
  cases write with
  | none => rfl
  | some x => simp [hsrc x rfl]

end

end GwsMigrator
