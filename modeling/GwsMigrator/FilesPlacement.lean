import GwsMigrator.FilesSteps
import GwsMigrator.ScriptedGraph

/-! Where a pass without failures puts the items of a batch: each under the destination folder
of its parent if that is a folder of the batch, and else at the root of the drive, in whatever
order the items are listed. -/
namespace GwsMigrator
open Dialogue Worklist

namespace DriveWrite

/-- The destination folder a new item is put into; a folder without one is at the root. -/
def parent : DriveWrite → Option Token
  | folder _ parent .. => parent
  | small _ parent .. | large _ parent .. => some parent
  | update .. => none

end DriveWrite

theorem newFileWrite_parent (k : ItemKey) (parent : Token) (name : String) (content : Bytes)
    (id : Token) : (newFileWrite k parent name content id).parent = some parent := by
  unfold newFileWrite
  split <;> rfl

/-- The drive gave `r` as its root. -/
def RootIs (log : Log Call.Ans) (r : Token) : Prop := (⟨.getRoot, .ok r⟩ : Event Call.Ans) ∈ log

/-- A new item at the root: a folder is made there without the root's id, a file goes under it. -/
def DriveWrite.AtRoot (log : Log Call.Ans) : DriveWrite → Prop
  | folder _ parent _ _ => parent = none
  | small _ parent _ _ _ | large _ parent _ _ _ => RootIs log parent
  | update .. => False

theorem newFileWrite_atRoot {log : Log Call.Ans} {k : ItemKey} {root : Token} {name : String}
    {content : Bytes} {id : Token} (h : RootIs log root) :
    (newFileWrite k root name content id).AtRoot log := by
  unfold newFileWrite
  split <;> exact h

theorem DriveWrite.AtRoot.root {log : Log Call.Ans} {write : DriveWrite} (h : write.AtRoot log) :
    ∀ r, write.parent = some r → RootIs log r := by
  intro r hr
  cases write with
  | folder src parent name id => cases h.symm.trans hr
  | small | large => exact Option.some.inj hr ▸ h
  | update src id content => exact h.elim

section batch

variable (items : List SourceFile)

def isBatchFolder (p : String) : Bool := items.any (fun f => f.isFolder && f.sourceId = p)

/-- The folder of the batch that an item belongs in, or none. -/
def sourceHome (f : SourceFile) : Option String :=
  f.parentId.filter (fun p => p ≠ "" && isBatchFolder items p)

/-- The folders of the batch above an item, from the innermost on. -/
inductive Ancestry : SourceFile → List String → Prop
  | top (f : SourceFile) (h : sourceHome items f = none) : Ancestry f []
  | inside (f p : SourceFile) (path : List String) (hp : p ∈ items) (folder : p.isFolder = true)
      (h : sourceHome items f = some p.sourceId) (above : Ancestry p path) :
      Ancestry f (p.sourceId :: path)

end batch

section
variable (g : Graph) (user : UserMapping) (workload : String) (mode : Mode)
  (items : List SourceFile)

/-- The last folder made, or found, for `p` is `d`. -/
def FolderMade (w : World) (p : String) (parent : Option Token) (name : String) (d : Token) :
    Prop :=
  (writesOf (fileKey user workload p) w.log).head? =
    some (.folder (fileKey user workload p) parent name d)

/-- A new item is put into the destination folder that the folder map and the log have for
`home`, and without a home at the root. -/
def HomeIs (w : World) (write : DriveWrite) : Option String → Prop
  | some p => ∃ d, write.parent = some d ∧ w.db.getFolderDest (fileKey user workload p) = some d ∧
      ∃ parent name, FolderMade user workload w p parent name d
  | none => write.AtRoot w.log

/-- The folders made for the source folders of `path`, each in the next, lead up to the root. -/
inductive LiesIn (w : World) : List String → Option Token → Prop
  | root (dest : Option Token) (h : ∀ r, dest = some r → RootIs w.log r) : LiesIn w [] dest
  | inside (p : String) (path : List String) (parent : Option Token) (name : String) (d : Token)
      (made : FolderMade user workload w p parent name d) (above : LiesIn w path parent) :
      LiesIn w (p :: path) (some d)

/-- A fact about the root that holds of what the drive gives as its root, from then on. -/
structure RootFact (R : Log Call.Ans → Token → Prop) : Prop where
  given : ∀ w r, g.ask w .getRoot = .ok r → R (g.after w .getRoot).log r
  stays : ∀ log log' r, log <:+ log' → R log r → R log' r

/-- The fact holds of what the loop knows as the root. -/
def RootKnown (R : Log Call.Ans → Token → Prop) (st : FilesLoop) : Prop :=
  ∀ r, st.rootId = some r → R st.world.log r

/-- What holds of the folders once the items with the ids `P` are settled, in a pass without
failures that began in `w₀`: nothing is known of the other items. -/
structure Mapped (w₀ : World) (P : Set String) (st : FilesLoop) : Prop where
  failed : st.failed = ∅
  rows : ∀ f ∈ items, f.sourceId ∉ P →
    st.world.db.getItemState (fileKey user workload f.sourceId) =
      w₀.db.getItemState (fileKey user workload f.sourceId)
  writes : ∀ f ∈ items, f.sourceId ∉ P →
    writesOf (fileKey user workload f.sourceId) st.world.log =
      writesOf (fileKey user workload f.sourceId) w₀.log
  synced : ∀ p, st.dest user workload p = st.world.db.getFolderDest (fileKey user workload p)
  kept : ∀ p, (∀ f ∈ items, f.isFolder = true → f.sourceId = p → p ∉ P) →
    st.dest user workload p = w₀.db.getFolderDest (fileKey user workload p)
  folders : ∀ f ∈ items, f.isFolder = true → f.sourceId ∈ P → ∃ d,
    st.dest user workload f.sourceId = some d ∧
      ∃ parent, FolderMade user workload st.world f.sourceId parent f.name d

/-- The write of an item, and where it is put. -/
def Sits (w₀ w : World) (f : SourceFile) (home : Option String) : Prop :=
  ∃ write, writesOf (fileKey user workload f.sourceId) w.log =
      write :: writesOf (fileKey user workload f.sourceId) w₀.log ∧
    write.isNew = true ∧ HomeIs user workload w write home

/-- The items that are settled sit where they belong. A skipped file is not written. -/
structure Placing (w₀ : World) (P : Set String) (st : FilesLoop) : Prop where
  mapped : Mapped user workload items w₀ P st
  root : RootKnown RootIs st
  placed : ∀ f ∈ items, f.sourceId ∈ P → (f.isFolder = true ∨ f.action ≠ .skip) →
    Sits user workload w₀ st.world f (sourceHome items f)

/-- Nothing of the job is in the state store. -/
structure Unseen (w : World) : Prop where
  rows : ∀ id, w.db.getItemState (fileKey user workload id) = none
  folders : ∀ id, w.db.getFolderDest (fileKey user workload id) = none

variable {g user workload mode items} {w₀ : World} {P : Set String} {st st' : FilesLoop}
  {f : SourceFile}

theorem sourceHome_eq_some {p : String} :
    sourceHome items f = some p ↔
      f.HasParent p ∧ ∃ q ∈ items, q.isFolder = true ∧ q.sourceId = p := by
  simp [sourceHome, Option.filter_eq_some_iff, SourceFile.HasParent, isBatchFolder, and_assoc]

theorem sourceHome_eq_none :
    sourceHome items f = none ↔
      ∀ p, f.HasParent p → ∀ q ∈ items, q.isFolder = true → q.sourceId ≠ p := by
  rw [Option.eq_none_iff_forall_not_mem]
  constructor
  · intro h p hp q hq hfolder hid
    exact h p (sourceHome_eq_some.mpr ⟨hp, q, hq, hfolder, hid⟩)
  · intro h p hhome
    obtain ⟨hp, q, hq, hfolder, hid⟩ := sourceHome_eq_some.mp hhome
    exact h p hp q hq hfolder hid

theorem rootIs_fact : RootFact g RootIs := by
  refine ⟨fun w r hask => ?_, fun _ _ _ hgrows h => hgrows.subset h⟩
  rw [RootIs, Graph.after_log, hask]
  exact List.mem_cons_self

theorem RootKnown.grow {R : Log Call.Ans → Token → Prop} (h : RootKnown R st)
    (hfact : RootFact g R) (hroot : st'.rootId = st.rootId)
    (hlog : st.world.log <:+ st'.world.log) : RootKnown R st' := by
  intro r hr
  exact hfact.stays _ _ _ hlog (h r (hroot ▸ hr))

variable (user workload st f) in
theorem resolve_rootId (parentId : Option String) :
    (resolve user workload st parentId).2.rootId = st.rootId := by
  unfold resolve
  cases parentId with
  | none => rfl
  | some p =>
    simp only
    split
    · rfl
    · split
      · rfl
      · split <;> rfl

variable (user workload st f) in
theorem parentFor_rootId (defer : Bool) :
    (parentFor user workload st f defer).2.rootId = st.rootId := by
  have hresolve := resolve_rootId user workload st f.parentId
  unfold parentFor
  generalize resolve user workload st f.parentId = result at hresolve ⊢
  obtain ⟨found, st₁⟩ := result
  cases found with
  | some dest => exact hresolve
  | none =>
    simp only
    split
    · exact hresolve
    · split <;> exact hresolve

variable (g user workload st f) in
theorem processFolder_rootId (defer : Bool) :
    (processFolder g user workload st f defer).2.rootId = st.rootId := by
  have hparent := parentFor_rootId user workload st f defer
  unfold processFolder
  generalize parentFor user workload st f defer = result at hparent ⊢
  obtain ⟨found, st₁⟩ := result
  cases found with
  | error stop => exact hparent
  | ok parentDest =>
    simp only
    split <;> exact hparent

variable (g user workload st f) in
theorem uploadTo_rootId (parent : Token) (content : Bytes) (name : String) :
    (uploadTo g user workload st f parent content name).2.rootId = st.rootId := by
  simp only [uploadTo]
  split <;> rfl

variable {R : Log Call.Ans → Token → Prop}

variable (g) in
/-- The root that is known after `_root_id` is the one it returns. -/
theorem getRootId_known (hfact : RootFact g R) (h : RootKnown R st) :
    RootKnown R (getRootId g st).2 ∧
      ∀ root, (getRootId g st).1 = .ok root → (getRootId g st).2.rootId = some root := by
  unfold getRootId
  cases hknown : st.rootId with
  | some root => exact ⟨h, fun r hr => by rw [hknown]; exact congrArg some (Except.ok.inj hr)⟩
  | none =>
    simp only
    cases hask : g.ask st.world .getRoot with
    | error e =>
      constructor
      · rintro r ⟨⟩
      · rintro r ⟨⟩
    | ok root =>
      refine ⟨fun r hr => ?_, fun r hr => congrArg some (Except.ok.inj hr)⟩
      obtain rfl := Option.some.inj hr
      exact hfact.given st.world root hask

variable (g user workload f) in
/-- An upload to the root goes where the loop knows the root to be. -/
theorem uploadFile_rooted (hfact : RootFact g R) (h : RootKnown R st) (parentDest : Option Token)
    (content : Bytes) (name : String) :
    RootKnown R (uploadFile g user workload st f parentDest content name).2 ∧
      (parentDest = none → ∀ id,
        (uploadFile g user workload st f parentDest content name).1 = .ok id →
        ∃ root, (uploadFile g user workload st f parentDest content name).2.rootId = some root ∧
          driveWrites (uploadFile g user workload st f parentDest content name).2.world.log =
            newFileWrite (fileKey user workload f.sourceId) root name content id ::
              driveWrites st.world.log) := by
  -- an upload leaves the known root alone
  have hupload : ∀ (st₁ : FilesLoop) (parent : Token), RootKnown R st₁ →
      RootKnown R (uploadTo g user workload st₁ f parent content name).2 := by
    intro st₁ parent h₁
    apply h₁.grow hfact (uploadTo_rootId g user workload st₁ f parent content name)
    obtain ⟨id, st₂, heq, -, hchange⟩ | ⟨e, st₂, heq, -, hchange⟩ :=
      uploadTo_cases g user workload st₁ f parent content name
    all_goals
      rw [heq]
      exact hchange.grows
  cases parentDest with
  | some parent => exact ⟨hupload st parent h, fun hnone => absurd hnone (by simp)⟩
  | none =>
    have hroot := getRootId_known g hfact h
    have hquiet : driveWrites (getRootId g st).2.world.log = driveWrites st.world.log := by
      obtain ⟨root, st₁, heq, hchange⟩ | ⟨e, st₁, heq, -, hchange⟩ :=
        getRootId_cases g user workload st f
      all_goals
        rw [heq]
        exact hchange.quiet_writes
    simp only [uploadFile]
    generalize getRootId g st = result at hroot hquiet ⊢
    obtain ⟨answer, st₁⟩ := result
    cases answer with
    | error e => exact ⟨hroot.1, fun _ id hid => by cases hid⟩
    | ok root =>
      refine ⟨hupload st₁ root hroot.1, fun _ id hid => ⟨root, ?_, ?_⟩⟩
      · exact (uploadTo_rootId g user workload st₁ f root content name).trans
          (hroot.2 root rfl)
      · obtain ⟨id', st₂, heq, -, hchange⟩ | ⟨e, st₂, heq, -, hchange⟩ :=
          uploadTo_cases g user workload st₁ f root content name
        · have hsame : id' = id := by
            simp only [heq] at hid
            exact Except.ok.inj hid
          simp only [heq]
          rw [hchange.writes, ← hsame]
          exact congrArg _ hquiet
        · simp only [heq] at hid
          cases hid

variable (g user workload f) in
/-- So does the transfer of a file that has no parent to go under. -/
theorem transferFile_rooted (hfact : RootFact g R) (h : RootKnown R st)
    (existing parentDest : Option Token) :
    RootKnown R (transferFile g user workload st f existing parentDest).2 ∧
      (existing = none → parentDest = none →
        (transferFile g user workload st f existing parentDest).1 = .ok →
        ∃ root write, write.parent = some root ∧
          (transferFile g user workload st f existing parentDest).2.rootId = some root ∧
          driveWrites (transferFile g user workload st f existing parentDest).2.world.log =
            write :: driveWrites st.world.log) := by
  let fetched : FilesLoop :=
    { st with world := g.after st.world (.fetchFile (fileKey user workload f.sourceId) f) }
  have hfetched : FileChange user workload st fetched f none none none false :=
    fileChange_call user workload st f rfl
  have hstart : RootKnown R fetched := h.grow hfact rfl hfetched.grows
  simp only [transferFile, writeFile]
  cases g.ask st.world (.fetchFile (fileKey user workload f.sourceId) f) with
  | error e => exact ⟨hstart, fun _ _ hok => by cases hok⟩
  | ok answer =>
    obtain ⟨content, name⟩ := answer
    cases existing with
    | some id =>
      simp only
      -- an update goes nowhere new
      have hupdated : RootKnown R { fetched with
          world := g.after fetched.world
            (.updateFileContent (fileKey user workload f.sourceId) id content) } :=
        hstart.grow hfact rfl (List.suffix_cons _ _)
      cases g.ask fetched.world (.updateFileContent (fileKey user workload f.sourceId) id content)
      all_goals exact ⟨hupdated, fun hnone => absurd hnone (by simp)⟩
    | none =>
      have hup := uploadFile_rooted g user workload f hfact hstart parentDest content name
      simp only
      generalize uploadFile g user workload fetched f parentDest content name = result at hup ⊢
      obtain ⟨uploaded, st₁⟩ := result
      cases uploaded with
      | error e => exact ⟨hup.1, fun _ _ hok => by cases hok⟩
      | ok id =>
        refine ⟨hup.1, fun _ hnone _ => ?_⟩
        obtain ⟨root, hroot, hwrites⟩ := hup.2 hnone id rfl
        exact ⟨root, _, newFileWrite_parent .., hroot,
          hwrites.trans (congrArg _ hfetched.quiet_writes)⟩

variable (g user workload mode f) in
/-- A new file none of whose parents leads anywhere is put at the root. -/
theorem processFile_rooted (hfact : RootFact g R) (h : RootKnown R st) (defer : Bool) :
    RootKnown R (processFile g user workload mode st f defer).2 ∧
      (f.isFolder = false → leftAlone user workload mode st.world.db f = false →
        f.action ≠ .skip → existingDest user workload mode st.world.db f = none →
        (∀ p, f.HasParent p → st.dest user workload p = none) →
        (processFile g user workload mode st f defer).1 = .ok →
        ∃ root write, write.parent = some root ∧
          (processFile g user workload mode st f defer).2.rootId = some root ∧
          driveWrites (processFile g user workload mode st f defer).2.world.log =
            write :: driveWrites st.world.log) := by
  have hgrows : st.world.log <:+ (processFile g user workload mode st f defer).2.world.log := by
    obtain ⟨row, made, write, fails, hchange, -⟩ :=
      (processFile_step g user workload mode st f defer).anyChange
    exact hchange.grows
  by_cases hfolder : f.isFolder = true
  · refine ⟨h.grow hfact ?_ hgrows, fun hfile => absurd (hfolder.symm.trans hfile) (by simp)⟩
    rw [processFile, if_pos hfolder]
    exact processFolder_rootId g user workload st f defer
  by_cases halone : leftAlone user workload mode st.world.db f = true
  · refine ⟨h.grow hfact ?_ hgrows, fun _ hnot => absurd (halone.symm.trans hnot) (by simp)⟩
    rw [processFile, if_neg hfolder, if_pos halone]
  by_cases haction : f.action = .skip
  · refine ⟨h.grow hfact ?_ hgrows, fun _ _ hnot => absurd haction hnot⟩
    rw [processFile, if_neg hfolder, if_neg halone, if_pos haction]
  rw [processFile, if_neg hfolder, if_neg halone, if_neg haction]
  cases hex : existingDest user workload mode st.world.db f with
  | some id =>
    have htransfer := transferFile_rooted g user workload f hfact h (some id) none
    exact ⟨htransfer.1, fun _ _ _ hnone => absurd hnone (by simp)⟩
  | none =>
    have hroot := parentFor_rootId user workload st f defer
    simp only
    obtain ⟨parentDest, st₁, heq, hworld, hquiet, hplaced⟩ | ⟨p, st₁, v, heq, -, -, -, -, hchange⟩ |
      ⟨p, st₁, heq, -, -, -, -, hquiet⟩ := parentFor_cases user workload st f defer
    · rw [heq] at hroot ⊢
      have hstart : RootKnown R st₁ := h.grow hfact hroot hquiet.grows
      have htransfer := transferFile_rooted g user workload f hfact hstart none parentDest
      refine ⟨htransfer.1, fun _ _ _ _ hparents hok => ?_⟩
      -- no parent leads anywhere, so this is the forced round or there is no parent
      have hnone : parentDest = none := by
        cases hplaced with
        | noParent => rfl
        | under p d hp hd =>
          rw [hparents p hp] at hd
          cases hd
        | rooted => rfl
      obtain ⟨root, write, hparent, hroot', hwrites⟩ := htransfer.2 rfl hnone hok
      exact ⟨root, write, hparent, hroot', hwrites.trans (congrArg _ hquiet.quiet_writes)⟩
    · rw [heq] at hroot ⊢
      exact ⟨h.grow hfact hroot hchange.grows, fun _ _ _ _ _ hok => by cases hok⟩
    · rw [heq] at hroot ⊢
      exact ⟨h.grow hfact hroot hquiet.grows, fun _ _ _ _ _ hok => by cases hok⟩

theorem FolderMade.congr {w w' : World} {p : String} {parent : Option Token} {name : String}
    {d : Token} (h : FolderMade user workload w p parent name d)
    (hwrites : writesOf (fileKey user workload p) w'.log =
      writesOf (fileKey user workload p) w.log) :
    FolderMade user workload w' p parent name d := by
  rw [FolderMade, hwrites]
  exact h

theorem Mapped.put_off (h : Mapped user workload items w₀ P st)
    (hchange : FileChange user workload st st' f none none none false) :
    Mapped user workload items w₀ P st' := by
  have hrows : st'.world.db.getItemState = st.world.db.getItemState := hchange.rows
  have hfolders : st'.world.db.getFolderDest = st.world.db.getFolderDest := hchange.folders
  have hdest : st'.dest user workload = st.dest user workload := hchange.dest
  have hfailed : st'.failed = st.failed := hchange.failed
  have hwrites : ∀ k, writesOf k st'.world.log = writesOf k st.world.log := by
    intro k
    rw [writesOf, hchange.quiet_writes, writesOf]
  refine ⟨hfailed.trans h.failed, fun x hx hP => ?_, fun x hx hP => ?_, fun p => ?_,
    fun p hp => ?_, fun x hx hfolder hP => ?_⟩
  · rw [hrows]
    exact h.rows x hx hP
  · rw [hwrites]
    exact h.writes x hx hP
  · rw [hdest, hfolders]
    exact h.synced p
  · rw [hdest]
    exact h.kept p hp
  · obtain ⟨d, hd, parent, hmade⟩ := h.folders x hx hfolder hP
    exact ⟨d, (congrFun hdest _).trans hd, parent, hmade.congr (hwrites _)⟩

/-- One item more is settled; a folder has its destination then. -/
theorem Mapped.settle {row : Option ItemValues} {made : Option Token} {write : Option DriveWrite}
    (h : Mapped user workload items w₀ P st) (hnodup : (items.map SourceFile.sourceId).Nodup)
    (hf : f ∈ items) (hchange : FileChange user workload st st' f row made write false)
    (hsrc : ∀ x ∈ write, x.src = fileKey user workload f.sourceId)
    (hmade : f.isFolder = true → ∃ parent d, made = some d ∧
      write = some (.folder (fileKey user workload f.sourceId) parent f.name d))
    (hfile : f.isFolder = false → made = none) :
    Mapped user workload items w₀ (insert f.sourceId P) st' := by
  -- what is still open has a key of its own
  have hne : ∀ {x : SourceFile}, x.sourceId ∉ insert f.sourceId P →
      x.sourceId ∉ P ∧ fileKey user workload x.sourceId ≠ fileKey user workload f.sourceId := by
    intro x hx
    rw [Set.mem_insert_iff, not_or] at hx
    exact ⟨hx.2, fileKey_inj.not.mpr hx.1⟩
  have htouches := hchange.onlyTouches hsrc
  have hfailed : st'.failed = st.failed := hchange.failed
  refine ⟨hfailed.trans h.failed, fun x hx hP => ?_, fun x hx hP => ?_, fun p => ?_,
    fun p hp => ?_, fun x hx hfolder hP => ?_⟩
  · exact (htouches.rows _ (hne hP).2).trans (h.rows x hx (hne hP).1)
  · exact (htouches.writesOf_of_ne (hne hP).2).trans (h.writes x hx (hne hP).1)
  · rw [hchange.dest, hchange.folders]
    cases made with
    | none => exact h.synced p
    | some d =>
      have hsame := h.synced p
      by_cases hp : p = f.sourceId
      · subst hp
        simp
      · have hkey : fileKey user workload p ≠ fileKey user workload f.sourceId :=
          fileKey_inj.not.mpr hp
        simpa [Function.update_of_ne hp, Function.update_of_ne hkey] using hsame
  · -- no folder with this id was settled, this item included
    have hdest : st'.dest user workload p = st.dest user workload p := by
      by_cases hpf : p = f.sourceId
      · cases hfolder : f.isFolder with
        | true => exact absurd (hpf ▸ Set.mem_insert _ _) (hp f hf hfolder hpf.symm)
        | false =>
          rw [hchange.dest, hfile hfolder]
          rfl
      · exact hchange.dest_of_ne hpf
    rw [hdest]
    apply h.kept p
    intro x hx hfolder hid hP
    exact hp x hx hfolder hid (Set.mem_insert_of_mem _ hP)
  · -- the folder is this item, or one that was settled before
    rcases settled_cases hnodup hf hx hP with rfl | ⟨hP, hxf⟩
    · obtain ⟨parent, d, rfl, rfl⟩ := hmade hfolder
      refine ⟨d, hchange.dest_made, parent, ?_⟩
      rw [FolderMade, hchange.writesOf hsrc]
      rfl
    · obtain ⟨d, hd, parent, hfolderMade⟩ := h.folders x hx hfolder hP
      exact ⟨d, (hchange.dest_of_ne hxf).trans hd, parent,
        hfolderMade.congr (htouches.writesOf_of_ne (fileKey_inj.not.mpr hxf))⟩

/-- A step of the loop, on an item that is not settled yet. -/
theorem Mapped.step (h : Mapped user workload items w₀ P st) (hcalm : NoFailure g)
    (hnodup : (items.map SourceFile.sourceId).Nodup) (hf : f ∈ items) {defer : Bool} {v : Verdict}
    (hstep : FileStep g user workload mode st f defer v st') :
    Mapped user workload items w₀ (if v = .deferred then P else insert f.sourceId P) st' := by
  have hok : v ≠ .failed := hstep.not_failed hcalm h.failed
  cases hstep with
  | leftAlone file alone =>
    rw [if_neg (by simp)]
    exact h.settle hnodup hf (FileChange.refl st f) (by simp) (SourceFile.not_both file)
      (fun _ => rfl)
  | skipped _ row file alone action status noDest change =>
    rw [if_neg (by simp)]
    exact h.settle hnodup hf change (by simp) (SourceFile.not_both file) (fun _ => rfl)
  | deferred _ p parent unknown notFailed may file change =>
    rw [if_pos rfl]
    exact h.put_off change
  | folderMade _ row parentDest id folder placed answered status dest hash change =>
    rw [if_neg (by simp)]
    exact h.settle hnodup hf change (by simp [DriveWrite.src])
      (fun _ => ⟨parentDest, id, rfl, rfl⟩) (fun file => SourceFile.not_both file folder)
  | transferred _ row parentDest write file alone action placed written status dest hash change =>
    rw [if_neg (by simp)]
    exact h.settle hnodup hf change (by simpa using written.src_eq) (SourceFile.not_both file)
      (fun _ => rfl)
  | parentFailed | folderFailed | transferFailed => exact absurd rfl hok

/-- What is counted besides does not matter. -/
theorem Mapped.counted (h : Mapped user workload items w₀ P st) (n : ℕ) :
    Mapped user workload items w₀ P { st with failures := n } :=
  ⟨h.failed, h.rows, h.writes, h.synced, h.kept, h.folders⟩

/-- In a batch that starts with an empty folder map, what has a destination is a settled folder. -/
theorem Mapped.folder_of_dest (h : Mapped user workload items w₀ P st)
    (hempty : ∀ p, w₀.db.getFolderDest (fileKey user workload p) = none) {p : String} {d : Token}
    (hd : st.dest user workload p = some d) :
    p ∈ P ∧ (∃ q ∈ items, q.isFolder = true ∧ q.sourceId = p) ∧
      ∃ parent name, FolderMade user workload st.world p parent name d := by
  have hsettled : ∃ q ∈ items, q.isFolder = true ∧ q.sourceId = p ∧ p ∈ P := by
    -- the cache starts as the folder map, which is empty
    by_contra hnone
    have hkept := h.kept p (fun q hq hfolder hid hP => hnone ⟨q, hq, hfolder, hid, hP⟩)
    rw [hd, hempty] at hkept
    cases hkept
  obtain ⟨q, hq, hfolder, rfl, hP⟩ := hsettled
  obtain ⟨d', hd', parent, hmade⟩ := h.folders q hq hfolder hP
  obtain rfl : d' = d := Option.some.inj (hd'.symm.trans hd)
  exact ⟨hP, ⟨q, hq, hfolder, rfl⟩, parent, q.name, hmade⟩

/-- Where an item goes is where it belongs, provided that it is forced only when no folder of
the batch that it waits for is still to come. -/
theorem Mapped.home_of_placed (h : Mapped user workload items w₀ P st)
    (hempty : ∀ p, w₀.db.getFolderDest (fileKey user workload p) = none) {defer : Bool}
    (horphan : defer = false → ∀ p, f.HasParent p → ∀ q ∈ items, q.sourceId = p → p ∈ P)
    {dest : Option Token} (hplaced : Placed user workload st f defer dest) :
    (∃ p d, dest = some d ∧ sourceHome items f = some p ∧ st.dest user workload p = some d ∧
      ∃ parent name, FolderMade user workload st.world p parent name d) ∨
    (dest = none ∧ sourceHome items f = none ∧
      ∀ p, f.HasParent p → st.dest user workload p = none) := by
  cases hplaced with
  | noParent hnone =>
    refine Or.inr ⟨rfl, sourceHome_eq_none.mpr (fun p hp => absurd hp (hnone p)), ?_⟩
    exact fun p hp => absurd hp (hnone p)
  | under p d hp hd =>
    obtain ⟨-, hq, hmade⟩ := h.folder_of_dest hempty hd
    exact Or.inl ⟨p, d, rfl, sourceHome_eq_some.mpr ⟨hp, hq⟩, hd, hmade⟩
  | rooted p hp hd hnotFailed hdefer =>
    -- rooted, since the folder map has nothing for the parent
    have honly : ∀ p', f.HasParent p' → p' = p := fun p' hp' => hp'.unique hp
    refine Or.inr ⟨rfl, sourceHome_eq_none.mpr (fun p' hp' q hq hfolder hid => ?_), ?_⟩
    · -- a folder of the batch with this id is settled, and would be known
      obtain rfl := honly p' hp'
      subst hid
      obtain ⟨d, hd', -⟩ := h.folders q hq hfolder (horphan hdefer _ hp' q hq rfl)
      rw [hd] at hd'
      cases hd'
    · intro p' hp'
      rw [honly p' hp']
      exact hd

variable (mode) in
/-- A file without a row is neither left alone nor updated in place. -/
theorem Unseen.fresh (h : Unseen user workload w₀) (hm : Mapped user workload items w₀ P st)
    (hf : f ∈ items) (hopen : f.sourceId ∉ P) :
    leftAlone user workload mode st.world.db f = false ∧
      existingDest user workload mode st.world.db f = none := by
  have hrow := (hm.rows f hf hopen).trans (h.rows _)
  cases mode with
  | full => simp [leftAlone, existingDest, Db.isDone_eq, hrow]
  | delta => simp [leftAlone, existingDest, Db.getItemHash_eq, Db.recorded_eq, hrow]

/-- The home of a settled item stays what it is while another item is settled. -/
theorem HomeIs.keep {write : DriveWrite} {home : Option String}
    (h : HomeIs user workload st.world write home) (hm : Mapped user workload items w₀ P st)
    (hempty : Unseen user workload w₀) (hopen : f.sourceId ∉ P)
    (hgrows : st.world.log <:+ st'.world.log)
    (htouches : OnlyTouches (fileKey user workload f.sourceId) st.world st'.world) :
    HomeIs user workload st'.world write home := by
  cases home with
  | none =>
    cases write with
    | folder src parent name id => exact h
    | small | large => exact hgrows.subset h
    | update src id content => exact h
  | some p =>
    obtain ⟨d, hdest, hfolder, parent, name, hmade⟩ := h
    -- the folder map has the home, so the home is settled and is another item
    have hsettled := (hm.folder_of_dest hempty.folders ((hm.synced p).trans hfolder)).1
    have hne : fileKey user workload p ≠ fileKey user workload f.sourceId := by
      intro heq
      have hid : p = f.sourceId := fileKey_inj.mp heq
      exact hopen (hid ▸ hsettled)
    exact ⟨d, hdest, (htouches.folders _ hne).trans hfolder, parent, name,
      hmade.congr (htouches.writesOf_of_ne hne)⟩

theorem Mapped.sits (h : Mapped user workload items w₀ P st) (hf : f ∈ items)
    (hopen : f.sourceId ∉ P) {row : Option ItemValues} {made : Option Token} {write : DriveWrite}
    {fails : Bool} (hchange : FileChange user workload st st' f row made (some write) fails)
    (hsrc : write.src = fileKey user workload f.sourceId) (hnew : write.isNew = true)
    {home : Option String} (hhome : HomeIs user workload st'.world write home) :
    Sits user workload w₀ st'.world f home := by
  refine ⟨write, ?_, hnew, hhome⟩
  rw [hchange.writesOf (by simpa using hsrc), h.writes f hf hopen]
  rfl

variable (mode) in
/-- The item that a step settles sits where it belongs. -/
theorem Placing.own (h : Placing user workload items w₀ P st) (hcalm : NoFailure g)
    (hempty : Unseen user workload w₀) (hf : f ∈ items) (hopen : f.sourceId ∉ P) {defer : Bool}
    (horphan : defer = false → ∀ p, f.HasParent p → ∀ q ∈ items, q.sourceId = p → p ∈ P)
    (hkept : f.isFolder = true ∨ f.action ≠ .skip)
    (hv : (processFile g user workload mode st f defer).1 ≠ .deferred) :
    Sits user workload w₀ (processFile g user workload mode st f defer).2.world f
      (sourceHome items f) := by
  obtain ⟨hnotAlone, hexisting⟩ := hempty.fresh mode h.mapped hf hopen
  obtain ⟨hroot, hrooted⟩ := processFile_rooted g user workload mode f rootIs_fact h.root defer
  have hstep := processFile_step g user workload mode st f defer
  have htouches := hstep.onlyTouches
  generalize processFile g user workload mode st f defer = result at *
  obtain ⟨v, st'⟩ := result
  have hok : v ≠ .failed := hstep.not_failed hcalm h.mapped.failed
  cases hstep with
  | leftAlone file alone =>
    rw [hnotAlone] at alone
    cases alone
  | skipped _ row file alone action =>
    rcases hkept with hfolder | haction
    · rw [file] at hfolder
      cases hfolder
    · exact absurd action haction
  | deferred => exact absurd rfl hv
  | folderMade _ row parentDest id folder placed answered status dest hash change =>
    have hhome : HomeIs user workload st.world
        (.folder (fileKey user workload f.sourceId) parentDest f.name id)
        (sourceHome items f) := by
      obtain ⟨p, d, hdest, hhome, hd, hmade⟩ | ⟨hdest, hhome, -⟩ :=
        h.mapped.home_of_placed hempty.folders horphan placed
      · rw [hhome]
        exact ⟨d, hdest, (h.mapped.synced p).symm.trans hd, hmade⟩
      · rw [hhome]
        exact hdest
    exact h.mapped.sits hf hopen change rfl rfl
      (hhome.keep h.mapped hempty hopen change.grows htouches)
  | transferred _ row parentDest write file alone action placed written status dest hash change =>
    rw [hexisting] at written
    have hnew : write.isNew = true := by
      cases written with
      | uploaded id parent content name fetched under answered => exact newFileWrite_isNew ..
    obtain ⟨p, d, hdest, hhome, hd, hmade⟩ | ⟨hdest, hhome, hnone⟩ :=
      h.mapped.home_of_placed hempty.folders horphan (placed hexisting)
    · have hparent : write.parent = some d := by
        cases written with
        | uploaded id parent content name fetched under answered =>
          rw [newFileWrite_parent, under d hdest]
      have hstart : HomeIs user workload st.world write (sourceHome items f) := by
        rw [hhome]
        exact ⟨d, hparent, (h.mapped.synced p).symm.trans hd, hmade⟩
      exact h.mapped.sits hf hopen change written.src_eq hnew
        (hstart.keep h.mapped hempty hopen change.grows htouches)
    · -- without a folder to go under the file went where the drive has its root
      obtain ⟨root, write', hparent, hknown, hwrites⟩ :=
        hrooted file alone action hexisting hnone rfl
      obtain rfl : write' = write := by
        have hsame := hwrites.symm.trans change.writes
        exact (List.cons.inj hsame).1
      have hend : HomeIs user workload st'.world write' (sourceHome items f) := by
        rw [hhome]
        cases written with
        | uploaded id parent content name fetched under answered =>
          rw [newFileWrite_parent] at hparent
          obtain rfl := Option.some.inj hparent
          exact newFileWrite_atRoot (hroot _ hknown)
      exact h.mapped.sits hf hopen change written.src_eq hnew hend
  | parentFailed | folderFailed | transferFailed => exact absurd rfl hok

variable (mode) in
/-- A step of the loop, on an item that is not settled yet. -/
theorem Placing.step (h : Placing user workload items w₀ P st) (hcalm : NoFailure g)
    (hempty : Unseen user workload w₀) (hnodup : (items.map SourceFile.sourceId).Nodup)
    (hf : f ∈ items) (hopen : f.sourceId ∉ P) (defer : Bool)
    (horphan : defer = false → ∀ p, f.HasParent p → ∀ q ∈ items, q.sourceId = p → p ∈ P) :
    Placing user workload items w₀
      (if (fileStep g user workload mode defer st f).1 then P else insert f.sourceId P)
      (fileStep g user workload mode defer st f).2 := by
  have hstep := processFile_step g user workload mode st f defer
  have hmapped := h.mapped.step hcalm hnodup hf hstep
  have hroot := (processFile_rooted g user workload mode f rootIs_fact h.root defer).1
  have hown := h.own mode hcalm hempty hf hopen horphan
  have hothers := hstep.onlyTouches
  obtain ⟨row, made, write, fails, hchange, -⟩ := hstep.anyChange
  rw [fileStep_eq]
  generalize processFile g user workload mode st f defer = result at *
  obtain ⟨v, st'⟩ := result
  simp only [decide_eq_true_eq]
  refine ⟨hmapped.counted _, hroot, fun x hx hP hkept => ?_⟩
  -- the item of this step is placed by it, every other one stays where it is
  by_cases hxf : x.sourceId = f.sourceId
  · obtain rfl : x = f := List.inj_on_of_nodup_map hnodup hx hf hxf
    by_cases hv : v = .deferred
    · rw [if_pos hv] at hP
      exact absurd hP hopen
    · exact hown hkept hv
  · have hsettled : x.sourceId ∈ P := by
      split at hP
      · exact hP
      · exact (Set.mem_insert_iff.mp hP).resolve_left hxf
    obtain ⟨written, hwrites, hnew, hhome⟩ := h.placed x hx hsettled hkept
    have hne : fileKey user workload x.sourceId ≠ fileKey user workload f.sourceId :=
      fileKey_inj.not.mpr hxf
    have hend : HomeIs user workload st'.world written (sourceHome items x) :=
      hhome.keep h.mapped hempty hopen hchange.grows hothers
    exact ⟨written, (hothers.writesOf_of_ne hne).trans hwrites, hnew, hend⟩

theorem mapped_start (w : World) : Mapped user workload items w ∅ { world := w } := by
  refine ⟨rfl, fun _ _ _ => rfl, fun _ _ _ => rfl, fun p => ?_, fun p _ => ?_, ?_⟩
  · simp [FilesLoop.dest]
  · simp [FilesLoop.dest]
  · exact fun _ _ _ hP => absurd hP (Set.notMem_empty _)

variable (g user workload mode) in
/-- At the end of a pass without failures every item of the batch sits where it belongs. -/
theorem migrate_placing (feed : Enumeration SourceFile) (w : World) (hcalm : NoFailure g)
    (hempty : Unseen user workload w) (hraised : feed.raised = none)
    (hnodup : (feed.items.map SourceFile.sourceId).Nodup)
    (hacyclic : Acyclic SourceFile.sourceId SourceFile.parentId feed.items) :
    ∃ P, (∀ f ∈ feed.items, f.sourceId ∈ P) ∧
      Placing user workload feed.items w P (migrateFiles g user workload mode feed w) := by
  rw [migrateFiles_whole g user workload mode hraised]
  refine Worklist.process_induction (J := fun P st => Placing user workload feed.items w P st)
    (.of_acyclic hacyclic (fun st f => fileStep_forced st f) ?_) hnodup _ ?_
  · -- an orphan is forced once no item that is put off is its parent
    intro d P st f hf hJ hopen hparent
    exact hJ.step mode hcalm hempty hnodup hf hopen d (fun hd p hp => hparent hd p hp.1)
  · have hroot : RootKnown RootIs { world := w } := by
      rintro r ⟨⟩
    exact ⟨mapped_start w, hroot, fun _ _ hP => absurd hP (Set.notMem_empty _)⟩

/-- An item's ancestors in the batch, by induction from the top of the forest. -/
theorem ancestry_exists (hacyclic : Acyclic SourceFile.sourceId SourceFile.parentId items) :
    ∀ f ∈ items, ∃ path, Ancestry items f path := by
  refine hacyclic.induction (fun f hf ih => ?_)
  cases hhome : sourceHome items f with
  | none => exact ⟨[], .top f hhome⟩
  | some p =>
    obtain ⟨hp, q, hq, hfolder, rfl⟩ := sourceHome_eq_some.mp hhome
    obtain ⟨path, hpath⟩ := ih q ⟨hq, hf, hp.1⟩
    exact ⟨q.sourceId :: path, .inside f q path hq hfolder hhome hpath⟩

/-- Once all is settled, the destination folders are nested as the source folders are. -/
theorem Placing.liesIn (h : Placing user workload items w₀ P st)
    (hall : ∀ f ∈ items, f.sourceId ∈ P) {path : List String} (hpath : Ancestry items f path)
    {write : DriveWrite} (hsits : HomeIs user workload st.world write (sourceHome items f)) :
    LiesIn user workload st.world path write.parent := by
  induction hpath generalizing write with
  | top f hhome =>
    rw [hhome] at hsits
    exact .root write.parent hsits.root
  | inside f p path hp folder hhome above ih =>
    rw [hhome] at hsits
    obtain ⟨d, hparent, hfolder, parent, name, hmade⟩ := hsits
    rw [hparent]
    apply LiesIn.inside p.sourceId path parent name d hmade
    -- the folder itself sits where its own parent says
    obtain ⟨made, hwrites, -, habove⟩ := h.placed p hp (hall p hp) (Or.inl folder)
    rw [FolderMade, hwrites, List.head?_cons, Option.some.injEq] at hmade
    rw [hmade] at habove
    exact ih habove

section order

variable {items' : List SourceFile} (hperm : items'.Perm items)
include hperm

theorem sourceHome_of_perm : sourceHome items' f = sourceHome items f := by
  have hsame : isBatchFolder items' = isBatchFolder items := by
    funext p
    exact hperm.any_eq
  rw [sourceHome, hsame, sourceHome]

theorem acyclic_of_perm (h : Acyclic SourceFile.sourceId SourceFile.parentId items) :
    Acyclic SourceFile.sourceId SourceFile.parentId items' := by
  have hsame : IsParent SourceFile.sourceId SourceFile.parentId items' =
      IsParent SourceFile.sourceId SourceFile.parentId items := by
    funext p f
    simp only [IsParent, hperm.mem_iff]
  intro f
  rw [hsame]
  exact h f

theorem Ancestry.of_perm {path : List String} (h : Ancestry items' f path) :
    Ancestry items f path := by
  induction h with
  | top f hhome => exact .top f (sourceHome_of_perm hperm ▸ hhome)
  | inside f p path hp folder hhome above ih =>
    exact .inside f p path (hperm.mem_iff.mp hp) folder (sourceHome_of_perm hperm ▸ hhome) ih

end order

end

/-- However a batch is listed, a pass without failures that starts from an empty state writes
every folder and every file that is not skipped once, under the destination folder of its parent
if the parent is a folder of the batch, and at the root if not; so the destination folders above
an item are those of its ancestors in the batch. -/
theorem placement_any_order (g : Graph) (user : UserMapping) (workload : String) (mode : Mode)
    (items : List SourceFile) (feed : Enumeration SourceFile) (w : World) (hcalm : NoFailure g)
    (hempty : Unseen user workload w) (hnodup : (items.map SourceFile.sourceId).Nodup)
    (hacyclic : Acyclic SourceFile.sourceId SourceFile.parentId items)
    (hraised : feed.raised = none) (hperm : feed.items.Perm items) :
    let w' := (migrateFiles g user workload mode feed w).world
    ∀ f ∈ items, (f.isFolder = true ∨ f.action ≠ .skip) → ∃ write path,
      writesOf (fileKey user workload f.sourceId) w'.log =
        write :: writesOf (fileKey user workload f.sourceId) w.log ∧ write.isNew = true ∧
      HomeIs user workload w' write (sourceHome items f) ∧
      Ancestry items f path ∧ LiesIn user workload w' path write.parent := by
  intro w' f hf hkept
  have hnodup' : (feed.items.map SourceFile.sourceId).Nodup :=
    (hperm.map SourceFile.sourceId).nodup_iff.mpr hnodup
  have hacyclic' := acyclic_of_perm hperm hacyclic
  -- the argument is made for the listed order, only its reading is not
  obtain ⟨P, hall, hplacing⟩ := migrate_placing g user workload mode feed w hcalm hempty hraised
    hnodup' hacyclic'
  have hf' : f ∈ feed.items := hperm.mem_iff.mpr hf
  obtain ⟨path, hpath⟩ := ancestry_exists hacyclic' f hf'
  obtain ⟨write, hwrites, hnew, hhome⟩ := hplacing.placed f hf' (hall f hf') hkept
  refine ⟨write, path, hwrites, hnew, ?_, hpath.of_perm hperm, hplacing.liesIn hall hpath hhome⟩
  rw [← sourceHome_of_perm hperm]
  exact hhome

/-- A file that is listed before its folder, which itself hangs below something unknown. -/
theorem child_first_placed :
    let user : UserMapping := ⟨"a@source", "a@dest"⟩
    let folder : SourceFile :=
      { sourceId := "d", name := "d", parentId := some "shared", isFolder := true }
    let child : SourceFile := { sourceId := "c", name := "c", parentId := some "d" }
    let w' := (migrateFiles calmGraph user "files" .full { items := [child, folder] } {}).world
    ∀ f ∈ [folder, child], (f.isFolder = true ∨ f.action ≠ .skip) → ∃ write path,
      writesOf (fileKey user "files" f.sourceId) w'.log = [write] ∧ write.isNew = true ∧
      HomeIs user "files" w' write (sourceHome [folder, child] f) ∧
      Ancestry [folder, child] f path ∧ LiesIn user "files" w' path write.parent := by
  intro user folder child
  have hacyclic : Acyclic SourceFile.sourceId SourceFile.parentId [folder, child] := by
    apply acyclic_of_rank (fun f => if f.isFolder then 0 else 1)
    rintro p x ⟨hp, hx, hparent⟩
    simp only [List.mem_cons, List.not_mem_nil, or_false] at hp hx
    rcases hp with rfl | rfl <;> rcases hx with rfl | rfl <;>
      simp [folder, child] at hparent ⊢
  exact placement_any_order calmGraph user "files" .full [folder, child]
    { items := [child, folder] } {} calmGraph_noFailure ⟨fun _ => rfl, fun _ => rfl⟩
    (by decide) hacyclic rfl (List.Perm.swap folder child [])

end GwsMigrator
