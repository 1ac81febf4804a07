import GwsMigrator.FilesPlacement
import GwsMigrator.WorklistSimulation

/-! The plan of a pass over a batch: where its folders and its new files go, from their names, their
parents and the order they are listed in, without calls and without a state store. A pass without
failures follows it. -/
namespace GwsMigrator
open Dialogue Worklist

/-- The folders of a destination drive, the ones it has and the ones still to be asked for: the
folder of a name in a folder, or at the root, is the same one whenever it is asked for. -/
structure FolderTree where
  root : Token
  child : Option Token → String → Token
  child_inj : ∀ d d' name name', child (some d) name = child (some d') name' → d = d'

/-- The calls for folders and for the root are answered by this drive. -/
structure FolderTree.Governs (tree : FolderTree) (g : Graph) : Prop where
  folders : ∀ log src parent name,
    g.answer log (.ensureFolder src parent name) = .ok (tree.child parent name)
  root : ∀ log, g.answer log .getRoot = .ok tree.root

def FolderTree.IsRoot (tree : FolderTree) (_ : Log Call.Ans) (r : Token) : Prop := r = tree.root

/-- The write puts up a new file. -/
def DriveWrite.isUpload : DriveWrite → Bool
  | small .. | large .. => true
  | folder .. | update .. => false

/-- The destination folders that are known, and the new files with the folders they are put into,
newest first. -/
structure FilePlan where
  folders : String → Option Token
  placed : List (SourceFile × Token) := []

namespace FilePlan

variable (tree : FolderTree) (isNew : SourceFile → Bool) (pl : FilePlan) (f : SourceFile)

/-- The folder that an item goes under, if it is known: the root for an item without a parent. -/
def parentOf : Option (Option Token) :=
  match f.parentId with
  | none => some none
  | some p => if p = "" then some none else (pl.folders p).map some

def put (parent : Option Token) : FilePlan :=
  if f.isFolder then
    { pl with folders := Function.update pl.folders f.sourceId (some (tree.child parent f.name)) }
  else { pl with placed := (f, parent.getD tree.root) :: pl.placed }

/-- One item of the batch. A file that is not new needs no parent. -/
def step (defer : Bool) (pl : FilePlan) (f : SourceFile) : Bool × FilePlan :=
  if f.isFolder || isNew f then
    match pl.parentOf f with
    | some parent => (false, pl.put tree f parent)
    -- put off while the loop makes progress, placed at the root when it is forced
    | none => if defer then (true, pl) else (false, pl.put tree f none)
  else (false, pl)

/-- The plan for a batch, where the destinations of `folders` are known already. -/
def make (folders : String → Option Token) (items : List SourceFile) : FilePlan :=
  Worklist.process (step tree isNew) SourceFile.sourceId SourceFile.parentId { folders := folders }
    items

variable {tree isNew pl f}

theorem parentOf_eq (p : String) (h : f.HasParent p) :
    pl.parentOf f = (pl.folders p).map some := by
  rw [parentOf, h.1]
  exact if_neg h.2

theorem parentOf_eq_root (h : ∀ p, ¬ f.HasParent p) : pl.parentOf f = some none := by
  unfold parentOf
  cases hp : f.parentId with
  | none => rfl
  | some p =>
    by_cases hempty : p = ""
    · exact if_pos hempty
    · exact absurd ⟨hp, hempty⟩ (h p)

/-- A forced item is never put off. -/
theorem step_forced : (step tree isNew false pl f).1 = false := by
  unfold step
  split
  · split <;> rfl
  · rfl

theorem step_left (h : f.isFolder = false) (hnew : isNew f = false) (d : Bool) :
    step tree isNew d pl f = (false, pl) := by
  rw [step, h, hnew]
  rfl

theorem step_known (h : f.isFolder = true ∨ isNew f = true) {parent : Option Token}
    (hparent : pl.parentOf f = some parent) (d : Bool) :
    step tree isNew d pl f = (false, pl.put tree f parent) := by
  rw [step, if_pos (by simpa using h), hparent]

theorem step_unknown (h : f.isFolder = true ∨ isNew f = true) (hparent : pl.parentOf f = none)
    (d : Bool) :
    step tree isNew d pl f = if d then (true, pl) else (false, pl.put tree f none) := by
  rw [step, if_pos (by simpa using h), hparent]

end FilePlan

section
variable (user : UserMapping) (workload : String) (mode : Mode) (items : List SourceFile)
  (w₀ : World)

/-- A file that a pass from `w₀` uploads as new. -/
structure NewFile (c : SourceFile) : Prop where
  file : c.isFolder = false
  changed : leftAlone user workload mode w₀.db c = false
  action : c.action ≠ .skip
  unknown : existingDest user workload mode w₀.db c = none

/-- One write of the file was made after `w₀`, into the folder `d`. -/
def PutInto (w : World) (c : SourceFile) (d : Token) : Prop :=
  ∃ write, writesOf (fileKey user workload c.sourceId) w.log =
      write :: writesOf (fileKey user workload c.sourceId) w₀.log ∧ write.parent = some d

def isNewFile (c : SourceFile) : Bool :=
  !c.isFolder && !leftAlone user workload mode w₀.db c && c.action ≠ .skip &&
    (existingDest user workload mode w₀.db c).isNone

/-- The write is the upload of a file of the plan, with the content and under the name that the
source gives for it. -/
def UploadOf (g : Graph) (write : DriveWrite) (x : SourceFile × Token) : Prop :=
  ∃ content name id, (∃ log, g.answer log (.fetchFile (fileKey user workload x.1.sourceId) x.1) =
      .ok (content, name)) ∧
    write = newFileWrite (fileKey user workload x.1.sourceId) x.2 name content id

/-- The pass has done with the items `P` what the plan says. -/
structure Planned (g : Graph) (tree : FolderTree) (P : Set String) (st : FilesLoop)
    (pl : FilePlan) : Prop where
  mapped : Mapped user workload items w₀ P st
  root : RootKnown tree.IsRoot st
  folders : st.dest user workload = pl.folders
  uploads : ∃ ws, driveWrites st.world.log = ws ++ driveWrites w₀.log ∧
    List.Forall₂ (UploadOf user workload g) (ws.filter DriveWrite.isUpload) pl.placed
  placed : ∀ x ∈ pl.placed, x.1 ∈ items ∧ x.1.sourceId ∈ P ∧
    NewFile user workload mode w₀ x.1 ∧ PutInto user workload w₀ st.world x.1 x.2
  all : ∀ c ∈ items, c.sourceId ∈ P → NewFile user workload mode w₀ c → ∃ d, (c, d) ∈ pl.placed

variable {user workload mode items w₀} {g : Graph} {tree : FolderTree} {P : Set String}
  {st st' : FilesLoop} {pl : FilePlan} {f : SourceFile}

theorem isNewFile_iff {c : SourceFile} :
    isNewFile user workload mode w₀ c = true ↔ NewFile user workload mode w₀ c := by
  simp only [isNewFile, Bool.and_eq_true, Bool.not_eq_true', decide_eq_true_eq,
    Option.isNone_iff_eq_none]
  constructor
  · rintro ⟨⟨⟨file, changed⟩, action⟩, unknown⟩
    exact ⟨file, changed, action, unknown⟩
  · rintro ⟨file, changed, action, unknown⟩
    exact ⟨⟨⟨file, changed⟩, action⟩, unknown⟩

theorem PutInto.unique {w : World} {c : SourceFile} {d d' : Token}
    (h : PutInto user workload w₀ w c d) (h' : PutInto user workload w₀ w c d') : d = d' := by
  obtain ⟨write, hwrites, hparent⟩ := h
  obtain ⟨write', hwrites', hparent'⟩ := h'
  obtain ⟨rfl, -⟩ := List.cons.inj (hwrites.symm.trans hwrites')
  exact Option.some.inj (hparent.symm.trans hparent')

/-- A step on another item leaves a file where it was put. -/
theorem OnlyTouches.putInto_iff {w w' : World} {c : SourceFile} {d : Token}
    (h : OnlyTouches (fileKey user workload f.sourceId) w w') (hne : c.sourceId ≠ f.sourceId) :
    PutInto user workload w₀ w' c d ↔ PutInto user workload w₀ w c d := by
  rw [PutInto, h.writesOf_of_ne (fileKey_inj.not.mpr hne), PutInto]

variable (mode) in
/-- The row of an item that is not settled yet is the one the pass found. -/
theorem Mapped.as_found (h : Mapped user workload items w₀ P st) (hf : f ∈ items)
    (hopen : f.sourceId ∉ P) :
    leftAlone user workload mode st.world.db f = leftAlone user workload mode w₀.db f ∧
      existingDest user workload mode st.world.db f = existingDest user workload mode w₀.db f := by
  have hrow := h.rows f hf hopen
  cases mode with
  | full => simp only [leftAlone, existingDest, Db.isDone_eq, hrow, and_self]
  | delta => simp only [leftAlone, existingDest, Db.getItemHash_eq, Db.recorded_eq, hrow, and_self]

theorem FolderTree.Governs.rootFact (h : tree.Governs g) : RootFact g tree.IsRoot := by
  refine ⟨fun w r hask => ?_, fun _ _ _ _ hr => hr⟩
  exact Except.ok.inj (hask.symm.trans (h.root w.log))

/-- What is placed without a parent has none that is known. -/
theorem Placed.unknown {defer : Bool} (h : Placed user workload st f defer none) :
    ∀ p, f.HasParent p → st.dest user workload p = none := by
  intro p hp
  cases h with
  | noParent hnone => exact absurd hp (hnone p)
  | rooted p' hp' hd =>
    obtain rfl := hp.unique hp'
    exact hd

/-- Where an item is placed the plan places it, too. -/
theorem Planned.parentOf (h : Planned user workload mode items w₀ g tree P st pl) {defer : Bool}
    {parent : Option Token} (hplaced : Placed user workload st f defer parent) :
    pl.parentOf f = some parent ∨ (pl.parentOf f = none ∧ defer = false ∧ parent = none) := by
  cases hplaced with
  | noParent hnone => exact Or.inl (FilePlan.parentOf_eq_root hnone)
  | under p d hp hd =>
    rw [h.folders] at hd
    exact Or.inl (by rw [FilePlan.parentOf_eq p hp, hd]; rfl)
  | rooted p hp hd hnot hforced =>
    rw [h.folders] at hd
    exact Or.inr ⟨by rw [FilePlan.parentOf_eq p hp, hd]; rfl, hforced, rfl⟩

/-- A step that places its item is one of the plan. -/
theorem Planned.step_placed (h : Planned user workload mode items w₀ g tree P st pl) {defer : Bool}
    {parent : Option Token} (hplaced : Placed user workload st f defer parent)
    {isNew : SourceFile → Bool} (hitem : f.isFolder = true ∨ isNew f = true) :
    FilePlan.step tree isNew defer pl f = (false, pl.put tree f parent) := by
  obtain hparent | ⟨hparent, rfl, rfl⟩ := h.parentOf hplaced
  · exact FilePlan.step_known hitem hparent defer
  · exact FilePlan.step_unknown hitem hparent false

theorem Planned.put_off (h : Planned user workload mode items w₀ g tree P st pl)
    (hroot : RootKnown tree.IsRoot st')
    (hchange : FileChange user workload st st' f none none none false) :
    Planned user workload mode items w₀ g tree P st' pl := by
  have hdest : st'.dest user workload = st.dest user workload := hchange.dest
  have hwrites : ∀ k, writesOf k st'.world.log = writesOf k st.world.log := by
    intro k
    rw [writesOf, hchange.quiet_writes, writesOf]
  obtain ⟨ws, hws, huploads⟩ := h.uploads
  refine ⟨h.mapped.put_off hchange, hroot, hdest.trans h.folders,
    ⟨ws, hchange.quiet_writes.trans hws, huploads⟩, fun x hx => ?_, h.all⟩
  obtain ⟨hitem, hP, hnew, hput⟩ := h.placed x hx
  refine ⟨hitem, hP, hnew, ?_⟩
  rw [PutInto, hwrites]
  exact hput

/-- One item more is settled, with the upload it made, if any. -/
theorem Planned.settle {row : Option ItemValues} {made : Option Token} {write : Option DriveWrite}
    (h : Planned user workload mode items w₀ g tree P st pl)
    (hnodup : (items.map SourceFile.sourceId).Nodup) (hf : f ∈ items) (hopen : f.sourceId ∉ P)
    (hmapped : Mapped user workload items w₀ (insert f.sourceId P) st')
    (hroot : RootKnown tree.IsRoot st')
    (hchange : FileChange user workload st st' f row made write false)
    (hsrc : ∀ x ∈ write, x.src = fileKey user workload f.sourceId) {pl' : FilePlan}
    (hfolders : pl'.folders = made.elim pl.folders
      (fun d => Function.update pl.folders f.sourceId (some d)))
    (more : List (SourceFile × Token)) (hplaced : pl'.placed = more ++ pl.placed)
    (huploads : List.Forall₂ (UploadOf user workload g)
      (write.toList.filter DriveWrite.isUpload) more)
    (hmore : ∀ x ∈ more, x.1 = f ∧ NewFile user workload mode w₀ f ∧
      PutInto user workload w₀ st'.world f x.2)
    (hnew : NewFile user workload mode w₀ f → ∃ d, (f, d) ∈ more) :
    Planned user workload mode items w₀ g tree (insert f.sourceId P) st' pl' := by
  have htouches := hchange.onlyTouches hsrc
  refine ⟨hmapped, hroot, ?_, ?_, fun x hx => ?_, fun c hc hP hcnew => ?_⟩
  · rw [hchange.dest, hfolders, h.folders]
  · obtain ⟨ws, hws, hold⟩ := h.uploads
    refine ⟨write.toList ++ ws, by rw [hchange.writes, hws, List.append_assoc], ?_⟩
    rw [List.filter_append, hplaced]
    exact List.rel_append huploads hold
  · rw [hplaced] at hx
    rcases List.mem_append.mp hx with hx | hx
    · obtain ⟨hxf, hfnew, hput⟩ := hmore x hx
      rw [hxf]
      exact ⟨hf, Set.mem_insert _ _, hfnew, hput⟩
    · obtain ⟨hitem, hP, hxnew, hput⟩ := h.placed x hx
      have hne : x.1.sourceId ≠ f.sourceId := fun heq => hopen (heq ▸ hP)
      exact ⟨hitem, Set.mem_insert_of_mem _ hP, hxnew, (htouches.putInto_iff hne).mpr hput⟩
  · rw [hplaced]
    rcases settled_cases hnodup hf hc hP with rfl | ⟨hP, -⟩
    · obtain ⟨d, hd⟩ := hnew hcnew
      exact ⟨d, List.mem_append_left _ hd⟩
    · obtain ⟨d, hd⟩ := h.all c hc hP hcnew
      exact ⟨d, List.mem_append_right _ hd⟩

/-- A file that is not new is settled without an upload. -/
theorem Planned.settle_old {row : Option ItemValues} {write : Option DriveWrite}
    (h : Planned user workload mode items w₀ g tree P st pl)
    (hnodup : (items.map SourceFile.sourceId).Nodup) (hf : f ∈ items) (hopen : f.sourceId ∉ P)
    (hmapped : Mapped user workload items w₀ (insert f.sourceId P) st')
    (hroot : RootKnown tree.IsRoot st') (file : f.isFolder = false)
    (hnot : ¬ NewFile user workload mode w₀ f)
    (hchange : FileChange user workload st st' f row none write false)
    (hwrite : ∀ x ∈ write, x.src = fileKey user workload f.sourceId ∧ x.isUpload = false)
    (d : Bool) :
    let r' := FilePlan.step tree (isNewFile user workload mode w₀) d pl f
    r'.1 = false ∧ Planned user workload mode items w₀ g tree (insert f.sourceId P) st' r'.2 := by
  have hnew : isNewFile user workload mode w₀ f = false := by
    rw [Bool.eq_false_iff, Ne, isNewFile_iff]
    exact hnot
  rw [FilePlan.step_left file hnew]
  refine ⟨rfl, h.settle hnodup hf hopen hmapped hroot hchange (fun x hx => (hwrite x hx).1) rfl []
    rfl ?_ (fun x hx => absurd hx List.not_mem_nil) (fun h => absurd h hnot)⟩
  rw [List.filter_eq_nil_iff.mpr]
  · exact List.Forall₂.nil
  · intro x hx
    rw [(hwrite x (Option.mem_toList.mp hx)).2]
    exact Bool.false_ne_true

/-- A new file is settled with its upload, into the folder that the plan has for it. -/
theorem Planned.settle_new {row : Option ItemValues} {parentDest : Option Token} {parent id : Token}
    {content : Bytes} {name : String} {d : Bool}
    (h : Planned user workload mode items w₀ g tree P st pl)
    (hnodup : (items.map SourceFile.sourceId).Nodup) (hf : f ∈ items) (hopen : f.sourceId ∉ P)
    (hmapped : Mapped user workload items w₀ (insert f.sourceId P) st')
    (hroot : RootKnown tree.IsRoot st') (hnew : NewFile user workload mode w₀ f)
    (hplaced : Placed user workload st f d parentDest) (hinto : parent = parentDest.getD tree.root)
    (hsource : ∃ log, g.answer log (.fetchFile (fileKey user workload f.sourceId) f) =
      .ok (content, name))
    (hchange : FileChange user workload st st' f row none
      (some (newFileWrite (fileKey user workload f.sourceId) parent name content id)) false) :
    let r' := FilePlan.step tree (isNewFile user workload mode w₀) d pl f
    r'.1 = false ∧ Planned user workload mode items w₀ g tree (insert f.sourceId P) st' r'.2 := by
  set write := newFileWrite (fileKey user workload f.sourceId) parent name content id with hwrite
  have hsrc : ∀ x ∈ some write, x.src = fileKey user workload f.sourceId := by
    intro x hx
    obtain rfl := Option.some.inj hx
    exact newFileWrite_src ..
  have hupload : write.isUpload = true := by
    rw [hwrite, newFileWrite]
    split <;> rfl
  rw [h.step_placed hplaced (Or.inr (isNewFile_iff.mpr hnew))]
  refine ⟨rfl, h.settle hnodup hf hopen hmapped hroot hchange hsrc ?_ [(f, parent)] ?_ ?_
    (fun x hx => ?_) (fun _ => ⟨parent, List.mem_cons_self⟩)⟩
  · simp [FilePlan.put, hnew.file]
  · simp [FilePlan.put, hnew.file, hinto]
  · rw [Option.toList_some, List.filter_cons_of_pos hupload]
    exact .cons ⟨content, name, id, hsource, rfl⟩ .nil
  · obtain rfl := List.mem_singleton.mp hx
    refine ⟨rfl, hnew, write, ?_, newFileWrite_parent ..⟩
    rw [hchange.writesOf hsrc, h.mapped.writes f hf hopen]
    rfl

theorem Planned.counted (h : Planned user workload mode items w₀ g tree P st pl) (n : ℕ) :
    Planned user workload mode items w₀ g tree P { st with failures := n } pl :=
  ⟨h.mapped.counted n, h.root, h.folders, h.uploads, h.placed, h.all⟩

/-- A step of the pass is the step of the plan, on an item that is not settled yet. -/
theorem Planned.step (h : Planned user workload mode items w₀ g tree P st pl) (hcalm : NoFailure g)
    (htree : tree.Governs g) (hnodup : (items.map SourceFile.sourceId).Nodup) (hf : f ∈ items)
    (hopen : f.sourceId ∉ P) (d : Bool) :
    let r := fileStep g user workload mode d st f
    let r' := FilePlan.step tree (isNewFile user workload mode w₀) d pl f
    r.1 = r'.1 ∧ Planned user workload mode items w₀ g tree
      (if r.1 then P else insert f.sourceId P) r.2 r'.2 := by
  intro r r'
  obtain ⟨hroot, hrooted⟩ := processFile_rooted g user workload mode f htree.rootFact h.root d
  have hstep := processFile_step g user workload mode st f d
  have hmapped := h.mapped.step hcalm hnodup hf hstep
  obtain ⟨halone, hexisting⟩ := h.mapped.as_found mode hf hopen
  simp only [r, r', fileStep_eq]
  generalize processFile g user workload mode st f d = result at *
  obtain ⟨v, st'⟩ := result
  simp only [decide_eq_true_eq] at hmapped ⊢
  suffices hnext : (FilePlan.step tree (isNewFile user workload mode w₀) d pl f).1 =
      decide (v = .deferred) ∧ Planned user workload mode items w₀ g tree
        (if v = .deferred then P else insert f.sourceId P) st'
        (FilePlan.step tree (isNewFile user workload mode w₀) d pl f).2 from
    ⟨hnext.1.symm, hnext.2.counted _⟩
  have hok : v ≠ .failed := hstep.not_failed hcalm h.mapped.failed
  cases hstep with
  | leftAlone file alone =>
    have hnot : ¬ NewFile user workload mode w₀ f := by
      intro hnew
      rw [halone, hnew.changed] at alone
      cases alone
    have hsame : ∀ x : DriveWrite, x ∈ (none : Option DriveWrite) →
        x.src = fileKey user workload f.sourceId ∧ x.isUpload = false := by simp
    exact h.settle_old hnodup hf hopen hmapped hroot file hnot (FileChange.refl _ f) hsame d
  | skipped _ row file alone action status noDest change =>
    exact h.settle_old hnodup hf hopen hmapped hroot file (fun hnew => hnew.action action) change
      (by simp) d
  | deferred _ p parent unknown notFailed may file change =>
    have hitem : f.isFolder = true ∨ isNewFile user workload mode w₀ f = true := by
      cases hfolder : f.isFolder with
      | true => exact Or.inl rfl
      | false =>
        obtain ⟨hchanged, haction, hunknown⟩ := file hfolder
        rw [halone] at hchanged
        rw [hexisting] at hunknown
        exact Or.inr (isNewFile_iff.mpr ⟨hfolder, hchanged, haction, hunknown⟩)
    rw [h.folders] at unknown
    have hnone : pl.parentOf f = none := by
      rw [FilePlan.parentOf_eq p parent, unknown]
      rfl
    rw [FilePlan.step_unknown hitem hnone, may, if_pos rfl, if_pos rfl]
    exact ⟨rfl, h.put_off hroot change⟩
  | folderMade _ row parentDest id folder placed answered status dest hash change =>
    obtain ⟨log, -, hanswer⟩ := answered
    obtain rfl := Except.ok.inj ((htree.folders ..).symm.trans hanswer)
    rw [h.step_placed placed (Or.inl folder), if_neg (by simp)]
    refine ⟨rfl, h.settle hnodup hf hopen hmapped hroot change (by simp [DriveWrite.src]) ?_ []
      ?_ ?_ (fun x hx => absurd hx List.not_mem_nil)
      (fun hnew => SourceFile.not_both hnew.file folder)⟩
    · simp only [FilePlan.put, if_pos folder]
      rfl
    · simp only [FilePlan.put, if_pos folder]
      rfl
    · exact List.Forall₂.nil
  | transferred _ row parentDest write file alone action placed written status dest hash change =>
    by_cases hnew : NewFile user workload mode w₀ f
    · have hnone := hexisting.trans hnew.unknown
      have hparent := placed hnone
      rw [hnone] at written
      cases written with
      | uploaded id parent content name fetched under answered source =>
        -- without a parent the file went to the root that the loop knows
        have hinto : parent = parentDest.getD tree.root := by
          cases parentDest with
          | some d => exact under d rfl
          | none =>
            obtain ⟨root, write, hwrite, hknown, hwrites⟩ :=
              hrooted file alone action hnone hparent.unknown rfl
            obtain rfl := (List.cons.inj (hwrites.symm.trans change.writes)).1
            rw [newFileWrite_parent] at hwrite
            exact (Option.some.inj hwrite).trans (hroot root hknown)
        exact h.settle_new hnodup hf hopen hmapped hroot hnew hparent hinto source change
    · have hupdate : ∀ x ∈ some write, x.src = fileKey user workload f.sourceId ∧
          x.isUpload = false := by
        intro x hx
        obtain rfl := Option.some.inj hx
        refine ⟨written.src_eq, ?_⟩
        cases hid : existingDest user workload mode st.world.db f with
        | none => exact absurd ⟨file, halone ▸ alone, action, hexisting ▸ hid⟩ hnew
        | some id =>
          rw [hid] at written
          cases written
          rfl
      exact h.settle_old hnodup hf hopen hmapped hroot file hnew change hupdate d
  | parentFailed | folderFailed | transferFailed => exact absurd rfl hok

variable (g tree user workload mode) in
/-- A pass without failures does what the plan says. -/
theorem migrate_planned (feed : Enumeration SourceFile) (w : World) (hcalm : NoFailure g)
    (htree : tree.Governs g) (hraised : feed.raised = none)
    (hnodup : (feed.items.map SourceFile.sourceId).Nodup) :
    ∃ P, (∀ f ∈ feed.items, f.sourceId ∈ P) ∧
      Planned user workload mode feed.items w g tree P (migrateFiles g user workload mode feed w)
        (FilePlan.make tree (isNewFile user workload mode w)
          (fun p => w.db.getFolderDest (fileKey user workload p)) feed.items) := by
  rw [migrateFiles_whole g user workload mode hraised, FilePlan.make]
  refine process_simulation (J := fun P st pl => Planned user workload mode feed.items w g tree P st pl)
    fileStep_forced hnodup (fun d P st pl f hf hJ hopen => ?_) _ _ ?_
  · exact hJ.step hcalm htree hnodup hf hopen d
  · have hmapped : Mapped user workload feed.items w ∅ { world := w } := mapped_start w
    refine ⟨hmapped, fun r hr => absurd hr (by simp), ?_, ⟨[], rfl, .nil⟩,
      fun x hx => absurd hx List.not_mem_nil, fun _ _ hP => absurd hP (Set.notMem_empty _)⟩
    exact funext hmapped.synced

end

section example_tree

theorem tally_inj {n n' : ℕ} {l l' : List Char}
    (h : List.replicate n 'i' ++ '/' :: l = List.replicate n' 'i' ++ '/' :: l') :
    n = n' ∧ l = l' := by
  induction n generalizing n' with
  | zero =>
    cases n' with
    | zero => exact ⟨rfl, (List.cons.inj h).2⟩
    | succ n' => exact absurd (List.cons.inj h).1 (by decide)
  | succ n ih =>
    cases n' with
    | zero => exact absurd (List.cons.inj h).1 (by decide)
    | succ n' =>
      obtain ⟨hn, hl⟩ := ih (List.cons.inj h).2
      exact ⟨congrArg (· + 1) hn, hl⟩

/-- The id of a folder spells its place: the length of its name, the name, the id of its parent. -/
def folderId (parent : Option Token) (name : String) : List Char :=
  List.replicate (lower name).toList.length 'i' ++
    '/' :: ((lower name).toList ++ parent.elim [] (fun d => d.val.toList))

/-- A drive that compares names without their case. -/
def pathTree : FolderTree where
  root := ⟨"root", by decide⟩
  child parent name := ⟨String.ofList (folderId parent name), by
    intro h
    simpa [folderId] using congrArg String.toList h⟩
  child_inj d d' name name' h := by
    have hids : folderId (some d) name = folderId (some d') name' := by
      simpa using congrArg (fun t : Token => t.val.toList) h
    obtain ⟨hlength, hrest⟩ := tally_inj hids
    exact Subtype.ext (String.toList_inj.mp (List.append_inj hrest hlength).2)

/-- It can be run, and no call fails. -/
def treeAnswer (tree : FolderTree) (log : Log Call.Ans) : (c : Call) → c.Ans
  | .ensureFolder _ parent name => .ok (tree.child parent name)
  | .getRoot => .ok tree.root
  | c => .ok (scriptedResult log c)

def treeGraph (tree : FolderTree) : Graph where
  answer := treeAnswer tree
  elapsed _ _ := 1
  createContact_fresh log src folder body id h := by
    obtain rfl := Except.ok.inj h
    exact freshToken_notMem _
  createEvent_fresh log src cal body id h := by
    obtain rfl := Except.ok.inj h
    exact freshToken_notMem _

theorem treeGraph_noFailure (tree : FolderTree) : NoFailure (treeGraph tree) := by
  intro log c e h
  cases c <;> cases h

theorem treeGraph_governed (tree : FolderTree) : tree.Governs (treeGraph tree) :=
  ⟨fun _ _ _ _ => rfl, fun _ => rfl⟩

end example_tree

end GwsMigrator
