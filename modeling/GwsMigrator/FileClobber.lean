import GwsMigrator.FilePlan
import GwsMigrator.NamedStore

/-! Whether the uploads of one full pass keep apart. A small file is put under its name, so it
replaces the file that an earlier upload of the pass left there, while an upload session gives
its item a name of its own. -/
namespace GwsMigrator
open Dialogue

namespace DriveWrite

/-- The write is about a file. -/
def isFile : DriveWrite → Bool
  | folder .. => false
  | small .. | large .. | update .. => true

def content : DriveWrite → Option Bytes
  | folder .. => none
  | small _ _ _ content _ | large _ _ _ content _ | update _ _ content => some content

end DriveWrite

/-- A folder id and a name in it, as far as names are compared. -/
abbrev Place := Token × String

/-- A file to be put up: its folder, and the name and the content that the source gives for it. -/
structure FileUpload where
  parent : Token
  name : String
  content : Bytes

/-- A destination drive: how it compares names, the name that an upload session gets when the
uploads before it are at such places, and the files it holds before the first write. -/
structure DestDrive where
  fold : String → String
  given : List Place → Token → String → String
  start : NamedStore.Contents Token Place Bytes

namespace DestDrive

variable (drive : DestDrive)

/-- Where a run of uploads leaves its files, newest first. -/
def places : List FileUpload → List Place
  | [] => []
  | u :: us =>
    (u.parent, if u.content.length ≤ smallFileThreshold then drive.fold u.name
      else drive.given (places us) u.parent u.name) :: places us

/-- No small file of the run comes to a place where an earlier upload has left a file. -/
def KeepApart : List FileUpload → Prop
  | [] => True
  | u :: us => (u.content.length ≤ smallFileThreshold →
      (u.parent, drive.fold u.name) ∉ drive.places us) ∧ KeepApart us

instance : (us : List FileUpload) → Decidable (drive.KeepApart us)
  | [] => isTrue trivial
  | u :: us =>
    have : Decidable (drive.KeepApart us) := instDecidableKeepApart us
    inferInstanceAs (Decidable ((u.content.length ≤ smallFileThreshold →
      (u.parent, drive.fold u.name) ∉ drive.places us) ∧ drive.KeepApart us))

/-- Where the uploads among some writes have left their files, newest first. -/
def writePlaces : List DriveWrite → List Place
  | [] => []
  | .small _ parent name _ _ :: ws => (parent, drive.fold name) :: writePlaces ws
  | .large _ parent name _ _ :: ws =>
    (parent, drive.given (writePlaces ws) parent name) :: writePlaces ws
  | .folder .. :: ws | .update .. :: ws => writePlaces ws

def storeWrite (ws : List DriveWrite) : DriveWrite → Option (NamedStore.Write Token Place Bytes)
  | .folder .. => none
  | .small _ parent name content id => some (.put id (parent, drive.fold name) content)
  | .large _ parent name content id =>
    some (.add id (parent, drive.given (drive.writePlaces ws) parent name) content)
  | .update _ id content => some (.set id content)

def storeWrites : List DriveWrite → List (NamedStore.Write Token Place Bytes)
  | [] => []
  | w :: ws => (drive.storeWrite ws w).toList ++ storeWrites ws

/-- The files on the drive after the writes. -/
def holds (ws : List DriveWrite) : NamedStore.Contents Token Place Bytes :=
  NamedStore.contents drive.start (drive.storeWrites ws)

/-- The calls are answered by the drive: a simple upload replaces the file of the same name, if
there is one, and an upload session makes a new file under a free name. -/
structure Governs (g : Graph) : Prop where
  unique : NamedStore.Unique drive.start
  lawful : ∀ log c write, driveWrite ⟨c, g.answer log c⟩ = some write →
    ∀ s ∈ drive.storeWrite (driveWrites log) write, s.Lawful (drive.holds (driveWrites log))

/-- Every file of the batch that is not skipped has an item of its own, with its content. -/
structure Intact (user : UserMapping) (workload : String) (items : List SourceFile) (w : World) :
    Prop where
  distinct : ∀ f ∈ items, ∀ f' ∈ items, f.isFolder = false → f.action ≠ .skip →
    f'.isFolder = false → f'.action ≠ .skip → f.sourceId ≠ f'.sourceId →
    w.db.recorded (fileKey user workload f.sourceId) ≠
      w.db.recorded (fileKey user workload f'.sourceId)
  content : ∀ f ∈ items, f.isFolder = false → f.action ≠ .skip → ∃ d content name x,
    w.db.recorded (fileKey user workload f.sourceId) = some d ∧
    Fetched w.log (fileKey user workload f.sourceId) f content name ∧
    drive.holds (driveWrites w.log) d = some x ∧ x.content = content

variable {drive}

variable (drive) in
theorem storeWrite_eq_none {ws : List DriveWrite} {w : DriveWrite} (h : w.isFile = false) :
    drive.storeWrite ws w = none := by
  cases w with
  | folder => rfl
  | small | large | update => exact absurd h (by simp [DriveWrite.isFile])

variable (drive) in
theorem storeWrite_eq_some (ws : List DriveWrite) {w : DriveWrite} (h : w.isFile = true) :
    ∃ s, drive.storeWrite ws w = some s ∧ s.id = w.id ∧ some s.content = w.content ∧
      (w.isNew = true → s.Uploads) := by
  cases w with
  | folder => exact absurd h (by simp [DriveWrite.isFile])
  | small src parent name content id => exact ⟨_, rfl, rfl, rfl, fun _ => trivial⟩
  | large src parent name content id => exact ⟨_, rfl, rfl, rfl, fun _ => trivial⟩
  | update src id content => exact ⟨_, rfl, rfl, rfl, by simp [DriveWrite.isNew]⟩

variable (drive) in
theorem storeWrites_ids (ws : List DriveWrite) :
    (drive.storeWrites ws).map NamedStore.Write.id =
      (ws.filter DriveWrite.isFile).map DriveWrite.id := by
  induction ws with
  | nil => rfl
  | cons w ws ih =>
    rw [storeWrites, List.map_append, ih]
    cases hw : w.isFile with
    | false =>
      rw [drive.storeWrite_eq_none hw, List.filter_cons_of_neg (by simp [hw])]
      rfl
    | true =>
      obtain ⟨s, hs, hid, -⟩ := drive.storeWrite_eq_some ws hw
      rw [hs, List.filter_cons_of_pos hw]
      simp [hid]

variable (drive) in
theorem mem_storeWrites {ws : List DriveWrite} {w : DriveWrite} (hw : w ∈ ws)
    (hfile : w.isFile = true) :
    ∃ s ∈ drive.storeWrites ws, s.id = w.id ∧ some s.content = w.content := by
  induction ws with
  | nil => exact absurd hw List.not_mem_nil
  | cons w₁ ws ih =>
    rw [storeWrites]
    rcases List.mem_cons.mp hw with rfl | hw
    · obtain ⟨s, hs, hid, hcontent, -⟩ := drive.storeWrite_eq_some ws hfile
      exact ⟨s, by simp [hs], hid, hcontent⟩
    · obtain ⟨s, hs, hsame⟩ := ih hw
      exact ⟨s, List.mem_append_right _ hs, hsame⟩

variable (drive) in
theorem storeWrites_uploads {ws : List DriveWrite} (hnew : ∀ w ∈ ws, w.isNew = true) :
    ∀ s ∈ drive.storeWrites ws, s.Uploads := by
  induction ws with
  | nil => exact fun s hs => absurd hs List.not_mem_nil
  | cons w ws ih =>
    intro s hs
    rw [storeWrites] at hs
    rcases List.mem_append.mp hs with hs | hs
    · cases hw : w.isFile with
      | false =>
        rw [drive.storeWrite_eq_none hw] at hs
        exact absurd hs (by simp)
      | true =>
        obtain ⟨s', hs', -, -, hup⟩ := drive.storeWrite_eq_some ws hw
        rw [hs'] at hs
        obtain rfl : s = s' := by simpa using hs
        exact hup (hnew w List.mem_cons_self)
    · exact ih (fun w' hw' => hnew w' (List.mem_cons_of_mem w hw')) s hs

variable (drive) in
theorem storeWrites_addresses (ws : List DriveWrite) :
    NamedStore.addresses (drive.storeWrites ws) = drive.writePlaces ws := by
  induction ws with
  | nil => rfl
  | cons w ws ih =>
    cases w with
    | folder => exact ih
    | small src parent name content id => exact congrArg _ ih
    | large src parent name content id => exact congrArg _ ih
    | update => exact ih

variable (drive) in
theorem newFileWrite_places (k : ItemKey) (parent : Token) (name : String) (content : Bytes)
    (id : Token) (ws : List DriveWrite) :
    drive.writePlaces (newFileWrite k parent name content id :: ws) =
      (parent, if content.length ≤ smallFileThreshold then drive.fold name
        else drive.given (drive.writePlaces ws) parent name) :: drive.writePlaces ws := by
  unfold newFileWrite
  split <;> rfl

variable (drive) in
/-- Only the put of a small file can go to where an earlier upload is. -/
theorem newFileWrite_unclobbered (k : ItemKey) (parent : Token) (name : String) (content : Bytes)
    (id : Token) (ws : List DriveWrite) :
    NamedStore.Unclobbered
        (drive.storeWrites (newFileWrite k parent name content id :: ws)) ↔
      (content.length ≤ smallFileThreshold → (parent, drive.fold name) ∉ drive.writePlaces ws) ∧
        NamedStore.Unclobbered (drive.storeWrites ws) := by
  rw [← drive.storeWrites_addresses]
  unfold newFileWrite
  split
  · next hsmall =>
    simp only [storeWrites, storeWrite, Option.toList_some, List.singleton_append,
      NamedStore.Unclobbered]
    apply and_congr_left
    intro _
    constructor
    · exact fun h _ => h id _ content rfl
    · rintro h id' a c heq
      cases heq
      exact h hsmall
  · next hlarge =>
    simp only [storeWrites, storeWrite, Option.toList_some, List.singleton_append,
      NamedStore.Unclobbered]
    apply and_congr_left
    intro _
    constructor
    · exact fun _ hsmall => absurd hsmall hlarge
    · rintro _ id' a c heq
      cases heq

end DestDrive

section
variable (user : UserMapping) (workload : String) (items : List SourceFile)

/-- What a write of the pass is about: a settled item, and for a file the row says what the
write made of its content. -/
structure Accounted (P : Set String) (w : World) (write : DriveWrite) (f : SourceFile) : Prop where
  mem : f ∈ items
  settled : f.sourceId ∈ P
  src : write.src = fileKey user workload f.sourceId
  fresh : write.isNew = true
  file : write.isFile = true → f.isFolder = false ∧ f.action ≠ .skip ∧
    w.db.recorded (fileKey user workload f.sourceId) = some write.id ∧
    ∃ content name, write.content = some content ∧
      Fetched w.log (fileKey user workload f.sourceId) f content name

/-- What holds of the batch once the items with the ids `P` are settled, in a full pass
without failures. -/
structure Uploading (drive : DestDrive) (P : Set String) (st : FilesLoop) : Prop where
  failed : st.failed = ∅
  unseen : ∀ f ∈ items, f.sourceId ∉ P →
    st.world.db.getItemState (fileKey user workload f.sourceId) = none
  accounted : ∀ write ∈ driveWrites st.world.log,
    ∃ f, Accounted user workload items P st.world write f
  once : ((driveWrites st.world.log).map DriveWrite.src).Nodup
  uploaded : ∀ f ∈ items, f.sourceId ∈ P → f.isFolder = false → f.action ≠ .skip →
    ∃ write ∈ driveWrites st.world.log, write.isFile = true ∧
      write.src = fileKey user workload f.sourceId
  lawful : NamedStore.Lawful drive.start (drive.storeWrites (driveWrites st.world.log))

variable {user workload items} {g : Graph} {drive : DestDrive} {P : Set String}
  {st st' : FilesLoop} {f : SourceFile}

/-- A step on another item leaves the account of a write as it is. -/
theorem Accounted.mono {P' : Set String} {w w' : World} {write : DriveWrite} {x : SourceFile}
    (h : Accounted user workload items P w write x) (hP : P ⊆ P')
    (hrow : w'.db.getItemState (fileKey user workload x.sourceId) =
      w.db.getItemState (fileKey user workload x.sourceId)) (hlog : w.log <:+ w'.log) :
    Accounted user workload items P' w' write x := by
  refine ⟨h.mem, hP h.settled, h.src, h.fresh, fun hfile => ?_⟩
  obtain ⟨hf, ha, hrec, content, name, hc, hfetched⟩ := h.file hfile
  refine ⟨hf, ha, ?_, content, name, hc, hlog.subset hfetched⟩
  rw [Db.recorded_eq, hrow, ← Db.recorded_eq]
  exact hrec

theorem Uploading.put_off (h : Uploading user workload items drive P st)
    (hchange : FileChange user workload st st' f none none none false) :
    Uploading user workload items drive P st' := by
  have hrows : st'.world.db.getItemState = st.world.db.getItemState := hchange.rows
  have hwrites := hchange.quiet_writes
  have hfailed : st'.failed = st.failed := hchange.failed
  refine ⟨hfailed.trans h.failed, ?_, fun write hw => ?_, ?_, ?_, ?_⟩
  · rw [hrows]
    exact h.unseen
  · rw [hwrites] at hw
    obtain ⟨x, hx⟩ := h.accounted write hw
    exact ⟨x, hx.mono (Set.Subset.refl P) (by rw [hrows]) hchange.grows⟩
  · rw [hwrites]
    exact h.once
  · rw [hwrites]
    exact h.uploaded
  · rw [hwrites]
    exact h.lawful

/-- One item more is settled, with the write it made, if any. -/
theorem Uploading.settle {row : ItemValues} {made : Option Token} {write : Option DriveWrite}
    (h : Uploading user workload items drive P st)
    (hnodup : (items.map SourceFile.sourceId).Nodup) (hf : f ∈ items) (hopen : f.sourceId ∉ P)
    (hchange : FileChange user workload st st' f (some row) made write false)
    (hown : ∀ w ∈ write, Accounted user workload items (insert f.sourceId P) st'.world w f)
    (huploaded : f.isFolder = false → f.action ≠ .skip → ∃ w ∈ write, w.isFile = true)
    (hlaw : ∀ w ∈ write, ∀ s ∈ drive.storeWrite (driveWrites st.world.log) w,
      s.Lawful (drive.holds (driveWrites st.world.log))) :
    Uploading user workload items drive (insert f.sourceId P) st' := by
  have hinj : ∀ x ∈ items, x.sourceId = f.sourceId → x = f := fun x hx heq =>
    List.inj_on_of_nodup_map hnodup hx hf heq
  have hrow : ∀ x : SourceFile, x.sourceId ≠ f.sourceId →
      st'.world.db.getItemState (fileKey user workload x.sourceId) =
        st.world.db.getItemState (fileKey user workload x.sourceId) := by
    intro x hne
    rw [hchange.rows, Option.elim_some, Function.update_of_ne]
    exact fileKey_inj.not.mpr hne
  have hfailed : st'.failed = st.failed := hchange.failed
  refine ⟨hfailed.trans h.failed, fun x hx hP => ?_, fun w hw => ?_, ?_, fun x hx hP hfile ha => ?_,
    ?_⟩
  · rw [Set.mem_insert_iff, not_or] at hP
    exact (hrow x hP.1).trans (h.unseen x hx hP.2)
  · rw [hchange.writes] at hw
    rcases List.mem_append.mp hw with hw | hw
    · exact ⟨f, hown w (Option.mem_toList.mp hw)⟩
    · obtain ⟨x, hx⟩ := h.accounted w hw
      have hne : x.sourceId ≠ f.sourceId := fun he => hopen (he ▸ hx.settled)
      exact ⟨x, hx.mono (Set.subset_insert f.sourceId P) (hrow x hne) hchange.grows⟩
  · rw [hchange.writes]
    cases write with
    | none => exact h.once
    | some w =>
      refine List.nodup_cons.mpr ⟨fun hmem => ?_, h.once⟩
      -- the item was not settled, so no earlier write is about it
      obtain ⟨w', hw', hsrc⟩ := List.mem_map.mp hmem
      obtain ⟨x, hx⟩ := h.accounted w' hw'
      have hkey := hx.src.symm.trans (hsrc.trans (hown w rfl).src)
      have hid : x.sourceId = f.sourceId := fileKey_inj.mp hkey
      exact hopen (hid ▸ hx.settled)
  · rw [hchange.writes]
    rcases Set.mem_insert_iff.mp hP with heq | hP
    · obtain rfl := hinj x hx heq
      obtain ⟨w, hw, hwf⟩ := huploaded hfile ha
      exact ⟨w, List.mem_append_left _ (Option.mem_toList.mpr hw), hwf, (hown w hw).src⟩
    · obtain ⟨w, hw, hsame⟩ := h.uploaded x hx hP hfile ha
      exact ⟨w, List.mem_append_right _ hw, hsame⟩
  · rw [hchange.writes]
    cases write with
    | none => exact h.lawful
    | some w =>
      have hw := hlaw w rfl
      simp only [Option.toList_some, List.singleton_append, DestDrive.storeWrites]
      cases hs : drive.storeWrite (driveWrites st.world.log) w with
      | none => exact h.lawful
      | some s => exact ⟨hw s hs, h.lawful⟩

theorem newFileWrite_isFile (k : ItemKey) (parent : Token) (name : String) (content : Bytes)
    (id : Token) : (newFileWrite k parent name content id).isFile = true := by
  unfold newFileWrite
  split <;> rfl

theorem newFileWrite_content (k : ItemKey) (parent : Token) (name : String) (content : Bytes)
    (id : Token) : (newFileWrite k parent name content id).content = some content := by
  unfold newFileWrite
  split <;> rfl

theorem Uploading.step (h : Uploading user workload items drive P st) (hlaw : drive.Governs g)
    (hcalm : NoFailure g) (hnodup : (items.map SourceFile.sourceId).Nodup) (hf : f ∈ items)
    (hopen : f.sourceId ∉ P) {defer : Bool} {v : Verdict}
    (hstep : FileStep g user workload .full st f defer v st') :
    Uploading user workload items drive (if v = .deferred then P else insert f.sourceId P) st' := by
  have hunseen := h.unseen f hf hopen
  have hok : v ≠ .failed := hstep.not_failed hcalm h.failed
  cases hstep with
  | leftAlone file alone =>
    rw [leftAlone, Db.isDone_eq, hunseen] at alone
    exact absurd alone (by simp)
  | skipped _ row file alone action status noDest change =>
    rw [if_neg (by simp)]
    exact h.settle hnodup hf hopen change (by simp) (fun _ ha => absurd action ha) (by simp)
  | deferred _ p parent unknown notFailed may file change => exact h.put_off change
  | folderMade _ row parentDest id folder placed answered status dest hash change =>
    rw [if_neg (by simp)]
    refine h.settle hnodup hf hopen change ?_ ?_ ?_
    · intro w hw
      obtain rfl := Option.mem_some.mp hw
      exact ⟨hf, Set.mem_insert _ _, rfl, rfl, by simp [DriveWrite.isFile]⟩
    · intro hfile
      rw [folder] at hfile
      exact absurd hfile (by simp)
    · intro w hw s hs
      obtain rfl := Option.mem_some.mp hw
      exact absurd hs (by simp [DestDrive.storeWrite])
  | transferred _ row parentDest write file alone action placed written status dest hash change =>
    rw [if_neg (by simp)]
    have hrec : st'.world.db.recorded (fileKey user workload f.sourceId) = some write.id := by
      rw [Db.recorded_eq, change.rows]
      simpa using dest
    -- with no row to begin with the write is an upload, not an update
    have hnew : write.isNew = true ∧ write.isFile = true ∧
        (∃ content name, write.content = some content ∧
          Fetched st'.world.log (fileKey user workload f.sourceId) f content name) ∧
        WriteAnswered g (driveWrites st.world.log) write := by
      cases written with
      | uploaded id parent content name fetched under answered =>
        exact ⟨newFileWrite_isNew .., newFileWrite_isFile ..,
          ⟨content, name, newFileWrite_content .., fetched⟩, answered⟩
    obtain ⟨hisNew, hisFile, hfetched, log, c, hlog, hanswer⟩ := hnew
    refine h.settle hnodup hf hopen change ?_ ?_ ?_
    · intro w hw
      obtain rfl := Option.mem_some.mp hw
      exact ⟨hf, Set.mem_insert _ _, written.src_eq, hisNew,
        fun _ => ⟨file, action, hrec, hfetched⟩⟩
    · exact fun _ _ => ⟨write, rfl, hisFile⟩
    · intro w hw
      obtain rfl := Option.mem_some.mp hw
      rw [← hlog]
      exact hlaw.lawful log c _ hanswer
  | parentFailed | folderFailed | transferFailed => exact absurd rfl hok

/-- The end of a full pass without failures. -/
theorem migrate_uploading (g : Graph) (drive : DestDrive) (user : UserMapping) (workload : String)
    (items : List SourceFile) (hlaw : drive.Governs g) (hcalm : NoFailure g)
    (hnodup : (items.map SourceFile.sourceId).Nodup) :
    ∃ P, (∀ f ∈ items, f.sourceId ∈ P) ∧ Uploading user workload items drive P
      (Worklist.process (fileStep g user workload .full) SourceFile.sourceId SourceFile.parentId
        { world := {} } items) := by
  refine Worklist.process_induction (J := fun P st => Uploading user workload items drive P st)
    (.of_step (fun st f => fileStep_forced st f) ?_) hnodup _ ?_
  · intro d P st f hf hJ hopen
    have hnext := hJ.step hlaw hcalm hnodup hf hopen (processFile_step g user workload .full st f d)
    rw [fileStep_eq]
    simp only [decide_eq_true_eq]
    exact ⟨hnext.failed, hnext.unseen, hnext.accounted, hnext.once, hnext.uploaded, hnext.lawful⟩
  · refine ⟨rfl, fun _ _ _ => rfl, ?_, List.nodup_nil, fun _ _ hP => absurd hP (Set.notMem_empty _),
      trivial⟩
    exact fun write hw => absurd hw List.not_mem_nil

/-- The upload of a settled file, whose id is in its row. -/
theorem Uploading.own_write (h : Uploading user workload items drive P st)
    (hnodup : (items.map SourceFile.sourceId).Nodup) (hf : f ∈ items) (hP : f.sourceId ∈ P)
    (hfile : f.isFolder = false) (haction : f.action ≠ .skip) :
    ∃ write ∈ driveWrites st.world.log, write.isFile = true ∧
      write.src = fileKey user workload f.sourceId ∧
      st.world.db.recorded (fileKey user workload f.sourceId) = some write.id ∧
      ∃ content name, write.content = some content ∧
        Fetched st.world.log (fileKey user workload f.sourceId) f content name := by
  obtain ⟨write, hw, hwf, hwsrc⟩ := h.uploaded f hf hP hfile haction
  obtain ⟨f', hf'⟩ := h.accounted write hw
  have hid : f'.sourceId = f.sourceId := fileKey_inj.mp (hf'.src.symm.trans hwsrc)
  obtain rfl := List.inj_on_of_nodup_map hnodup hf'.mem hf hid
  obtain ⟨-, -, hrec, hfetched⟩ := hf'.file hwf
  exact ⟨write, hw, hwf, hwsrc, hrec, hfetched⟩

/-- If every file has an item of its own, no two uploads gave one id. -/
theorem Uploading.nodup_of_intact (h : Uploading user workload items drive P st)
    (hintact : drive.Intact user workload items st.world) :
    (((driveWrites st.world.log).filter DriveWrite.isFile).map DriveWrite.id).Nodup := by
  refine List.Nodup.map_on ?_ ((h.once.of_map DriveWrite.src).filter _)
  intro x hx y hy heq
  obtain ⟨hx, hxf⟩ := List.mem_filter.mp hx
  obtain ⟨hy, hyf⟩ := List.mem_filter.mp hy
  obtain ⟨f, hf⟩ := h.accounted x hx
  obtain ⟨f', hf'⟩ := h.accounted y hy
  obtain ⟨hfile, haction, hrec, -⟩ := hf.file hxf
  obtain ⟨hfile', haction', hrec', -⟩ := hf'.file hyf
  by_contra hne
  -- different writes are about different files, whose rows hold the same id
  have hid : f.sourceId ≠ f'.sourceId := by
    intro he
    apply hne
    apply List.inj_on_of_nodup_map h.once hx hy
    rw [hf.src, hf'.src, he]
  apply hintact.distinct f hf.mem f' hf'.mem hfile haction hfile' haction' hid
  rw [hrec, hrec', heq]

/-- If no two did, every file has an item of its own, and its content in it. -/
theorem Uploading.intact_of_nodup (h : Uploading user workload items drive P st)
    (hnodup : (items.map SourceFile.sourceId).Nodup) (hall : ∀ f ∈ items, f.sourceId ∈ P)
    (hups : ∀ s ∈ drive.storeWrites (driveWrites st.world.log), s.Uploads)
    (hids : (((driveWrites st.world.log).filter DriveWrite.isFile).map DriveWrite.id).Nodup) :
    drive.Intact user workload items st.world := by
  refine ⟨fun f hf f' hf' hfile haction hfile' haction' hid heq => ?_,
    fun f hf hfile haction => ?_⟩
  · obtain ⟨x, hx, hxf, hxsrc, hrec, -⟩ := h.own_write hnodup hf (hall f hf) hfile haction
    obtain ⟨y, hy, hyf, hysrc, hrec', -⟩ := h.own_write hnodup hf' (hall f' hf') hfile' haction'
    rw [hrec, hrec'] at heq
    have hxy : x = y := List.inj_on_of_nodup_map hids (List.mem_filter.mpr ⟨hx, hxf⟩)
      (List.mem_filter.mpr ⟨hy, hyf⟩) (Option.some.inj heq)
    have hkey := hxsrc.symm.trans ((congrArg DriveWrite.src hxy).trans hysrc)
    exact hid (fileKey_inj.mp hkey)
  · obtain ⟨write, hw, hwf, -, hrec, content, name, hc, hfetched⟩ :=
      h.own_write hnodup hf (hall f hf) hfile haction
    obtain ⟨s, hs, hsid, hsc⟩ := drive.mem_storeWrites hw hwf
    rw [← drive.storeWrites_ids] at hids
    obtain ⟨x, hx, hxc⟩ := NamedStore.content_of_nodup (s := drive.start) hups hids hs
    refine ⟨write.id, content, name, x, hrec, hfetched, hsid ▸ hx, ?_⟩
    rw [hxc]
    exact Option.some.inj (hsc.trans hc)

end

/-- The uploads that a full pass over a batch asks for, newest first: its files come up in the order
in which they are listed, but for those that wait for the record of their folder. -/
def uploadsOf (tree : FolderTree) (fetched : SourceFile → Bytes × String)
    (items : List SourceFile) : List FileUpload :=
  (FilePlan.make tree (fun f => !f.isFolder && f.action ≠ .skip) (fun _ => none) items).placed.map
    (fun x => ⟨x.2, (fetched x.1).2, (fetched x.1).1⟩)

section
variable {user : UserMapping} {workload : String} {g : Graph} {drive : DestDrive}
  {fetched : SourceFile → Bytes × String}

variable (drive) in
/-- What the writes leave and what they clobber is what the plan says. -/
theorem apart_of_uploads {ws : List DriveWrite} {placed : List (SourceFile × Token)}
    (hsource : ∀ log, ∀ x ∈ placed, g.answer log
      (.fetchFile (fileKey user workload x.1.sourceId) x.1) = .ok (fetched x.1))
    (h : List.Forall₂ (UploadOf user workload g) (ws.filter DriveWrite.isUpload) placed) :
    let us := placed.map (fun x => (⟨x.2, (fetched x.1).2, (fetched x.1).1⟩ : FileUpload))
    drive.writePlaces ws = drive.places us ∧
      (NamedStore.Unclobbered (drive.storeWrites ws) ↔ drive.KeepApart us) := by
  induction ws generalizing placed with
  | nil =>
    cases h
    exact ⟨rfl, Iff.rfl⟩
  | cons w ws ih =>
    cases hupload : w.isUpload with
    | false =>
      rw [List.filter_cons_of_neg (by simp [hupload])] at h
      cases w with
      | folder => exact ih hsource h
      | update src id content =>
        obtain ⟨hplaces, hiff⟩ := ih hsource h
        refine ⟨hplaces, Iff.trans ?_ hiff⟩
        simp [DestDrive.storeWrites, DestDrive.storeWrite, NamedStore.Unclobbered]
      | small | large => cases hupload
    | true =>
      rw [List.filter_cons_of_pos hupload] at h
      cases h with
      | cons hfirst hrest =>
        obtain ⟨content, name, id, ⟨log, hasked⟩, rfl⟩ := hfirst
        obtain ⟨hplaces, hiff⟩ := ih
          (fun log x hx => hsource log x (List.mem_cons_of_mem _ hx)) hrest
        have hfetched := hasked.symm.trans (hsource log _ List.mem_cons_self)
        obtain ⟨rfl, rfl⟩ := Prod.ext_iff.mp (Except.ok.inj hfetched)
        rw [drive.newFileWrite_places, drive.newFileWrite_unclobbered, hplaces, hiff]
        exact ⟨rfl, Iff.rfl⟩

end

/-- After a full pass from an empty state in which no call fails, every file has an item of its
own with its content exactly if no small file of the batch comes to a folder where an earlier file
has the same name. -/
theorem files_intact_iff (g : Graph) (drive : DestDrive) (tree : FolderTree) (user : UserMapping)
    (workload : String) (feed : Enumeration SourceFile) (fetched : SourceFile → Bytes × String)
    (hlaw : drive.Governs g) (htree : tree.Governs g)
    (hsource : ∀ log, ∀ f ∈ feed.items, g.answer log
      (.fetchFile (fileKey user workload f.sourceId) f) = .ok (fetched f))
    (hcalm : NoFailure g) (hraised : feed.raised = none)
    (hnodup : (feed.items.map SourceFile.sourceId).Nodup) :
    drive.Intact user workload feed.items (migrateFiles g user workload .full feed {}).world ↔
      drive.KeepApart (uploadsOf tree fetched feed.items) := by
  obtain ⟨P, hall, hend⟩ := migrate_uploading g drive user workload feed.items hlaw hcalm hnodup
  obtain ⟨P', -, hplanned⟩ :=
    migrate_planned user workload .full g tree feed {} hcalm htree hraised hnodup
  rw [migrateFiles_whole g user workload .full hraised] at hplanned ⊢
  set st := Worklist.process (fileStep g user workload .full) SourceFile.sourceId
    SourceFile.parentId { world := {} } feed.items with hst
  have hups : ∀ s ∈ drive.storeWrites (driveWrites st.world.log), s.Uploads := by
    apply drive.storeWrites_uploads
    intro write hw
    obtain ⟨f, hf⟩ := hend.accounted write hw
    exact hf.fresh
  have hids := NamedStore.nodup_iff_unclobbered hlaw.unique hups hend.lawful
  -- without rows every file that is not skipped is new
  have hnew : isNewFile user workload .full {} = fun f => !f.isFolder && f.action ≠ .skip := by
    funext f
    simp [isNewFile, leftAlone, existingDest, Db.isDone]
  have hsource' : ∀ log, ∀ x ∈ (FilePlan.make tree (isNewFile user workload .full {})
      (fun _ => none) feed.items).placed, g.answer log
        (.fetchFile (fileKey user workload x.1.sourceId) x.1) = .ok (fetched x.1) :=
    fun log x hx => hsource log x.1 (hplanned.placed x hx).1
  obtain ⟨ws, hws, huploads⟩ := hplanned.uploads
  obtain rfl : driveWrites st.world.log = ws := hws.trans (List.append_nil ws)
  have hapart := (apart_of_uploads drive hsource' huploads).2
  rw [hnew] at hapart
  rw [uploadsOf, ← hapart, ← hids, drive.storeWrites_ids]
  exact ⟨hend.nodup_of_intact, hend.intact_of_nodup hnodup hall hups⟩

section example_drive

/-- A drive that is empty at the start, and gives a session a longer name if its own is taken. -/
def emptyDrive : DestDrive where
  fold := lower
  given taken parent name :=
    if (parent, lower name) ∈ taken then longerThan (taken.map Prod.snd) else lower name
  start _ := none

def childFile (ws : List DriveWrite) (parent : Token) (name : String) : Option Token :=
  ((ws.filter DriveWrite.isFile).map DriveWrite.id).find?
    (fun id => (emptyDrive.holds ws id).any (fun x => x.address = (parent, lower name)))

/-- The destination with this drive, on which no call fails. -/
def emptyDriveResult (log : Log Call.Ans) : (c : Call) → c.Result
  | .uploadSmallFile _ parent name _ =>
    (childFile (driveWrites log) parent name).getD
      (freshToken ((driveWrites log).map DriveWrite.id))
  | .uploadLargeFile .. => freshToken ((driveWrites log).map DriveWrite.id)
  | .ensureFolder _ parent name => pathTree.child parent name
  | .getRoot => pathTree.root
  | c => scriptedResult log c

def emptyDriveGraph : Graph where
  answer log c := .ok (emptyDriveResult log c)
  elapsed _ _ := 1
  createContact_fresh log src folder body id h := by
    obtain rfl := Except.ok.inj h
    exact freshToken_notMem _
  createEvent_fresh log src cal body id h := by
    obtain rfl := Except.ok.inj h
    exact freshToken_notMem _

/-- What the drive holds was uploaded, and its name is in use. -/
theorem emptyDrive_holds {ws : List DriveWrite} {i : Token} {x : NamedStore.Item Place Bytes}
    (h : emptyDrive.holds ws i = some x) :
    i ∈ (ws.filter DriveWrite.isFile).map DriveWrite.id ∧ x.address ∈ emptyDrive.writePlaces ws := by
  induction ws generalizing x with
  | nil => exact absurd h (by simp [DestDrive.holds, DestDrive.storeWrites, NamedStore.contents,
      emptyDrive])
  | cons w ws ih =>
    -- a new file under its id and address, on top of what was there
    have hupload : ∀ (id : Token) (place : Place) (content : Bytes),
        Function.update (emptyDrive.holds ws) id (some ⟨place, content⟩) i = some x →
        i ∈ id :: (ws.filter DriveWrite.isFile).map DriveWrite.id ∧
          x.address ∈ place :: emptyDrive.writePlaces ws := by
      intro id place content hx
      rw [Function.update_apply] at hx
      by_cases hi : i = id
      · rw [if_pos hi] at hx
        cases hx
        exact ⟨hi ▸ List.mem_cons_self, List.mem_cons_self⟩
      · rw [if_neg hi] at hx
        exact ⟨List.mem_cons_of_mem id (ih hx).1, List.mem_cons_of_mem place (ih hx).2⟩
    cases w with
    | folder src parent name id => exact ih h
    | small src parent name content id => exact hupload id (parent, lower name) content h
    | large src parent name content id => exact hupload id _ content h
    | update src id content =>
      have hx : Function.update (emptyDrive.holds ws) id
          ((emptyDrive.holds ws id).map (fun y => { y with content := content })) i = some x := h
      rw [Function.update_apply] at hx
      by_cases hi : i = id
      · subst hi
        rw [if_pos rfl] at hx
        obtain ⟨y, hy, rfl⟩ := Option.map_eq_some_iff.mp hx
        exact ⟨List.mem_cons_of_mem i (ih hy).1, (ih hy).2⟩
      · rw [if_neg hi] at hx
        exact ⟨List.mem_cons_of_mem id (ih hx).1, (ih hx).2⟩

theorem emptyDrive_fresh (ws : List DriveWrite) :
    emptyDrive.holds ws (freshToken (ws.map DriveWrite.id)) = none := by
  cases h : emptyDrive.holds ws (freshToken (ws.map DriveWrite.id)) with
  | none => rfl
  | some x =>
    obtain ⟨w, hw, hid⟩ := List.mem_map.mp (emptyDrive_holds h).1
    exact absurd (List.mem_map.mpr ⟨w, (List.mem_filter.mp hw).1, hid⟩) (freshToken_notMem _)

theorem emptyDrive_governs : emptyDrive.Governs emptyDriveGraph := by
  refine ⟨fun i j x y hx => absurd hx (by simp [emptyDrive]), fun log c write hwrite s hs => ?_⟩
  cases c with
  | uploadSmallFile src parent name content =>
    obtain rfl := Option.some.inj hwrite
    obtain rfl := Option.some.inj hs
    simp only [NamedStore.Write.Lawful, emptyDriveResult]
    cases hfind : childFile (driveWrites log) parent name with
    | some id =>
      -- the file of this name is replaced
      have hplace := List.find?_some hfind
      obtain ⟨x, hx, hxa⟩ := (Option.any_eq_true _ _).mp hplace
      exact Or.inl ⟨x, hx, of_decide_eq_true hxa⟩
    | none =>
      refine Or.inr ⟨emptyDrive_fresh _, fun i x hx hxa => ?_⟩
      have hno := List.find?_eq_none.mp hfind i (emptyDrive_holds hx).1
      rw [hx] at hno
      exact hno (decide_eq_true hxa)
  | uploadLargeFile src parent name content =>
    obtain rfl := Option.some.inj hwrite
    obtain rfl := Option.some.inj hs
    refine ⟨emptyDrive_fresh _, fun i x hx hxa => ?_⟩
    have hmem := (emptyDrive_holds hx).2
    have hgiven : emptyDrive.given (emptyDrive.writePlaces (driveWrites log)) parent name =
        if (parent, lower name) ∈ emptyDrive.writePlaces (driveWrites log) then
          longerThan ((emptyDrive.writePlaces (driveWrites log)).map Prod.snd) else lower name := rfl
    rw [hxa, hgiven] at hmem
    by_cases htaken : (parent, lower name) ∈ emptyDrive.writePlaces (driveWrites log)
    · rw [if_pos htaken] at hmem
      exact longerThan_notMem _ (List.mem_map_of_mem (f := Prod.snd) hmem)
    · rw [if_neg htaken] at hmem
      exact htaken hmem
  | updateFileContent src id content =>
    obtain rfl := Option.some.inj hwrite
    obtain rfl := Option.some.inj hs
    trivial
  | ensureFolder src parent name =>
    obtain rfl := Option.some.inj hwrite
    exact absurd hs (by simp [DestDrive.storeWrite])
  | _ => exact absurd hwrite (by simp [driveWrite])

theorem emptyDrive_noFailure : NoFailure emptyDriveGraph := by
  intro log c e h
  cases h

theorem pathTree_governs_emptyDrive : pathTree.Governs emptyDriveGraph :=
  ⟨fun _ _ _ _ => rfl, fun _ => rfl⟩

end example_drive

/-- Two files of one folder whose names differ in case only: the second replaces the first. -/
theorem namesakes_clobber :
    ¬ ∀ (g : Graph) (drive : DestDrive) (tree : FolderTree) (user : UserMapping)
      (workload : String) (feed : Enumeration SourceFile) (fetched : SourceFile → Bytes × String),
      drive.Governs g → tree.Governs g →
      (∀ log, ∀ f ∈ feed.items, g.answer log
        (.fetchFile (fileKey user workload f.sourceId) f) = .ok (fetched f)) →
      NoFailure g → feed.raised = none → (feed.items.map SourceFile.sourceId).Nodup →
      drive.Intact user workload feed.items
        (migrateFiles g user workload .full feed {}).world := by
  intro h
  let a : SourceFile := { sourceId := "a", name := "Notes.txt" }
  let b : SourceFile := { sourceId := "b", name := "notes.txt" }
  have hintact := h emptyDriveGraph emptyDrive pathTree ⟨"a@source", "a@dest"⟩ "files"
    { items := [a, b] } (fun f => ([], f.name)) emptyDrive_governs pathTree_governs_emptyDrive
    (fun _ _ _ => rfl) emptyDrive_noFailure rfl (by decide)
  exact hintact.distinct a (by simp) b (by simp) rfl (by decide) rfl (by decide) (by decide)
    (by decide)

/-- Two folders whose names differ in case only are one, and the files in them keep apart if their
names do, also from a file at the root. -/
theorem folders_keep_apart :
    let user : UserMapping := ⟨"a@source", "a@dest"⟩
    let items : List SourceFile :=
      [{ sourceId := "c", name := "plan.txt", parentId := some "e" },
        { sourceId := "d", name := "Docs", isFolder := true },
        { sourceId := "e", name := "docs", isFolder := true }, { sourceId := "a", name := "notes.txt" },
        { sourceId := "b", name := "notes.txt", parentId := some "d" }]
    emptyDrive.Intact user "files" items
      (migrateFiles emptyDriveGraph user "files" .full { items := items } {}).world := by
  intro user items
  apply (files_intact_iff emptyDriveGraph emptyDrive pathTree user "files" { items := items }
    (fun f => ([], f.name)) emptyDrive_governs pathTree_governs_emptyDrive (fun _ _ _ => rfl)
    emptyDrive_noFailure rfl (by decide)).mpr
  decide

end GwsMigrator
