import GwsMigrator.FolderSplit
import GwsMigrator.FolderTargets

/-! When no listing order of a batch splits a folder, and all of them put the new files into the
same folders. -/
namespace GwsMigrator
open Dialogue Worklist

section
variable (g : Graph) (user : UserMapping) (workload : String) (mode : Mode)

/-- The folder map that a pass finds, by source folder. -/
def knownFolders (w : World) (p : String) : Option Token :=
  w.db.getFolderDest (fileKey user workload p)

/-- However the batch is listed, the pass splits no folder. -/
def NeverSplits (items : List SourceFile) (w : World) : Prop :=
  ∀ feed : Enumeration SourceFile, feed.raised = none → feed.items.Perm items →
    Unsplit user workload mode items w (migrateFiles g user workload mode feed w).world

/-- Two listings of the batch put its new files into the same folders. -/
def OrdersAgree (items : List SourceFile) (w : World) : Prop :=
  ∀ feed feed' : Enumeration SourceFile, feed.raised = none → feed'.raised = none →
    feed.items.Perm items → feed'.items.Perm items →
    ∀ c ∈ items, NewFile user workload mode w c → ∀ d,
      PutInto user workload w (migrateFiles g user workload mode feed w).world c d ↔
        PutInto user workload w (migrateFiles g user workload mode feed' w).world c d

/-- The record of each known folder above a new file leads to where that folder is. -/
def RecordsKeep (tree : FolderTree) (items : List SourceFile) (w : World) : Prop :=
  ∀ c ∈ items, NewFile user workload mode w c →
    ∀ q, Above (knownFolders user workload w) items c q →
      ∀ d, w.db.getFolderDest (fileKey user workload q.sourceId) = some d →
        LeadsTo tree (knownFolders user workload w) items q d

variable {g user workload mode} {tree : FolderTree} {items : List SourceFile} {w w₀ : World}
  {P : Set String} {st : FilesLoop} {pl : FilePlan} {R : SourceFile → Prop}

theorem Planned.putInto_iff (h : Planned user workload mode items w₀ g tree P st pl)
    (hall : ∀ f ∈ items, f.sourceId ∈ P) {c : SourceFile} (hc : c ∈ items)
    (hnew : NewFile user workload mode w₀ c) (d : Token) :
    PutInto user workload w₀ st.world c d ↔ (c, d) ∈ pl.placed := by
  obtain ⟨d', hd'⟩ := h.all c hc (hall c hc) hnew
  constructor
  · intro hput
    rw [hput.unique (h.placed _ hd').2.2.2]
    exact hd'
  · exact fun hmem => (h.placed _ hmem).2.2.2

/-- What a pass over a batch leaves, as far as the items of `R` are concerned: the new files lie
where they belong, and the folders are mapped where their records lead. -/
structure Landed (tree : FolderTree) (user : UserMapping) (workload : String) (mode : Mode)
    (items : List SourceFile) (w w' : World) (R : SourceFile → Prop) : Prop where
  files : ∀ c ∈ items, NewFile user workload mode w c → R c → ∃ parent,
    Target tree (knownFolders user workload w) items c parent ∧
      ∀ d, PutInto user workload w w' c d ↔ d = parent.getD tree.root
  folders : ∀ q ∈ items, q.isFolder = true → R q → ∃ d,
    w'.db.getFolderDest (fileKey user workload q.sourceId) = some d ∧
      LeadsTo tree (knownFolders user workload w) items q d
  others : ∀ p, (∀ q ∈ items, q.isFolder = true → q.sourceId ≠ p) →
    w'.db.getFolderDest (fileKey user workload p) = w.db.getFolderDest (fileKey user workload p)

variable (hcalm : NoFailure g) (htree : tree.Governs g)
  (hnodup : (items.map SourceFile.sourceId).Nodup)
  (hacyclic : Acyclic SourceFile.sourceId SourceFile.parentId items)
include hcalm htree hnodup hacyclic

variable (mode w) in
theorem migrate_landed (hsound : Sound tree (knownFolders user workload w) items R)
    (feed : Enumeration SourceFile) (hraised : feed.raised = none)
    (hperm : feed.items.Perm items) :
    Landed tree user workload mode items w (migrateFiles g user workload mode feed w).world R := by
  have hnodup' : (feed.items.map SourceFile.sourceId).Nodup :=
    (hperm.map SourceFile.sourceId).nodup_iff.mpr hnodup
  obtain ⟨P, hall, hplanned⟩ :=
    migrate_planned user workload mode g tree feed w hcalm htree hraised hnodup'
  obtain ⟨P', hall', hsteered⟩ := make_steered tree (knownFolders user workload w)
    (isNewFile user workload mode w) hnodup hacyclic hsound hperm
  have hmap : ∀ p, (migrateFiles g user workload mode feed w).world.db.getFolderDest
      (fileKey user workload p) = (FilePlan.make tree (isNewFile user workload mode w)
        (knownFolders user workload w) feed.items).folders p := by
    intro p
    rw [← hplanned.mapped.synced p, hplanned.folders]
    rfl
  refine ⟨fun c hc hnew hR => ?_, fun q hq folder hR => ?_, fun p hp => ?_⟩
  · have hc' : c ∈ feed.items := hperm.mem_iff.mpr hc
    obtain ⟨d₀, hd₀⟩ := hplanned.all c hc' (hall c hc') hnew
    obtain ⟨parent, htarget, hd₀'⟩ := hsteered.placed (c, d₀) hd₀ hR
    refine ⟨parent, htarget, fun d => ?_⟩
    rw [hplanned.putInto_iff hall hc' hnew]
    constructor
    · intro hd
      obtain ⟨parent', htarget', hd'⟩ := hsteered.placed (c, d) hd hR
      rw [htarget.unique hnodup parent' htarget']
      exact hd'
    · rintro rfl
      rw [← hd₀']
      exact hd₀
  · rw [hmap]
    exact hsteered.folders q hq folder (hall' q hq) hR
  · rw [hmap]
    apply hsteered.kept
    exact fun q hq folder hid => absurd hid (hp q hq folder)

/-- Where the records keep the folders, each new file lies in the folder of its parent, and in the
same one for every listing. -/
theorem RecordsKeep.whole (h : RecordsKeep user workload mode tree items w) :
    NeverSplits g user workload mode items w ∧ OrdersAgree g user workload mode items w := by
  have hsound := sound_above (C := fun c => c ∈ items ∧ NewFile user workload mode w c)
    (fun c hc q habove d hd => h c hc.1 hc.2 q habove d hd)
  have hlanded := fun (feed : Enumeration SourceFile) hraised hperm =>
    migrate_landed mode w hcalm htree hnodup hacyclic hsound feed hraised hperm
  constructor
  · intro feed hraised hperm c hc hnew p d hp hd
    obtain ⟨hfiles, hfolders, hothers⟩ := hlanded feed hraised hperm
    obtain ⟨parent, htarget, hput⟩ := hfiles c hc hnew (Or.inl ⟨hc, hnew⟩)
    rw [hput]
    cases htarget with
    | top _ hnone => exact absurd hp (hnone p)
    | outside _ p' hp' hno =>
      obtain rfl := hp.unique hp'
      rw [hothers p (fun q hq folder hid => hno q ⟨hq, folder, hid ▸ hp⟩)] at hd
      rw [knownFolders, hd]
      rfl
    | ahead _ q d₀ hq late known =>
      obtain rfl := hp.unique hq.2.2
      have habove : Above (knownFolders user workload w) items c q := .parent q hq
      obtain ⟨d', hd', hleads⟩ := hfolders q hq.1 hq.2.1 (Or.inr ⟨c, ⟨hc, hnew⟩, habove⟩)
      obtain rfl := Option.some.inj (hd'.symm.trans hd)
      exact hleads.unique hnodup (h c hc hnew q habove d₀ known)
    | inside _ q parent hq early above =>
      obtain rfl := hp.unique hq.2.2
      have habove : Above (knownFolders user workload w) items c q := .parent q hq
      obtain ⟨d', hd', hleads⟩ := hfolders q hq.1 hq.2.1 (Or.inr ⟨c, ⟨hc, hnew⟩, habove⟩)
      obtain rfl := Option.some.inj (hd'.symm.trans hd)
      exact hleads.unique hnodup ⟨parent, above, rfl⟩
  · intro feed feed' hraised hraised' hperm hperm' c hc hnew d
    obtain ⟨parent, htarget, hput⟩ :=
      (hlanded feed hraised hperm).files c hc hnew (Or.inl ⟨hc, hnew⟩)
    obtain ⟨parent', htarget', hput'⟩ :=
      (hlanded feed' hraised' hperm').files c hc hnew (Or.inl ⟨hc, hnew⟩)
    rw [hput, hput', htarget.unique hnodup parent' htarget']

/-- The other way round: a record of a known folder above a new file that leads elsewhere splits it
from the files of its folder, or the listing orders disagree about it. -/
theorem recordsKeep_of_whole (hsplits : NeverSplits g user workload mode items w)
    (hagree : OrdersAgree g user workload mode items w) :
    RecordsKeep user workload mode tree items w := by
  intro c hc hnew q habove d hd
  by_cases hlate : Late (knownFolders user workload w) items q
  · -- the record waits, so it is that of the file's own folder, and the file is there before it
    have hq : RecordOf items q c := by
      cases habove with
      | parent _ hq => exact hq
      | up _ _ _ _ early => exact absurd (hd.symm.trans (early hlate)) (by simp)
    have hR : ∀ r, RecordOf items r c → Late (knownFolders user workload w) items r := by
      intro r hr
      rw [hr.unique hnodup hq]
      exact hlate
    obtain ⟨hfiles, hfolders, -⟩ := migrate_landed mode w hcalm htree hnodup
      hacyclic (sound_late hnodup) { items := items } rfl (List.Perm.refl items)
    obtain ⟨parent, htarget, hput⟩ := hfiles c hc hnew hR
    obtain ⟨d', hd', hleads⟩ := hfolders q hq.1 hq.2.1 (fun r hr => (hlate.record hnodup hr).1)
    have hin := hsplits { items := items } rfl (List.Perm.refl items) c hc hnew q.sourceId d'
      hq.2.2 hd'
    obtain rfl := htarget.unique hnodup (some d) (.ahead c q d hq hlate hd)
    obtain rfl := (hput d').mp hin
    exact hleads
  · refine leadsTo_of_agree (isNewFile user workload mode w) hacyclic hc
      (isNewFile_iff.mpr hnew) hnew.file ?_ habove hlate hd
    intro order order' hperm hperm' d₁ d₂ h₁ h₂
    -- what the plans say the passes do
    have hplaced : ∀ {order : List SourceFile} {d : Token}, order.Perm items →
        (c, d) ∈ (FilePlan.make tree (isNewFile user workload mode w)
          (knownFolders user workload w) order).placed →
        PutInto user workload w
          (migrateFiles g user workload mode { items := order } w).world c d := by
      intro order d hperm hmem
      obtain ⟨P, hall, hplanned⟩ := migrate_planned user workload mode g tree { items := order } w
        hcalm htree rfl ((hperm.map SourceFile.sourceId).nodup_iff.mpr hnodup)
      exact (hplanned.placed _ hmem).2.2.2
    have hput := (hagree { items := order } { items := order' } rfl rfl hperm hperm' c hc hnew
      d₁).mp (hplaced hperm h₁)
    exact hput.unique (hplaced hperm' h₂)

end

/-- A listing of a batch splits no folder exactly when each record of a folder that new files have
been put into by then leads to the folder that they are in. No listing splits one, and all put the
new files into the same folders, exactly when each record of a known folder above a new file leads
to where the folder is. -/
theorem folders_whole_iff (g : Graph) (user : UserMapping) (workload : String) (mode : Mode)
    (items : List SourceFile) (w : World) (hcalm : NoFailure g)
    (hnodup : (items.map SourceFile.sourceId).Nodup)
    (hacyclic : Acyclic SourceFile.sourceId SourceFile.parentId items) :
    (∀ feed : Enumeration SourceFile, feed.raised = none → feed.items.Perm items →
      (Unsplit user workload mode feed.items w (migrateFiles g user workload mode feed w).world ↔
        ∀ x ∈ migrateVisited g user workload mode feed w,
          KeepsFolder g user workload mode feed.items w x)) ∧
      ∀ tree : FolderTree, tree.Governs g →
        (NeverSplits g user workload mode items w ∧ OrdersAgree g user workload mode items w ↔
          RecordsKeep user workload mode tree items w) := by
  refine ⟨fun feed hraised hperm => ?_, fun tree htree => ?_⟩
  · exact folders_unsplit_iff g user workload mode feed w hcalm hraised
      ((hperm.map SourceFile.sourceId).nodup_iff.mpr hnodup) (acyclic_of_perm hperm hacyclic)
  · exact ⟨fun h => recordsKeep_of_whole hcalm htree hnodup hacyclic h.1 h.2,
      fun h => h.whole hcalm htree hnodup hacyclic⟩

section renamed_folder

/-- A folder that was migrated comes again under a new name, behind a new file of it. -/
def renamedFeed : Enumeration SourceFile where
  items := [{ sourceId := "c", name := "c.txt", parentId := some "d" },
    { sourceId := "d", name := "Reports 2026", isFolder := true }]

/-- What the first pass leaves. -/
def beforeRename : World :=
  (migrateFiles plainGraph ⟨"a@source", "a@dest"⟩ "files" .full
    { items := [{ sourceId := "d", name := "Reports", isFolder := true }] } {}).world

def afterRename : World :=
  (migrateFiles plainGraph ⟨"a@source", "a@dest"⟩ "files" .delta renamedFeed beforeRename).world

theorem renamedFeed_nodup : (renamedFeed.items.map SourceFile.sourceId).Nodup := by
  decide +kernel

theorem renamedFeed_acyclic :
    Acyclic SourceFile.sourceId SourceFile.parentId renamedFeed.items := by
  apply acyclic_of_rank (fun f => if f.isFolder then 0 else 1)
  rintro p x ⟨hp, hx, hparent⟩
  simp only [renamedFeed, List.mem_cons, List.not_mem_nil, or_false] at hp hx
  rcases hp with rfl | rfl <;> rcases hx with rfl | rfl <;> simp at hparent ⊢

end renamed_folder

/-- What the first pass made is split by the second. -/
theorem renamed_folder_splits :
    ¬ ∀ (g : Graph) (dest : Destination) (user : UserMapping)
      (first feed : Enumeration SourceFile), dest.Governs g → NoFailure g →
      feed.raised = none → (feed.items.map SourceFile.sourceId).Nodup →
      Acyclic SourceFile.sourceId SourceFile.parentId feed.items →
      let w := (migrateFiles g user "files" .full first {}).world
      let w' := (migrateFiles g user "files" .delta feed w).world
      Unsplit user "files" .delta feed.items w w' := by
  intro hclaim
  let user : UserMapping := ⟨"a@source", "a@dest"⟩
  let file : SourceFile := { sourceId := "c", name := "c.txt", parentId := some "d" }
  let new : Token := ⟨"ii", by decide⟩
  have hunsplit : Unsplit user "files" .delta renamedFeed.items beforeRename afterRename :=
    hclaim plainGraph plainDestination user _ renamedFeed plainDestination_governs
      plainGraph_noFailure rfl renamedFeed_nodup renamedFeed_acyclic
  have hnew : NewFile user "files" .delta beforeRename file :=
    ⟨rfl, by decide +kernel, by decide, by decide +kernel⟩
  have hmapped : afterRename.db.getFolderDest (fileKey user "files" "d") = some new := by
    decide +kernel
  obtain ⟨write, hwrites, hparent⟩ :=
    hunsplit file List.mem_cons_self hnew "d" new ⟨rfl, by decide⟩ hmapped
  -- the file went where the folder was before
  have hold : (writesOf (fileKey user "files" "c") afterRename.log).map DriveWrite.parent ≠
      [some new] := by decide +kernel
  have hnone : writesOf (fileKey user "files" "c") beforeRename.log = [] := by decide +kernel
  rw [hnone] at hwrites
  rw [hwrites] at hold
  exact hold (congrArg (fun d => [d]) hparent)

/-- A folder that was migrated comes again under its name, with a new folder and two new files
below it. -/
def grownBatch : List SourceFile :=
  [{ sourceId := "x", name := "x.txt", parentId := some "e" },
    { sourceId := "c", name := "c.txt", parentId := some "d" },
    { sourceId := "e", name := "2026", parentId := some "d", isFolder := true },
    { sourceId := "d", name := "Reports", isFolder := true }]

/-- What a pass over the folder has left. -/
def reportsKnown : World :=
  ({} : World).upsertFolder (fileKey ⟨"a@source", "a@dest"⟩ "files" "d")
    (pathTree.child none "Reports") "Reports"

/-- No listing splits the folder, and both files have one place. -/
theorem grownBatch_whole :
    NeverSplits (treeGraph pathTree) ⟨"a@source", "a@dest"⟩ "files" .delta grownBatch
        reportsKnown ∧
      OrdersAgree (treeGraph pathTree) ⟨"a@source", "a@dest"⟩ "files" .delta grownBatch
        reportsKnown := by
  have hacyclic : Acyclic SourceFile.sourceId SourceFile.parentId grownBatch := by
    apply acyclic_of_rank
      (fun f => if f.sourceId = "d" then 0 else if f.sourceId = "e" then 1 else 2)
    rintro p x ⟨hp, hx, hparent⟩
    simp only [grownBatch, List.mem_cons, List.not_mem_nil, or_false] at hp hx
    rcases hp with rfl | rfl | rfl | rfl <;> rcases hx with rfl | rfl | rfl | rfl <;>
      revert hparent <;> decide
  apply ((folders_whole_iff (treeGraph pathTree) ⟨"a@source", "a@dest"⟩ "files" .delta grownBatch
    reportsKnown (treeGraph_noFailure pathTree) (by decide) hacyclic).2 pathTree
    (treeGraph_governed pathTree)).mpr
  intro c hc hnew q habove d hd
  -- only one folder is known, and its record is at the top
  have hq : q ∈ grownBatch := by
    cases habove with
    | parent _ hq => exact hq.1
    | up _ _ _ hq => exact hq.1
  rw [reportsKnown, World.upsertFolder_db, Db.getFolderDest_upsertFolder] at hd
  split at hd
  · next hkey =>
    have hid : q.sourceId = "d" := fileKey_inj.mp hkey
    obtain rfl := Option.some.inj hd
    simp only [grownBatch, List.mem_cons, List.not_mem_nil, or_false] at hq
    rcases hq with rfl | rfl | rfl | rfl
    · exact absurd hid (by decide)
    · exact absurd hid (by decide)
    · exact absurd hid (by decide)
    · exact ⟨none, .top _ (fun p hp => by cases hp.1), rfl⟩
  · cases hd

end GwsMigrator
