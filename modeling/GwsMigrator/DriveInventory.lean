import GwsMigrator.GraphCalls
import GwsMigrator.LinkWalks
import GwsMigrator.Segments

/-! `connectors/google.py: inventory_files`, the Drive files of a dry run with their paths. The
path of a file goes up along first parents, as far as these are listed folders. -/
namespace GwsMigrator.DriveInventory
open LinkWalks

/-- A file of the Drive API. `parents` is empty when the key is missing. -/
structure DriveFile where
  id : String
  name : Option String := none
  mimeType : Option String := none
  parents : List String := []
  size : String := ""
  modifiedTime : String := ""
  md5Checksum : Option String := none
  version : Option String := none
deriving DecidableEq, Repr

/-- A `SourceFile` with what only the manifest of a dry run reads. -/
structure ManifestFile extends SourceFile where
  mimeType : String
  size : String
  modifiedTime : String
  exportExt : Option String := none
  notes : String := ""
  sourcePath : String := ""
deriving DecidableEq, Repr

/-- `_FOLDER_MIME`. -/
def folderMime : String := "application/vnd.google-apps.folder"

/-- `EXPORT_MIME_MAP`: the type and the extension that a native type is exported to, if any. -/
def exportMimeMap : List (String × Option (String × String)) :=
  [("application/vnd.google-apps.document",
      some ("application/vnd.openxmlformats-officedocument.wordprocessingml.document", ".docx")),
    ("application/vnd.google-apps.spreadsheet",
      some ("application/vnd.openxmlformats-officedocument.spreadsheetml.sheet", ".xlsx")),
    ("application/vnd.google-apps.presentation",
      some ("application/vnd.openxmlformats-officedocument.presentationml.presentation", ".pptx")),
    ("application/vnd.google-apps.drawing", some ("image/svg+xml", ".svg")),
    ("application/vnd.google-apps.form", none),
    ("application/vnd.google-apps.script", none)]

/-- `gfile.get("name", gfile["id"])`. -/
def DriveFile.label (g : DriveFile) : String := g.name.getD g.id

/-- A type of Google's own. -/
def isNative (mime : String) : Bool := "application/vnd.google-apps.".toList.isPrefixOf mime.toList

/-- `_to_file`. -/
def toFile (gfile : DriveFile) : ManifestFile :=
  let mime := gfile.mimeType.getD ""
  let exported := (exportMimeMap.lookup mime).join
  let (action, exportExt, notes) :=
    if mime = folderMime then (FileAction.createFolder, none, "")
    else
      match exported with
      | some (_, ext) => (FileAction.export, some ext, "native Google Doc")
      | none =>
        if isNative mime then (FileAction.skip, none, "unsupported native type: " ++ mime)
        else (FileAction.migrate, none, "")
  { sourceId := gfile.id
    name := sanitizeSegment gfile.label
    parentId := gfile.parents.head?
    isFolder := mime = folderMime
    contentHash := (gfile.md5Checksum.bind orNone).or gfile.version
    action := action
    mimeType := mime
    size := gfile.size
    modifiedTime := gfile.modifiedTime
    exportExt := exportExt
    notes := notes }

/-- The dict `folders`. Of two folders with one id the later one is in it. -/
def foldersOf (files : List DriveFile) : AList (fun _ : String => DriveFile) :=
  ((files.filter (fun f => f.mimeType = some folderMime)).reverse.map
    (fun f => ⟨f.id, f⟩)).toAList

/-- `resolve_path`. `none` stands for a recursion that is deeper than `fuel`. -/
def resolvePath (folders : AList (fun _ : String => DriveFile)) :
    ℕ → DriveFile → Option (Finset String) → Option String
  | 0, _, _ => none
  | fuel + 1, g, seen =>
    -- `seen or set()`: an empty set is replaced too, by an empty set
    let seen := seen.getD ∅
    let name := g.label
    if g.id ∈ seen then some name
    else
      match g.parents with
      | [] => some name
      | parentId :: _ =>
        match folders.lookup parentId with
        | none => some ("(external:" ++ parentId ++ ")/" ++ name)
        | some parent =>
          (resolvePath folders fuel parent (some (insert g.id seen))).map (· ++ "/" ++ name)

/-- `inventory_files`, from the files of My Drive. The name stays as it is there. -/
def inventoryFiles (fuel : ℕ) (allFiles : List DriveFile) : Option (List ManifestFile) :=
  allFiles.mapM (fun gfile =>
    (resolvePath (foldersOf allFiles) fuel gfile none).map (fun path =>
      let sf := toFile gfile
      { sf with sourcePath := path, name := gfile.label }))

/-! ### What a path is -/

section
variable (files : List DriveFile)

/-- The folder of the list that a file names first among its parents. -/
def FolderParent (g p : DriveFile) : Prop :=
  p ∈ files ∧ p.mimeType = some folderMime ∧ g.parents.head? = some p.id

/-- What stands in front of a file without such a folder. -/
def externalRoot (g : DriveFile) : List String :=
  g.parents.head?.toList.map (fun parentId => "(external:" ++ parentId ++ ")")

/-- The call for a file returns a path, and the recursion goes no deeper than there are files. -/
def Resolves (g : DriveFile) (path : String) : Prop :=
  ∀ fuel, files.length < fuel → resolvePath (foldersOf files) fuel g none = some path

end

/-- Two folders under My Drive, two that contain each other, and one in itself. -/
example :
    let folder := fun id parent => ({ id, mimeType := some folderMime, parents := [parent] } : DriveFile)
    (inventoryFiles 7 [folder "a" "root", folder "b" "a", folder "x" "y", folder "y" "x",
        folder "s" "s", { id := "f", parents := ["b"] }]).map (·.map (·.sourcePath)) =
      some ["(external:root)/a", "(external:root)/a/b", "x/y/x", "y/x/y", "s/s",
        "(external:root)/a/b/f"] := by
  decide

section
variable {files : List DriveFile} {g top p : DriveFile} {seen : Option (Finset String)} {fuel : ℕ}

theorem lookup_foldersOf (hids : (files.map DriveFile.id).Nodup) (parentId : String) :
    (foldersOf files).lookup parentId = some p ↔
      p ∈ files ∧ p.mimeType = some folderMime ∧ parentId = p.id := by
  let entries : List (Sigma (fun _ : String => DriveFile)) :=
    (files.filter (fun f => f.mimeType = some folderMime)).reverse.map (fun f => ⟨f.id, f⟩)
  have hkeys : entries.NodupKeys := by
    have hmap : entries.keys =
        ((files.filter (fun f => f.mimeType = some folderMime)).map DriveFile.id).reverse := by
      simp only [entries, List.keys, List.map_map, List.map_reverse]
      rfl
    rw [List.NodupKeys, hmap, List.nodup_reverse]
    exact hids.sublist (List.filter_sublist.map DriveFile.id)
  rw [foldersOf, AList.lookup_to_alist]
  refine (List.mem_dlookup_iff hkeys).trans ?_
  simp only [entries, List.mem_map, List.mem_reverse, List.mem_filter, decide_eq_true_eq]
  constructor
  · rintro ⟨f, ⟨hf, hfolder⟩, heq⟩
    cases heq
    exact ⟨hf, hfolder, rfl⟩
  · rintro ⟨hp, hfolder, rfl⟩
    exact ⟨p, ⟨hp, hfolder⟩, rfl⟩

/-- A file that is passed again stands for itself. -/
theorem resolvePath_seen (folders : AList (fun _ : String => DriveFile)) {visited : Finset String}
    (h : g.id ∈ visited) : resolvePath folders (fuel + 1) g (some visited) = some g.label := by
  rw [resolvePath]
  exact if_pos h

/-- One folder up. -/
theorem resolvePath_up (hids : (files.map DriveFile.id).Nodup) (hnew : g.id ∉ seen.getD ∅)
    (link : FolderParent files g p) :
    resolvePath (foldersOf files) (fuel + 1) g seen =
      (resolvePath (foldersOf files) fuel p (some (insert g.id (seen.getD ∅)))).map
        (· ++ "/" ++ g.label) := by
  obtain ⟨hp, hfolder, hparent⟩ := link
  obtain ⟨rest, hparents⟩ := List.head?_eq_some_iff.mp hparent
  have hlookup : (foldersOf files).lookup p.id = some p :=
    (lookup_foldersOf hids p.id).mpr ⟨hp, hfolder, rfl⟩
  rw [resolvePath]
  simp only [if_neg hnew, hparents, hlookup]

/-- The end of the way up. -/
theorem resolvePath_top (hids : (files.map DriveFile.id).Nodup) (hnew : g.id ∉ seen.getD ∅)
    (htop : ∀ p, ¬ FolderParent files g p) :
    resolvePath (foldersOf files) (fuel + 1) g seen =
      some ("/".intercalate (externalRoot g ++ [g.label])) := by
  rw [resolvePath]
  simp only [if_neg hnew]
  cases hparents : g.parents with
  | nil => simp [externalRoot, hparents]
  | cons parentId rest =>
    have hnone : (foldersOf files).lookup parentId = none := by
      apply Option.eq_none_iff_forall_ne_some.mpr
      intro p hp
      obtain ⟨hmem, hfolder, hid⟩ := (lookup_foldersOf hids parentId).mp hp
      exact htop p ⟨hmem, hfolder, by rw [hparents, hid]; rfl⟩
    have hmark : ")/" = ")" ++ "/" := rfl
    simp only [hnone, externalRoot, hparents, List.head?_cons, Option.toList_some, List.map_cons,
      List.map_nil, List.singleton_append]
    rw [String.intercalate_cons_cons, String.intercalate_singleton, hmark, ← String.append_assoc]

/-- A call runs along a walk up to its end. `front` is what the call at the end puts in front,
as long as it comes there by new ways. -/
theorem resolvePath_walk (hids : (files.map DriveFile.id).Nodup) {up : List DriveFile}
    (hwalk : Walk (FolderParent files) g up top) (hnodup : (up.map DriveFile.id).Nodup)
    (hnew : ∀ x ∈ up, x.id ∉ seen.getD ∅) {front : List String}
    (hend : ∀ fuel seen', 2 ≤ fuel → seen.getD ∅ ⊆ seen'.getD ∅ → top.id ∉ seen'.getD ∅ →
      (∀ x ∈ up, x = top ∨ x.id ∈ seen'.getD ∅) →
      resolvePath (foldersOf files) fuel top seen' =
        some ("/".intercalate (front ++ [top.label])))
    (hfuel : up.length < fuel) :
    resolvePath (foldersOf files) fuel g seen =
      some ("/".intercalate (front ++ up.reverse.map DriveFile.label)) := by
  -- on the walk, since the call passes the file itself on as seen
  induction hwalk generalizing seen fuel with
  | stay a =>
    refine hend fuel seen hfuel (Finset.Subset.refl _) (hnew a (List.mem_singleton_self a)) ?_
    intro x hx
    exact Or.inl (List.mem_singleton.mp hx)
  | @step a b top places link rest ih =>
    obtain ⟨hnotin, hnodup⟩ := List.nodup_cons.mp hnodup
    obtain ⟨n, rfl⟩ : ∃ n, fuel = n + 1 := Nat.exists_eq_add_one.mpr (by omega)
    have hrest : resolvePath (foldersOf files) n b (some (insert a.id (seen.getD ∅))) =
        some ("/".intercalate (front ++ places.reverse.map DriveFile.label)) := by
      refine ih hnodup ?_ ?_ ?_
      · intro x hx hmem
        rcases Finset.mem_insert.mp hmem with hid | hmem
        · exact hnotin (hid ▸ List.mem_map_of_mem hx)
        · exact hnew x (List.mem_cons_of_mem a hx) hmem
      · intro m seen' hm hsub htop hpast
        refine hend m seen' hm ((Finset.subset_insert _ _).trans hsub) htop ?_
        intro x hx
        rcases List.mem_cons.mp hx with rfl | hx
        · exact Or.inr (hsub (Finset.mem_insert_self _ _))
        · exact hpast x hx
      · rw [List.length_cons] at hfuel
        omega
    have hne : front ++ places.reverse.map DriveFile.label ≠ [] := by
      simp [rest.ne_nil]
    rw [resolvePath_up hids (hnew a List.mem_cons_self) link, hrest, Option.map_some,
      List.reverse_cons, List.map_append, ← List.append_assoc, List.map_singleton,
      String.intercalate_append_of_ne_nil hne (List.cons_ne_nil _ _),
      String.intercalate_singleton]

/-- A followed walk gives the path: the names on it, behind those of the end. At a folder that
was passed already this is the folder once more. -/
theorem resolves_of_followed (hids : (files.map DriveFile.id).Nodup) (hg : g ∈ files)
    {up : List DriveFile} (h : Followed (FolderParent files) ∅ g up top) :
    ∃ front, Resolves files g ("/".intercalate (front ++ up.reverse.map DriveFile.label)) ∧
      ((∀ p, ¬ FolderParent files top p) → front = externalRoot top) := by
  have hmem : ∀ x ∈ up, x ∈ files := h.walk.stays hg (fun _ _ _ link => link.1)
  have hnodup : (up.map DriveFile.id).Nodup := by
    apply h.nodup.map_on
    intro x hx y hy hid
    exact List.inj_on_of_nodup_map hids (hmem x hx) (hmem y hy) hid
  -- no file is passed twice, so there are enough calls for all
  have hlength : up.length ≤ files.length := h.nodup.length_le_of_subset hmem
  have hnew : ∀ x ∈ up, x.id ∉ (none : Option (Finset String)).getD ∅ :=
    fun x _ => Finset.notMem_empty x.id
  rcases h.ends with htop | ⟨b, link, hseen | hback⟩
  · refine ⟨externalRoot top, fun fuel hfuel => resolvePath_walk hids h.walk hnodup hnew ?_
      (hlength.trans_lt hfuel), fun _ => rfl⟩
    intro m seen' hm _ hnew _
    obtain ⟨n, rfl⟩ : ∃ n, m = n + 1 := Nat.exists_eq_add_one.mpr (by omega)
    exact resolvePath_top hids hnew htop
  · exact absurd hseen (Set.notMem_empty b)
  · -- the call above the end finds its file among the seen ones, and gives its name alone
    refine ⟨[b.label], fun fuel hfuel => resolvePath_walk hids h.walk hnodup hnew ?_
      (hlength.trans_lt hfuel), fun htop => absurd link (htop b)⟩
    intro m seen' hm _ hnew hpast
    obtain ⟨n, rfl⟩ : ∃ n, m = n + 2 := Nat.exists_eq_add_of_le' hm
    have hpassed : b.id ∈ insert top.id (seen'.getD ∅) := by
      rcases hpast b hback with rfl | hb
      · exact Finset.mem_insert_self _ _
      · exact Finset.mem_insert_of_mem hb
    rw [resolvePath_up hids hnew link, resolvePath_seen _ hpassed, Option.map_some,
      List.singleton_append, String.intercalate_cons_cons, String.intercalate_singleton]

theorem exists_way_up (hg : g ∈ files) : ∃ up top, Followed (FolderParent files) ∅ g up top := by
  have hstays : ∀ a ∈ {f | f ∈ files}, ∀ b, FolderParent files a b → b ∈ {f | f ∈ files} :=
    fun _ _ _ link => link.1
  exact exists_followed files.finite_toSet hstays hg (Set.notMem_empty g)

/-- Whatever the parents are, the call returns. -/
theorem exists_path (hids : (files.map DriveFile.id).Nodup) (hg : g ∈ files) :
    ∃ path, Resolves files g path := by
  obtain ⟨up, top, hfollowed⟩ := exists_way_up hg
  obtain ⟨front, hresolves, -⟩ := resolves_of_followed hids hg hfollowed
  exact ⟨_, hresolves⟩

/-- A dry run lists every file once, under its own name and with its path. -/
theorem inventoryFiles_lists (hids : (files.map DriveFile.id).Nodup)
    (hfuel : files.length < fuel) :
    ∃ listed, inventoryFiles fuel files = some listed ∧
      List.Forall₂ (fun g sf => sf.sourceId = g.id ∧ sf.name = g.label ∧
        Resolves files g sf.sourcePath) files listed := by
  -- the folders stay those of the whole list
  suffices hall : ∀ part : List DriveFile, (∀ g ∈ part, g ∈ files) → ∃ listed,
      part.mapM (fun gfile => (resolvePath (foldersOf files) fuel gfile none).map (fun path =>
        { toFile gfile with sourcePath := path, name := gfile.label })) = some listed ∧
      List.Forall₂ (fun g sf => sf.sourceId = g.id ∧ sf.name = g.label ∧
        Resolves files g sf.sourcePath) part listed from hall files (fun _ hg => hg)
  intro part hpart
  induction part with
  | nil => exact ⟨[], rfl, .nil⟩
  | cons g part ih =>
    obtain ⟨path, hpath⟩ := exists_path hids (hpart g List.mem_cons_self)
    obtain ⟨listed, hlisted, hforall⟩ := ih (fun x hx => hpart x (List.mem_cons_of_mem g hx))
    refine ⟨{ toFile g with sourcePath := path, name := g.label } :: listed, ?_,
      .cons ⟨rfl, rfl, hpath⟩ hforall⟩
    rw [List.mapM_cons, hpath fuel hfuel, hlisted]
    rfl

end

/-- The path of every file is found. Without a cycle above the file it is the names from its
topmost folder down to the file, behind the id of the parent that is no listed folder. -/
theorem resolvePath_exact (files : List DriveFile) (hids : (files.map DriveFile.id).Nodup)
    (g : DriveFile) (hg : g ∈ files) :
    (∃ path, Resolves files g path) ∧
      (Acyclic (FolderParent files) g →
        ∃ up top, Walk (FolderParent files) g up top ∧ (∀ p, ¬ FolderParent files top p) ∧
          Resolves files g
            ("/".intercalate (externalRoot top ++ up.reverse.map DriveFile.label))) := by
  refine ⟨exists_path hids hg, fun hacyclic => ?_⟩
  obtain ⟨up, top, hfollowed⟩ := exists_way_up hg
  obtain ⟨front, hresolves, hfront⟩ := resolves_of_followed hids hg hfollowed
  refine ⟨up, top, hfollowed.walk, ?_⟩
  rcases hfollowed.ends with htop | ⟨b, link, hseen | hback⟩
  · exact ⟨htop, hfront htop ▸ hresolves⟩
  · exact absurd hseen (Set.notMem_empty b)
  · exact absurd hback (hacyclic.no_return hfollowed.walk link)

/-- A file in a folder in a folder, which is in the root of My Drive. -/
def plan : DriveFile :=
  { id := "f", name := some "plan.txt", mimeType := some "text/plain", parents := ["b"] }

def plans : List DriveFile :=
  [plan, { id := "a", name := some "Team", mimeType := some folderMime, parents := ["root"] },
    { id := "b", name := some "Plans", mimeType := some folderMime, parents := ["a"] }]

theorem resolvePath_exact_plans : Resolves plans plan "(external:root)/Team/Plans/plan.txt" := by
  -- two links above the file, one above the folder of that name
  let rank : DriveFile → ℕ := fun x =>
    if x.parents.head? = some "b" then 2 else if x.parents.head? = some "a" then 1 else 0
  have hrank : ∀ x p, FolderParent plans x p → rank p < rank x := by
    rintro x p ⟨hp, hfolder, hparent⟩
    simp only [plans, List.mem_cons, List.not_mem_nil, or_false] at hp
    rcases hp with rfl | rfl | rfl
    · exact absurd hfolder (by decide)
    · simp only [rank, hparent]
      decide
    · simp only [rank, hparent]
      decide
  obtain ⟨up, top, -, -, hresolves⟩ :=
    (resolvePath_exact plans (by decide) plan List.mem_cons_self).2 (acyclic_of_rank rank hrank _)
  have hpath : resolvePath (foldersOf plans) 4 plan none =
      some "(external:root)/Team/Plans/plan.txt" := by decide
  rw [hresolves 4 (by decide)] at hpath
  rw [← Option.some.inj hpath]
  exact hresolves

end GwsMigrator.DriveInventory
