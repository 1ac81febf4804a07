import GwsMigrator.FolderPaths

/-! What `resolve_label_placement` makes of all labels of a Gmail message. -/
namespace GwsMigrator
open Separators

/-- The tabs of the inbox. -/
def tabLabelIds : List String :=
  ["CATEGORY_PERSONAL", "CATEGORY_SOCIAL", "CATEGORY_PROMOTIONS", "CATEGORY_UPDATES",
    "CATEGORY_FORUMS"]

/-- The ids of Gmail's own labels. -/
def systemLabelIds : List String := systemLabelFolder.map Prod.fst ++ tabLabelIds

/-- The labels of an account: Gmail's own are named by their ids, and the user cannot take one
of these names. -/
structure GmailLabels where
  names : AList (fun _ : String => String)
  system_name : ∀ lid ∈ systemLabelIds, names.lookup lid = some lid
  user_name : ∀ lid ∉ systemLabelIds, ∀ name, names.lookup lid = some name →
    name ≠ "" ∧ name ∉ systemLabelIds

/-- The well-known folders of the system labels of a message. -/
def wellKnownFolders (labelIds : List String) : List String :=
  labelIds.filterMap (fun lid => (systemLabelFolder.lookup lid).join)

namespace GmailLabels

variable (labels : GmailLabels)

/-- `label_map.get(lid, lid)`. -/
def labelName (lid : String) : String := (labels.names.lookup lid).getD lid

def userLabels (labelIds : List String) : List String :=
  labelIds.filter (fun lid => lid ∉ systemLabelIds)

def path (lid : String) : String := labelToFolderPath (labels.labelName lid)

/-- Folder paths and categories together have every user label once, in order, behind the
well-known folders. -/
def KeepsLabels (labelIds : List String) (policy : MultiLabelPolicy) : Prop :=
  let placed := resolveLabelPlacement labelIds labels.names policy
  let paths := (userLabels labelIds).map labels.path
  let wellKnown :=
    if wellKnownFolders labelIds = [] ∧ paths = [] then ["Inbox"]
    else wellKnownFolders labelIds
  placed.1 ≠ [] ∧ ∃ primary, placed.1 = wellKnown ++ primary ∧ primary ++ placed.2 = paths

/-- No user label of the message is named as if it were a tab. -/
def NoCategoryName (labelIds : List String) : Prop :=
  ∀ lid ∈ userLabels labelIds, isCategoryLabel (labels.labelName lid) = false

/-- The user labels that the loop does not take for tabs. -/
def keptLabels (labelIds : List String) : List String :=
  (userLabels labelIds).filter (fun lid => !isCategoryLabel (labels.labelName lid))

theorem name_system {lid : String} (h : lid ∈ systemLabelIds) :
    labels.labelName lid = lid := by
  rw [labelName, labels.system_name lid h]
  rfl

theorem name_user {lid : String} (h : lid ∉ systemLabelIds) :
    labels.labelName lid ∉ systemLabelIds := by
  rw [labelName]
  cases hname : labels.names.lookup lid with
  -- an id that is not in the map is its own name
  | none => exact h
  | some name => exact (labels.user_name lid h name hname).2

theorem lookup_eq_none {name : String} (h : name ∉ systemLabelIds) :
    systemLabelFolder.lookup name = none := by
  rw [List.lookup_eq_none_iff]
  intro entry hentry
  have hid : entry.1 ∈ systemLabelIds := List.mem_append_left _ (List.mem_map_of_mem hentry)
  simp only [bne_iff_ne, ne_eq]
  exact fun he => h (he ▸ hid)

/-- What the code makes of one label: a folder of a system label, or the path of a user label
that it does not take for a tab. -/
theorem label_cases (lid : String) :
    (lid ∈ systemLabelIds ∧ labels.labelName lid = lid ∧
      (isCategoryLabel lid = true → systemLabelFolder.lookup lid = none) ∧
      (isCategoryLabel lid = false → (systemLabelFolder.lookup lid).isSome = true)) ∨
    (lid ∉ systemLabelIds ∧ systemLabelFolder.lookup lid = none ∧
      systemLabelFolder.lookup (labels.labelName lid) = none) := by
  by_cases hsystem : lid ∈ systemLabelIds
  · -- a tab has no entry in the table; all others have
    have htable : ∀ name ∈ systemLabelIds,
        (isCategoryLabel name = true → systemLabelFolder.lookup name = none) ∧
          (isCategoryLabel name = false → (systemLabelFolder.lookup name).isSome = true) := by
      decide
    exact Or.inl ⟨hsystem, labels.name_system hsystem, htable lid hsystem⟩
  · exact Or.inr ⟨hsystem, lookup_eq_none hsystem, lookup_eq_none (labels.name_user hsystem)⟩

/-- The names that the code goes on with. -/
def placedNames (labelIds : List String) : List String :=
  (labelIds.map labels.labelName).filter (fun name => !isCategoryLabel name)

theorem systemFolders_eq (labelIds : List String) :
    (labels.placedNames labelIds).filterMap (fun name => (systemLabelFolder.lookup name).join) =
      wellKnownFolders labelIds := by
  induction labelIds with
  | nil => rfl
  | cons lid labelIds ih =>
    rw [placedNames, wellKnownFolders] at ih ⊢
    rw [List.map_cons, List.filter_cons, List.filterMap_cons, ← ih]
    rcases labels.label_cases lid with ⟨-, hname, htab, -⟩ | ⟨-, hlid, hname⟩
    · rw [hname]
      cases hcategory : isCategoryLabel lid with
      | true => simp [htab hcategory]
      | false => simp [List.filterMap_cons]
    · rw [hlid]
      cases hcategory : isCategoryLabel (labels.labelName lid) with
      | true => simp
      | false => simp [hname]

theorem userPaths_eq (labelIds : List String) :
    ((labels.placedNames labelIds).filter
        (fun name => (systemLabelFolder.lookup name).isNone)).map labelToFolderPath =
      (labels.keptLabels labelIds).map labels.path := by
  induction labelIds with
  | nil => rfl
  | cons lid labelIds ih =>
    rw [placedNames, keptLabels, userLabels] at ih ⊢
    rw [List.map_cons, List.filter_cons, List.filter_cons]
    rcases labels.label_cases lid with ⟨hsystem, hname, -, hsome⟩ | ⟨hsystem, -, hname⟩
    · rw [hname]
      cases hcategory : isCategoryLabel lid with
      | true => simpa [hsystem] using ih
      | false =>
        obtain ⟨folder, hfolder⟩ := Option.isSome_iff_exists.mp (hsome hcategory)
        simpa [hsystem, hfolder] using ih
    · cases hcategory : isCategoryLabel (labels.labelName lid) with
      | true => simpa [hsystem, hcategory] using ih
      | false => simpa [hsystem, hcategory, hname, path] using ih

/-- `resolve_label_placement` goes by the kept labels and the well-known folders. -/
theorem resolveLabelPlacement_eq (labelIds : List String) (policy : MultiLabelPolicy) :
    resolveLabelPlacement labelIds labels.names policy =
      match (labels.keptLabels labelIds).map labels.path with
      | [] => (if wellKnownFolders labelIds = [] then ["Inbox"] else wellKnownFolders labelIds, [])
      | primary :: others =>
        match policy with
        | .duplicate =>
          (wellKnownFolders labelIds ++ (labels.keptLabels labelIds).map labels.path, [])
        | .categories => (wellKnownFolders labelIds ++ [primary], others) := by
  rw [← labels.systemFolders_eq, ← labels.userPaths_eq]
  rfl

/-- All user labels are kept exactly when none is taken for a tab. -/
theorem kept_eq_iff (labelIds : List String) :
    (labels.keptLabels labelIds).map labels.path = (userLabels labelIds).map labels.path ↔
      labels.NoCategoryName labelIds := by
  constructor
  · intro h
    have hlength : (labels.keptLabels labelIds).length = (userLabels labelIds).length := by
      simpa using congrArg List.length h
    have hall := List.length_filter_eq_length_iff.mp hlength
    intro lid hlid
    simpa using hall lid hlid
  · intro h
    have hall : labels.keptLabels labelIds = userLabels labelIds := by
      apply List.filter_eq_self.mpr
      intro lid hlid
      rw [h lid hlid]
      rfl
    rw [hall]

/-- The path of such a name begins as the name does. -/
theorem path_ne_inbox {lid : String} (h : isCategoryLabel (labels.labelName lid) = true) :
    labels.path lid ≠ "Inbox" := by
  obtain ⟨rest, hrest⟩ := List.isPrefixOf_iff_prefix.mp h
  intro hpath
  have hlist := congrArg String.toList hpath
  rw [path, labelToFolderPath, replaceText, String.toList_ofList, ← hrest] at hlist
  simp [substitute] at hlist

/-- Every user label of a message is placed, once and in order, exactly when none has a name that
begins with `CATEGORY_`. -/
theorem keepsLabels_iff (labelIds : List String) (policy : MultiLabelPolicy) :
    labels.KeepsLabels labelIds policy ↔ labels.NoCategoryName labelIds := by
  rw [← labels.kept_eq_iff]
  simp only [KeepsLabels, labels.resolveLabelPlacement_eq]
  set wellKnown := wellKnownFolders labelIds
  set paths := (userLabels labelIds).map labels.path with hpaths
  cases hkept : (labels.keptLabels labelIds).map labels.path with
  | nil =>
    constructor
    · rintro ⟨-, primary, hfolders, hall⟩
      rw [List.append_nil] at hall
      subst hall
      by_cases hempty : wellKnown = []
      · simp only [hempty, if_true, true_and] at hfolders
        split at hfolders
        · next hnone => exact hnone.symm
        · -- the one path would be the Inbox that stands for no label at all
          rw [List.nil_append] at hfolders
          rw [hpaths] at hfolders
          obtain ⟨lid, hlid, hinbox⟩ := List.mem_map.mp (hfolders ▸ List.mem_singleton_self "Inbox")
          have hdropped : lid ∉ labels.keptLabels labelIds := by
            rw [List.map_eq_nil_iff.mp hkept]
            exact List.not_mem_nil
          have hcategory : isCategoryLabel (labels.labelName lid) = true := by
            by_contra hnot
            apply hdropped
            exact List.mem_filter.mpr ⟨hlid, by simpa using hnot⟩
          exact absurd hinbox (labels.path_ne_inbox hcategory)
      · simp only [hempty, if_false, false_and] at hfolders
        simpa using hfolders
    · intro hnone
      rw [← hnone]
      by_cases hempty : wellKnown = []
      · exact ⟨by simp [hempty], [], by simp [hempty], rfl⟩
      · exact ⟨by simp [hempty], [], by simp [hempty], rfl⟩
  | cons primary rest =>
    have hsome : paths ≠ [] := by
      intro hnone
      have huser : userLabels labelIds = [] := List.map_eq_nil_iff.mp hnone
      rw [keptLabels, huser] at hkept
      cases hkept
    simp only [hsome, and_false, if_false]
    cases policy with
    | duplicate => simp
    | categories => simp

/-- An account in which the user has a label `CATEGORY_Projects`. -/
def projectsAccount : GmailLabels where
  names := ⟨⟨"Label_1", "CATEGORY_Projects"⟩ :: systemLabelIds.map (fun lid => ⟨lid, lid⟩), by
    unfold List.NodupKeys List.keys
    decide⟩
  system_name := by decide
  user_name := by
    intro lid hlid name hname
    have hentries : ∀ entry ∈ (⟨"Label_1", "CATEGORY_Projects"⟩ ::
        systemLabelIds.map (fun lid => ⟨lid, lid⟩) : List (Sigma (fun _ : String => String))),
        entry.1 ∉ systemLabelIds → entry.2 ≠ "" ∧ entry.2 ∉ systemLabelIds := by decide
    exact hentries ⟨lid, name⟩ (AList.mem_lookup_iff.mp hname) hlid

/-- A message with this label only is filed in the Inbox. -/
theorem projectsAccount_loses :
    ¬ ∀ (labels : GmailLabels) (labelIds : List String) (policy : MultiLabelPolicy),
      labels.KeepsLabels labelIds policy := by
  intro h
  have hplaced : resolveLabelPlacement ["Label_1"] projectsAccount.names .duplicate =
      (["Inbox"], []) := by decide
  have hpaths : (userLabels ["Label_1"]).map projectsAccount.path = ["CATEGORY_Projects"] := by
    decide
  obtain ⟨-, primary, hfolders, hall⟩ := h projectsAccount ["Label_1"] .duplicate
  rw [hplaced, hpaths] at hfolders
  rw [hplaced, hpaths, List.append_nil] at hall
  rw [hall] at hfolders
  exact absurd hfolders (by decide)

end GmailLabels

end GwsMigrator
