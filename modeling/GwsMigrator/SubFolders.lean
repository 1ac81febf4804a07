import GwsMigrator.FolderPaths

/-! Where `_map_folder` puts a sub-folder of an IMAP mailbox, against where it puts the mailbox
itself. -/
namespace GwsMigrator
open Separators

/-- A mailbox and a child of it. The child has no special use, and its leaf is no name that
stands for one. -/
structure SubFolder where
  parent : String
  flags : String
  delim : Char
  leaf : String
  childFlags : String
  leaf_ne : leaf ≠ ""
  leaf_unseparated : delim ∉ leaf.toList
  leaf_plain : '\\' ∉ leaf.toList
  leaf_notHeuristic : nameHeuristics.lookup (lowerText leaf) = none
  child_notSpecial : specialUse.find? (fun entry => isIn entry.1 childFlags) = none

/-- The well-known folder that the two tables have for a mailbox, by its flags or else by its
leaf. -/
def wellKnownToken (raw flags delim : String) : Option String :=
  match specialUse.find? (fun entry => isIn entry.1 flags) with
  | some (_, dest) => some dest
  | none => nameHeuristics.lookup (lowerText ((splitText raw delim).getLast?.getD raw))

namespace SubFolder

def delimiter (f : SubFolder) : String := String.singleton f.delim

def child (f : SubFolder) : String := f.parent ++ f.delimiter ++ f.leaf

def parentPath (f : SubFolder) : String := mapFolder f.parent f.flags f.delimiter

def childPath (f : SubFolder) : String := mapFolder f.child f.childFlags f.delimiter

/-- A well-known folder that the tables have for the parent has the parent's very name, and the
name is a single segment. -/
def InPlace (f : SubFolder) : Prop :=
  ∀ token ∈ wellKnownToken f.parent f.flags f.delimiter,
    f.parent = token ∧ f.delim ∉ f.parent.toList

instance (f : SubFolder) : Decidable f.InPlace :=
  inferInstanceAs (Decidable (∀ _ ∈ _, _))

end SubFolder

theorem mapFolder_eq (raw flags delim : String) :
    mapFolder raw flags delim =
      (wellKnownToken raw flags delim).getD (replaceText raw delim "\\") := by
  simp only [mapFolder, wellKnownToken]
  cases specialUse.find? (fun entry => isIn entry.1 flags) with
  | some entry => rfl
  | none => cases nameHeuristics.lookup (lowerText ((splitText raw delim).getLast?.getD raw)) <;> rfl

/-- No well-known folder is named with a backslash. -/
theorem wellKnownToken_plain {raw flags delim token : String}
    (h : wellKnownToken raw flags delim = some token) : '\\' ∉ token.toList := by
  have hspecial : ∀ entry ∈ specialUse, '\\' ∉ entry.2.toList := by decide
  have hheuristic : ∀ entry ∈ nameHeuristics, '\\' ∉ entry.2.toList := by decide
  rw [wellKnownToken] at h
  cases hfind : specialUse.find? (fun entry => isIn entry.1 flags) with
  | some entry =>
    rw [hfind] at h
    obtain rfl := Option.some.inj h
    exact hspecial entry (List.mem_of_find?_eq_some hfind)
  | none =>
    rw [hfind] at h
    obtain ⟨before, after, hsplit, -⟩ := List.lookup_eq_some_iff.mp h
    exact hheuristic _ (by rw [hsplit]; exact List.mem_append_right _ List.mem_cons_self)

/-- One more segment behind a delimiter is one more piece of the split. -/
theorem splitText_concat (c : Char) (text : String) {leaf : String} (h : c ∉ leaf.toList) :
    splitText (text ++ String.singleton c ++ leaf) (String.singleton c) =
      splitText text (String.singleton c) ++ [leaf] := by
  have hlist : (text ++ String.singleton c ++ leaf).toList = text.toList ++ c :: leaf.toList := by
    simp [String.toList_append]
  rw [splitText, splitText, hlist, String.toList_singleton, cut_singleton, cut_singleton,
    List.splitOn_append_cons_self, List.splitOn_eq_singleton h, List.map_append, List.map_singleton,
    String.ofList_toList]

theorem splitText_ne_nil (text sep : String) : splitText text sep ≠ [] := by
  rw [splitText]
  simpa using cut_ne_nil sep.toList 0 text.toList

namespace SubFolder
variable (f : SubFolder)

/-- The child keeps the path of its name, whatever the tables have for the parent. -/
theorem childPath_eq : f.childPath = replaceText f.parent f.delimiter "\\" ++ "\\" ++ f.leaf := by
  have hsplit : splitText f.child f.delimiter = splitText f.parent f.delimiter ++ [f.leaf] :=
    splitText_concat f.delim f.parent f.leaf_unseparated
  rw [childPath, mapFolder_of_notSpecial f.child_notSpecial, hsplit, List.getLast?_concat,
    Option.getD_some, f.leaf_notHeuristic, Option.getD_none, replaceText_eq,
    String.intercalate_append_of_ne_nil (splitText_ne_nil _ _) (by simp),
    String.intercalate_singleton]

/-- Replacing the delimiter gives a text without a backslash only where there was nothing to
replace. -/
theorem replaced_plain_iff {token : String} (htoken : '\\' ∉ token.toList) :
    replaceText f.parent f.delimiter "\\" = token ↔
      f.parent = token ∧ f.delim ∉ f.parent.toList := by
  have hpieces : splitText f.parent f.delimiter =
      (f.parent.toList.splitOn f.delim).map String.ofList := by
    rw [splitText, delimiter, String.toList_singleton, cut_singleton]
  constructor
  · intro h
    have hnot : f.delim ∉ f.parent.toList := by
      intro hmem
      -- two pieces are joined with a backslash
      have htwo := two_le_length_cut [f.delim] (by simp) ((List.singleton_infix_iff _ _).mpr hmem)
      apply htoken
      rw [← h, replaceText_eq, hpieces, String.toList_intercalate, List.map_map]
      apply mem_intercalate '\\'
      rw [List.length_map, ← cut_singleton]
      exact htwo
    refine ⟨?_, hnot⟩
    rw [← h, replaceText_eq, hpieces, List.splitOn_eq_singleton hnot]
    simp
  · rintro ⟨rfl, hnot⟩
    rw [replaceText_eq, hpieces, List.splitOn_eq_singleton hnot]
    simp

theorem childPath_iff : f.childPath = f.parentPath ++ "\\" ++ f.leaf ↔ f.InPlace := by
  have hcancel : f.childPath = f.parentPath ++ "\\" ++ f.leaf ↔
      replaceText f.parent f.delimiter "\\" = f.parentPath := by
    rw [f.childPath_eq, ← String.toList_inj, ← String.toList_inj]
    simp only [String.toList_append, List.append_left_inj]
  rw [hcancel, parentPath, mapFolder_eq]
  cases htoken : wellKnownToken f.parent f.flags f.delimiter with
  | none => simp [InPlace, htoken]
  | some token =>
    rw [Option.getD_some, f.replaced_plain_iff (wellKnownToken_plain htoken)]
    simp [InPlace, htoken]

end SubFolder

/-- A walk opens the last segment below the folder that the walk to the others ends in. -/
theorem walkFolder_concat (g : Graph) (user : UserMapping) (leaf : String) {st st' : MailLoop}
    {walked parts : List String} {parentId : Option Token} (hparts : parts ≠ [])
    (h : walkFolder g user st walked parentId parts = (.ok (), st')) :
    ∃ fid, st'.folderCache.lookup ("\\".intercalate (walked ++ parts)) = some fid ∧
      walkFolder g user st walked parentId (parts ++ [leaf]) =
        walkFolder g user st' (walked ++ parts) (some fid) [leaf] := by
  induction parts generalizing st walked parentId with
  | nil => exact absurd rfl hparts
  | cons part rest ih =>
    rw [List.append_cons walked part rest]
    -- the rest of the walk goes on below the folder that is cached for this segment
    have hrest : ∀ {st₁ : MailLoop} {fid : Token},
        st₁.folderCache.lookup ("\\".intercalate (walked ++ [part])) = some fid →
        walkFolder g user st₁ (walked ++ [part]) (some fid) rest = (.ok (), st') →
        ∃ fid', st'.folderCache.lookup ("\\".intercalate (walked ++ [part] ++ rest)) = some fid' ∧
          walkFolder g user st₁ (walked ++ [part]) (some fid) (rest ++ [leaf]) =
            walkFolder g user st' (walked ++ [part] ++ rest) (some fid') [leaf] := by
      intro st₁ fid hfid hwalk
      cases rest with
      | nil =>
        obtain rfl := (Prod.mk.inj hwalk).2
        rw [List.append_nil]
        exact ⟨fid, hfid, rfl⟩
      | cons next rest => exact ih (by simp) hwalk
    rw [walkFolder] at h
    rw [List.cons_append, walkFolder]
    cases hcached : st.folderCache.lookup ("\\".intercalate (walked ++ [part])) with
    | some fid =>
      simp only [hcached] at h ⊢
      exact hrest hcached h
    | none =>
      simp only [hcached] at h ⊢
      cases hopen : openSegment g st.world part (walked = []) parentId with
      | mk result w =>
        cases result with
        | error e =>
          rw [hopen] at h
          cases (Prod.mk.inj h).1
        | ok fid =>
          rw [hopen] at h
          exact hrest (AList.lookup_insert _) h

/-- A sub-folder's path is its leaf below its parent's path exactly when a well-known folder
that the tables have for the parent has the parent's own name. Then the sub-folder is opened
inside the folder that the parent's messages go to. -/
theorem subFolder_nested_iff (f : SubFolder) :
    (f.childPath = f.parentPath ++ "\\" ++ f.leaf ↔ f.InPlace) ∧
      (f.InPlace → ∀ (g : Graph) (user : UserMapping) (st st' : MailLoop),
        walkFolder g user st [] none (pathParts f.parentPath) = (.ok (), st') →
        ∃ fid, st'.folderCache.lookup f.parentPath = some fid ∧
          walkFolder g user st [] none (pathParts f.childPath) =
            walkFolder g user st' (pathParts f.parentPath) (some fid) [f.leaf]) := by
  refine ⟨f.childPath_iff, fun hplace g user st st' hwalk => ?_⟩
  have hpath : f.childPath = f.parentPath ++ String.singleton '\\' ++ f.leaf :=
    f.childPath_iff.mpr hplace
  have hparts : pathParts f.childPath = pathParts f.parentPath ++ [f.leaf] := by
    have hcut : ∀ path, pathParts path = splitText path (String.singleton '\\') := fun path => by
      rw [pathParts, splitText, String.toList_singleton, cut_singleton]
    rw [hcut, hcut, hpath, splitText_concat '\\' f.parentPath f.leaf_plain]
  obtain ⟨fid, hcached, hbelow⟩ :=
    walkFolder_concat g user f.leaf (pathParts_ne_nil f.parentPath) hwalk
  rw [List.nil_append] at hcached hbelow
  rw [join_pathParts] at hcached
  exact ⟨fid, hcached, by rw [hparts, hbelow]⟩

/-- A sub-folder of a folder that is called as its well-known folder. -/
def draftsFolder : SubFolder where
  parent := "Drafts"
  flags := "\\HasChildren \\Drafts"
  delim := '/'
  leaf := "Letters"
  childFlags := "\\HasNoChildren"
  leaf_ne := by decide
  leaf_unseparated := by decide
  leaf_plain := by decide
  leaf_notHeuristic := by decide
  child_notSpecial := by decide

theorem draftsFolder_nested :
    draftsFolder.childPath = draftsFolder.parentPath ++ "\\" ++ draftsFolder.leaf :=
  (subFolder_nested_iff draftsFolder).1.mpr (by decide)

/-- A sub-folder of the inbox, as most servers have it. -/
def inboxProjects : SubFolder where
  parent := "INBOX"
  flags := "\\HasChildren"
  delim := '/'
  leaf := "Projects"
  childFlags := "\\HasNoChildren"
  leaf_ne := by decide
  leaf_unseparated := by decide
  leaf_plain := by decide
  leaf_notHeuristic := by decide
  child_notSpecial := by decide

/-- It leaves the inbox for a folder of its own at the top. -/
theorem inboxProjects_outside :
    ¬ ∀ f : SubFolder, f.childPath = f.parentPath ++ "\\" ++ f.leaf := by
  intro h
  exact absurd (h inboxProjects) (by decide)

end GwsMigrator
