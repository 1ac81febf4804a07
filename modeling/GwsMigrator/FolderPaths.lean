import GwsMigrator.ImapList
import GwsMigrator.MailJob

/-! The folder path that each mail connector emits for a folder of its source, and when
`_get_folder` reads the folder's segments back from it. -/
namespace GwsMigrator
open Separators TextEdits Escapes

/-- `transform/labels.py: SYSTEM_LABEL_FOLDER`. -/
def systemLabelFolder : List (String × Option String) :=
  [("INBOX", some "Inbox"), ("SENT", some "SentItems"), ("DRAFT", some "Drafts"),
    ("TRASH", some "DeletedItems"), ("SPAM", some "JunkEmail"), ("STARRED", none),
    ("IMPORTANT", none), ("CHAT", none), ("UNREAD", none)]

inductive MultiLabelPolicy where
  | categories
  | duplicate
deriving DecidableEq, Repr

/-- `label_to_folder_path`. -/
def labelToFolderPath (labelName : String) : String := replaceText labelName "/" "\\"

/-- A label of Gmail's inbox tabs, which is no folder. -/
def isCategoryLabel (name : String) : Bool := "CATEGORY_".toList.isPrefixOf name.toList

/-- `resolve_label_placement`: the folder paths and the categories of a message. -/
def resolveLabelPlacement (labelIds : List String) (labelMap : AList (fun _ : String => String))
    (policy : MultiLabelPolicy) : List String × List String :=
  let names := (labelIds.map (fun lid => (labelMap.lookup lid).getD lid)).filter
    (fun name => !isCategoryLabel name)
  let systemFolders := names.filterMap (fun name => (systemLabelFolder.lookup name).join)
  let userLabels := (names.filter (fun name => (systemLabelFolder.lookup name).isNone)).map
    labelToFolderPath
  match userLabels with
  | [] => (if systemFolders = [] then ["Inbox"] else systemFolders, [])
  | primary :: others =>
    match policy with
    | .duplicate => (systemFolders ++ userLabels, [])
    | .categories => (systemFolders ++ [primary], others)

/-- A mailFolder of Microsoft Graph with its child folders. -/
inductive MailFolder where
  | mk (id : String) (displayName wellKnownName : Option String) (childFolders : List MailFolder)

/-- `_WELLKNOWN_TO_TOKEN`. -/
def wellKnownToToken : List (String × String) :=
  [("inbox", "Inbox"), ("sentitems", "SentItems"), ("drafts", "Drafts"),
    ("deleteditems", "DeletedItems"), ("junkemail", "JunkEmail"), ("archive", "Archive")]

/-- The name a folder goes by: at the top a system folder has its token. -/
def mailFolderName (top : Bool) (id : String) (displayName wellKnownName : Option String) :
    String :=
  match (if top then wellKnownToToken.lookup (wellKnownName.getD "") else none) with
  | some token => token
  | none => displayName.getD id

mutual

/-- `walk` of `_folder_paths`: the entries of `paths` in the order they are set. -/
def walkMailFolders (parentPath : String) : List MailFolder → List (String × String)
  | [] => []
  | folder :: folders =>
    walkMailFolder parentPath folder ++ walkMailFolders parentPath folders

/-- One round of its loop. -/
def walkMailFolder (parentPath : String) : MailFolder → List (String × String)
  | .mk id displayName wellKnownName childFolders =>
    let name := mailFolderName (parentPath = "") id displayName wellKnownName
    let full := if parentPath = "" then name else parentPath ++ "\\" ++ name
    (id, full) :: walkMailFolders full childFolders

end

/-- `folder_paths.get(parentFolderId, "Inbox")` of `iter_messages`. A later entry for an id
takes the place of an earlier one. -/
def mailFolderPath (folders : List MailFolder) (id : String) : String :=
  ((walkMailFolders "" folders).reverse.lookup id).getD "Inbox"

mutual

/-- The folders of a tree, each with the names on the way down to it. -/
def treeFolders (parents : List String) : List MailFolder → List (String × List String)
  | [] => []
  | folder :: folders => treeFolder parents folder ++ treeFolders parents folders

def treeFolder (parents : List String) : MailFolder → List (String × List String)
  | .mk id displayName wellKnownName childFolders =>
    let segments := parents ++ [mailFolderName (parents = []) id displayName wellKnownName]
    (id, segments) :: treeFolders segments childFolders

end

/-- A user label, by the segments of its name. -/
structure LabelFolder where
  labelId : String
  labelMap : AList (fun _ : String => String)
  policy : MultiLabelPolicy
  segments : List String
  segments_ne : segments ≠ []
  nonempty : ∀ s ∈ segments, s ≠ ""
  unseparated : ∀ s ∈ segments, '/' ∉ s.toList
  named : labelMap.lookup labelId = some ("/".intercalate segments)
  notSystem : systemLabelFolder.lookup ("/".intercalate segments) = none
  notCategory : isCategoryLabel ("/".intercalate segments) = false

/-- How a server sends the name of a mailbox. -/
inductive NameForm where
  | atom
  | quoted
  | literal
deriving DecidableEq

/-- A mailbox as a server lists it. Without hierarchy it has no delimiter, and one segment. -/
structure WireMailbox where
  flags : String
  delim : Option Char
  segments : List String
  form : NameForm

namespace WireMailbox
variable (f : WireMailbox)

def name : String := ((f.delim.map String.singleton).getD "").intercalate f.segments

/-- The name in the line. A literal is given apart from its line, as no bytes, and the loop of
`_folders` passes over both. -/
def wireName : Option (List Char) :=
  match f.form with
  | .atom => some f.name.toList
  | .quoted => some (quotedString f.name.toList)
  | .literal => none

/-- What `_LIST_RE` finds. -/
def listed : Option ListLine :=
  f.wireName.bind (fun wire => parseListLine (listLine f.flags f.delim wire))

end WireMailbox

/-- A mailbox that is migrated, without a special use and without a name that stands for one. -/
structure ImapMailbox extends WireMailbox where
  excludeFolders : List String
  segments_ne : segments ≠ []
  nonempty : ∀ s ∈ segments, s ≠ ""
  unseparated : ∀ c, delim = some c → ∀ s ∈ segments, c ∉ s.toList
  flat : delim = none → ∃ s, segments = [s]
  delim_ascii : ∀ c, delim = some c → c.toNat < 128
  flags_ascii : ∀ c ∈ flags.toList, c.toNat < 128
  flags_closed : ')' ∉ flags.toList
  selectable : isIn "\\Noselect" flags = false
  included : ∀ m ∈ toWireMailbox.listed, m.name ∉ excludeFolders
  line : ∀ c ∈ toWireMailbox.name.toList, c ≠ '\r' ∧ c ≠ '\n'
  atom : form = .atom → ∀ c ∈ toWireMailbox.name.toList,
    (32 < c.toNat ∧ c.toNat < 127) ∧ isAtomChar c = true
  notSpecial : specialUse.find? (fun entry => isIn entry.1 flags) = none
  notHeuristic : ∀ leaf, segments.getLast? = some leaf →
    nameHeuristics.lookup (lowerText leaf) = none

/-- A folder in a mailbox of Microsoft 365. -/
structure GraphMailFolder where
  folders : List MailFolder
  id : String
  segments : List String
  mem : (id, segments) ∈ treeFolders [] folders
  ids_nodup : ((treeFolders [] folders).map Prod.fst).Nodup
  nonempty : ∀ entry ∈ treeFolders [] folders, ∀ s ∈ entry.2, s ≠ ""

/-- A folder of one of the three kinds of sources. -/
inductive SourceFolder where
  | label (f : LabelFolder)
  | mailbox (f : ImapMailbox)
  | mailFolder (f : GraphMailFolder)

namespace SourceFolder

/-- The segments as the source has them. -/
def segments : SourceFolder → List String
  | label f => f.segments
  | mailbox f => f.segments
  | mailFolder f => f.segments

/-- The `folder_paths` of a message that is in this folder alone. -/
def emitted : SourceFolder → List String
  | label f => (resolveLabelPlacement [f.labelId] f.labelMap f.policy).1
  | mailbox f => (listedFolders f.excludeFolders [f.listed]).map ImapFolder.mappedPath
  | mailFolder f => [mailFolderPath f.folders f.id]

/-- The writer gets the segments of the source. -/
def Kept (f : SourceFolder) : Prop := f.emitted.map pathParts = [f.segments]

/-- No segment holds the separator of the paths. Of a mailbox none holds what is sent with an
escape either, and its line can be read: the name is no literal and the delimiter no quote, and
without hierarchy the name neither holds the text that stands for the delimiter nor begins with a
blank. -/
def Plain : SourceFolder → Prop
  | label f => ∀ s ∈ f.segments, '\\' ∉ s.toList
  | mailbox f => (∀ s ∈ f.segments, ∀ c ∈ s.toList, isQuotedSpecial c = false) ∧
      f.form ≠ .literal ∧ f.delim ≠ some '"' ∧
      (f.delim = none → ∀ s ∈ f.segments, isIn "NIL" s = false ∧ s.toList.head? ≠ some ' ')
  | mailFolder f => ∀ s ∈ f.segments, '\\' ∉ s.toList

end SourceFolder

/-- A path joined from segments gives them back exactly when none holds a backslash. -/
theorem pathParts_join_iff {segments : List String} (hne : segments ≠ []) :
    pathParts ("\\".intercalate segments) = segments ↔ ∀ s ∈ segments, '\\' ∉ s.toList := by
  have hlists : segments.map String.toList ≠ [] := by simpa using hne
  have hsplit := splitOn_intercalate_iff '\\' hlists
  have hback : ∀ l : List (List Char), l.map String.ofList = segments ↔
      l = segments.map String.toList := by
    intro l
    constructor
    · rintro rfl
      simp [List.map_map, Function.comp_def]
    · rintro rfl
      simp [List.map_map, Function.comp_def]
  rw [pathParts, hback, String.toList_intercalate]
  refine hsplit.trans ?_
  simp only [List.mem_map, forall_exists_index, and_imp, forall_apply_eq_imp_iff₂]

/-- A message with one user label goes to the path of that label under either policy. -/
theorem LabelFolder.placement (f : LabelFolder) :
    (resolveLabelPlacement [f.labelId] f.labelMap f.policy).1 = ["\\".intercalate f.segments] := by
  have hpath : labelToFolderPath ("/".intercalate f.segments) = "\\".intercalate f.segments := by
    rw [labelToFolderPath, replaceText_eq]
    congr 1
    exact splitText_join '/' f.segments_ne f.unseparated
  simp only [resolveLabelPlacement, List.map_cons, List.map_nil, f.named, Option.getD_some,
    List.filter_cons, f.notCategory, Bool.not_false, if_true, List.filter_nil, f.notSystem,
    Option.isNone_none, hpath, List.filterMap_cons, Option.join_none, List.filterMap_nil]
  cases f.policy <;> rfl

/-- `mapFolder` on a mailbox without a special use, by the pieces of its name. -/
theorem mapFolder_of_notSpecial {raw flags delim : String}
    (h : specialUse.find? (fun entry => isIn entry.1 flags) = none) :
    mapFolder raw flags delim =
      (nameHeuristics.lookup (lowerText ((splitText raw delim).getLast?.getD raw))).getD
        ("\\".intercalate (splitText raw delim)) := by
  simp only [mapFolder, h, replaceText_eq]
  cases nameHeuristics.lookup (lowerText ((splitText raw delim).getLast?.getD raw)) <;> rfl

/-- A path that is read back as one segment is that segment. -/
theorem pathParts_eq_singleton {path segment : String} (h : pathParts path = [segment]) :
    path = segment ∧ '\\' ∉ path.toList := by
  obtain ⟨piece, hpiece, rfl⟩ : ∃ piece, path.toList.splitOn '\\' = [piece] ∧
      String.ofList piece = segment := by
    rw [pathParts, List.map_eq_singleton_iff] at h
    exact h
  have hwhole : path.toList = piece := by
    have hjoin : ['\\'].intercalate (path.toList.splitOn '\\') = path.toList :=
      List.intercalate_splitOn '\\'
    rw [hpiece, List.intercalate_singleton] at hjoin
    exact hjoin.symm
  refine ⟨by rw [← hwhole, String.ofList_toList], ?_⟩
  rw [hwhole]
  apply notMem_of_mem_splitOn '\\' path.toList
  rw [hpiece]
  exact List.mem_singleton_self _

/-- The names that stand for folders have no mark of a path or of a line in them. -/
theorem nameHeuristics_plain : ∀ entry ∈ nameHeuristics,
    (∀ c ∈ entry.2.toList, isQuotedSpecial c = false ∧ c ≠ ' ') ∧ isIn "NIL" entry.2 = false := by
  have hall : ∀ entry ∈ nameHeuristics,
      entry.2.toList.all (fun c => isQuotedSpecial c = false ∧ c ≠ ' ') = true ∧
        isIn "NIL" entry.2 = false := by decide
  intro entry hentry
  obtain ⟨hplain, hnil⟩ := hall entry hentry
  exact ⟨fun c hc => of_decide_eq_true (List.all_eq_true.mp hplain c hc), hnil⟩

theorem mem_of_mem_pathParts {path s : String} (hs : s ∈ pathParts path) {c : Char}
    (hc : c ∈ s.toList) : c ∈ path.toList := by
  rw [pathParts] at hs
  obtain ⟨piece, hpiece, rfl⟩ := List.mem_map.mp hs
  have hjoin : ['\\'].intercalate (path.toList.splitOn '\\') = path.toList :=
    List.intercalate_splitOn '\\'
  rw [String.toList_ofList] at hc
  rw [← hjoin]
  exact mem_intercalate_of_mem hpiece hc

theorem mapFolder_cases {raw flags delim : String}
    (h : specialUse.find? (fun entry => isIn entry.1 flags) = none) :
    (∃ entry ∈ nameHeuristics, mapFolder raw flags delim = entry.2) ∨
      mapFolder raw flags delim = "\\".intercalate (splitText raw delim) := by
  rw [mapFolder_of_notSpecial h]
  cases hheur : nameHeuristics.lookup (lowerText ((splitText raw delim).getLast?.getD raw)) with
  | none => exact Or.inr rfl
  | some dest =>
    obtain ⟨before, after, hsplit, -⟩ := List.lookup_eq_some_iff.mp hheur
    exact Or.inl ⟨(_, dest), hsplit ▸ List.mem_append_right _ List.mem_cons_self, rfl⟩

/-- Quotes and backslashes are what is escaped. -/
theorem countP_isQuotedSpecial (text : List Char) :
    text.countP isQuotedSpecial = text.count '\\' + text.count '"' := by
  induction text with
  | nil => rfl
  | cons c text ih =>
    rw [List.countP_cons, ih, List.count_cons, List.count_cons]
    by_cases hback : c = '\\'
    · subst hback
      simp [isQuotedSpecial]
      omega
    · by_cases hquote : c = '"'
      · subst hquote
        simp [isQuotedSpecial]
        omega
      · simp [isQuotedSpecial, hback, hquote]

theorem isQuotedSpecial_eq_false {c : Char} : isQuotedSpecial c = false ↔ c ≠ '\\' ∧ c ≠ '"' := by
  simp [isQuotedSpecial]

namespace ImapMailbox
variable (f : ImapMailbox)

/-- The name that `_folders` takes from the line. -/
def rawText (wire : List Char) : List Char := strip (· = '"') (strip isSpace wire)

/-- An atom is read as it is, and would need no escapes. -/
theorem rawText_atom (hatom : f.form = .atom) :
    rawText f.name.toList = escape isQuotedSpecial '\\' f.name.toList := by
  have hplain : ∀ c ∈ f.name.toList, isSpace c = false ∧ isQuotedSpecial c = false := by
    intro c hc
    obtain ⟨hrange, hallowed⟩ := f.atom hatom c hc
    refine ⟨?_, ?_⟩
    · by_contra hspace
      rw [Bool.not_eq_false, isSpace_of_printable (by omega)] at hspace
      subst hspace
      exact absurd hrange.1 (by decide)
    · simp only [isAtomChar, List.mem_cons, List.not_mem_nil, decide_eq_true_eq, not_or] at hallowed
      rw [isQuotedSpecial_eq_false]
      tauto
  have hspace : strip isSpace f.name.toList = f.name.toList :=
    strip_eq_self (fun c hc => (hplain c (List.mem_of_mem_head? hc)).1)
      (fun c hc => (hplain c (List.mem_of_mem_getLast? hc)).1)
  have hquote : ∀ c ∈ f.name.toList, decide (c = '"') = false := fun c hc =>
    decide_eq_false (isQuotedSpecial_eq_false.mp (hplain c hc).2).2
  rw [rawText, hspace, escape_eq_self isQuotedSpecial '\\' (fun c hc => (hplain c hc).2)]
  exact strip_eq_self (fun c hc => hquote c (List.mem_of_mem_head? hc))
    (fun c hc => hquote c (List.mem_of_mem_getLast? hc))

section
variable {f} {wire : List Char} (hwire : f.wireName = some wire)

include hwire

/-- A name that is sent in the line is an atom or a quoted string. -/
theorem wire_cases : f.form = .atom ∧ wire = f.name.toList ∨
    f.form = .quoted ∧ wire = quotedString f.name.toList := by
  rw [WireMailbox.wireName] at hwire
  cases hform : f.form with
  | atom =>
    rw [hform] at hwire
    exact Or.inl ⟨rfl, (Option.some.inj hwire).symm⟩
  | quoted =>
    rw [hform] at hwire
    exact Or.inr ⟨rfl, (Option.some.inj hwire).symm⟩
  | literal =>
    rw [hform] at hwire
    cases hwire

theorem newline_notMem_wire : '\n' ∉ wire := by
  have hname : '\n' ∉ f.name.toList := fun h => (f.line _ h).2 rfl
  rcases wire_cases hwire with ⟨-, rfl⟩ | ⟨-, rfl⟩
  · exact hname
  · exact newline_notMem_quotedString hname

/-- The escapes stay in the name, and only quotes are taken off. -/
theorem count_rawText {c : Char} (hc : c ≠ '"') :
    (rawText wire).count c = (escape isQuotedSpecial '\\' f.name.toList).count c := by
  rcases wire_cases hwire with ⟨hatom, rfl⟩ | ⟨-, rfl⟩
  · rw [f.rawText_atom hatom]
  · rw [rawText, strip_quotedString, count_strip (fun x => decide (x = '"')) (decide_eq_false hc),
      quotedString,
      List.count_cons_of_ne (Ne.symm hc), List.count_append]
    simp [Ne.symm hc]

/-- Without a quote in it the name is read as it is sent. -/
theorem rawText_eq (hquote : '"' ∉ f.name.toList) :
    rawText wire = escape isQuotedSpecial '\\' f.name.toList := by
  rcases wire_cases hwire with ⟨hatom, rfl⟩ | ⟨-, rfl⟩
  · exact f.rawText_atom hatom
  · rw [rawText, strip_quotedString, quotedString]
    apply strip_between _ (by decide) (by decide)
    intro c hc
    rw [decide_eq_false_iff_not]
    rintro rfl
    rcases mem_escape isQuotedSpecial '\\' hc with h | h
    · cases h
    · exact hquote h

end

/-- A line that is read gives the path of one folder. -/
theorem emitted_of_listed {m : ListLine} (h : f.listed = some m) (hflags : m.flags = f.flags) :
    (SourceFolder.mailbox f).emitted = [mapFolder m.name f.flags (handedDelim m)] := by
  have hincluded : m.name ∉ f.excludeFolders := f.included m h
  simp only [SourceFolder.emitted, h, listedFolders, List.filterMap_cons, List.filterMap_nil,
    Option.bind_some, hflags, f.selectable, Bool.false_eq_true, if_false, if_neg hincluded,
    handedDelim, List.map_cons, List.map_nil]

theorem kept_iff_path {m : ListLine} (h : f.listed = some m) (hflags : m.flags = f.flags) :
    (SourceFolder.mailbox f).Kept ↔
      pathParts (mapFolder m.name f.flags (handedDelim m)) = f.segments := by
  rw [SourceFolder.Kept, f.emitted_of_listed h hflags, List.map_singleton, List.cons.injEq,
    and_iff_left rfl]
  rfl

section delim
variable {f} {d : Char} (hd : f.delim = some d) {wire : List Char} (hwire : f.wireName = some wire)

include hd

theorem toList_name : f.name.toList = [d].intercalate (f.segments.map String.toList) := by
  rw [WireMailbox.name, hd, Option.map_some, Option.getD_some, String.toList_intercalate,
    String.toList_singleton]

include hwire

/-- A quote in a segment leaves one backslash more in the path than the segments have between
them. -/
theorem quote_notMem_of_joined (hquote : d ≠ '"')
    (hplain : ∀ s ∈ f.segments, '\\' ∉ s.toList)
    (hjoined : ['\\'].intercalate (cut (escape isQuotedSpecial '\\' [d]) 0 (rawText wire)) =
      ['\\'].intercalate (f.segments.map String.toList)) : '"' ∉ f.name.toList := by
  have hsep : escape isQuotedSpecial '\\' [d] ≠ [] := by
    rw [escape_cons, escape_nil]
    split <;> simp
  have hsegments : f.segments.map String.toList ≠ [] := by simpa using f.segments_ne
  have hpieces := cut_ne_nil (escape isQuotedSpecial '\\' [d]) 0 (rawText wire)
  have hraw := intercalate_cut_self (escape isQuotedSpecial '\\' [d]) hsep 0 (rawText wire)
  rw [List.drop_zero] at hraw
  have hnone : ∀ c : Char, (∀ s ∈ f.segments, c ∉ s.toList) →
      (f.segments.map String.toList).flatten.count c = 0 := by
    intro c hc
    refine List.count_eq_zero.mpr (fun hmem => ?_)
    obtain ⟨text, htext, hin⟩ := List.mem_flatten.mp hmem
    obtain ⟨s, hs, rfl⟩ := List.mem_map.mp htext
    exact hc s hs hin
  -- the backslashes of the path, of the segments, of what is read and of the name
  have hpath := count_intercalate ['\\'] '\\' hpieces
  have hsegs := count_intercalate ['\\'] '\\' hsegments
  have hread := count_intercalate (escape isQuotedSpecial '\\' [d]) '\\' hpieces
  have hname := count_intercalate [d] '\\' hsegments
  rw [hjoined] at hpath
  rw [hraw, f.count_rawText hwire (by decide), count_escape isQuotedSpecial '\\' (by decide),
    countP_isQuotedSpecial] at hread
  rw [hnone '\\' hplain] at hsegs hname
  rw [← toList_name hd] at hname
  rw [← List.count_eq_zero]
  by_cases hslash : d = '\\'
  · subst hslash
    have htwo : (escape isQuotedSpecial '\\' ['\\']).count '\\' = 2 := by decide
    have hone : ['\\'].count '\\' = 1 := by decide
    rw [htwo] at hread
    rw [hone] at hpath hsegs hname
    omega
  · have hspecial : escape isQuotedSpecial '\\' [d] = [d] :=
      escape_eq_self _ _ (by simpa using isQuotedSpecial_eq_false.mpr ⟨hslash, hquote⟩)
    have hdelims := count_intercalate ['\\'] d hpieces
    have hnoDelims := count_intercalate ['\\'] d hsegments
    have hreadDelims := count_intercalate (escape isQuotedSpecial '\\' [d]) d hpieces
    have hnameDelims := count_intercalate [d] d hsegments
    rw [hjoined] at hdelims
    rw [hraw, f.count_rawText hwire hquote, count_escape_of_ne isQuotedSpecial '\\' hslash]
      at hreadDelims
    rw [hnone d (f.unseparated d hd)] at hnoDelims hnameDelims
    rw [← toList_name hd] at hnameDelims
    have hzero : ['\\'].count d = 0 := List.count_eq_zero.mpr (by simpa using hslash)
    have hzero' : [d].count '\\' = 0 := List.count_eq_zero.mpr (by simpa using Ne.symm hslash)
    have hone : ['\\'].count '\\' = 1 := by decide
    have hone' : [d].count d = 1 := by simp
    rw [hspecial] at hread hreadDelims hpath hdelims
    rw [hzero'] at hread hname
    rw [hone'] at hreadDelims hnameDelims
    rw [hzero] at hdelims hnoDelims
    rw [hone] at hpath hsegs
    omega

/-- Under a delimiter other than a quote the segments are kept exactly when none of them holds a
quote or a backslash. -/
theorem kept_delim_iff (hquote : d ≠ '"') : (SourceFolder.mailbox f).Kept ↔
    ∀ s ∈ f.segments, ∀ c ∈ s.toList, isQuotedSpecial c = false := by
  have hlisted : f.listed = some ⟨f.flags, String.ofList (escape isQuotedSpecial '\\' [d]),
      String.ofList (rawText wire)⟩ := by
    rw [WireMailbox.listed, hwire, Option.bind_some, hd]
    exact parse_listLine_delim f.flags_closed (newline_notMem_wire hwire) hquote
  have hhanded : handedDelim ⟨f.flags, String.ofList (escape isQuotedSpecial '\\' [d]),
      String.ofList (rawText wire)⟩ = String.ofList (escape isQuotedSpecial '\\' [d]) := by
    refine if_neg (fun h => ?_)
    have hnil := congrArg String.toList h
    rw [String.toList_ofList, escape_cons] at hnil
    split at hnil <;> cases hnil
  rw [f.kept_iff_path hlisted rfl, hhanded]
  have hsegments : f.segments.map String.toList ≠ [] := by simpa using f.segments_ne
  constructor
  · intro hkept
    have hjoined := congrArg ("\\".intercalate ·) hkept
    dsimp only at hjoined
    rw [join_pathParts] at hjoined
    have hplain : ∀ s ∈ f.segments, '\\' ∉ s.toList :=
      (pathParts_join_iff f.segments_ne).mp (by rw [← hjoined, hkept])
    have hnot : '"' ∉ f.name.toList ∨ ∀ s ∈ f.segments, '"' ∉ s.toList := by
      rcases mapFolder_cases f.notSpecial with ⟨entry, hentry, htoken⟩ | hcut
      · -- the name of a folder that the heuristics know
        right
        rw [htoken] at hkept
        intro s hs hmem
        have htext := mem_of_mem_pathParts (hkept ▸ hs) hmem
        exact absurd ((nameHeuristics_plain entry hentry).1 _ htext).1 (by decide)
      · left
        rw [hcut] at hjoined
        refine quote_notMem_of_joined hd hwire hquote hplain ?_
        have hlists := congrArg String.toList hjoined
        have hid : String.toList ∘ String.ofList = id := funext fun l => String.toList_ofList
        rw [String.toList_intercalate, String.toList_intercalate, splitText, List.map_map, hid,
          List.map_id] at hlists
        simp only [String.toList_ofList] at hlists
        exact hlists
    intro s hs c hc
    refine isQuotedSpecial_eq_false.mpr ⟨fun h => hplain s hs (h ▸ hc), ?_⟩
    rintro rfl
    rcases hnot with hname | hsegs
    · rw [toList_name hd] at hname
      exact hname (mem_intercalate_of_mem (List.mem_map_of_mem hs) hc)
    · exact hsegs s hs hc
  · intro hplain
    have hname : '"' ∉ f.name.toList := by
      rw [toList_name hd]
      intro hmem
      rcases of_mem_intercalate hmem with hsep | ⟨piece, hpiece, hin⟩
      · exact hquote (List.mem_singleton.mp hsep).symm
      · obtain ⟨s, hs, rfl⟩ := List.mem_map.mp hpiece
        exact absurd (hplain s hs _ hin) (by decide)
    have hescaped : ∀ s ∈ f.segments, escape isQuotedSpecial '\\' s.toList = s.toList :=
      fun s hs => escape_eq_self _ _ (hplain s hs)
    have hraw : String.ofList (rawText wire) =
        (String.ofList (escape isQuotedSpecial '\\' [d])).intercalate f.segments := by
      apply String.toList_inj.mp
      rw [String.toList_ofList, rawText_eq hwire hname, toList_name hd, escape_intercalate,
        List.map_map, String.toList_intercalate, String.toList_ofList]
      congr 1
      exact List.map_congr_left hescaped
    obtain ⟨tail, htail⟩ : ∃ tail, escape isQuotedSpecial '\\' [d] = d :: tail := by
      rw [escape_cons, escape_nil]
      by_cases hslash : d = '\\'
      · subst hslash
        exact ⟨['\\'], by decide⟩
      · rw [isQuotedSpecial_eq_false.mpr ⟨hslash, hquote⟩]
        exact ⟨[], rfl⟩
    have hsplit := splitText_intercalate ((String.toList_ofList).trans htail) f.segments_ne
      (f.unseparated d hd)
    obtain ⟨leaf, hleaf⟩ := Option.isSome_iff_exists.mp (List.getLast?_isSome.mpr f.segments_ne)
    rw [hraw, mapFolder_of_notSpecial f.notSpecial, hsplit, hleaf, Option.getD_some,
      f.notHeuristic leaf hleaf, Option.getD_none, pathParts_join_iff f.segments_ne]
    exact fun s hs hmem => absurd (hplain s hs _ hmem) (by decide)

end delim

section flat
variable {f} {s : String} (hdelim : f.delim = none) (hs : f.segments = [s]) {wire : List Char}
  (hwire : f.wireName = some wire)

include hs

/-- The path of a mailbox at the top is its name where this is read without a delimiter in it, and
else has a backslash. -/
theorem kept_flat_cases (delim : String) {m : ListLine} (hlisted : f.listed = some m)
    (hflags : m.flags = f.flags) (hhanded : handedDelim m = delim) (hne : delim.toList ≠ [])
    (hkept : (SourceFolder.mailbox f).Kept) :
    (∃ entry ∈ nameHeuristics, s = entry.2) ∨ s = m.name ∧ isIn delim s = false := by
  rw [f.kept_iff_path hlisted hflags, hhanded, hs] at hkept
  obtain ⟨hpath, hback⟩ := pathParts_eq_singleton hkept
  rcases mapFolder_cases f.notSpecial with ⟨entry, hentry, htoken⟩ | hcut
  · exact Or.inl ⟨entry, hentry, hpath.symm.trans htoken⟩
  · right
    rw [hcut] at hpath hback
    by_cases hin : isIn delim m.name = true
    · have htwo := two_le_length_cut delim.toList hne (of_decide_eq_true hin)
      refine absurd ?_ hback
      rw [String.toList_intercalate, splitText, List.map_map]
      apply mem_intercalate '\\'
      rw [List.length_map]
      exact htwo
    · have hfree : isIn delim m.name = false := by simpa using hin
      rw [splitText, cut_of_not_infix _ (of_decide_eq_false hfree), List.map_singleton,
        String.intercalate_singleton, String.ofList_toList] at hpath
      exact ⟨hpath.symm, hpath ▸ hfree⟩

include hdelim

theorem name_flat : f.name = s := by
  rw [WireMailbox.name, hdelim, hs, String.intercalate_singleton]

/-- A name that begins with a blank loses it to the delimiter. -/
theorem not_kept_of_blank (hhead : s.toList.head? = some ' ') (hquoted : f.form = .quoted) :
    ¬ (SourceFolder.mailbox f).Kept := by
  intro hkept
  obtain ⟨rest, hrest⟩ : ∃ rest, s.toList = ' ' :: rest := by
    cases htext : s.toList with
    | nil =>
      rw [htext] at hhead
      cases hhead
    | cons c rest =>
      rw [htext] at hhead
      obtain rfl := Option.some.inj hhead
      exact ⟨rest, rfl⟩
  have hnl : '\n' ∉ escape isQuotedSpecial '\\' rest ++ ['"'] := by
    intro hmem
    rcases List.mem_append.mp hmem with hmem | hmem
    · rcases mem_escape _ _ hmem with h | h
      · cases h
      · refine (f.line '\n' ?_).2 rfl
        rw [name_flat hdelim hs, hrest]
        exact List.mem_cons_of_mem _ h
    · cases List.mem_singleton.mp hmem
  have hlisted : f.listed = some ⟨f.flags, "NIL ",
      String.ofList (rawText (escape isQuotedSpecial '\\' rest ++ ['"']))⟩ := by
    rw [WireMailbox.listed, WireMailbox.wireName, hquoted, Option.bind_some, hdelim,
      name_flat hdelim hs, hrest]
    exact parse_listLine f.flags_closed (matchQuotedDelim_nil_blank hnl)
  have hblank : ' ' ∈ s.toList := hrest ▸ List.mem_cons_self
  rcases kept_flat_cases hs "NIL " hlisted rfl rfl (by decide) hkept with
    ⟨entry, hentry, rfl⟩ | ⟨hsame, -⟩
  · exact ((nameHeuristics_plain entry hentry).1 _ hblank).2 rfl
  · -- one blank less is read
    have hcount := congrArg (List.count ' ' ∘ String.toList) hsame
    simp only [Function.comp_apply, String.toList_ofList, hrest, List.count_cons_self] at hcount
    have hle : (strip isSpace (escape isQuotedSpecial '\\' rest ++ ['"'])).count ' ' ≤
        (escape isQuotedSpecial '\\' rest ++ ['"']).count ' ' :=
      ( strip_infix _).sublist.count_le ' '
    rw [List.count_append, count_escape_of_ne _ _ (by decide)] at hle
    rw [rawText, count_strip (fun x => decide (x = '"')) (by decide)] at hcount
    simp at hle
    omega

include hwire

/-- Without hierarchy the name is kept exactly when nothing in it is escaped or read for the
delimiter. -/
theorem kept_flat_iff : (SourceFolder.mailbox f).Kept ↔
    (∀ c ∈ s.toList, isQuotedSpecial c = false) ∧
      isIn "NIL" s = false ∧ s.toList.head? ≠ some ' ' := by
  have hname := name_flat hdelim hs
  by_cases hhead : s.toList.head? = some ' '
  · refine iff_of_false ?_ (fun h => h.2.2 hhead)
    rcases wire_cases hwire with ⟨hatom, -⟩ | ⟨hquoted, -⟩
    · have hblank := (f.atom hatom ' ' (hname ▸ List.mem_of_mem_head? hhead)).1.1
      exact absurd hblank (by decide)
    · exact not_kept_of_blank hdelim hs hhead hquoted
  · have hnone : matchDelim wire = none := by
      rcases wire_cases hwire with ⟨hatom, rfl⟩ | ⟨-, rfl⟩
      · apply matchDelim_eq_none
        intro hmem
        exact absurd (f.atom hatom _ hmem).1.1 (by decide)
      · exact matchDelim_quotedString (hname ▸ hhead)
    have hlisted : f.listed = some ⟨f.flags, "NIL", String.ofList (rawText wire)⟩ := by
      rw [WireMailbox.listed, hwire, Option.bind_some, hdelim]
      exact parse_listLine_nil f.flags_closed (newline_notMem_wire hwire) hnone
    constructor
    · intro hkept
      rcases kept_flat_cases hs "NIL" hlisted rfl rfl (by decide) hkept with
        ⟨entry, hentry, rfl⟩ | ⟨hsame, hnil⟩
      · obtain ⟨hplain, hnil⟩ := nameHeuristics_plain entry hentry
        exact ⟨fun c hc => (hplain c hc).1, hnil, hhead⟩
      · refine ⟨fun c hc => ?_, hnil, hhead⟩
        have hcount := count_rawText hwire (c := '\\') (by decide)
        have hread : rawText wire = s.toList := by
          rw [hsame, String.toList_ofList]
        rw [hread, hname, count_escape isQuotedSpecial '\\' (by decide)] at hcount
        have hzero : s.toList.countP isQuotedSpecial = 0 := by omega
        simpa using List.countP_eq_zero.mp hzero c hc
    · rintro ⟨hplain, hnil, -⟩
      have hquote : '"' ∉ f.name.toList := by
        rw [hname]
        exact fun hmem => absurd (hplain _ hmem) (by decide)
      have hraw : String.ofList (rawText wire) = s := by
        rw [rawText_eq hwire hquote, hname, escape_eq_self _ _ hplain, String.ofList_toList]
      have hsplit : splitText s "NIL" = [s] := (ListedMailbox.splitText_nil_iff s).mpr hnil
      have hleaf := f.notHeuristic s (by rw [hs]; rfl)
      rw [f.kept_iff_path hlisted rfl, hraw, hs]
      change pathParts (mapFolder s f.flags "NIL") = [s]
      rw [mapFolder_of_notSpecial f.notSpecial, hsplit, List.getLast?_singleton, Option.getD_some,
        hleaf, Option.getD_none, pathParts_join_iff (List.cons_ne_nil _ _)]
      intro t ht hmem
      obtain rfl := List.mem_singleton.mp ht
      exact absurd (hplain _ hmem) (by decide)

end flat

/-- A mailbox that is not listed, or whose line is not read, has no path. -/
theorem not_kept_of_unlisted (h : f.listed = none) : ¬ (SourceFolder.mailbox f).Kept := by
  intro hkept
  rw [SourceFolder.Kept, SourceFolder.emitted, h] at hkept
  cases hkept

theorem kept_iff : (SourceFolder.mailbox f).Kept ↔ (SourceFolder.mailbox f).Plain := by
  rw [SourceFolder.Plain]
  cases hwire : f.wireName with
  | none =>
    have hliteral : f.form = .literal := by
      rw [WireMailbox.wireName] at hwire
      cases hform : f.form with
      | atom | quoted =>
        rw [hform] at hwire
        cases hwire
      | literal => rfl
    refine iff_of_false (f.not_kept_of_unlisted ?_) (fun h => h.2.1 hliteral)
    rw [WireMailbox.listed, hwire, Option.bind_none]
  | some wire =>
    have hform : f.form ≠ .literal := by
      rcases wire_cases hwire with ⟨h, -⟩ | ⟨h, -⟩
      · rw [h]
        decide
      · rw [h]
        decide
    cases hdelim : f.delim with
    | some d =>
      by_cases hquote : d = '"'
      · subst hquote
        refine iff_of_false (f.not_kept_of_unlisted ?_) (fun h => h.2.2.1 rfl)
        rw [WireMailbox.listed, hwire, Option.bind_some, hdelim]
        exact parse_listLine_quote f.flags_closed
      · rw [kept_delim_iff hdelim hwire hquote]
        simp [hform, hquote]
    | none =>
      obtain ⟨s, hs⟩ := f.flat hdelim
      rw [kept_flat_iff hdelim hs hwire, hs]
      simp [hform]

end ImapMailbox

/-- Segments that are not empty join to an empty path only if there are none. -/
theorem intercalate_eq_empty_iff {parents : List String} (h : ∀ s ∈ parents, s ≠ "") :
    "\\".intercalate parents = "" ↔ parents = [] := by
  match parents with
  | [] => simp
  | [s] => simpa using h s (List.mem_singleton_self s)
  | s :: s' :: rest =>
    have hs := h s List.mem_cons_self
    rw [String.intercalate_cons_cons]
    simp [String.append_eq_empty_iff, hs]

/-- Joining one more segment. -/
theorem intercalate_concat {parents : List String} (h : ∀ s ∈ parents, s ≠ "") (name : String) :
    "\\".intercalate (parents ++ [name]) =
      (if "\\".intercalate parents = "" then name
        else "\\".intercalate parents ++ "\\" ++ name) := by
  by_cases hnil : parents = []
  · subst hnil
    simp
  · rw [if_neg (mt (intercalate_eq_empty_iff h).mp hnil),
      String.intercalate_append_of_ne_nil hnil (by simp), String.intercalate_singleton]

mutual

/-- `walk` sets the joined segments of every folder, under the ids in the order of the tree. -/
theorem walkMailFolders_eq (parents : List String) (hparents : ∀ s ∈ parents, s ≠ "") :
    ∀ folders : List MailFolder,
      (∀ entry ∈ treeFolders parents folders, ∀ s ∈ entry.2, s ≠ "") →
      walkMailFolders ("\\".intercalate parents) folders =
        (treeFolders parents folders).map (fun entry => (entry.1, "\\".intercalate entry.2))
  | [], _ => rfl
  | folder :: folders, h => by
    rw [treeFolders] at h ⊢
    rw [walkMailFolders, List.map_append,
      walkMailFolder_eq parents hparents folder (fun e he => h e (List.mem_append_left _ he)),
      walkMailFolders_eq parents hparents folders (fun e he => h e (List.mem_append_right _ he))]

theorem walkMailFolder_eq (parents : List String) (hparents : ∀ s ∈ parents, s ≠ "") :
    ∀ folder : MailFolder, (∀ entry ∈ treeFolder parents folder, ∀ s ∈ entry.2, s ≠ "") →
      walkMailFolder ("\\".intercalate parents) folder =
        (treeFolder parents folder).map (fun entry => (entry.1, "\\".intercalate entry.2))
  | .mk id displayName wellKnownName childFolders, h => by
    have htop : ("\\".intercalate parents = "") = (parents = []) :=
      propext (intercalate_eq_empty_iff hparents)
    rw [treeFolder] at h ⊢
    obtain ⟨hown, hbelow⟩ := List.forall_mem_cons.mp h
    have hchildren := walkMailFolders_eq _ hown childFolders hbelow
    rw [walkMailFolder, List.map_cons, ← hchildren]
    simp only [htop]
    rw [intercalate_concat hparents]
    simp only [htop]

end

/-- Among entries with distinct keys a key has the value of its entry. -/
theorem lookup_of_mem {entries : List (String × String)} (hd : (entries.map Prod.fst).Nodup)
    {key value : String} (h : (key, value) ∈ entries) : entries.lookup key = some value := by
  obtain ⟨before, after, rfl⟩ := List.append_of_mem h
  refine List.lookup_eq_some_iff.mpr ⟨before, after, rfl, fun entry hentry => ?_⟩
  rw [List.map_append, List.map_cons, List.nodup_append] at hd
  have hne := hd.2.2 entry.1 (List.mem_map_of_mem hentry) key List.mem_cons_self
  exact bne_iff_ne.mpr (Ne.symm hne)

/-- A folder of the tree gets the path joined from its segments. -/
theorem GraphMailFolder.path (f : GraphMailFolder) :
    mailFolderPath f.folders f.id = "\\".intercalate f.segments := by
  have hwalk := walkMailFolders_eq [] (by simp) f.folders f.nonempty
  rw [String.intercalate_nil] at hwalk
  have hids : ((walkMailFolders "" f.folders).map Prod.fst).Nodup := by
    rw [hwalk, List.map_map]
    exact f.ids_nodup
  have hmem : (f.id, "\\".intercalate f.segments) ∈ walkMailFolders "" f.folders := by
    rw [hwalk]
    exact List.mem_map_of_mem f.mem
  -- no id comes twice, so the last entry for it is the only one
  have hrev : ((walkMailFolders "" f.folders).reverse.map Prod.fst).Nodup := by
    rw [List.map_reverse, List.nodup_reverse]
    exact hids
  rw [mailFolderPath, lookup_of_mem hrev (List.mem_reverse.mpr hmem), Option.getD_some]

mutual

theorem treeFolders_segments_ne (parents : List String) : ∀ folders : List MailFolder,
    ∀ entry ∈ treeFolders parents folders, entry.2 ≠ []
  | [], _, h => absurd h List.not_mem_nil
  | folder :: folders, entry, h => by
    rw [treeFolders] at h
    rcases List.mem_append.mp h with h | h
    · exact treeFolder_segments_ne parents folder entry h
    · exact treeFolders_segments_ne parents folders entry h

theorem treeFolder_segments_ne (parents : List String) : ∀ folder : MailFolder,
    ∀ entry ∈ treeFolder parents folder, entry.2 ≠ []
  | .mk id displayName wellKnownName childFolders, entry, h => by
    rw [treeFolder] at h
    rcases List.mem_cons.mp h with rfl | h
    · simp
    · exact treeFolders_segments_ne _ childFolders entry h

end

theorem GraphMailFolder.segments_ne (f : GraphMailFolder) : f.segments ≠ [] :=
  treeFolders_segments_ne [] f.folders _ f.mem

/-- A source's folder reaches the writer with its segments exactly when these are plain. -/
theorem SourceFolder.kept_iff (f : SourceFolder) : f.Kept ↔ f.Plain := by
  cases f with
  | label f =>
    simp only [SourceFolder.Kept, SourceFolder.emitted, f.placement, List.map_singleton,
      List.cons.injEq, and_true]
    exact pathParts_join_iff f.segments_ne
  | mailbox f => exact f.kept_iff
  | mailFolder f =>
    simp only [SourceFolder.Kept, SourceFolder.emitted, f.path, List.map_singleton,
      List.cons.injEq, and_true]
    exact pathParts_join_iff f.segments_ne

/-- A source's folders reach the writer with their segments exactly when these are plain; then
folders with different segments have different paths. -/
theorem hierarchy_kept_iff (f : SourceFolder) :
    (f.Kept ↔ f.Plain) ∧
      ∀ f' : SourceFolder, f.Plain → f'.Plain → f.segments ≠ f'.segments →
        f.emitted ≠ f'.emitted := by
  refine ⟨f.kept_iff, fun f' hf hf' hne heq => hne ?_⟩
  have hsame : [f.segments] = [f'.segments] := by
    calc [f.segments] = f.emitted.map pathParts := (f.kept_iff.mpr hf).symm
      _ = f'.emitted.map pathParts := by rw [heq]
      _ = [f'.segments] := f'.kept_iff.mpr hf'
  exact (List.cons.inj hsame).1

/-- A mailbox under another one, on a server that separates with dots. -/
def clientMailbox : ImapMailbox where
  flags := "\\Marked \\HasNoChildren"
  delim := some '.'
  segments := ["Clients", "Acme Ltd"]
  form := .quoted
  excludeFolders := ["Archive"]
  segments_ne := by decide
  nonempty := by decide
  unseparated := by simp
  flat := by simp
  delim_ascii := by simp
  flags_ascii := by simp
  flags_closed := by decide
  selectable := by decide
  included := by decide
  line := by simp [WireMailbox.name]
  atom := by simp
  notSpecial := by decide
  notHeuristic := by
    intro leaf hleaf
    obtain rfl := Option.some.inj hleaf
    decide

/-- A label with the same name, as Gmail has it. -/
def clientLabel : LabelFolder where
  labelId := "Label_7"
  labelMap := (∅ : AList (fun _ : String => String)).insert "Label_7" "Clients.Acme Ltd"
  policy := .duplicate
  segments := ["Clients.Acme Ltd"]
  segments_ne := by decide
  nonempty := by decide
  unseparated := by decide
  named := by decide
  notSystem := by decide
  notCategory := by decide

/-- The mailbox keeps its two segments, and the label its one. -/
theorem clientFolders_kept :
    (SourceFolder.mailbox clientMailbox).Kept ∧ (SourceFolder.label clientLabel).Kept ∧
      (SourceFolder.mailbox clientMailbox).emitted ≠ (SourceFolder.label clientLabel).emitted := by
  have hmailbox : (SourceFolder.mailbox clientMailbox).Plain := by
    refine ⟨by simp [clientMailbox, isQuotedSpecial], by decide, by decide, fun h => ?_⟩
    cases h
  have hlabel : (SourceFolder.label clientLabel).Plain := by
    intro s hs
    obtain rfl := List.mem_singleton.mp hs
    decide
  exact ⟨(hierarchy_kept_iff _).1.mpr hmailbox, (hierarchy_kept_iff _).1.mpr hlabel,
    (hierarchy_kept_iff _).2 _ hmailbox hlabel (by decide)⟩

/-- A label whose one segment has a backslash in it. -/
def backslashLabel : LabelFolder where
  labelId := "Label_1"
  labelMap := (∅ : AList (fun _ : String => String)).insert "Label_1" "AC\\DC"
  policy := .categories
  segments := ["AC\\DC"]
  segments_ne := by decide
  nonempty := by decide
  unseparated := by decide
  named := by decide
  notSystem := by decide
  notCategory := by decide

/-- It becomes two folders. -/
theorem backslash_segment_split : ¬ ∀ f : SourceFolder, f.Kept := by
  intro h
  have hkept := h (.label backslashLabel)
  unfold SourceFolder.Kept at hkept
  exact absurd hkept (by decide)

end GwsMigrator
