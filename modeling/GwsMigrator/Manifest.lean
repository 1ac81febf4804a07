import GwsMigrator.Csv
import GwsMigrator.DriveInventory
import GwsMigrator.ExitStatus

/-! `whatif.py` and the command `whatif`: the dry runs of all users, in the threads of a pool for
each workload, write the rows of one manifest. -/
namespace GwsMigrator.Manifest
open Dialogue Interleavings DriveInventory

/-- `CSV_COLUMNS`. -/
def csvColumns : List String :=
  ["timestamp", "source_user", "dest_user", "workload", "source_id", "source_path", "name",
    "size_bytes", "mime_type", "modified_time", "action", "notes"]

/-- The arguments of `add`. A size is here as it is printed. -/
structure ManifestEntry where
  sourceUser : String
  destUser : String
  workload : String
  sourceId : String
  sourcePath : String := ""
  name : String := ""
  sizeBytes : String := ""
  mimeType : String := ""
  modifiedTime : String := ""
  action : String := "migrate"
  notes : String := ""
deriving DecidableEq, Repr

/-- The dict `row` of `add`. -/
def ManifestEntry.row (e : ManifestEntry) (timestamp : String) : List (String × String) :=
  [("timestamp", timestamp), ("source_user", e.sourceUser), ("dest_user", e.destUser),
    ("workload", e.workload), ("source_id", e.sourceId), ("source_path", e.sourcePath),
    ("name", e.name), ("size_bytes", e.sizeBytes), ("mime_type", e.mimeType),
    ("modified_time", e.modifiedTime), ("action", e.action), ("notes", e.notes)]

/-- What `DictWriter` takes of a dict: the values of its columns. -/
def cellsOf (row : List (String × String)) : List String :=
  csvColumns.map (fun name => (row.lookup name).getD "")

/-- A manifest: what is in the file, and how many rows were added. -/
structure ManifestWriter where
  file : List Char
  count : ℕ := 0

def fileRow (cells : List String) : Csv.Row := cells.map String.toList

/-- A manifest that is opened has its header. -/
def ManifestWriter.opened : ManifestWriter := { file := Csv.writeRow (fileRow csvColumns) }

/-- `add`, which has the lock from the row to the count. -/
def ManifestWriter.add (w : ManifestWriter) (timestamp : String) (e : ManifestEntry) :
    ManifestWriter where
  file := w.file ++ Csv.writeRow (fileRow (cellsOf (e.row timestamp)))
  count := w.count + 1

/-- `csv.field_size_limit()`. -/
def fieldLimit : ℕ := 131072

/-- A manifest as `csv.DictReader` reads it. -/
def readManifest (file : List Char) : Csv.Table String :=
  let (rows, raised) := Csv.read fieldLimit file
  Csv.dictReader (rows.map (List.map String.ofList), raised)

/-! What the jobs add. -/

/-- `a or b`. -/
def orText (a b : String) : String := if a = "" then b else a

structure InventoryMessage extends SourceMessage where
  subject : String := ""
  sizeBytes : String := ""
  date : String := ""
  sender : String := ""

structure InventoryContact extends SourceContact where
  displayName : String := ""
  primaryEmail : String := ""

structure InventoryEvent extends SourceEvent where
  subject : String := ""
  modifiedTime : String := ""
  notes : String := ""

/-- The first folder of a message, and how many there are besides. -/
def placement (msg : InventoryMessage) : String × ℕ :=
  match msg.folderPaths with
  | [] => ("Inbox", 0)
  | primary :: more => (primary, more.length)

def mailNotes (msg : InventoryMessage) : List String :=
  let (primary, more) := placement msg
  (if 0 < more then ["folders: " ++ primary ++ "+" ++ toString more ++ " more"] else []) ++
    (if msg.categories ≠ [] then ["categories: " ++ ",".intercalate msg.categories] else []) ++
    (if msg.isRead then [] else ["unread"]) ++ (if msg.isFlagged then ["starred"] else [])

/-- A row of `_whatif_mail`. -/
def mailEntry (user : UserMapping) (msg : InventoryMessage) : ManifestEntry where
  sourceUser := user.sourceId
  destUser := user.destId
  workload := "mail"
  sourceId := msg.sourceId
  sourcePath := (placement msg).1
  name := orText msg.subject "(no subject)"
  sizeBytes := msg.sizeBytes
  modifiedTime := msg.date
  notes := orText ("; ".intercalate (mailNotes msg))
    (if msg.sender = "" then "" else "from=" ++ msg.sender)

/-- A row of `_whatif_contacts`. -/
def contactEntry (user : UserMapping) (contact : InventoryContact) : ManifestEntry where
  sourceUser := user.sourceId
  destUser := user.destId
  workload := "contacts"
  sourceId := contact.sourceId
  sourcePath := contact.folderName
  name := orText contact.displayName (orText contact.primaryEmail contact.sourceId)
  notes := if contact.primaryEmail = "" then "" else "email=" ++ contact.primaryEmail

/-- A row of `_whatif_calendar`. -/
def eventEntry (user : UserMapping) (cal : CalendarRef) (event : InventoryEvent) :
    ManifestEntry where
  sourceUser := user.sourceId
  destUser := user.destId
  workload := "calendar"
  sourceId := event.sourceId
  sourcePath := cal.name
  name := event.subject
  modifiedTime := event.modifiedTime
  action := if event.isCancelled then "skip" else "migrate"
  notes := if event.isCancelled then "cancelled" else event.notes

def actionText (f : ManifestFile) : String :=
  match f.action with
  | .createFolder => "create-folder"
  | .export => "export-as-" ++ String.ofList ((f.exportExt.getD "").toList.dropWhile (· = '.'))
  | .skip => "skip"
  | .migrate => "migrate"

/-- A row of `_whatif_files`. -/
def fileEntry (user : UserMapping) (f : ManifestFile) : ManifestEntry where
  sourceUser := user.sourceId
  destUser := user.destId
  workload := "files"
  sourceId := f.sourceId
  sourcePath := f.sourcePath
  name := f.name
  sizeBytes := f.size
  mimeType := f.mimeType
  modifiedTime := f.modifiedTime
  action := actionText f
  notes := f.notes

/-- What `_run_user` meets in a dry run: whether the source can be opened, and its inventories. -/
structure Inventories where
  opening : Option Exc := none
  contacts : Enumeration InventoryContact := { items := [] }
  calendars : Enumeration CalendarRef := { items := [] }
  events : CalendarRef → Enumeration InventoryEvent := fun _ => { items := [] }
  files : Enumeration ManifestFile := { items := [] }
  messages : Enumeration InventoryMessage := { items := [] }

/-- The loops of `_whatif_calendar`, which end at the first calendar that cannot be read. -/
def calendarEntries (user : UserMapping) (events : CalendarRef → Enumeration InventoryEvent)
    (raised : Option Exc) : List CalendarRef → List ManifestEntry × Option Exc
  | [] => ([], raised)
  | cal :: calendars =>
    let entries := (events cal).items.map (eventEntry user cal)
    match (events cal).raised with
    | some e => (entries, some e)
    | none =>
      let (more, raised) := calendarEntries user events raised calendars
      (entries ++ more, raised)

/-- The rows that a user's dry run of a workload adds, and what it raises. -/
def entriesOf (workload : Service) (user : UserMapping) (s : Inventories) :
    List ManifestEntry × Option Exc :=
  match s.opening with
  | some e => ([], some e)
  | none =>
    match workload with
    | .contacts => (s.contacts.items.map (contactEntry user), s.contacts.raised)
    | .calendar => calendarEntries user s.events s.calendars.raised s.calendars.items
    | .files => (s.files.items.map (fileEntry user), s.files.raised)
    | .mail => (s.messages.items.map (mailEntry user), s.messages.raised)

/-- What the threads ask of the manifest. -/
inductive ManifestRequest where
  | add (entry : ManifestEntry)

abbrev ManifestRequest.Ans : ManifestRequest → Type
  | .add _ => Unit

abbrev WhatifProgram := Program ManifestRequest.Ans

/-- The loop of a job. -/
def addEach (raised : Option Exc) : List ManifestEntry → WhatifProgram (Option Exc)
  | [] => pure raised
  | e :: entries => do
    Program.perform (.add e)
    addEach raised entries

/-- `clock n` is when the row number `n` was made. -/
def serveManifest (clock : ℕ → String) :
    (r : ManifestRequest) → Unit × ManifestWriter → r.Ans × Unit × ManifestWriter
  | .add e, (_, w) => ((), (), w.add (clock w.count) e)

/-- An invocation of `whatif`, with what every user's dry run of every workload meets. -/
structure Whatif where
  invocation : Invocation
  inventories : Service → ℕ → Inventories
  clock : ℕ → String

namespace Whatif

variable (wi : Whatif) (users : List UserMapping)

/-- The rows of the user number `i`. -/
def entries (workload : Service) (i : ℕ) : List ManifestEntry × Option Exc :=
  match users[i]? with
  | some user => entriesOf workload user (wi.inventories workload i)
  | none => ([], none)

def tasks (workload : Service) (i : ℕ) : Proc ManifestRequest.Ans Unit (Option Exc) where
  own := ()
  todo := addEach (wi.entries users workload i).2 (wi.entries users workload i).1

/-- `run_workload` in the mode `whatif`. The number of users that failed is not looked at. -/
def runWorkload (w : ManifestWriter) (workload : Service) : ManifestWriter :=
  (play (fun _ : ℕ => serveManifest wi.clock) (w, wi.tasks users workload)
    (wi.invocation.schedule workload)).1

/-- The manifest that the command leaves, or the status it exits with at once. -/
def run : Except ℕ ManifestWriter := do
  let users ← wi.invocation.filterUsers
  pure (wi.invocation.enabledWorkloads.foldl
    (wi.runWorkload (users.getD wi.invocation.config.users)) .opened)

end Whatif

/-! How a manifest is read. -/

/-- The columns but for the time of the row. -/
def itemColumns : List String := csvColumns.tail

def ManifestEntry.cells (e : ManifestEntry) : List (Option (Option String)) :=
  itemColumns.map (fun name => some (some (((e.row "").lookup name).getD "")))

/-- A row, with when it was made, as the reader has it. -/
def recordOf (r : String × ManifestEntry) : AList (fun _ : String => Option String) :=
  Csv.dictRow csvColumns (cellsOf (r.2.row r.1))

theorem lookup_recordOf (r : String × ManifestEntry) {name : String} (hname : name ∈ csvColumns) :
    (recordOf r).lookup name = some (some (((r.2.row r.1).lookup name).getD "")) := by
  obtain ⟨i, hi⟩ := List.mem_iff_getElem?.mp hname
  rw [recordOf, Csv.lookup_dictRow (by decide) _ hi, cellsOf, List.getElem?_map, hi]
  rfl

/-- A record has the cells of its entry. -/
theorem cells_recordOf (r : String × ManifestEntry) :
    itemColumns.map (recordOf r).lookup = r.2.cells := by
  rw [ManifestEntry.cells]
  refine List.map_congr_left (fun name hname => ?_)
  rw [lookup_recordOf r (List.mem_of_mem_tail hname)]
  have hne : ("timestamp" == name) = false := by
    revert hname
    revert name
    decide
  have hne' : (name == "timestamp") = false := by
    rw [beq_eq_false_iff_ne] at hne ⊢
    exact hne.symm
  simp only [ManifestEntry.row, List.lookup_cons, hne']

/-- The file of a manifest with so many rows. -/
structure Holds (w : ManifestWriter) (rows : List (String × ManifestEntry)) : Prop where
  file : w.file =
    Csv.write (fileRow csvColumns :: rows.map (fun r => fileRow (cellsOf (r.2.row r.1))))
  count : w.count = rows.length

theorem holds_opened : Holds .opened [] := by
  refine ⟨?_, rfl⟩
  simp [ManifestWriter.opened, Csv.write]

theorem Holds.add {w : ManifestWriter} {rows : List (String × ManifestEntry)} (h : Holds w rows)
    (timestamp : String) (e : ManifestEntry) :
    Holds (w.add timestamp e) (rows ++ [(timestamp, e)]) := by
  constructor
  · simp [ManifestWriter.add, h.file, Csv.write]
  · simp [ManifestWriter.add, h.count]

/-- A row that the reader takes: none of its cells is too long. -/
def Fits (r : String × ManifestEntry) : Prop :=
  ∀ cell ∈ cellsOf (r.2.row r.1), cell.toList.length ≤ fieldLimit

theorem Fits.fields {r : String × ManifestEntry} (h : Fits r) :
    ∀ field ∈ fileRow (cellsOf (r.2.row r.1)), field.length ≤ fieldLimit := by
  intro field hfield
  obtain ⟨cell, hcell, rfl⟩ := List.mem_map.mp hfield
  exact h cell hcell

theorem ofList_fileRow (cells : List String) : (fileRow cells).map String.ofList = cells := by
  simp [fileRow, Function.comp_def]

/-- All rows of a manifest are read, wherever the next one breaks off. -/
theorem Holds.read {w : ManifestWriter} {rows : List (String × ManifestEntry)} (h : Holds w rows)
    (hfits : ∀ r ∈ rows, Fits r) {next : String × ManifestEntry} (hnext : Fits next)
    {text : List Char} (hcut : text <+: Csv.writeRow (fileRow (cellsOf (next.2.row next.1)))) :
    ∃ tail, tail.length ≤ 1 ∧
      readManifest (w.file ++ text) = ⟨some csvColumns, rows.map recordOf ++ tail, none⟩ := by
  have hall : ∀ row ∈ fileRow csvColumns :: rows.map (fun r => fileRow (cellsOf (r.2.row r.1))),
      ∀ field ∈ row, field.length ≤ fieldLimit := by
    intro row hrow
    rcases List.mem_cons.mp hrow with rfl | hrow
    · decide
    · obtain ⟨r, hr, rfl⟩ := List.mem_map.mp hrow
      exact (hfits r hr).fields
  obtain ⟨tail, htail, hread⟩ := Csv.read_cut hall hnext.fields hcut
  refine ⟨((tail.map (List.map String.ofList)).filter (· ≠ [])).map (Csv.dictRow csvColumns),
    ?_, ?_⟩
  · rw [List.length_map]
    exact (List.length_filter_le _ _).trans (by rwa [List.length_map])
  · rw [readManifest, h.file, hread]
    have hrows : (rows.map (fun r => fileRow (cellsOf (r.2.row r.1)))).map
        (List.map String.ofList) = rows.map (fun r => cellsOf (r.2.row r.1)) := by
      rw [List.map_map]
      exact List.map_congr_left (fun r _ => ofList_fileRow _)
    have hne : ∀ row ∈ rows.map (fun r => cellsOf (r.2.row r.1)), decide (row ≠ []) = true := by
      intro row hrow
      obtain ⟨r, -, rfl⟩ := List.mem_map.mp hrow
      exact decide_eq_true (by simp [cellsOf, csvColumns])
    simp only [List.cons_append, List.map_cons, List.map_append, ofList_fileRow, hrows,
      Csv.dictReader, List.filter_append, List.filter_eq_self.mpr hne]
    rw [List.map_map]
    rfl

/-! What the threads have added. -/

section moves
variable (clock : ℕ → String) (w : ManifestWriter)
  (procs : ℕ → Proc ManifestRequest.Ans Unit (Option Exc)) {j : ℕ} {raised : Option Exc}

theorem move_ended (hproc : (procs j).todo = addEach raised []) :
    move (fun _ : ℕ => serveManifest clock) (w, procs) j = (w, procs) := by
  have hnext : next (serveManifest clock) (w, procs j) = (w, procs j) := by
    rw [show procs j = ⟨(), addEach raised []⟩ from congrArg (Proc.mk ()) hproc]
    rfl
  rw [move, hnext, Function.update_eq_self]

theorem move_adds {e : ManifestEntry} {rest : List ManifestEntry}
    (hproc : (procs j).todo = addEach raised (e :: rest)) :
    move (fun _ : ℕ => serveManifest clock) (w, procs) j =
      (w.add (clock w.count) e, Function.update procs j ⟨(), addEach raised rest⟩) := by
  have hnext : next (serveManifest clock) (w, procs j) =
      (w.add (clock w.count) e, ⟨(), addEach raised rest⟩) := by
    rw [show procs j = ⟨(), addEach raised (e :: rest)⟩ from congrArg (Proc.mk ()) hproc]
    rfl
  rw [move, hnext]

end moves

/-- Programs that only add rows, moved in any order, add of their rows as many as they are moved,
each in its order. -/
theorem play_adds (clock : ℕ → String) (schedule : List ℕ) {w : ManifestWriter}
    {rows : List (String × ManifestEntry)} (h : Holds w rows)
    (procs : ℕ → Proc ManifestRequest.Ans Unit (Option Exc)) (raised : ℕ → Option Exc)
    (entries : ℕ → List ManifestEntry)
    (hprocs : ∀ i, (procs i).todo = addEach (raised i) (entries i)) :
    ∃ added : List (ℕ × String × ManifestEntry),
      Holds (play (fun _ : ℕ => serveManifest clock) (w, procs) schedule).1
        (rows ++ added.map Prod.snd) ∧ (∀ r ∈ added, ∃ n, r.2.1 = clock n) ∧
      ∀ i, (added.filter (fun r => r.1 = i)).map (fun r => r.2.2) =
        (entries i).take (schedule.count i) := by
  induction schedule generalizing w rows procs entries with
  | nil => exact ⟨[], by simpa [play] using h, by simp, by simp⟩
  | cons j schedule ih =>
    have htodo := hprocs j
    rw [play, List.foldl_cons]
    cases hentries : entries j with
    | nil =>
      rw [hentries] at htodo
      rw [move_ended clock w procs htodo]
      obtain ⟨added, hholds, htimes, hadded⟩ := ih h procs entries hprocs
      refine ⟨added, hholds, htimes, fun i => ?_⟩
      rw [hadded i]
      by_cases hij : i = j
      · subst hij
        rw [hentries, List.take_nil, List.take_nil]
      · rw [List.count_cons_of_ne (Ne.symm hij)]
    | cons e rest =>
      rw [hentries] at htodo
      rw [move_adds clock w procs htodo]
      have hrest : ∀ i, (Function.update procs j ⟨(), addEach (raised j) rest⟩ i).todo =
          addEach (raised i) (Function.update entries j rest i) := by
        intro i
        by_cases hij : i = j
        · subst hij
          simp
        · rw [Function.update_of_ne hij, Function.update_of_ne hij, hprocs i]
      obtain ⟨added, hholds, htimes, hadded⟩ := ih (h.add (clock w.count) e) _ _ hrest
      refine ⟨(j, clock w.count, e) :: added, ?_, ?_, fun i => ?_⟩
      · rw [List.append_assoc] at hholds
        exact hholds
      · exact List.forall_mem_cons.mpr ⟨⟨w.count, rfl⟩, htimes⟩
      · by_cases hij : i = j
        · subst hij
          rw [List.filter_cons_of_pos (by simp), List.map_cons, hadded i, Function.update_self,
            hentries, List.count_cons_self, List.take_succ_cons]
        · rw [List.filter_cons_of_neg (by simpa using Ne.symm hij), hadded i,
            Function.update_of_ne hij, List.count_cons_of_ne (Ne.symm hij)]

/-- The name of a workload in the manifest. -/
def workloadName : Service → String
  | .contacts => "contacts"
  | .calendar => "calendar"
  | .files => "files"
  | .mail => "mail"

theorem workloadName_injective : Function.Injective workloadName := by
  intro a b
  cases a <;> cases b <;> simp [workloadName]

theorem calendarEntries_of {user : UserMapping} {events : CalendarRef → Enumeration InventoryEvent}
    {raised : Option Exc} (calendars : List CalendarRef) {e : ManifestEntry}
    (he : e ∈ (calendarEntries user events raised calendars).1) :
    e.sourceUser = user.sourceId ∧ e.workload = "calendar" := by
  induction calendars with
  | nil => cases he
  | cons cal calendars ih =>
    rw [calendarEntries] at he
    have hfirst : e ∈ (events cal).items.map (eventEntry user cal) →
        e.sourceUser = user.sourceId ∧ e.workload = "calendar" := by
      intro hmem
      obtain ⟨event, -, rfl⟩ := List.mem_map.mp hmem
      exact ⟨rfl, rfl⟩
    cases hraised : (events cal).raised with
    | some exc =>
      rw [hraised] at he
      exact hfirst he
    | none =>
      rw [hraised] at he
      exact (List.mem_append.mp he).elim hfirst ih

/-- The rows of a dry run say of whom and of what they are. -/
theorem entriesOf_of {workload : Service} {user : UserMapping} {s : Inventories}
    {e : ManifestEntry} (he : e ∈ (entriesOf workload user s).1) :
    e.sourceUser = user.sourceId ∧ e.workload = workloadName workload := by
  unfold entriesOf at he
  cases hopening : s.opening with
  | some exc =>
    rw [hopening] at he
    cases he
  | none =>
    rw [hopening] at he
    cases workload with
    | calendar => exact calendarEntries_of _ he
    | contacts | files | mail =>
      obtain ⟨item, -, rfl⟩ := List.mem_map.mp he
      exact ⟨rfl, rfl⟩

namespace Whatif

variable (wi : Whatif) (users : List UserMapping)

theorem entries_of {workload : Service} {i : ℕ} {e : ManifestEntry}
    (he : e ∈ (wi.entries users workload i).1) :
    ∃ user, users[i]? = some user ∧ e.sourceUser = user.sourceId ∧
      e.workload = workloadName workload := by
  unfold entries at he
  cases huser : users[i]? with
  | none =>
    rw [huser] at he
    cases he
  | some user =>
    rw [huser] at he
    exact ⟨user, rfl, entriesOf_of he⟩

/-- What a workload's pool has added is labelled with the workload. -/
def labelled (workload : Service) (added : List (ℕ × String × ManifestEntry)) :
    List ((Service × ℕ) × String × ManifestEntry) :=
  added.map (fun r => ((workload, r.1), r.2))

theorem filter_labelled (workload workload' : Service) (i : ℕ)
    (added : List (ℕ × String × ManifestEntry)) :
    (labelled workload added).filter (fun r => r.1 = (workload', i)) =
      if workload = workload' then labelled workload (added.filter (fun r => r.1 = i)) else [] := by
  rw [labelled, List.filter_map]
  split
  · subst workload'
    rw [labelled]
    congr 1
    refine List.filter_congr (fun r _ => ?_)
    simp
  · rename_i hne
    rw [List.map_eq_nil_iff, List.filter_eq_nil_iff]
    simp [hne]

/-- The pools of different workloads, one after the other. -/
theorem pools_add (workloads : List Service) (hworkloads : workloads.Nodup) {w : ManifestWriter}
    {rows : List (String × ManifestEntry)} (h : Holds w rows) :
    ∃ added : List ((Service × ℕ) × String × ManifestEntry),
      Holds (workloads.foldl (wi.runWorkload users) w) (rows ++ added.map Prod.snd) ∧
      (∀ r ∈ added, (∃ n, r.2.1 = wi.clock n) ∧ r.1.1 ∈ workloads) ∧
      ∀ workload ∈ workloads, ∀ i,
        (added.filter (fun r => r.1 = (workload, i))).map (fun r => r.2.2) =
          (wi.entries users workload i).1.take ((wi.invocation.schedule workload).count i) := by
  induction workloads generalizing w rows with
  | nil => exact ⟨[], by simpa using h, by simp, by simp⟩
  | cons first workloads ih =>
    obtain ⟨hfirst, hnodup⟩ := List.nodup_cons.mp hworkloads
    obtain ⟨pool, hpool, htimes, hcounts⟩ := play_adds wi.clock (wi.invocation.schedule first) h
      (wi.tasks users first) _ _ (fun i => rfl)
    obtain ⟨added, hadded, hlabels, hrest⟩ := ih hnodup hpool
    refine ⟨labelled first pool ++ added, ?_, ?_, fun workload hworkload i => ?_⟩
    · rw [List.append_assoc] at hadded
      rw [List.foldl_cons, List.map_append, labelled, List.map_map]
      exact hadded
    · intro r hr
      rcases List.mem_append.mp hr with hr | hr
      · obtain ⟨row, hrow, rfl⟩ := List.mem_map.mp hr
        exact ⟨htimes row hrow, List.mem_cons_self⟩
      · exact ⟨(hlabels r hr).1, List.mem_cons_of_mem _ (hlabels r hr).2⟩
    · rw [List.filter_append, List.map_append, filter_labelled]
      rcases List.mem_cons.mp hworkload with rfl | hmem
      · have hnone : added.filter (fun r => r.1 = (workload, i)) = [] := by
          rw [List.filter_eq_nil_iff]
          intro r hr hlabel
          have hin := (hlabels r hr).2
          rw [of_decide_eq_true hlabel] at hin
          exact hfirst hin
        rw [if_pos rfl, hnone, List.map_nil, List.append_nil, labelled, List.map_map]
        exact hcounts i
      · have hne : first ≠ workload := by
          rintro rfl
          exact hfirst hmem
        rw [if_neg hne, List.map_nil, List.nil_append]
        exact hrest workload hmem i

theorem nodup_enabledWorkloads : wi.invocation.enabledWorkloads.Nodup :=
  List.Nodup.filter _ (by decide : workloadOrder.Nodup)

end Whatif

/-- A record of a user and a workload. -/
def isOf (user : UserMapping) (workload : Service)
    (record : AList (fun _ : String => Option String)) : Bool :=
  record.lookup "source_user" = some (some user.sourceId) ∧
    record.lookup "workload" = some (some (workloadName workload))

theorem isOf_recordOf (user : UserMapping) (workload : Service) (r : String × ManifestEntry) :
    isOf user workload (recordOf r) = true ↔
      r.2.sourceUser = user.sourceId ∧ r.2.workload = workloadName workload := by
  rw [isOf, decide_eq_true_eq, lookup_recordOf r (by decide), lookup_recordOf r (by decide)]
  simp only [Option.some_inj]
  exact Iff.rfl

/-- Whatever the order in which the threads add their rows, and wherever the last row breaks off
when the dry run is stopped, the manifest is read as the rows that were added: of each user and
workload those that the source has yielded so far, in its order, and none else. -/
theorem manifest_reads_back (wi : Whatif) {users : Option (List UserMapping)}
    (hplan : wi.invocation.filterUsers = .ok users)
    (hids : ((users.getD wi.invocation.config.users).map UserMapping.sourceId).Nodup)
    (hfits : ∀ workload i,
      ∀ e ∈ (wi.entries (users.getD wi.invocation.config.users) workload i).1,
        ∀ n, Fits (wi.clock n, e))
    {next : String × ManifestEntry} (hnext : Fits next) {text : List Char}
    (hcut : text <+: Csv.writeRow (fileRow (cellsOf (next.2.row next.1)))) :
    let targets := users.getD wi.invocation.config.users
    let workloads := wi.invocation.enabledWorkloads
    ∃ w records tail, wi.run = .ok w ∧
      readManifest (w.file ++ text) = ⟨some csvColumns, records ++ tail, none⟩ ∧
      records.length = w.count ∧ tail.length ≤ 1 ∧
      (∀ record ∈ records, ∃ workload ∈ workloads, ∃ user ∈ targets,
        isOf user workload record = true) ∧
      ∀ workload ∈ workloads, ∀ i user, targets[i]? = some user →
        (records.filter (isOf user workload)).map (fun record => itemColumns.map record.lookup) =
          ((wi.entries targets workload i).1.take
            ((wi.invocation.schedule workload).count i)).map ManifestEntry.cells := by
  intro targets workloads
  obtain ⟨added, hadded, hlabels, hcounts⟩ :=
    wi.pools_add targets workloads wi.nodup_enabledWorkloads holds_opened
  rw [List.nil_append] at hadded
  have hrun : wi.run = .ok (workloads.foldl (wi.runWorkload targets) .opened) := by
    rw [Whatif.run, hplan]
    rfl
  -- the label of a row is that of the user and the workload that it names
  have hentry : ∀ r ∈ added, r.2.2 ∈ (wi.entries targets r.1.1 r.1.2).1 := by
    intro r hr
    have hmem : r.2.2 ∈ (added.filter (fun r' => r'.1 = (r.1.1, r.1.2))).map (fun r => r.2.2) :=
      List.mem_map_of_mem (List.mem_filter.mpr ⟨hr, by simp⟩)
    rw [hcounts r.1.1 (hlabels r hr).2 r.1.2] at hmem
    exact List.mem_of_mem_take hmem
  have hfit : ∀ r ∈ added.map Prod.snd, Fits r := by
    intro r hr
    obtain ⟨labelled, hlabelled, rfl⟩ := List.mem_map.mp hr
    obtain ⟨n, hn⟩ := (hlabels labelled hlabelled).1
    have hrow := hfits _ _ _ (hentry labelled hlabelled) n
    rwa [← hn] at hrow
  obtain ⟨tail, htail, hread⟩ := hadded.read hfit hnext hcut
  refine ⟨_, (added.map Prod.snd).map recordOf, tail, hrun, hread, ?_, htail, ?_, ?_⟩
  · rw [List.length_map, hadded.count]
  · intro record hrecord
    obtain ⟨r, hr, rfl⟩ := List.mem_map.mp hrecord
    obtain ⟨labelled, hlabelled, rfl⟩ := List.mem_map.mp hr
    obtain ⟨user, huser, hof⟩ := wi.entries_of targets (hentry labelled hlabelled)
    exact ⟨labelled.1.1, (hlabels labelled hlabelled).2, user, List.mem_of_getElem? huser,
      (isOf_recordOf user _ _).mpr hof⟩
  · intro workload hworkload i user huser
    rw [← hcounts workload hworkload i, List.map_map, List.filter_map, List.map_map, List.map_map]
    have hsame : added.filter (isOf user workload ∘ recordOf ∘ Prod.snd) =
        added.filter (fun r => r.1 = (workload, i)) := by
      refine List.filter_congr (fun r hr => ?_)
      rw [Bool.eq_iff_iff, decide_eq_true_eq]
      obtain ⟨user', huser', hsource, hname⟩ := wi.entries_of targets (hentry r hr)
      rw [Function.comp_apply, Function.comp_apply, isOf_recordOf, hsource, hname]
      constructor
      · rintro ⟨hid, hworkloads⟩
        have hlt : r.1.2 < (targets.map UserMapping.sourceId).length := by
          rw [List.length_map]
          exact (List.getElem?_eq_some_iff.mp huser').1
        have hindex : r.1.2 = i := by
          rw [← List.getElem?_inj hlt hids, List.getElem?_map, List.getElem?_map, huser', huser]
          exact congrArg some hid
        exact Prod.ext (workloadName_injective hworkloads) hindex
      · intro hlabel
        rw [hlabel] at huser' ⊢
        obtain rfl := Option.some.inj (huser'.symm.trans huser)
        exact ⟨rfl, rfl⟩
    rw [hsame]
    exact List.map_congr_left (fun r _ => cells_recordOf r.2)

/-! Two users with a message each, the second one of whom is interrupted. -/

def quotedMessage : InventoryMessage where
  sourceId := "1"
  subject := "Re: \"a\", b\r\nc"

def plainMessage : InventoryMessage := { sourceId := "2", subject := "d" }

def twoInboxes : Whatif where
  invocation :=
    { config := { sourceType := .imap, users := [⟨"a@source", "a@dest"⟩, ⟨"b@source", "b@dest"⟩] }
      command := .runAll
      surroundings := fun _ _ =>
        { graph := calmGraph
          remap := .ok
          contacts := fun _ => { items := [] }
          calendars := { items := [] }
          events := fun _ _ => { items := [] }
          files := fun _ => { items := [] }
          messages := fun _ => { items := [] } }
      schedule := fun _ => [1, 0] }
  inventories _ i :=
    match i with
    | 0 => { messages := { items := [quotedMessage] } }
    | _ => { messages := { items := [plainMessage, plainMessage] } }
  clock _ := "2024-01-01T00:00:00+00:00"

theorem twoInboxes_fits (workload : Service) (i : ℕ) :
    ∀ e ∈ (twoInboxes.entries twoInboxes.invocation.config.users workload i).1,
      ∀ n, Fits (twoInboxes.clock n, e) := by
  intro e he n
  have hfits : (∀ cell ∈ cellsOf (e.row "2024-01-01T00:00:00+00:00"),
      cell.toList.length ≤ fieldLimit) → Fits (twoInboxes.clock n, e) := id
  match i with
  | 0 =>
    cases workload with
    | mail =>
      obtain rfl := List.mem_singleton.mp he
      exact hfits (by decide)
    | contacts | calendar | files => cases he
  | 1 =>
    cases workload with
    | mail =>
      obtain rfl : e = mailEntry ⟨"b@source", "b@dest"⟩ plainMessage := by
        rcases List.mem_cons.mp he with h | h
        · exact h
        · exact List.mem_singleton.mp h
      exact hfits (by decide)
    | contacts | calendar | files => cases he
  | i + 2 => cases he

/-- A name with a quote, a comma and the end of a line in it is read as it is. -/
theorem manifest_reads_back_quoted :
    ∃ w records tail, twoInboxes.run = .ok w ∧
      readManifest (w.file ++ ['2', '0', '2', '4']) = ⟨some csvColumns, records ++ tail, none⟩ ∧
      records.length = w.count ∧
      (records.filter (isOf ⟨"a@source", "a@dest"⟩ .mail)).map
          (fun record => itemColumns.map record.lookup) =
        [(mailEntry ⟨"a@source", "a@dest"⟩ quotedMessage).cells] := by
  have hids : ((Option.getD none twoInboxes.invocation.config.users).map
      UserMapping.sourceId).Nodup := by decide
  have hnext : Fits (twoInboxes.clock 2, mailEntry ⟨"b@source", "b@dest"⟩ plainMessage) := by
    unfold Fits
    decide
  obtain ⟨w, records, tail, hrun, hread, hcount, -, -, hrows⟩ :=
    manifest_reads_back twoInboxes rfl hids twoInboxes_fits hnext
      (show ['2', '0', '2', '4'] <+: _ by decide)
  exact ⟨w, records, tail, hrun, hread, hcount, hrows .mail (by decide) 0 _ rfl⟩

end GwsMigrator.Manifest
