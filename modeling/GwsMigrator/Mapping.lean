import GwsMigrator.Csv
import GwsMigrator.TextEdits

/-! `configgen.parse_mapping_csv`: the users of a mapping that is written as a CSV file. -/
namespace GwsMigrator.Mapping
open TextEdits (strip isSpace)

/-- The keys of a user's mapping. -/
inductive Field where
  | sourceId
  | destId
  | imapUser
  | imapPasswordEnv
deriving DecidableEq, Repr

/-- `_CSV_ALIASES`. -/
def csvAliases : List (String × Field) :=
  [("source_id", .sourceId), ("source", .sourceId), ("from", .sourceId), ("dest_id", .destId),
    ("dest", .destId), ("destination", .destId), ("to", .destId), ("imap_user", .imapUser),
    ("imap_password_env", .imapPasswordEnv)]

/-- `text.strip()`. -/
def stripped (text : String) : String := String.ofList (strip isSpace text.toList)

/-- The dict of a user. -/
abbrev Entry := Field → Option String

def Entry.empty : Entry := fun _ => none

def Entry.isEmpty (entry : Entry) : Bool :=
  [Field.sourceId, .destId, .imapUser, .imapPasswordEnv].all (fun field => (entry field).isNone)

inductive MappingError where
  | notFound
  | empty
  | missingColumns (found : List String)
  | incomplete (lineno : ℕ)
  | noUsers
  | csv (failed : Csv.Failed)
deriving DecidableEq, Repr

/-- The text of a `ConfigGenError`. The reader's own errors are raised as they are. -/
def MappingError.text (path : String) (repr : List String → String) : MappingError → Option String
  | .notFound => some ("Mapping CSV '" ++ path ++ "' not found.")
  | .empty => some ("Mapping CSV '" ++ path ++ "' is empty.")
  | .missingColumns found =>
    some ("Mapping CSV '" ++ path ++ "' must have 'source_id' and 'dest_id' columns (found: " ++
      repr found ++ ").")
  | .incomplete lineno =>
    some ("Mapping CSV '" ++ path ++ "' line " ++ toString lineno ++
      ": both source_id and dest_id required.")
  | .noUsers => some ("Mapping CSV '" ++ path ++ "' contained no user rows.")
  | .csv _ => none

/-- `csv.field_size_limit()`. -/
def fieldLimit : ℕ := 131072

/-- The encoding `utf-8-sig`: a mark at the start is no part of the text. -/
def withoutMark : List Char → List Char
  | '\uFEFF' :: text => text
  | text => text

section
variable (lower : String → String)

/-- The field that a header stands for, with Python's `lower`. -/
def fieldOf (raw : String) : Option Field := csvAliases.lookup (lower (stripped raw))

def headerMap (fieldnames : List String) : List (String × Field) :=
  fieldnames.eraseDups.filterMap (fun raw => (fieldOf lower raw).map (fun field => (raw, field)))

/-- A cell of the row goes into the entry if there is something in it. -/
def addCell (row : AList (fun _ : String => Option String)) (entry : Entry)
    (column : String × Field) : Entry :=
  let val := stripped (((row.lookup column.1).join).getD "")
  if val = "" then entry else Function.update entry column.2 (some val)

def entryOf (header : List (String × Field)) (row : AList (fun _ : String => Option String)) :
    Entry :=
  header.foldl (addCell row) .empty

/-- The loop over the rows. A row that says nothing is passed over. -/
def parseRows (header : List (String × Field)) (raised : Option Csv.Failed) :
    ℕ → List (AList (fun _ : String => Option String)) → Except MappingError (List Entry)
  | _, [] =>
    match raised with
    | some failed => .error (.csv failed)
    | none => .ok []
  | lineno, row :: rows =>
    let entry := entryOf header row
    if entry.isEmpty then parseRows header raised (lineno + 1) rows
    else if entry .sourceId = none ∨ entry .destId = none then .error (.incomplete lineno)
    else (parseRows header raised (lineno + 1) rows).map (entry :: ·)

/-- `parse_mapping_csv`, from the file if there is one. -/
def parseMappingCsv (file : Option (List Char)) : Except MappingError (List Entry) :=
  match file with
  | none => .error .notFound
  | some file =>
    let (rows, raised) := Csv.read fieldLimit (withoutMark file)
    let reader := Csv.dictReader (rows.map (List.map String.ofList), raised)
    match reader.fieldnames with
    | none =>
      match raised with
      | some failed => .error (.csv failed)
      | none => .error .empty
    | some fieldnames =>
      let header := headerMap lower fieldnames
      if .sourceId ∉ header.map Prod.snd ∨ .destId ∉ header.map Prod.snd then
        .error (.missingColumns fieldnames)
      else
        match parseRows header reader.raised 2 reader.records with
        | .error e => .error e
        | .ok [] => .error .noUsers
        | .ok (user :: users) => .ok (user :: users)

/-! What a mapping says. -/

/-- The header names no column twice, and no two columns for one field. -/
structure Columns (names : List String) : Prop where
  nodup : names.Nodup
  one : ∀ a ∈ names, ∀ b ∈ names, ∀ field, fieldOf lower a = some field →
    fieldOf lower b = some field → a = b

/-- What a row has for a field: the text in the column of the field, unless it is blank. -/
def Fills (names row : List String) (entry : Entry) : Prop :=
  ∀ field value, entry field = some value ↔ value ≠ "" ∧
    ∃ (i : ℕ) (name : String), names[i]? = some name ∧ fieldOf lower name = some field ∧
      stripped (row[i]?.getD "") = value

/-- The users that the rows of a mapping name, one a row, with rows between them that are blank in
all columns of a mapping. -/
inductive Names (names : List String) : List (List String) → List Entry → Prop
  | nil : Names names [] []
  | blank {row rows users} (fills : Fills lower names row .empty) (rest : Names names rows users) :
      Names names (row :: rows) users
  | user {row rows users} {entry : Entry} (fills : Fills lower names row entry)
      (source : (entry .sourceId).isSome) (dest : (entry .destId).isSome)
      (rest : Names names rows users) : Names names (row :: rows) (entry :: users)

variable {lower}

theorem isEmpty_iff {entry : Entry} : entry.isEmpty = true ↔ entry = .empty := by
  constructor
  · intro h
    have hall : ∀ field, entry field = none := by
      intro field
      simp only [Entry.isEmpty, List.all_cons, List.all_nil, Bool.and_true, Bool.and_eq_true,
        Option.isNone_iff_eq_none] at h
      cases field
      · exact h.1
      · exact h.2.1
      · exact h.2.2.1
      · exact h.2.2.2
    exact funext hall
  · rintro rfl
    rfl

/-- What the columns give is found by the field of each. -/
theorem foldl_addCell {row : AList (fun _ : String => Option String)}
    (header : List (String × Field)) (hfields : (header.map Prod.snd).Nodup) (entry : Entry)
    (field : Field) :
    (header.foldl (addCell row) entry) field =
      match header.find? (fun column => column.2 = field) with
      | none => entry field
      | some column =>
        let val := stripped (((row.lookup column.1).join).getD "")
        if val = "" then entry field else some val := by
  induction header generalizing entry with
  | nil => rfl
  | cons column header ih =>
    obtain ⟨hcolumn, hrest⟩ := List.nodup_cons.mp hfields
    rw [List.foldl_cons, ih hrest, List.find?_cons]
    by_cases hfield : column.2 = field
    · have hnone : header.find? (fun c => c.2 = field) = none := by
        rw [List.find?_eq_none]
        intro c hc hsame
        refine hcolumn (List.mem_map.mpr ⟨c, hc, ?_⟩)
        rw [hfield]
        exact of_decide_eq_true hsame
      rw [hnone, decide_eq_true hfield]
      simp only [addCell]
      split
      · rfl
      · rw [← hfield, Function.update_self]
    · have hother : addCell row entry column field = entry field := by
        simp only [addCell]
        split
        · rfl
        · rw [Function.update_of_ne (Ne.symm hfield)]
      rw [decide_eq_false hfield]
      cases header.find? (fun c => c.2 = field) with
      | none => exact hother
      | some c => simp only [hother]

theorem mem_headerMap {names : List String} {column : String × Field} :
    column ∈ headerMap lower names ↔ column.1 ∈ names ∧ fieldOf lower column.1 = some column.2 := by
  rw [headerMap, List.mem_filterMap]
  constructor
  · rintro ⟨raw, hraw, hcolumn⟩
    obtain ⟨field, hfield, rfl⟩ := Option.map_eq_some_iff.mp hcolumn
    exact ⟨List.mem_eraseDups.mp hraw, hfield⟩
  · rintro ⟨hmem, hfield⟩
    exact ⟨column.1, List.mem_eraseDups.mpr hmem, by rw [hfield]; rfl⟩

theorem eraseDups_of_nodup {names : List String} (h : names.Nodup) : names.eraseDups = names := by
  induction names with
  | nil => rfl
  | cons name names ih =>
    obtain ⟨hname, hrest⟩ := List.nodup_cons.mp h
    have hkeep : names.filter (fun b => !b == name) = names := by
      refine List.filter_eq_self.mpr (fun b hb => ?_)
      simp only [Bool.not_eq_true', beq_eq_false_iff_ne]
      rintro rfl
      exact hname hb
    rw [List.eraseDups_cons, hkeep, ih hrest]

theorem nodup_headerMap {names : List String} (h : Columns lower names) :
    ((headerMap lower names).map Prod.snd).Nodup := by
  have hcolumns : (headerMap lower names).Nodup := by
    rw [headerMap, eraseDups_of_nodup h.nodup]
    refine List.Nodup.filterMap (fun a b column ha hb => ?_) h.nodup
    obtain ⟨field, -, rfl⟩ := Option.map_eq_some_iff.mp ha
    obtain ⟨field', -, hsame⟩ := Option.map_eq_some_iff.mp hb
    exact (Prod.mk.inj hsame).1.symm
  refine List.Nodup.map_on (fun a ha b hb hsame => ?_) hcolumns
  obtain ⟨hmem, hfield⟩ := mem_headerMap.mp ha
  obtain ⟨hmem', hfield'⟩ := mem_headerMap.mp hb
  exact Prod.ext (h.one _ hmem _ hmem' _ hfield (by rw [hfield', hsame])) hsame

/-- An entry is what the row has under the fields of the columns. -/
theorem entryOf_fills {names : List String} (h : Columns lower names) (row : List String) :
    Fills lower names row (entryOf (headerMap lower names) (Csv.dictRow names row)) := by
  intro field value
  rw [entryOf, foldl_addCell _ (nodup_headerMap h)]
  cases hfind : (headerMap lower names).find? (fun column => column.2 = field) with
  | none =>
    rw [List.find?_eq_none] at hfind
    constructor
    · intro hnone
      cases hnone
    · rintro ⟨-, i, name, hname, hfield, -⟩
      have hmem : (name, field) ∈ headerMap lower names :=
        mem_headerMap.mpr ⟨List.mem_of_getElem? hname, hfield⟩
      exact absurd (decide_eq_true rfl) (hfind _ hmem)
  | some column =>
    obtain rfl : column.2 = field := by simpa using List.find?_some hfind
    obtain ⟨hmem, hfield⟩ := mem_headerMap.mp (List.mem_of_find?_eq_some hfind)
    obtain ⟨i, hi⟩ := List.mem_iff_getElem?.mp hmem
    have hcell : ((Csv.dictRow names row).lookup column.1).join = row[i]? := by
      rw [Csv.lookup_dictRow h.nodup row hi]
      rfl
    simp only [hcell]
    constructor
    · intro hvalue
      split at hvalue
      · cases hvalue
      · rename_i hne
        obtain rfl := Option.some.inj hvalue
        exact ⟨hne, i, column.1, hi, hfield, rfl⟩
    · rintro ⟨hne, j, name, hj, hname, rfl⟩
      obtain rfl := h.one _ (List.mem_of_getElem? hj) _ hmem _ hname hfield
      obtain ⟨hlt, -⟩ := List.getElem?_eq_some_iff.mp hj
      obtain rfl := (List.getElem?_inj hlt h.nodup).mp (hj.trans hi.symm)
      rw [if_neg hne]

theorem Fills.unique {names row : List String} {e e' : Entry} (h : Fills lower names row e)
    (h' : Fills lower names row e') : e = e' := by
  funext field
  refine Option.ext (fun value => ?_)
  rw [h field value, h' field value]

/-- The loop accepts rows that name users, and gives these. -/
theorem parseRows_ok_iff {names : List String} (h : Columns lower names) (lineno : ℕ)
    (rows : List (List String)) (users : List Entry) :
    parseRows (headerMap lower names) none lineno (rows.map (Csv.dictRow names)) = .ok users ↔
      Names lower names rows users := by
  induction rows generalizing lineno users with
  | nil =>
    constructor
    · intro hok
      obtain rfl := Except.ok.inj hok
      exact .nil
    · rintro ⟨⟩
      rfl
  | cons row rows ih =>
    have hfills := entryOf_fills h row
    rw [List.map_cons, parseRows]
    by_cases hempty : (entryOf (headerMap lower names) (Csv.dictRow names row)).isEmpty = true
    · rw [if_pos hempty, ih]
      rw [isEmpty_iff.mp hempty] at hfills
      constructor
      · exact .blank hfills
      · intro hnames
        cases hnames with
        | blank fills rest => exact rest
        | user fills source dest rest =>
          rw [fills.unique hfills] at source
          cases source
    · rw [if_neg hempty]
      by_cases hids : entryOf (headerMap lower names) (Csv.dictRow names row) .sourceId = none ∨
          entryOf (headerMap lower names) (Csv.dictRow names row) .destId = none
      · -- a row that is not blank and lacks an id ends the reading
        rw [if_pos hids]
        constructor
        · intro hok
          cases hok
        · intro hnames
          exfalso
          cases hnames with
          | blank fills rest => exact hempty (isEmpty_iff.mpr (hfills.unique fills))
          | user fills source dest rest =>
            rw [fills.unique hfills] at source dest
            rcases hids with hnone | hnone
            · rw [hnone] at source
              cases source
            · rw [hnone] at dest
              cases dest
      · rw [if_neg hids]
        obtain ⟨hsource, hdest⟩ := not_or.mp hids
        constructor
        · intro hok
          cases hrest : parseRows (headerMap lower names) none (lineno + 1)
              (rows.map (Csv.dictRow names)) with
          | error e =>
            rw [hrest] at hok
            cases hok
          | ok rest =>
            rw [hrest] at hok
            obtain rfl := Except.ok.inj hok
            exact .user hfills (Option.isSome_iff_ne_none.mpr hsource)
              (Option.isSome_iff_ne_none.mpr hdest) ((ih _ _).mp hrest)
        · intro hnames
          cases hnames with
          | blank fills rest => exact absurd (isEmpty_iff.mpr (hfills.unique fills)) hempty
          | user fills source dest rest =>
            rw [(ih _ _).mpr rest, hfills.unique fills]
            rfl

/-- A row without a cell is blank. -/
theorem fills_nil (names : List String) : Fills lower names [] .empty := by
  intro field value
  constructor
  · intro hvalue
    cases hvalue
  · rintro ⟨hne, i, name, -, -, hcell⟩
    have hblank : stripped "" = "" := by decide
    exact absurd (hcell.symm.trans hblank) hne

/-- A blank cell at the end of a row may be left out. -/
theorem Fills.short {names row : List String} {entry : Entry}
    (h : Fills lower names (row ++ [""]) entry) : Fills lower names row entry := by
  intro field value
  have hcell : ∀ i : ℕ, (row ++ [""])[i]?.getD "" = row[i]?.getD "" := by
    intro i
    rcases Nat.lt_trichotomy i row.length with hlt | rfl | hgt
    · rw [List.getElem?_append_left hlt]
    · simp
    · rw [List.getElem?_eq_none (by simp; omega), List.getElem?_eq_none (by omega)]
  simpa only [hcell] using h field value

/-- Rows without a cell are passed over, by the reader or by the loop. -/
theorem names_filter {names : List String} {rows : List (List String)} {users : List Entry} :
    Names lower names (rows.filter (· ≠ [])) users ↔ Names lower names rows users := by
  induction rows generalizing users with
  | nil => exact Iff.rfl
  | cons row rows ih =>
    by_cases hrow : row = []
    · subst hrow
      rw [List.filter_cons_of_neg (by simp)]
      constructor
      · exact fun hnames => .blank (fills_nil names) (ih.mp hnames)
      · intro hnames
        cases hnames with
        | blank fills rest => exact ih.mpr rest
        | user fills source dest rest =>
          rw [fills.unique (fills_nil names)] at source
          cases source
    · rw [List.filter_cons_of_pos (by simpa using hrow)]
      constructor
      · intro hnames
        cases hnames with
        | blank fills rest => exact .blank fills (ih.mp rest)
        | user fills source dest rest => exact .user fills source dest (ih.mp rest)
      · intro hnames
        cases hnames with
        | blank fills rest => exact .blank fills (ih.mpr rest)
        | user fills source dest rest => exact .user fills source dest (ih.mpr rest)

variable (lower) in
/-- The row of a user under the columns of a header. -/
def rowOf (names : List String) (entry : Entry) : List String :=
  names.map (fun name => ((fieldOf lower name).bind entry).getD "")

variable (lower) in
/-- A user that a mapping with such a header can name. -/
structure Writable (names : List String) (entry : Entry) : Prop where
  source : (entry .sourceId).isSome
  dest : (entry .destId).isSome
  value : ∀ field value, entry field = some value →
    value ≠ "" ∧ stripped value = value ∧ ∃ name ∈ names, fieldOf lower name = some field

theorem Writable.fills {names : List String} {entry : Entry} (h : Writable lower names entry) :
    Fills lower names (rowOf lower names entry) entry := by
  have hcell : ∀ (i : ℕ) (name : String) (field : Field), names[i]? = some name →
      fieldOf lower name = some field →
      (rowOf lower names entry)[i]?.getD "" = (entry field).getD "" := by
    intro i name field hname hfield
    rw [rowOf, List.getElem?_map, hname]
    simp [hfield]
  intro field value
  constructor
  · intro hvalue
    obtain ⟨hne, hstripped, name, hmem, hfield⟩ := h.value field value hvalue
    obtain ⟨i, hi⟩ := List.mem_iff_getElem?.mp hmem
    refine ⟨hne, i, name, hi, hfield, ?_⟩
    rw [hcell i name field hi hfield, hvalue]
    exact hstripped
  · rintro ⟨hne, i, name, hname, hfield, hstripped⟩
    rw [hcell i name field hname hfield] at hstripped
    cases hentry : entry field with
    | none =>
      rw [hentry] at hstripped
      exact absurd (hstripped.symm.trans (by decide)) hne
    | some x =>
      rw [hentry, Option.getD_some, (h.value field x hentry).2.1] at hstripped
      rw [hstripped]

theorem Names.of_writable {names : List String} {users : List Entry}
    (h : ∀ entry ∈ users, Writable lower names entry) :
    Names lower names (users.map (rowOf lower names)) users := by
  induction users with
  | nil => exact .nil
  | cons entry users ih =>
    have hentry := h entry List.mem_cons_self
    exact .user hentry.fills hentry.source hentry.dest
      (ih (fun e he => h e (List.mem_cons_of_mem _ he)))

theorem mem_headerMap_fields {names : List String} {field : Field} :
    field ∈ (headerMap lower names).map Prod.snd ↔
      ∃ name ∈ names, fieldOf lower name = some field := by
  constructor
  · intro h
    obtain ⟨column, hcolumn, rfl⟩ := List.mem_map.mp h
    obtain ⟨hmem, hfield⟩ := mem_headerMap.mp hcolumn
    exact ⟨column.1, hmem, hfield⟩
  · rintro ⟨name, hname, hfield⟩
    have hcolumn : (name, field) ∈ headerMap lower names := mem_headerMap.mpr ⟨hname, hfield⟩
    exact List.mem_map_of_mem hcolumn

/-- Rows behind which the reader fails are never accepted. -/
theorem parseRows_raised (header : List (String × Field)) (failed : Csv.Failed) (lineno : ℕ)
    (rows : List (AList (fun _ : String => Option String))) (users : List Entry) :
    parseRows header (some failed) lineno rows ≠ .ok users := by
  induction rows generalizing lineno users with
  | nil => exact fun hok => by cases hok
  | cons row rows ih =>
    rw [parseRows]
    split
    · exact ih (lineno + 1) users
    · split
      · exact fun hok => by cases hok
      · intro hok
        cases hrest : parseRows header (some failed) (lineno + 1) rows with
        | error e =>
          rw [hrest] at hok
          cases hok
        | ok rest => exact ih (lineno + 1) rest hrest

variable (lower) in
/-- A file that is read as a header and rows is accepted if these name users under columns that are
known. -/
theorem parseMappingCsv_ok_iff {names : List String} (hcolumns : Columns lower names)
    {rows : List (List String)} {raised : Option Csv.Failed} {file : List Char}
    (hread : Csv.read fieldLimit (withoutMark file) =
      ((names :: rows).map (List.map String.toList), raised)) (users : List Entry) :
    parseMappingCsv lower (some file) = .ok users ↔
      raised = none ∧ (∃ name ∈ names, fieldOf lower name = some .sourceId) ∧
        (∃ name ∈ names, fieldOf lower name = some .destId) ∧
        users ≠ [] ∧ Names lower names rows users := by
  have hback : ((names :: rows).map (List.map String.toList)).map (List.map String.ofList) =
      names :: rows := by
    simp [Function.comp_def]
  rw [parseMappingCsv]
  simp only [hread, hback, Csv.dictReader]
  by_cases hids : .sourceId ∉ (headerMap lower names).map Prod.snd ∨
      .destId ∉ (headerMap lower names).map Prod.snd
  · rw [if_pos hids]
    simp only [mem_headerMap_fields] at hids
    constructor
    · intro hok
      cases hok
    · rintro ⟨-, hsource, hdest, -⟩
      exact absurd hids (not_or.mpr ⟨not_not.mpr hsource, not_not.mpr hdest⟩)
  · rw [if_neg hids]
    simp only [mem_headerMap_fields, not_or, not_not] at hids
    -- the reader leaves out rows without a cell, which the loop would pass over
    have hrows := fun us => parseRows_ok_iff hcolumns 2 (rows.filter (· ≠ [])) us
    constructor
    · intro hok
      cases hparse : parseRows (headerMap lower names) raised 2
          ((rows.filter (· ≠ [])).map (Csv.dictRow names)) with
      | error e =>
        rw [hparse] at hok
        cases hok
      | ok us =>
        rw [hparse] at hok
        cases raised with
        | some failed => exact absurd hparse (parseRows_raised _ _ _ _ _)
        | none =>
          cases us with
          | nil => cases hok
          | cons user us =>
            obtain rfl := Except.ok.inj hok
            exact ⟨rfl, hids.1, hids.2, List.cons_ne_nil _ _,
              names_filter.mp ((hrows _).mp hparse)⟩
    · rintro ⟨rfl, -, -, hne, hnames⟩
      rw [(hrows users).mpr (names_filter.mpr hnames)]
      cases users with
      | nil => exact absurd rfl hne
      | cons user users => rfl

variable (lower) in
/-- A file of which the reader gives no row is not accepted. -/
theorem parseMappingCsv_of_nil {file : List Char} {raised : Option Csv.Failed}
    (hread : Csv.read fieldLimit (withoutMark file) = ([], raised)) (users : List Entry) :
    parseMappingCsv lower (some file) ≠ .ok users := by
  rw [parseMappingCsv]
  simp only [hread, List.map_nil, Csv.dictReader]
  cases raised <;> exact fun hok => by cases hok

variable (lower) in
/-- A CSV file whose header names no column and no field twice is accepted if and only if it is read
to its end as that header and rows that name a user or more, each with both ids, under columns that
stand for the fields by their aliases; and these users are what it gives. So users that are written
under such a header are read again. -/
theorem mapping_parsed :
    (∀ file : List Char,
      (∀ header, (Csv.read fieldLimit (withoutMark file)).1.head? = some header →
        Columns lower (header.map String.ofList)) →
      ∀ users, parseMappingCsv lower (some file) = .ok users ↔
        ∃ names rows, Csv.read fieldLimit (withoutMark file) =
            ((names :: rows).map (List.map String.toList), none) ∧
          (∃ name ∈ names, fieldOf lower name = some .sourceId) ∧
          (∃ name ∈ names, fieldOf lower name = some .destId) ∧
          users ≠ [] ∧ Names lower names rows users) ∧
    ∀ (names : List String) (users : List Entry), Columns lower names → users ≠ [] →
      (∀ entry ∈ users, Writable lower names entry) →
      (∀ row ∈ names :: users.map (rowOf lower names), ∀ cell ∈ row,
        cell.toList.length ≤ fieldLimit) →
      ∀ file, withoutMark file = Csv.write
        ((names :: users.map (rowOf lower names)).map (List.map String.toList)) →
      parseMappingCsv lower (some file) = .ok users := by
  constructor
  · intro file hcolumns users
    rcases hread : Csv.read fieldLimit (withoutMark file) with ⟨_ | ⟨header, rest⟩, raised⟩
    · constructor
      · exact fun hok => absurd hok (parseMappingCsv_of_nil lower hread users)
      · rintro ⟨names, rows, hrows, -⟩
        cases hrows
    · have hheader := hcolumns header (by rw [hread]; rfl)
      have hback : header :: rest = ((header.map String.ofList) ::
          rest.map (List.map String.ofList)).map (List.map String.toList) := by
        simp [Function.comp_def]
      have hiff := parseMappingCsv_ok_iff lower hheader (hread.trans (by rw [hback])) users
      rw [hiff]
      constructor
      · rintro ⟨rfl, hnames⟩
        exact ⟨_, _, by rw [hback], hnames⟩
      · rintro ⟨names, rows, hrows, hnames⟩
        obtain ⟨hall, rfl⟩ := Prod.mk.inj hrows
        -- texts and lists of characters are one to one
        have htexts := congrArg (List.map (List.map String.ofList)) hall
        simp only [List.map_map, List.map_cons, Function.comp_def, String.ofList_toList,
          List.map_id'] at htexts
        obtain ⟨rfl, rfl⟩ := List.cons.inj htexts
        exact ⟨rfl, hnames⟩
  · intro names users hcolumns hne hwritable hfits file hfile
    have hread : Csv.read fieldLimit (withoutMark file) =
        ((names :: users.map (rowOf lower names)).map (List.map String.toList), none) := by
      rw [hfile]
      refine Csv.read_write (fun fields hfields field hfield => ?_)
      obtain ⟨row, hrow, rfl⟩ := List.mem_map.mp hfields
      obtain ⟨cell, hcell, rfl⟩ := List.mem_map.mp hfield
      exact hfits row hrow cell hcell
    obtain ⟨first, hfirst⟩ := List.exists_mem_of_ne_nil users hne
    have hids : ∀ field, (first field).isSome →
        ∃ name ∈ names, fieldOf lower name = some field := by
      intro field hfield
      obtain ⟨value, hvalue⟩ := Option.isSome_iff_exists.mp hfield
      exact ((hwritable first hfirst).value field value hvalue).2.2
    exact (parseMappingCsv_ok_iff lower hcolumns hread users).mpr
      ⟨rfl, hids _ (hwritable first hfirst).source, hids _ (hwritable first hfirst).dest, hne,
        Names.of_writable hwritable⟩

end

/-! One user, in a mapping whose columns have other names and that a spreadsheet has marked. -/

def spelledNames : List String := ["From", " To ", "Note"]

def oneUser : Entry
  | .sourceId => some "a@source"
  | .destId => some "a@dest"
  | _ => none

theorem fieldOf_spelled : fieldOf String.toLower "From" = some .sourceId ∧
    fieldOf String.toLower " To " = some .destId ∧ fieldOf String.toLower "Note" = none := by
  decide +kernel

theorem spelledNames_columns : Columns String.toLower spelledNames := by
  obtain ⟨hfrom, hto, hnote⟩ := fieldOf_spelled
  refine ⟨by decide, fun a ha b hb field hfield hfield' => ?_⟩
  simp only [spelledNames, List.mem_cons, List.not_mem_nil, or_false] at ha hb
  rcases ha with rfl | rfl | rfl <;> rcases hb with rfl | rfl | rfl <;> simp_all

theorem oneUser_writable : Writable String.toLower spelledNames oneUser := by
  refine ⟨rfl, rfl, fun field value hvalue => ?_⟩
  cases field with
  | sourceId =>
    obtain rfl := Option.some.inj hvalue
    exact ⟨by decide, by decide, "From", by decide, fieldOf_spelled.1⟩
  | destId =>
    obtain rfl := Option.some.inj hvalue
    exact ⟨by decide, by decide, " To ", by decide, fieldOf_spelled.2.1⟩
  | imapUser | imapPasswordEnv => cases hvalue

/-- The same user in a file with plain line ends and a blank line. -/
def spelledFile : List Char := "\uFEFFFrom, To ,Note\n\na@source,a@dest\n".toList

theorem mapping_parsed_spelled :
    parseMappingCsv String.toLower (some ('\uFEFF' :: Csv.write
      ((spelledNames :: [rowOf String.toLower spelledNames oneUser]).map
        (List.map String.toList)))) = .ok [oneUser] ∧
      parseMappingCsv String.toLower (some spelledFile) = .ok [oneUser] := by
  have hrow : rowOf String.toLower spelledNames oneUser = ["a@source", "a@dest", ""] := by
    obtain ⟨hfrom, hto, hnote⟩ := fieldOf_spelled
    simp [rowOf, spelledNames, hfrom, hto, hnote, oneUser]
  constructor
  · refine (mapping_parsed String.toLower).2 spelledNames [oneUser] spelledNames_columns
      (List.cons_ne_nil _ _) (fun entry hentry => ?_) ?_ _ rfl
    · obtain rfl := List.mem_singleton.mp hentry
      exact oneUser_writable
    · rw [List.map_singleton, hrow]
      decide
  · have hread : Csv.read fieldLimit (withoutMark spelledFile) =
        ((spelledNames :: [[], ["a@source", "a@dest"]]).map (List.map String.toList), none) := by
      decide
    refine ((mapping_parsed String.toLower).1 spelledFile (fun header hheader => ?_) [oneUser]).mpr
      ⟨spelledNames, _, hread, ⟨"From", by decide, fieldOf_spelled.1⟩,
        ⟨" To ", by decide, fieldOf_spelled.2.1⟩, List.cons_ne_nil _ _, ?_⟩
    · rw [hread] at hheader
      obtain rfl := Option.some.inj hheader
      rw [List.map_map]
      simpa [Function.comp_def] using spelledNames_columns
    · refine .blank (fills_nil _) (.user (Fills.short ?_) rfl rfl .nil)
      rw [List.cons_append, List.singleton_append, ← hrow]
      exact oneUser_writable.fills

end GwsMigrator.Mapping
