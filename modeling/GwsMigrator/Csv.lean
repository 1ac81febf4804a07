import Mathlib.Data.List.Basic
import Mathlib.Data.List.AList
import Mathlib.Data.Nat.Notation
import Mathlib.Tactic.Common

/-! Comma separated values in Python's `excel` dialect: what `csv.writer` makes of rows, and the
state machine of `csv.reader` over the lines of a file that is opened with `newline=""`. -/
namespace GwsMigrator.Csv

abbrev Row := List (List Char)

def isSpecial (c : Char) : Bool := c = ',' || c = '"' || c = '\r' || c = '\n'

def doubled (c : Char) : List Char := if c = '"' then ['"', '"'] else [c]

/-- A field is quoted where a character in it has a meaning to the reader. -/
def writeField (field : List Char) : List Char :=
  if field.any isSpecial then '"' :: (field.flatMap doubled ++ ['"']) else field

def writeFields : Row → List Char
  | [] => []
  | [field] => writeField field
  | field :: next :: row => writeField field ++ ',' :: writeFields (next :: row)

/-- A row that is one empty field is quoted, unlike an empty row. -/
def writeRow (row : Row) : List Char :=
  (if row = [[]] then ['"', '"'] else writeFields row) ++ ['\r', '\n']

def write (rows : List Row) : List Char := rows.flatMap writeRow

/-- The states of the reader. -/
inductive Place where
  | startRecord
  | startField
  | inField
  | inQuotedField
  | quoteInQuotedField
  | eatCrnl
deriving DecidableEq, Repr

inductive Failed where
  | fieldTooLarge
  | newlineInField
deriving DecidableEq, Repr

/-- The reader in a record: the field it is in, and those before it. -/
structure Reader where
  place : Place := .startRecord
  field : List Char := []
  fields : Row := []
deriving DecidableEq, Repr

namespace Reader

def save (r : Reader) (place : Place) : Reader :=
  { place := place, field := [], fields := r.fields ++ [r.field] }

/-- No field has more than `limit` characters. -/
def add (limit : ℕ) (r : Reader) (c : Char) (place : Place) : Except Failed Reader :=
  if limit ≤ r.field.length then .error .fieldTooLarge
  else .ok { r with place := place, field := r.field ++ [c] }

/-- A character at the start of a field. -/
def atField (limit : ℕ) (r : Reader) (c : Char) : Except Failed Reader :=
  if c = '\n' ∨ c = '\r' then .ok (r.save .eatCrnl)
  else if c = '"' then .ok { r with place := .inQuotedField }
  else if c = ',' then .ok (r.save .startField)
  else r.add limit c .inField

/-- What the reader does with a character, or with the mark that it is given behind each line. -/
def step (limit : ℕ) (r : Reader) : Option Char → Except Failed Reader
  | none =>
    match r.place with
    | .startRecord | .inQuotedField => .ok r
    | .startField | .inField | .quoteInQuotedField => .ok (r.save .startRecord)
    | .eatCrnl => .ok { r with place := .startRecord }
  | some c =>
    match r.place with
    | .startRecord =>
      if c = '\n' ∨ c = '\r' then .ok { r with place := .eatCrnl } else r.atField limit c
    | .startField => r.atField limit c
    | .inField =>
      if c = '\n' ∨ c = '\r' then .ok (r.save .eatCrnl)
      else if c = ',' then .ok (r.save .startField)
      else r.add limit c .inField
    | .inQuotedField =>
      if c = '"' then .ok { r with place := .quoteInQuotedField } else r.add limit c .inQuotedField
    | .quoteInQuotedField =>
      if c = '"' then r.add limit c .inQuotedField
      else if c = ',' then .ok (r.save .startField)
      else if c = '\n' ∨ c = '\r' then .ok (r.save .eatCrnl)
      else r.add limit c .inField
    | .eatCrnl => if c = '\n' ∨ c = '\r' then .ok r else .error .newlineInField

end Reader

/-- The characters of a file with the marks behind its lines, which end at `\n`, `\r` or `\r\n`. -/
def marked : List Char → List (Option Char)
  | [] => []
  | [c] => [some c, none]
  | c :: d :: text =>
    if c = '\n' ∨ (c = '\r' ∧ d ≠ '\n') then some c :: none :: marked (d :: text)
    else some c :: marked (d :: text)

/-- The rows that are read one after the other, and the error that ends them if one does. A file
that ends inside of quotes still has a row there. -/
def rowsFrom (limit : ℕ) : Reader → List (Option Char) → List Row × Option Failed
  | r, [] =>
    (if r.field ≠ [] ∨ r.place = .inQuotedField then [(r.save .startRecord).fields] else [], none)
  | r, e :: events =>
    match r.step limit e with
    | .error failed => ([], some failed)
    | .ok r' =>
      if e = none ∧ r'.place = .startRecord then
        (r'.fields :: (rowsFrom limit {} events).1, (rowsFrom limit {} events).2)
      else rowsFrom limit r' events

def read (limit : ℕ) (text : List Char) : List Row × Option Failed :=
  rowsFrom limit {} (marked text)

/-! The marks of a text that is put together. -/

theorem marked_cons {c : Char} {text : List Char} (htext : text ≠ []) :
    marked (c :: text) = some c :: marked text ∨
      marked (c :: text) = some c :: none :: marked text := by
  cases text with
  | nil => exact absurd rfl htext
  | cons d text =>
    rw [marked]
    split
    · exact Or.inr rfl
    · exact Or.inl rfl

theorem marked_plain {c : Char} (hn : c ≠ '\n') (hr : c ≠ '\r') {text : List Char}
    (htext : text ≠ []) : marked (c :: text) = some c :: marked text := by
  cases text with
  | nil => exact absurd rfl htext
  | cons d text =>
    rw [marked, if_neg]
    rintro (h | ⟨h, -⟩)
    · exact hn h
    · exact hr h

theorem marked_crlf (text : List Char) :
    marked ('\r' :: '\n' :: text) = some '\r' :: some '\n' :: none :: marked text := by
  rw [marked, if_neg (by simp)]
  cases text with
  | nil => rfl
  | cons d text => rw [marked, if_pos (Or.inl rfl)]

/-- A line ends where a file does. -/
theorem marked_getLast? {text : List Char} (htext : text ≠ []) :
    (marked text).getLast? = some none := by
  induction text with
  | nil => exact absurd rfl htext
  | cons c text ih =>
    by_cases hnil : text = []
    · subst hnil
      rfl
    · have hrest := ih hnil
      have hne : marked text ≠ [] := by
        intro h
        rw [h] at hrest
        cases hrest
      rcases marked_cons hnil with h | h
      · rw [h, List.getLast?_cons_of_ne_nil hne]
        exact hrest
      · rw [h, List.getLast?_cons_of_ne_nil (List.cons_ne_nil _ _),
          List.getLast?_cons_of_ne_nil hne]
        exact hrest

/-- A text that goes on has the marks of its beginning, but for the one at the cut. -/
theorem marked_cut {text more : List Char} (htext : text ≠ []) (hmore : more ≠ []) :
    ∃ events rest, marked text = events ++ [none] ∧ marked (text ++ more) = events ++ rest ∧
      rest.getLast? = some none := by
  have hend := marked_getLast? hmore
  have hne : marked more ≠ [] := by
    intro h
    rw [h] at hend
    cases hend
  induction text with
  | nil => exact absurd rfl htext
  | cons c text ih =>
    cases text with
    | nil =>
      rcases marked_cons (c := c) hmore with h | h
      · exact ⟨[some c], marked more, rfl, h, hend⟩
      · refine ⟨[some c], none :: marked more, rfl, h, ?_⟩
        rw [List.getLast?_cons_of_ne_nil hne, hend]
    | cons d text =>
      obtain ⟨events, rest, hcut, hwhole, hlast⟩ := ih (List.cons_ne_nil _ _)
      rw [List.cons_append] at hwhole
      simp only [List.cons_append]
      rw [marked, marked, hcut, hwhole]
      split
      · exact ⟨some c :: none :: events, rest, rfl, rfl, hlast⟩
      · exact ⟨some c :: events, rest, rfl, rfl, hlast⟩

/-! How a record is read. -/

section reading
variable {limit : ℕ}

theorem rowsFrom_ok {r r' : Reader} {e : Option Char} {events : List (Option Char)}
    (hstep : r.step limit e = .ok r') (hgoes : ¬ (e = none ∧ r'.place = .startRecord)) :
    rowsFrom limit r (e :: events) = rowsFrom limit r' events := by
  rw [rowsFrom, hstep]
  simp only [if_neg hgoes]

theorem rowsFrom_some {r r' : Reader} {c : Char} {events : List (Option Char)}
    (hstep : r.step limit (some c) = .ok r') :
    rowsFrom limit r (some c :: events) = rowsFrom limit r' events :=
  rowsFrom_ok hstep (by simp)

theorem add_eq {r : Reader} (hfits : r.field.length < limit) (c : Char) (place : Place) :
    r.add limit c place = .ok { r with place := place, field := r.field ++ [c] } := by
  rw [Reader.add, if_neg (by omega)]

/-- In quotes a line may end. -/
theorem rowsFrom_quoted {field : List Char} {fields : Row} {c : Char} {r' : Reader}
    {text : List Char} (htext : text ≠ [])
    (hstep : Reader.step limit ⟨.inQuotedField, field, fields⟩ (some c) = .ok r')
    (hin : r'.place = .inQuotedField) :
    rowsFrom limit ⟨.inQuotedField, field, fields⟩ (marked (c :: text)) =
      rowsFrom limit r' (marked text) := by
  have hmark : r'.step limit none = .ok r' := by
    rw [Reader.step]
    simp only [hin]
  rcases marked_cons (c := c) htext with h | h
  · rw [h, rowsFrom_some hstep]
  · rw [h, rowsFrom_some hstep, rowsFrom_ok hmark (by simp [hin])]

/-- What is written in quotes is read as the field. -/
theorem rowsFrom_doubled {field rest : List Char} {fields : Row} {text : List Char}
    (htext : text ≠ []) (hfits : field.length + rest.length ≤ limit) :
    rowsFrom limit ⟨.inQuotedField, field, fields⟩ (marked (rest.flatMap doubled ++ text)) =
      rowsFrom limit ⟨.inQuotedField, field ++ rest, fields⟩ (marked text) := by
  induction rest generalizing field with
  | nil => simp
  | cons c rest ih =>
    rw [List.length_cons] at hfits
    have hmore : rest.flatMap doubled ++ text ≠ [] := by simp [htext]
    have hnext := @ih (field ++ [c]) (by
      rw [List.length_append, List.length_singleton]
      omega)
    have hlast : field ++ c :: rest = field ++ [c] ++ rest := by simp
    rw [List.flatMap_cons, List.append_assoc, hlast, ← hnext]
    by_cases hquote : c = '"'
    · subst hquote
      have hadd : Reader.step limit ⟨.quoteInQuotedField, field, fields⟩ (some '"') =
          .ok ⟨.inQuotedField, field ++ ['"'], fields⟩ :=
        add_eq (show field.length < limit by omega) '"' .inQuotedField
      rw [doubled, if_pos rfl]
      simp only [List.cons_append, List.nil_append]
      rw [marked_plain (by decide) (by decide) (List.cons_ne_nil _ _), rowsFrom_some rfl,
        marked_plain (by decide) (by decide) hmore, rowsFrom_some hadd]
    · rw [doubled, if_neg hquote]
      simp only [List.cons_append, List.nil_append]
      refine rowsFrom_quoted hmore ?_ rfl
      rw [Reader.step]
      simp only [if_neg hquote]
      exact add_eq (show field.length < limit by omega) c .inQuotedField

theorem not_special {c : Char} (h : isSpecial c = false) :
    c ≠ ',' ∧ c ≠ '"' ∧ c ≠ '\r' ∧ c ≠ '\n' := by
  simpa [isSpecial, and_assoc] using h

/-- What is written without quotes is read as the field. -/
theorem rowsFrom_plain {field rest : List Char} {fields : Row} {text : List Char}
    (htext : text ≠ []) (hplain : rest.any isSpecial = false)
    (hfits : field.length + rest.length ≤ limit) :
    rowsFrom limit ⟨.inField, field, fields⟩ (marked (rest ++ text)) =
      rowsFrom limit ⟨.inField, field ++ rest, fields⟩ (marked text) := by
  induction rest generalizing field with
  | nil => simp
  | cons c rest ih =>
    rw [List.length_cons] at hfits
    obtain ⟨hc, hrest⟩ : isSpecial c = false ∧ rest.any isSpecial = false := by simpa using hplain
    obtain ⟨hcomma, hquote, hr, hn⟩ := not_special hc
    have hnext := @ih (field ++ [c]) hrest (by
      rw [List.length_append, List.length_singleton]
      omega)
    have hlast : field ++ c :: rest = field ++ [c] ++ rest := by simp
    have hstep : Reader.step limit ⟨.inField, field, fields⟩ (some c) =
        .ok ⟨.inField, field ++ [c], fields⟩ := by
      rw [Reader.step]
      simp only [if_neg (not_or.mpr ⟨hn, hr⟩), if_neg hcomma]
      exact add_eq (show field.length < limit by omega) c .inField
    rw [List.cons_append, marked_plain hn hr (by simp [htext]), rowsFrom_some hstep, hnext, hlast]

/-- A place from which a field begins. -/
def AtStart (place : Place) : Prop := place = .startRecord ∨ place = .startField

/-- A reader in front of a character that no record begins with. -/
theorem step_atStart {place : Place} (hplace : AtStart place) {fields : Row} {c : Char}
    (hr : c ≠ '\r') (hn : c ≠ '\n') : Reader.step limit ⟨place, [], fields⟩ (some c) =
      Reader.atField limit ⟨place, [], fields⟩ c := by
  rcases hplace with rfl | rfl
  · rw [Reader.step]
    simp only [if_neg (not_or.mpr ⟨hn, hr⟩)]
  · rfl

/-- What a field has been read with: its quotes are closed, or it has none. -/
def Closed (place : Place) : Prop := place = .inField ∨ place = .quoteInQuotedField

/-- A field that is not empty is read up to its end. -/
theorem rowsFrom_field {place : Place} (hplace : AtStart place) {field : List Char} {fields : Row}
    {text : List Char} (htext : text ≠ []) (hfits : field.length ≤ limit) (hne : field ≠ []) :
    ∃ place', Closed place' ∧
      rowsFrom limit ⟨place, [], fields⟩ (marked (writeField field ++ text)) =
        rowsFrom limit ⟨place', field, fields⟩ (marked text) := by
  unfold writeField
  split
  · refine ⟨.quoteInQuotedField, Or.inr rfl, ?_⟩
    have hopen : Reader.step limit ⟨place, [], fields⟩ (some '"') =
        .ok ⟨.inQuotedField, [], fields⟩ := step_atStart hplace (by decide) (by decide)
    have hclose : Reader.step limit ⟨.inQuotedField, field, fields⟩ (some '"') =
        .ok ⟨.quoteInQuotedField, field, fields⟩ := rfl
    have hbody := @rowsFrom_doubled limit [] field fields ('"' :: text) (List.cons_ne_nil _ _)
      (by simpa using hfits)
    rw [List.nil_append] at hbody
    have hwritten : '"' :: (field.flatMap doubled ++ ['"']) ++ text =
        '"' :: (field.flatMap doubled ++ '"' :: text) := by simp
    rw [hwritten, marked_plain (by decide) (by decide) (by simp), rowsFrom_some hopen, hbody,
      marked_plain (by decide) (by decide) htext, rowsFrom_some hclose]
  · rename_i hplain
    rw [Bool.not_eq_true] at hplain
    refine ⟨.inField, Or.inl rfl, ?_⟩
    obtain ⟨c, rest, rfl⟩ := List.exists_cons_of_ne_nil hne
    obtain ⟨hc, hrest⟩ : isSpecial c = false ∧ rest.any isSpecial = false := by simpa using hplain
    obtain ⟨hcomma, hquote, hr, hn⟩ := not_special hc
    rw [List.length_cons] at hfits
    have hfirst : Reader.step limit ⟨place, [], fields⟩ (some c) =
        .ok ⟨.inField, [c], fields⟩ := by
      rw [step_atStart hplace hr hn, Reader.atField, if_neg (not_or.mpr ⟨hn, hr⟩), if_neg hquote,
        if_neg hcomma]
      exact add_eq (show 0 < limit by omega) c .inField
    rw [List.cons_append, marked_plain hn hr (by simp [htext]), rowsFrom_some hfirst]
    exact @rowsFrom_plain limit [c] rest fields text htext hrest (by
      rw [List.length_singleton]
      omega)

/-- A field with another one behind it. -/
theorem rowsFrom_comma {place : Place} (hplace : AtStart place) {field : List Char} {fields : Row}
    {text : List Char} (htext : text ≠ []) (hfits : field.length ≤ limit) :
    rowsFrom limit ⟨place, [], fields⟩ (marked (writeField field ++ ',' :: text)) =
      rowsFrom limit ⟨.startField, [], fields ++ [field]⟩ (marked text) := by
  by_cases hne : field = []
  · subst hne
    have hsave : Reader.step limit ⟨place, [], fields⟩ (some ',') =
        .ok ⟨.startField, [], fields ++ [[]]⟩ := step_atStart hplace (by decide) (by decide)
    rw [show writeField [] ++ ',' :: text = ',' :: text from rfl,
      marked_plain (by decide) (by decide) htext, rowsFrom_some hsave]
  · obtain ⟨place', hclosed, hread⟩ := rowsFrom_field hplace (List.cons_ne_nil ',' text) hfits hne
    have hsave : Reader.step limit ⟨place', field, fields⟩ (some ',') =
        .ok ⟨.startField, [], fields ++ [field]⟩ := by
      rcases hclosed with rfl | rfl <;> rfl
    rw [hread, marked_plain (by decide) (by decide) htext, rowsFrom_some hsave]

/-- The end of a record, once its last field is saved. -/
theorem rowsFrom_crlf {r : Reader} {row : Row} {text : List Char}
    (hsave : r.step limit (some '\r') = .ok ⟨.eatCrnl, [], row⟩) :
    rowsFrom limit r (marked ('\r' :: '\n' :: text)) =
      (row :: (read limit text).1, (read limit text).2) := by
  have hmark : rowsFrom limit ⟨.eatCrnl, [], row⟩ (none :: marked text) =
      (row :: (read limit text).1, (read limit text).2) := by
    rw [rowsFrom]
    rfl
  rw [marked_crlf, rowsFrom_some hsave, rowsFrom_some rfl, hmark]

/-- The last field of a record. A record with nothing in it is none. -/
theorem rowsFrom_last {place : Place} (hplace : AtStart place) {field : List Char} {fields : Row}
    {text : List Char} (hfits : field.length ≤ limit)
    (hne : place = .startRecord → field ≠ []) :
    rowsFrom limit ⟨place, [], fields⟩ (marked (writeField field ++ '\r' :: '\n' :: text)) =
      ((fields ++ [field]) :: (read limit text).1, (read limit text).2) := by
  by_cases hnil : field = []
  · subst hnil
    obtain rfl : place = .startField := hplace.resolve_left (fun h => hne h rfl)
    exact rowsFrom_crlf rfl
  · obtain ⟨place', hclosed, hread⟩ := rowsFrom_field hplace (List.cons_ne_nil _ _) hfits hnil
    rw [hread]
    apply rowsFrom_crlf
    rcases hclosed with rfl | rfl <;> rfl

/-- The fields of a record, from any of them on. -/
theorem rowsFrom_fields {row : Row} (hrow : row ≠ []) {place : Place} (hplace : AtStart place)
    {fields : Row} {text : List Char} (hfits : ∀ field ∈ row, field.length ≤ limit)
    (hne : place = .startRecord → row ≠ [[]]) :
    rowsFrom limit ⟨place, [], fields⟩ (marked (writeFields row ++ '\r' :: '\n' :: text)) =
      ((fields ++ row) :: (read limit text).1, (read limit text).2) := by
  induction row using writeFields.induct generalizing place fields with
  | case1 => exact absurd rfl hrow
  | case2 field =>
    exact rowsFrom_last hplace (hfits field List.mem_cons_self)
      (fun h hnil => hne h (by rw [hnil]))
  | case3 field next row ih =>
    have hmore : writeFields (next :: row) ++ '\r' :: '\n' :: text ≠ [] := by simp
    have hrest := @ih (List.cons_ne_nil _ _) .startField (Or.inr rfl) (fields ++ [field])
      (fun f hf => hfits f (List.mem_cons_of_mem _ hf)) (fun h => by cases h)
    rw [writeFields, List.append_assoc, List.cons_append,
      rowsFrom_comma hplace hmore (hfits field List.mem_cons_self), hrest, List.append_assoc]
    rfl

/-- Each row is read again as it was written, with what follows it. -/
theorem read_writeRow {row : Row} (hfits : ∀ field ∈ row, field.length ≤ limit) (text : List Char) :
    read limit (writeRow row ++ text) = (row :: (read limit text).1, (read limit text).2) := by
  rw [writeRow, List.append_assoc]
  by_cases hempty : row = [[]]
  · subst hempty
    rw [if_pos rfl]
    have hclose : rowsFrom limit ⟨.quoteInQuotedField, [], []⟩ (marked ('\r' :: '\n' :: text)) =
        ([[]] :: (read limit text).1, (read limit text).2) := rowsFrom_crlf rfl
    have htext : ['"', '"'] ++ (['\r', '\n'] ++ text) = '"' :: '"' :: '\r' :: '\n' :: text := rfl
    rw [read, htext, marked_plain (by decide) (by decide) (List.cons_ne_nil _ _), rowsFrom_some rfl,
      marked_plain (by decide) (by decide) (List.cons_ne_nil _ _), rowsFrom_some rfl]
    exact hclose
  · rw [if_neg hempty]
    by_cases hnil : row = []
    · subst hnil
      exact rowsFrom_crlf rfl
    · exact rowsFrom_fields hnil (Or.inl rfl) hfits (fun _ => hempty)

/-- What is written is read again, with what follows it. -/
theorem read_write_append {rows : List Row}
    (hfits : ∀ row ∈ rows, ∀ field ∈ row, field.length ≤ limit) (text : List Char) :
    read limit (write rows ++ text) = (rows ++ (read limit text).1, (read limit text).2) := by
  induction rows with
  | nil => rfl
  | cons row rows ih =>
    rw [write, List.flatMap_cons, List.append_assoc, read_writeRow (hfits row List.mem_cons_self)]
    have hrest := ih (fun r hr => hfits r (List.mem_cons_of_mem _ hr))
    rw [write] at hrest
    rw [hrest]
    rfl

theorem read_write {rows : List Row} (hfits : ∀ row ∈ rows, ∀ field ∈ row, field.length ≤ limit) :
    read limit (write rows) = (rows, none) := by
  have h := read_write_append hfits []
  rw [List.append_nil] at h
  rw [h]
  simp [read, marked, rowsFrom]

/-! A file that is cut while a row is written. -/

theorem step_none (r : Reader) : ∃ r', r.step limit none = .ok r' := by
  rw [Reader.step]
  cases r.place <;> exact ⟨_, rfl⟩

/-- The end of a line ends the rows or goes on inside of quotes. -/
theorem rowsFrom_end (r : Reader) :
    (rowsFrom limit r [none]).1.length ≤ 1 ∧ (rowsFrom limit r [none]).2 = none := by
  obtain ⟨r', hstep⟩ : ∃ r', r.step limit none = .ok r' := step_none r
  rw [rowsFrom, hstep]
  simp only [true_and, rowsFrom]
  by_cases hends : r'.place = .startRecord
  · simp [hends]
  · rw [if_neg hends]
    split <;> simp

/-- Lines that come to an end leave a row or an error. -/
theorem rowsFrom_ne_nil {events : List (Option Char)} (hlast : events.getLast? = some none)
    (r : Reader) : rowsFrom limit r events ≠ ([], none) := by
  induction events generalizing r with
  | nil => cases hlast
  | cons e events ih =>
    rw [rowsFrom]
    cases hstep : r.step limit e with
    | error failed => simp
    | ok r' =>
      simp only
      split
      · simp
      · by_cases hnil : events = []
        · subst hnil
          obtain rfl := Option.some.inj hlast
          rename_i hgoes
          have hquoted : r' = r ∧ r.place = .inQuotedField := by
            rw [Reader.step] at hstep
            cases hplace : r.place <;> simp only [hplace] at hstep <;>
              obtain rfl := Except.ok.inj hstep
            case inQuotedField => exact ⟨rfl, rfl⟩
            case startRecord => exact absurd ⟨rfl, hplace⟩ hgoes
            all_goals exact absurd ⟨rfl, rfl⟩ hgoes
          rw [rowsFrom, if_pos (Or.inr (hquoted.1 ▸ hquoted.2))]
          simp
        · rw [List.getLast?_cons_of_ne_nil hnil] at hlast
          exact ih hlast r'

/-- What has one row when it is whole has at most one when it is cut. -/
theorem rowsFrom_cut {events rest : List (Option Char)} (hlast : rest.getLast? = some none)
    {r : Reader} {row : Row} (h : rowsFrom limit r (events ++ rest) = ([row], none)) :
    (rowsFrom limit r (events ++ [none])).1.length ≤ 1 ∧
      (rowsFrom limit r (events ++ [none])).2 = none := by
  induction events generalizing r with
  | nil => exact rowsFrom_end r
  | cons e events ih =>
    rw [List.cons_append, rowsFrom] at h ⊢
    cases hstep : r.step limit e with
    | error failed =>
      rw [hstep] at h
      simp at h
    | ok r' =>
      rw [hstep] at h
      simp only at h ⊢
      split at h
      · exfalso
        obtain ⟨hrows, herror⟩ := Prod.mk.inj h
        have hmore : (events ++ rest).getLast? = some none := by
          rw [List.getLast?_append, hlast]
          rfl
        exact rowsFrom_ne_nil hmore {} (Prod.ext (List.cons.inj hrows).2 herror)
      · rename_i hgoes
        rw [if_neg hgoes]
        exact ih h

/-- Rows stay, wherever the row behind them is cut. -/
theorem read_cut {rows : List Row} (hfits : ∀ row ∈ rows, ∀ field ∈ row, field.length ≤ limit)
    {next : Row} (hnext : ∀ field ∈ next, field.length ≤ limit) {text : List Char}
    (hcut : text <+: writeRow next) :
    ∃ tail, tail.length ≤ 1 ∧ read limit (write rows ++ text) = (rows ++ tail, none) := by
  rw [read_write_append hfits]
  suffices h : (read limit text).1.length ≤ 1 ∧ (read limit text).2 = none by
    exact ⟨_, h.1, by rw [h.2]⟩
  obtain ⟨more, hmore⟩ := hcut
  have hwhole : read limit (text ++ more) = ([next], none) := by
    have hrow := read_writeRow hnext []
    rw [List.append_nil] at hrow
    rw [hmore, hrow]
    simp [read, marked, rowsFrom]
  by_cases htext : text = []
  · subst htext
    simp [read, marked, rowsFrom]
  by_cases hnil : more = []
  · subst hnil
    rw [List.append_nil] at hwhole
    rw [hwhole]
    exact ⟨le_refl 1, rfl⟩
  obtain ⟨events, rest, hevents, hall, hlast⟩ := marked_cut htext hnil
  rw [read, hall] at hwhole
  rw [read, hevents]
  exact rowsFrom_cut hlast hwhole

end reading

/-! `csv.DictReader`. -/

section records
variable {α : Type} [DecidableEq α]

/-- A row under the names of its columns. A row that is too short has `none` in the others, and of
two columns of one name the last one counts. What a row has beyond its names is left out. -/
def dictRow (names row : List α) : AList (fun _ : α => Option α) :=
  (names.zip (row.map some ++ List.replicate (names.length - row.length) none)).foldl
    (fun record cell => record.insert cell.1 cell.2) ∅

/-- What a `DictReader` gives: the names in the first row, if there is one, and the rows that are
not empty behind it. -/
structure Table (α : Type) where
  fieldnames : Option (List α)
  records : List (AList (fun _ : α => Option α))
  raised : Option Failed

def dictReader : List (List α) × Option Failed → Table α
  | ([], raised) => ⟨none, [], raised⟩
  | (names :: rows, raised) => ⟨some names, (rows.filter (· ≠ [])).map (dictRow names), raised⟩

theorem lookup_foldl_insert {β : Type} (name : α) (cells : List (α × β))
    (record : AList (fun _ : α => β)) (hname : name ∉ cells.map Prod.fst) :
    (cells.foldl (fun record cell => record.insert cell.1 cell.2) record).lookup name =
      record.lookup name := by
  induction cells generalizing record with
  | nil => rfl
  | cons cell cells ih =>
    obtain ⟨hhead, htail⟩ := not_or.mp (fun h => hname (List.mem_cons.mpr h))
    rw [List.foldl_cons, ih _ htail, AList.lookup_insert_ne hhead]

theorem lookup_cells {β : Type} {names : List α} (hnames : names.Nodup) (cells : List β)
    (record : AList (fun _ : α => β)) {i : ℕ} {name : α} (hname : names[i]? = some name)
    {cell : β} (hcell : cells[i]? = some cell) :
    ((names.zip cells).foldl (fun record cell => record.insert cell.1 cell.2) record).lookup name =
      some cell := by
  induction names generalizing cells record i with
  | nil => cases hname
  | cons first names ih =>
    obtain ⟨hfirst, hrest⟩ := List.nodup_cons.mp hnames
    cases cells with
    | nil => cases hcell
    | cons x cells =>
      cases i with
      | zero =>
        obtain rfl := Option.some.inj hname
        obtain rfl := Option.some.inj hcell
        have hnot : first ∉ (names.zip cells).map Prod.fst := by
          intro hmem
          obtain ⟨pair, hpair, rfl⟩ := List.mem_map.mp hmem
          exact hfirst (List.of_mem_zip hpair).1
        rw [List.zip_cons_cons, List.foldl_cons, lookup_foldl_insert _ _ _ hnot]
        exact AList.lookup_insert _
      | succ i =>
        rw [List.getElem?_cons_succ] at hname hcell
        exact ih hrest cells _ hname hcell

/-- Under different names each cell stands where it was written. -/
theorem lookup_dictRow {names : List α} (hnames : names.Nodup) (row : List α) {i : ℕ} {name : α}
    (hname : names[i]? = some name) : (dictRow names row).lookup name = some row[i]? := by
  refine lookup_cells hnames _ ∅ hname ?_
  obtain ⟨hi, -⟩ := List.getElem?_eq_some_iff.mp hname
  by_cases hrow : i < row.length
  · have hleft : i < (row.map some).length := by rwa [List.length_map]
    rw [List.getElem?_append_left hleft, List.getElem?_map, List.getElem?_eq_getElem hrow]
    rfl
  · have hright : (row.map some).length ≤ i := by
      rw [List.length_map]
      omega
    have hshort : i - (row.map some).length < names.length - row.length := by
      rw [List.length_map]
      omega
    rw [List.getElem?_append_right hright, List.getElem?_replicate, if_pos hshort,
      List.getElem?_eq_none (Nat.not_lt.mp hrow)]

end records

end GwsMigrator.Csv
