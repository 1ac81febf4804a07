import GwsMigrator.StateStore
import GwsMigrator.Dialogue
import GwsMigrator.Mirror

/-! The normalized items a source connector yields, and the calls the jobs make to
the destination Graph client and back to the source while they process them. -/
namespace GwsMigrator
open Dialogue Mirror

abbrev Bytes := List UInt8

/-- A ready Graph request body; no job looks inside. -/
abbrev GraphBody := String

inductive Exc where
  | http (status : ℕ) (text : String)
  | other (text : String)
deriving DecidableEq, Repr

/-- `str(exc)`. -/
def Exc.text : Exc → String
  | .http _ text => text
  | .other text => text

inductive Mode where
  | full
  | delta
deriving DecidableEq, Repr

inductive ImportMode where
  | json
  | mime
deriving DecidableEq, Repr

structure UserMapping where
  sourceId : String
  destId : String
deriving DecidableEq, Repr

structure SourceContact where
  sourceId : String
  graphBody : GraphBody := ""
  folderName : String := "Imported Contacts"
  photoRef : String := ""
  sourceHash : String := ""
  isDeleted : Bool := false
deriving DecidableEq, Repr

structure CalendarRef where
  calId : String
  name : String
deriving DecidableEq, Repr

structure SourceEvent where
  sourceId : String
  graphBody : GraphBody := ""
  isCancelled : Bool := false
  masterSourceId : String := ""
  originalStart : String := ""
  sourceHash : String := ""
deriving DecidableEq, Repr

inductive FileAction where
  | migrate
  | export
  | skip
  | createFolder
deriving DecidableEq, Repr

structure SourceFile where
  sourceId : String
  name : String
  parentId : Option String := none
  isFolder : Bool := false
  contentHash : Option String := none
  action : FileAction := .migrate
deriving DecidableEq, Repr

structure SourceMessage where
  sourceId : String
  rawMime : Bytes := []
  folderPaths : List String := []
  categories : List String := []
  isRead : Bool := true
  isFlagged : Bool := false
  dedupHash : String := ""
  fetchError : String := ""
deriving DecidableEq, Repr

/-- One run of a source iterator: what it yields, the exception that ends it early
if any, and the cursor `get_last_cursor` reports afterwards. -/
structure Enumeration (α : Type) where
  items : List α
  raised : Option Exc := none
  lastCursor : Option Token := none

/-- The calls of the four jobs. All go to the one destination mailbox or drive of the
job's user. `src` is no part of a request: it says for which item the call is made. -/
inductive Call where
  | getUser (destId : String)
  | ensureContactFolder (displayName : String)
  | createContact (src : ItemKey) (folderId : Token) (body : GraphBody)
  | updateContact (contactId : Token) (body : GraphBody)
  | deleteContact (contactId : Token)
  | fetchContactPhoto (contact : SourceContact)
  | setContactPhoto (contactId : Token) (data : Bytes)
  | ensureCalendar (name : String)
  | createEvent (src : ItemKey) (calendarId : Token) (body : GraphBody)
  | patchEvent (eventId : Token) (body : GraphBody)
  | deleteEvent (eventId : Token)
  | findInstance (masterEventId : Token) (originalStart : String)
  | ensureOnedrive
  | getRoot
  | ensureFolder (src : ItemKey) (parentId : Option Token) (folderName : String)
  | fetchFile (src : ItemKey) (f : SourceFile)
  | uploadSmallFile (src : ItemKey) (parentId : Token) (fileName : String) (content : Bytes)
  | uploadLargeFile (src : ItemKey) (parentId : Token) (fileName : String) (content : Bytes)
  | updateFileContent (src : ItemKey) (destId : Token) (content : Bytes)
  | ensureMailFolder (displayName : String) (parentFolderId : Option Token)
  | importMessage (src : ItemKey) (slot : ℕ) (folderId : Token) (msg : SourceMessage)
      (mode : ImportMode)
  | patchMessageFlags (messageId : Token) (msg : SourceMessage)
deriving DecidableEq

/-- What a call returns when it does not raise. -/
abbrev Call.Result : Call → Type
  | .getUser _ | .ensureContactFolder _ | .createContact .. | .ensureCalendar _ | .createEvent ..
  | .getRoot | .ensureFolder .. | .uploadSmallFile .. | .uploadLargeFile ..
  | .ensureMailFolder .. | .importMessage .. => Token
  | .updateContact .. | .deleteContact _ | .setContactPhoto .. | .patchEvent ..
  | .deleteEvent _ | .ensureOnedrive | .updateFileContent .. | .patchMessageFlags .. => Unit
  | .fetchContactPhoto _ => Option Bytes
  | .findInstance .. => Option Token
  | .fetchFile .. => Bytes × String

abbrev Call.Ans (c : Call) : Type := Except Exc c.Result

/-- What a call does to the contacts at the destination. A failed call does nothing;
a delete answered 404 finds the contact gone. -/
def contactEffect : Event Call.Ans → Effect Token ItemKey
  | ⟨.createContact src _ _, .ok id⟩ => .create id src
  | ⟨.deleteContact id, .ok _⟩ => .delete id
  | ⟨.deleteContact id, .error (.http 404 _)⟩ => .delete id
  | _ => .keep

/-- What a call does to the events at the destination. -/
def eventEffect : Event Call.Ans → Effect Token ItemKey
  | ⟨.createEvent src _ _, .ok id⟩ => .create id src
  | ⟨.deleteEvent id, .ok _⟩ => .delete id
  | _ => .keep

/-- A destination and a source as the jobs see them: an answer to every call, the time
each call takes, and ids of created items that were never given out before. -/
structure Graph where
  answer : Oracle Call.Ans
  elapsed : Log Call.Ans → Call → ℕ
  createContact_fresh : ∀ log src folder body id,
    answer log (.createContact src folder body) = .ok id → id ∉ issued contactEffect log
  createEvent_fresh : ∀ log src cal body id,
    answer log (.createEvent src cal body) = .ok id → id ∉ issued eventEffect log

/-- The state store with everything asked and answered so far. -/
structure World where
  db : Db := {}
  log : Log Call.Ans := []

namespace Graph

variable (g : Graph) (w : World) (c : Call)

def ask : c.Ans := g.answer w.log c

/-- The world once `c` is answered. -/
def after : World := ⟨w.db.tick (g.elapsed w.log c), ⟨c, g.ask w c⟩ :: w.log⟩

@[simp] theorem after_log : (g.after w c).log = ⟨c, g.ask w c⟩ :: w.log := rfl

@[simp] theorem recorded_after : (g.after w c).db.recorded = w.db.recorded := rfl

@[simp] theorem getCursor_after (k : CursorKey) :
    (g.after w c).db.getCursor k = w.db.getCursor k := rfl

end Graph

/-- The calls of a pass in which none fails. -/
def NoFailure (g : Graph) : Prop := ∀ log c e, g.answer log c ≠ .error e

theorem NoFailure.ask_eq_ok {g : Graph} (h : NoFailure g) (w : World) (c : Call) :
    ∃ r, g.ask w c = .ok r := by
  cases hask : g.ask w c with
  | ok r => exact ⟨r, rfl⟩
  | error e => exact absurd hask (h w.log c e)

namespace World

variable (w : World)

def upsertItem (k : ItemKey) (v : ItemValues) : World := { w with db := w.db.upsertItem k v }

def upsertFolder (k : ItemKey) (destId : Token) (destPath : String) : World :=
  { w with db := w.db.upsertFolder k destId destPath }

/-- The row of an item whose processing raised. -/
def failItem (k : ItemKey) (e : Exc) (destId : Option Token) (sourceHash : Option String) : World :=
  w.upsertItem k
    { destId := destId, sourceHash := sourceHash, status := .failed, lastError := some e.text }

@[simp] theorem upsertItem_log (k : ItemKey) (v : ItemValues) :
    (w.upsertItem k v).log = w.log := rfl

@[simp] theorem upsertItem_db (k : ItemKey) (v : ItemValues) :
    (w.upsertItem k v).db = w.db.upsertItem k v := rfl

@[simp] theorem upsertFolder_db (k : ItemKey) (d : Token) (p : String) :
    (w.upsertFolder k d p).db = w.db.upsertFolder k d p := rfl

end World

/-- Where a pass enumerates from: a full pass from nothing, a delta pass from the stored
cursor. A delta pass without one would re-scan everything, so it does not run. -/
def startFrom (mode : Mode) (stored : Option Token) : Option (Option Token) :=
  match mode, stored with
  | .full, _ => some none
  | .delta, some c => some (some c)
  | .delta, none => none

/-- What a run of a job leaves: the world, the failures it counted, the exception it
ended with if any, and the cursors it saved under their workload keys. -/
structure JobResult where
  world : World
  failures : ℕ := 0
  raised : Option Exc := none
  saved : List (String × Token) := []

/-- The end of every pass: a cursor the source offers is saved unless the pass had
failures, so that the next pass retries them. -/
def advanceCursor (r : JobResult) (k : CursorKey) (failures : ℕ) (lastCursor : Option Token) :
    JobResult :=
  match lastCursor with
  | some c =>
    if failures = 0 then
      { r with world := { r.world with db := r.world.db.saveCursor k c },
               saved := r.saved ++ [(k.workload, c)] }
    else r
  | none => r

section advance

variable (r : JobResult) (k : CursorKey) (failures : ℕ) (lastCursor : Option Token)

@[simp] theorem advanceCursor_log :
    (advanceCursor r k failures lastCursor).world.log = r.world.log := by
  unfold advanceCursor
  split <;> [split; skip] <;> rfl

@[simp] theorem advanceCursor_getItemState (k' : ItemKey) :
    (advanceCursor r k failures lastCursor).world.db.getItemState k' =
      r.world.db.getItemState k' := by
  unfold advanceCursor
  split <;> [split; skip] <;> rfl

@[simp] theorem advanceCursor_recorded :
    (advanceCursor r k failures lastCursor).world.db.recorded = r.world.db.recorded := by
  unfold advanceCursor
  split <;> [split; skip] <;> rfl

/-- A pass saves its cursor exactly when the source offers one and nothing failed. -/
theorem advanceCursor_cases :
    (∃ c, lastCursor = some c ∧ failures = 0 ∧
      (advanceCursor r k failures lastCursor).saved = r.saved ++ [(k.workload, c)] ∧
      (advanceCursor r k failures lastCursor).world.db.getCursor k = some c) ∨
    (¬ (lastCursor.isSome ∧ failures = 0) ∧ advanceCursor r k failures lastCursor = r) := by
  unfold advanceCursor
  cases lastCursor with
  | none => exact Or.inr ⟨by simp, rfl⟩
  | some c =>
    by_cases h : failures = 0
    · refine Or.inl ⟨c, rfl, h, ?_, ?_⟩
      · simp [h]
      · simp [h, Db.getCursor_saveCursor]
    · exact Or.inr ⟨by simp [h], by simp [h]⟩

end advance

end GwsMigrator
