import Mathlib.Data.List.AList
import Mathlib.Logic.Function.Basic

/-! The SQLite state store: ItemMap, FolderMap and SyncCursor, with the helpers of
`state/db.py`. Every helper is one committed session. -/
namespace GwsMigrator

/-- A string that Python's truth test accepts: Graph ids and sync cursors. -/
abbrev Token := { s : String // s ≠ "" }

inductive Status where
  | pending
  | done
  | failed
  | skipped
deriving DecidableEq, Repr

/-- The unique key of ItemMap. FolderMap has the same shape, with the source path last. -/
structure ItemKey where
  userEmail : String
  workload : String
  sourceId : String
deriving DecidableEq, Repr

structure CursorKey where
  userEmail : String
  workload : String
deriving DecidableEq, Repr

/-- The columns `upsert_item` writes, with its defaults. -/
structure ItemValues where
  sourceHash : Option String := none
  destId : Option Token := none
  status : Status := .pending
  attempts : ℕ := 0
  lastError : Option String := none
deriving DecidableEq, Repr

/-- The status, the destination id and the hash. -/
def ItemValues.core (v : ItemValues) : Status × Option Token × Option String :=
  (v.status, v.destId, v.sourceHash)

structure ItemRow extends ItemValues where
  updatedAt : ℕ
deriving DecidableEq, Repr

structure FolderRow where
  destId : Option Token
  destPath : Option String
deriving DecidableEq, Repr

structure CursorRow where
  cursorValue : Token
  updatedAt : ℕ
deriving DecidableEq, Repr

/-- The three tables and the clock that stamps them. A table holds one row for each key. -/
structure Db where
  now : ℕ := 0
  items : AList (fun _ : ItemKey => ItemRow) := ∅
  folders : AList (fun _ : ItemKey => FolderRow) := ∅
  cursors : AList (fun _ : CursorKey => CursorRow) := ∅

/-- `x or None` on a string. -/
def orNone (s : String) : Option String := if s = "" then none else some s

namespace Db

variable (db : Db)

def isDone (k : ItemKey) : Bool := (db.items.lookup k).any (fun row => row.status = .done)

def upsertItem (k : ItemKey) (v : ItemValues) : Db :=
  { db with items := db.items.insert k { v with updatedAt := db.now } }

/-- Status, destination id and source hash of an item, or none if never seen. -/
def getItemState (k : ItemKey) : Option ItemValues :=
  (db.items.lookup k).map ItemRow.toItemValues

/-- The destination id of a successfully migrated item. -/
def getDestId (k : ItemKey) : Option Token :=
  (db.items.lookup k).bind (fun row => if row.status = .done then row.destId else none)

def getItemHash (k : ItemKey) : Option String := (db.items.lookup k).bind (·.sourceHash)

def getFolderDest (k : ItemKey) : Option Token := (db.folders.lookup k).bind (·.destId)

def upsertFolder (k : ItemKey) (destId : Token) (destPath : String) : Db :=
  { db with folders := db.folders.insert k ⟨some destId, some destPath⟩ }

def getCursor (k : CursorKey) : Option Token := (db.cursors.lookup k).map (·.cursorValue)

def saveCursor (k : CursorKey) (value : Token) : Db :=
  { db with cursors := db.cursors.insert k ⟨value, db.now⟩ }

/-- Failed rows touched at or after `since`: what the exit code is computed from. -/
def countFailedItemsSince (since : ℕ) : ℕ :=
  db.items.entries.countP (fun e => e.2.status = .failed ∧ since ≤ e.2.updatedAt)

/-- `row.status = ...` on a loaded row: the other columns stay, the stamp is renewed. -/
def setStatus (k : ItemKey) (status : Status) : Db :=
  match db.items.lookup k with
  | some row =>
    { db with items := db.items.insert k { row with status := status, updatedAt := db.now } }
  | none => db

/-- The clock moves on between two sessions. -/
def tick (elapsed : ℕ) : Db := { db with now := db.now + elapsed }

/-- The destination id an item's row holds, whatever its status. -/
def recorded (k : ItemKey) : Option Token := (db.items.lookup k).bind (·.destId)

@[simp] theorem getItemState_upsertItem_self (k : ItemKey) (v : ItemValues) :
    (db.upsertItem k v).getItemState k = some v := by
  simp [getItemState, upsertItem]

theorem getItemState_upsertItem (k k' : ItemKey) (v : ItemValues) :
    (db.upsertItem k v).getItemState k' = if k' = k then some v else db.getItemState k' := by
  by_cases h : k' = k
  · subst h
    simp
  · simp [getItemState, upsertItem, h]

/-- The same for all keys at once. -/
theorem rows_upsertItem (k : ItemKey) (v : ItemValues) :
    (db.upsertItem k v).getItemState = Function.update db.getItemState k (some v) := by
  funext k'
  rw [getItemState_upsertItem, Function.update_apply]

theorem getItemState_upsertItem_of_ne {k k' : ItemKey} (h : k' ≠ k) (v : ItemValues) :
    (db.upsertItem k v).getItemState k' = db.getItemState k' := by
  rw [getItemState_upsertItem, if_neg h]

theorem isDone_eq (k : ItemKey) :
    db.isDone k = (db.getItemState k).any (fun s => s.status = .done) := by
  cases h : db.items.lookup k <;> simp [isDone, getItemState, h]

theorem getItemHash_eq (k : ItemKey) :
    db.getItemHash k = (db.getItemState k).bind (·.sourceHash) := by
  cases h : db.items.lookup k <;> simp [getItemHash, getItemState, h]

theorem getDestId_eq (k : ItemKey) :
    db.getDestId k =
      (db.getItemState k).bind (fun s => if s.status = .done then s.destId else none) := by
  cases h : db.items.lookup k <;> simp [getDestId, getItemState, h]

theorem recorded_eq (k : ItemKey) : db.recorded k = (db.getItemState k).bind (·.destId) := by
  cases h : db.items.lookup k <;> simp [recorded, getItemState, h]

theorem recorded_upsertItem (k : ItemKey) (v : ItemValues) :
    (db.upsertItem k v).recorded = Function.update db.recorded k v.destId := by
  funext k'
  by_cases h : k' = k
  · subst h
    simp [recorded_eq]
  · rw [Function.update_of_ne h, recorded_eq, recorded_eq, getItemState_upsertItem_of_ne _ h]

theorem getItemState_setStatus (k k' : ItemKey) (status : Status) :
    (db.setStatus k status).getItemState k' =
      if k' = k then (db.getItemState k).map (fun s => { s with status := status })
      else db.getItemState k' := by
  unfold setStatus
  by_cases hk : k' = k
  · subst hk
    cases h : db.items.lookup k' <;> simp [getItemState, h]
  · rw [if_neg hk]
    cases h : db.items.lookup k <;> simp [getItemState, hk]

@[simp] theorem recorded_setStatus (k : ItemKey) (status : Status) :
    (db.setStatus k status).recorded = db.recorded := by
  funext k'
  rw [recorded_eq, recorded_eq, getItemState_setStatus]
  by_cases h : k' = k
  · subst h
    cases hs : db.getItemState k' <;> simp
  · rw [if_neg h]

theorem getFolderDest_upsertFolder (k k' : ItemKey) (d : Token) (p : String) :
    (db.upsertFolder k d p).getFolderDest k' =
      if k' = k then some d else db.getFolderDest k' := by
  by_cases h : k' = k
  · subst h
    simp [getFolderDest, upsertFolder]
  · simp [getFolderDest, upsertFolder, h]

@[simp] theorem getCursor_setStatus (k : ItemKey) (status : Status) (k' : CursorKey) :
    (db.setStatus k status).getCursor k' = db.getCursor k' := by
  unfold setStatus
  cases db.items.lookup k <;> rfl

theorem getCursor_saveCursor (k k' : CursorKey) (v : Token) :
    (db.saveCursor k v).getCursor k' = if k' = k then some v else db.getCursor k' := by
  by_cases h : k' = k
  · subst h
    simp [getCursor, saveCursor]
  · simp [getCursor, saveCursor, h]

/-- The status, the destination id and the hash of a row. -/
def core (k : ItemKey) : Option (Status × Option Token × Option String) :=
  (db.getItemState k).map ItemValues.core

theorem isDone_eq_core (k : ItemKey) :
    db.isDone k = (db.core k).any (fun c => c.1 = .done) := by
  rw [isDone_eq, core]
  cases db.getItemState k <;> rfl

theorem isDone_of_core {k : ItemKey} {d : Option Token} {hash : Option String}
    (h : db.core k = some (.done, d, hash)) : db.isDone k = true := by
  rw [isDone_eq_core, h]
  rfl

/-- A row that is written as it was, but for its error text. -/
theorem core_upsertItem (k : ItemKey) {v : ItemValues} (h : db.core k = some v.core) :
    (db.upsertItem k v).core = db.core := by
  funext k'
  by_cases hk : k' = k
  · subst hk
    rw [h, core, getItemState_upsertItem_self]
    rfl
  · rw [core, getItemState_upsertItem_of_ne _ hk, core]

end Db

end GwsMigrator
