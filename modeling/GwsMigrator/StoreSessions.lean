import GwsMigrator.CalendarJob
import GwsMigrator.Interleavings

/-! What a job does one thing at a time: a call to the outside, or one session on the state
store, which is atomic. -/
namespace GwsMigrator
open Dialogue Interleavings

/-- A call, the body of one `session_scope` block, or a line in the log file. -/
inductive Request where
  | call (c : Call)
  | isDone (k : ItemKey)
  | getItemState (k : ItemKey)
  | getItemHash (k : ItemKey)
  | recorded (k : ItemKey)
  | getFolderDest (k : ItemKey)
  | getCursor (k : CursorKey)
  | upsertItem (k : ItemKey) (v : ItemValues)
  | upsertFolder (k : ItemKey) (destId : Token) (destPath : String)
  | saveCursor (k : CursorKey) (value : Token)
  | readOccurrence (master k : ItemKey)
  | recordFolder (k : ItemKey) (destId : Token) (destPath : String) (v : ItemValues)
  | cancelDone (k : ItemKey)
  | logFailure (k : CursorKey) (e : Exc)

abbrev Request.Ans : Request → Type
  | .call c => c.Ans
  | .isDone _ => Bool
  | .getItemState _ => Option ItemValues
  | .getItemHash _ => Option String
  | .recorded _ | .getFolderDest _ | .getCursor _ => Option Token
  | .upsertItem .. | .upsertFolder .. | .saveCursor .. | .recordFolder .. | .cancelDone _
  | .logFailure .. => Unit
  | .readOccurrence .. => Option Token × Option ItemValues

abbrev JobProgram (α : Type) := Program Request.Ans α

/-- How a request is answered, and what it leaves. -/
def serve (g : Graph) : (r : Request) → World → r.Ans × World
  | .call c, w => (g.ask w c, g.after w c)
  | .isDone k, w => (w.db.isDone k, w)
  | .getItemState k, w => (w.db.getItemState k, w)
  | .getItemHash k, w => (w.db.getItemHash k, w)
  | .recorded k, w => (w.db.recorded k, w)
  | .getFolderDest k, w => (w.db.getFolderDest k, w)
  | .getCursor k, w => (w.db.getCursor k, w)
  | .upsertItem k v, w => ((), w.upsertItem k v)
  | .upsertFolder k destId destPath, w => ((), w.upsertFolder k destId destPath)
  | .saveCursor k value, w => ((), { w with db := w.db.saveCursor k value })
  | .readOccurrence master k, w => ((w.db.getDestId master, w.db.getItemState k), w)
  | .recordFolder k destId destPath v, w => ((), (w.upsertFolder k destId destPath).upsertItem k v)
  -- the delete is made while the session is open
  | .cancelDone k, w => ((), handleCancelled g w k)
  | .logFailure .., w => ((), w)

/-- The same with the log apart from the store: the log is the job's own. -/
def serveOn (g : Graph) (r : Request) (x : Log Call.Ans × Db) : r.Ans × Log Call.Ans × Db :=
  let y := serve g r ⟨x.2, x.1⟩
  (y.1, y.2.log, y.2.db)

/-- A row of one of the three tables. -/
inductive RowKey where
  | item (k : ItemKey)
  | folder (k : ItemKey)
  | cursor (k : CursorKey)
deriving DecidableEq

def ItemKey.owner (k : ItemKey) : CursorKey := ⟨k.userEmail, k.workload⟩

/-- The user and the workload of a row. -/
def RowKey.owner : RowKey → CursorKey
  | .item k | .folder k => k.owner
  | .cursor k => k

/-- What a row holds apart from its number and its stamps. -/
abbrev RowKey.Cell : RowKey → Type
  | .item _ => Option ItemValues
  | .folder _ => Option FolderRow
  | .cursor _ => Option Token

def Db.cell (db : Db) : (l : RowKey) → l.Cell
  | .item k => db.getItemState k
  | .folder k => db.folders.lookup k
  | .cursor k => db.getCursor k

/-- The rows of some users and workloads. -/
def rowsOf (keys : Set CursorKey) : Set RowKey := {l | l.owner ∈ keys}

/-- A session that reads and writes rows of `keys` only. -/
def Request.Within (keys : Set CursorKey) : Request → Prop
  | .call _ | .logFailure .. => True
  | .isDone k | .getItemState k | .getItemHash k | .recorded k | .getFolderDest k
  | .upsertItem k _ | .upsertFolder k .. | .recordFolder k .. | .cancelDone k => k.owner ∈ keys
  | .getCursor k | .saveCursor k _ => k ∈ keys
  | .readOccurrence master k => master.owner ∈ keys ∧ k.owner ∈ keys

namespace Db

variable (db : Db)

theorem cell_upsertItem (k : ItemKey) (v : ItemValues) :
    (db.upsertItem k v).cell = Function.update db.cell (.item k) (some v) := by
  funext l
  cases l with
  | item k' =>
    by_cases h : k' = k
    · subst h
      simp [cell]
    · rw [Function.update_of_ne (by simpa using h)]
      exact getItemState_upsertItem_of_ne db h v
  | folder | cursor => rfl

theorem cell_upsertFolder (k : ItemKey) (d : Token) (p : String) :
    (db.upsertFolder k d p).cell = Function.update db.cell (.folder k) (some ⟨some d, some p⟩) := by
  funext l
  cases l with
  | folder k' =>
    by_cases h : k' = k
    · subst h
      simp [cell, upsertFolder]
    · rw [Function.update_of_ne (by simpa using h)]
      exact AList.lookup_insert_ne h
  | item | cursor => rfl

theorem cell_saveCursor (k : CursorKey) (value : Token) :
    (db.saveCursor k value).cell = Function.update db.cell (.cursor k) (some value) := by
  funext l
  cases l with
  | cursor k' =>
    by_cases h : k' = k
    · subst h
      simp [cell, getCursor_saveCursor]
    · rw [Function.update_of_ne (by simpa using h)]
      simp [cell, getCursor_saveCursor, h]
  | item | folder => rfl

theorem cell_setStatus (k : ItemKey) (status : Status) :
    (db.setStatus k status).cell =
      Function.update db.cell (.item k)
        ((db.getItemState k).map (fun s => { s with status := status })) := by
  funext l
  cases l with
  | item k' =>
    simp only [cell]
    rw [getItemState_setStatus]
    by_cases h : k' = k
    · subst h
      simp
    · rw [if_neg h, Function.update_of_ne (by simpa using h)]
      rfl
  | folder k' =>
    unfold setStatus
    cases db.items.lookup k <;> rfl
  | cursor k' =>
    unfold setStatus
    cases db.items.lookup k <;> rfl

theorem cell_tick (elapsed : ℕ) : (db.tick elapsed).cell = db.cell := by
  funext l
  cases l <;> rfl

end Db

section locality

variable {keys : Set CursorKey} {db db' : Db}

theorem agreeOn_setStatus (h : AgreeOn Db.cell (rowsOf keys) db db') {k : ItemKey}
    (hk : k.owner ∈ keys) (status : Status) :
    AgreeOn Db.cell (rowsOf keys) (db.setStatus k status) (db'.setStatus k status) := by
  have hrow : db.getItemState k = db'.getItemState k := h (.item k) hk
  refine h.update (db.cell_setStatus k status) ?_
  rw [hrow]
  exact db'.cell_setStatus k status

theorem agreeOn_tick (h : AgreeOn Db.cell (rowsOf keys) db db') (elapsed : ℕ) :
    AgreeOn Db.cell (rowsOf keys) (db.tick elapsed) (db'.tick elapsed) := by
  intro l hl
  rw [Db.cell_tick, Db.cell_tick]
  exact h l hl

theorem agreeOn_row {k : ItemKey} (h : AgreeOn Db.cell (rowsOf keys) db db') (hk : k.owner ∈ keys) :
    db.getItemState k = db'.getItemState k := h (.item k) hk

theorem agreeOn_destId {k : ItemKey} (h : AgreeOn Db.cell (rowsOf keys) db db')
    (hk : k.owner ∈ keys) : db.getDestId k = db'.getDestId k := by
  rw [Db.getDestId_eq, Db.getDestId_eq, agreeOn_row h hk]

/-- A folder and its item are two rows of one owner. -/
theorem recordFolder_local (g : Graph) {k : ItemKey} (hk : k.owner ∈ keys) (d : Token) (p : String)
    (v : ItemValues) : Local Db.cell (rowsOf keys) (serveOn g) (.recordFolder k d p v) := by
  refine ⟨fun _ s l hl => ?_, fun _ _ _ _ => rfl, fun _ _ _ _ => rfl, fun _ s s' hagree => ?_⟩
  · have hitem := (s.upsertFolder k d p).cell_upsertItem k v
    exact (frame_of_update (l := .item k) hk hitem l hl).trans
      (frame_of_update (l := .folder k) hk (s.cell_upsertFolder k d p) l hl)
  · have hfolder := hagree.update (s.cell_upsertFolder k d p) (s'.cell_upsertFolder k d p)
    exact hfolder.update (Db.cell_upsertItem _ k v) (Db.cell_upsertItem _ k v)

/-- The delete inside the session is made, or not, by what the row says. -/
theorem cancelDone_local (g : Graph) {k : ItemKey} (hk : k.owner ∈ keys) :
    Local Db.cell (rowsOf keys) (serveOn g) (.cancelDone k) := by
  refine ⟨fun own s l hl => ?_, fun _ _ _ _ => rfl, fun own s s' hagree => ?_,
    fun own s s' hagree => ?_⟩
  · simp only [serveOn, serve, handleCancelled]
    cases s.getDestId k with
    | none => rfl
    | some id =>
      simp only [Graph.ask]
      cases g.answer own (.deleteEvent id) with
      | error e => exact congrFun (s.cell_tick _) l
      | ok _ =>
        exact (frame_of_update (l := .item k) hk (Db.cell_setStatus _ k .skipped) l hl).trans
          (congrFun (s.cell_tick _) l)
  · simp only [serveOn, serve, handleCancelled]
    rw [agreeOn_destId hagree hk]
    cases s'.getDestId k with
    | none => rfl
    | some id =>
      simp only [Graph.ask]
      cases g.answer own (.deleteEvent id) <;> rfl
  · simp only [serveOn, serve, handleCancelled]
    rw [agreeOn_destId hagree hk]
    cases s'.getDestId k with
    | none => exact hagree
    | some id =>
      -- the clock is no part of a cell
      have hticked := agreeOn_tick hagree (g.elapsed own (.deleteEvent id))
      simp only [Graph.ask]
      cases g.answer own (.deleteEvent id) with
      | error e => exact hticked
      | ok _ => exact agreeOn_setStatus hticked hk .skipped

/-- A session within the rows of `keys` is local to them, whatever the calls return. -/
theorem request_local (g : Graph) {r : Request} (h : r.Within keys) :
    Local Db.cell (rowsOf keys) (serveOn g) r := by
  cases r with
  | call c =>
    exact ⟨fun _ s l _ => congrFun (s.cell_tick _) l, fun _ _ _ _ => rfl, fun _ _ _ _ => rfl,
      fun own s s' hagree => agreeOn_tick hagree _⟩
  | isDone k =>
    refine Local.of_reads (fun _ _ => rfl) fun _ s s' hagree => ?_
    simp only [serveOn, serve, Db.isDone_eq]
    rw [agreeOn_row hagree h]
  | getItemState k =>
    exact Local.of_reads (fun _ _ => rfl) fun _ s s' hagree => agreeOn_row hagree h
  | getItemHash k =>
    refine Local.of_reads (fun _ _ => rfl) fun _ s s' hagree => ?_
    simp only [serveOn, serve, Db.getItemHash_eq]
    rw [agreeOn_row hagree h]
  | recorded k =>
    refine Local.of_reads (fun _ _ => rfl) fun _ s s' hagree => ?_
    simp only [serveOn, serve, Db.recorded_eq]
    rw [agreeOn_row hagree h]
  | getFolderDest k =>
    refine Local.of_reads (fun _ _ => rfl) fun _ s s' hagree => ?_
    have hrow : s.folders.lookup k = s'.folders.lookup k := hagree (.folder k) h
    simp only [serveOn, serve, Db.getFolderDest]
    rw [hrow]
  | getCursor k =>
    exact Local.of_reads (fun _ _ => rfl) fun _ s s' hagree => hagree (.cursor k) h
  | upsertItem k v =>
    exact Local.of_writes (l := .item k) h (fun _ _ _ => rfl) (fun _ _ => rfl)
      fun _ s => s.cell_upsertItem k v
  | upsertFolder k d p =>
    exact Local.of_writes (l := .folder k) h (fun _ _ _ => rfl) (fun _ _ => rfl)
      fun _ s => s.cell_upsertFolder k d p
  | saveCursor k value =>
    exact Local.of_writes (l := .cursor k) h (fun _ _ _ => rfl) (fun _ _ => rfl)
      fun _ s => s.cell_saveCursor k value
  | readOccurrence master k =>
    refine Local.of_reads (fun _ _ => rfl) fun _ s s' hagree => ?_
    simp only [serveOn, serve]
    rw [agreeOn_destId hagree h.1, agreeOn_row hagree h.2]
  | recordFolder k d p v => exact recordFolder_local g h d p v
  | logFailure k e => exact Local.of_reads (fun _ _ => rfl) fun _ _ _ _ => rfl
  | cancelDone k => exact cancelDone_local g h

end locality

end GwsMigrator
