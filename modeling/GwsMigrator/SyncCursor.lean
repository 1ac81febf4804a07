import GwsMigrator.CalendarSync
import GwsMigrator.ContactsSync
import GwsMigrator.FilesSync
import GwsMigrator.ScriptedGraph

/-! Nothing falls behind the sync cursors of a user, over any history of changes at the source
and of passes, unless a full pass meets what an earlier pass has done in another version: it
skips the contact, event or file and still moves the cursor past the change. -/
namespace GwsMigrator
open ChangeFeed

/-- The change logs of what a user has at the source, the events for each calendar id. -/
structure ChangeLogs where
  contacts : List SourceContact := []
  events : String → List SourceEvent := fun _ => []
  files : List SourceFile := []

structure SyncState where
  logs : ChangeLogs := {}
  world : World := {}

/-- A run of `run_calendar`: what the source lists, and what it yields for each calendar. -/
structure CalendarRun where
  mode : Mode
  calendars : Enumeration CalendarRef
  source : CalendarRef → Option Token → Enumeration SourceEvent

/-- A new version of an item at the source, or a pass of one of the jobs. -/
inductive Happening where
  | contactChanged (c : SourceContact)
  | eventChanged (calId : String) (event : SourceEvent)
  | fileChanged (f : SourceFile)
  | contactsPass (p : ContactsPass)
  | calendarPass (p : CalendarRun)
  | filesPass (p : FilesPass)

section
variable (g : Graph) (remap : GraphBody → Except Exc GraphBody) (user : UserMapping)
variable (tok : ℕ → Token)

def SyncState.step (s : SyncState) : Happening → SyncState
  | .contactChanged c => { s with logs := { s.logs with contacts := c :: s.logs.contacts } }
  | .eventChanged calId event =>
    { s with logs := { s.logs with
        events := Function.update s.logs.events calId (event :: s.logs.events calId) } }
  | .fileChanged f => { s with logs := { s.logs with files := f :: s.logs.files } }
  | .contactsPass p =>
    { s with world := (runContacts g user p.mode p.source s.world).world }
  | .calendarPass p =>
    { s with world := (runCalendar g remap user p.mode p.calendars p.source s.world).world }
  | .filesPass p => { s with world := p.run g user s.world }

/-- Every pass reads the change logs as they are then. -/
def SyncState.ReadsLogs (s : SyncState) : Happening → Prop
  | .contactsPass p => Reads contacts tok s.logs.contacts p.source
  | .calendarPass p => ∀ cal ∈ p.calendars.items,
      Reads (events cal.calId) tok (s.logs.events cal.calId) (p.source cal)
  | .filesPass p => Reads files tok s.logs.files p.source
  | _ => True

/-- No full pass meets a contact, event or file that is done in another version than the current
one, or fails a folder that is done in the current one. -/
def SyncState.Spares (s : SyncState) : Happening → Prop
  | .contactsPass p => p.mode = .full → Fresh contacts user s.logs.contacts s.world.db
  | .calendarPass p => Runs.Guarded (addCalendar g remap user p.mode p.source)
      (fun r cal => p.mode = .full → r.raised = none →
        Fresh (events cal.calId) user (s.logs.events cal.calId) r.world.db)
      { world := g.after s.world (.getUser user.destId) } p.calendars.items
  | .filesPass p => p.mode = .full →
      Fresh files user s.logs.files s.world.db ∧ p.FoldersHold g user s.world
  | _ => True

/-- The rows agree with the change logs up to the cursors. -/
structure SyncState.InSync (s : SyncState) : Prop where
  hashes : ∀ id, HashDone s.world.db (files.key user id)
  contacts : Synced contacts user tok s.logs.contacts s.world.db
  events : ∀ calId, Synced (events calId) user tok (s.logs.events calId) s.world.db
  files : Synced files user tok s.logs.files s.world.db

variable {g remap user tok}

theorem calendar_ne (calId : String) : (events calId).name ≠ contacts.name ∧
    (events calId).name ≠ files.name := by
  have hlist : (events calId).name.toList = "calendar:".toList ++ calId.toList :=
    String.toList_append
  constructor <;>
  · intro h
    rw [h] at hlist
    simp [contacts, files] at hlist

theorem calendar_inj {calId calId' : String} (h : (events calId).name = (events calId').name) :
    calId = calId' := by
  have hlist : "calendar:".toList ++ calId.toList = "calendar:".toList ++ calId'.toList := by
    rw [← String.toList_append, ← String.toList_append]
    exact congrArg String.toList h
  exact String.toList_inj.mp (List.append_cancel_left hlist)

variable {logs : ChangeLogs} {w w' : World} {mode : Mode}

namespace SyncState.InSync

theorem start : InSync user tok {} := by
  have hnone : ∀ {α : Type} (wl : Workload α), Synced wl user tok [] ({} : Db) :=
    fun wl => ⟨none, rfl, upToDate_none⟩
  refine ⟨fun id hash hhash => ?_, hnone _, fun calId => hnone _, hnone _⟩
  exact absurd hhash (by simp [Db.getItemHash])

theorem same (h : InSync user tok ⟨logs, w⟩) (hsame : SameStore w.db w'.db) :
    InSync user tok ⟨logs, w'⟩ := by
  have hrows := fun k => congrFun hsame.rows k
  have hcursors := fun k => congrFun hsame.cursors k
  exact ⟨fun id => (h.hashes id).congr (hrows _), h.contacts.congr (fun _ => hrows _) (hcursors _),
    fun calId => (h.events calId).congr (fun _ => hrows _) (hcursors _),
    h.files.congr (fun _ => hrows _) (hcursors _)⟩

theorem contactsPass {source : Option Token → Enumeration SourceContact}
    (h : InSync user tok ⟨logs, w⟩)
    (hran : Ran GwsMigrator.contacts user mode source w.db w'.db)
    (hreads : Reads GwsMigrator.contacts tok logs.contacts source)
    (hfresh : mode = .full → Fresh GwsMigrator.contacts user logs.contacts w.db) :
    InSync user tok ⟨logs, w'⟩ := by
  have hfiles : GwsMigrator.files.name ≠ GwsMigrator.contacts.name := by decide
  exact ⟨fun id => (h.hashes id).congr (hran.row hfiles), h.contacts.ran hreads hfresh hran,
    fun calId => hran.others (calendar_ne calId).1 (h.events calId), hran.others hfiles h.files⟩

/-- A calendar's pass concerns the rows and the cursor of that calendar only. -/
theorem eventsPass {calId : String} {source : Option Token → Enumeration SourceEvent}
    (h : InSync user tok ⟨logs, w⟩)
    (hran : Ran (GwsMigrator.events calId) user mode source w.db w'.db)
    (hreads : Reads (GwsMigrator.events calId) tok (logs.events calId) source)
    (hfresh : mode = .full → Fresh (GwsMigrator.events calId) user (logs.events calId) w.db) :
    InSync user tok ⟨logs, w'⟩ := by
  obtain ⟨hcontacts, hfiles⟩ := calendar_ne calId
  refine ⟨fun id => (h.hashes id).congr (hran.row hfiles.symm),
    hran.others hcontacts.symm h.contacts, fun other => ?_, hran.others hfiles.symm h.files⟩
  by_cases hsame : other = calId
  · subst hsame
    exact (h.events other).ran hreads hfresh hran
  · exact hran.others (fun hname => hsame (calendar_inj hname)) (h.events other)

theorem filesPass {p : FilesPass} (h : InSync user tok ⟨logs, w⟩)
    (hran : Ran GwsMigrator.files user mode p.source w.db (p.run g user w).db)
    (hreads : Reads GwsMigrator.files tok logs.files p.source)
    (hfresh : mode = .full → Fresh GwsMigrator.files user logs.files w.db) :
    InSync user tok ⟨logs, p.run g user w⟩ := by
  have hcontacts : GwsMigrator.contacts.name ≠ GwsMigrator.files.name := by decide
  exact ⟨p.run_hashDone w h.hashes, hran.others hcontacts h.contacts,
    fun calId => hran.others (calendar_ne calId).2 (h.events calId), h.files.ran hreads hfresh hran⟩

/-- The calendars of a run, one after the other. -/
theorem calendarsPass {calendars : Enumeration CalendarRef}
    {source : CalendarRef → Option Token → Enumeration SourceEvent}
    (h : InSync user tok ⟨logs, w⟩)
    (hreads : ∀ cal ∈ calendars.items,
      Reads (GwsMigrator.events cal.calId) tok (logs.events cal.calId) (source cal))
    (hfresh : Runs.Guarded (addCalendar g remap user mode source)
      (fun r cal => mode = .full → r.raised = none →
        Fresh (GwsMigrator.events cal.calId) user (logs.events cal.calId) r.world.db)
      { world := g.after w (.getUser user.destId) } calendars.items) :
    InSync user tok ⟨logs, (runCalendar g remap user mode calendars source w).world⟩ := by
  have hlookup : InSync user tok ⟨logs, g.after w (.getUser user.destId)⟩ :=
    h.same (SameStore.after g w _)
  -- each calendar is read by a feed of its own log and synced by its own cursor
  have hguard := Runs.guarded_and (addCalendar g remap user mode source) _ _ _ _
    (Runs.guarded_of_forall _ _ _ (fun _ cal hcal => hreads cal hcal) _) hfresh
  have hloop := Runs.guarded_run_invariant (addCalendar g remap user mode source)
    (fun r => InSync user tok ⟨logs, r.world⟩) _ (fun r cal hr hok => by
      obtain ⟨hreads, hfresh⟩ := hok
      unfold addCalendar
      by_cases hraised : r.raised.isSome = true
      · rw [if_pos hraised]
        exact hr
      · rw [if_neg hraised]
        have hnone : r.raised = none := by simpa using hraised
        exact hr.eventsPass (calendarPass_ran hreads (hr.events _)) hreads
          (fun hfull => hfresh hfull hnone)) _ _ hlookup hguard
  simp only [runCalendar]
  cases g.ask w (.getUser user.destId) with
  | error e => exact hlookup
  | ok _ =>
    simp only
    split <;> exact hloop

/-- What happens next keeps the rows in agreement. -/
theorem step {s : SyncState} (h : s.InSync user tok) (next : Happening)
    (hreads : s.ReadsLogs tok next) (hspares : s.Spares g remap user next) :
    (s.step g remap user next).InSync user tok := by
  cases next with
  | contactChanged c => exact ⟨h.hashes, h.contacts.edit c, h.events, h.files⟩
  | eventChanged calId event =>
    refine ⟨h.hashes, h.contacts, fun other => ?_, h.files⟩
    by_cases hsame : other = calId
    · subst hsame
      simp only [SyncState.step, Function.update_self]
      exact (h.events other).edit event
    · simp only [SyncState.step, Function.update_of_ne hsame]
      exact h.events other
  | fileChanged f => exact ⟨h.hashes, h.contacts, h.events, h.files.edit f⟩
  | contactsPass p =>
    exact h.contactsPass (runContacts_ran hreads h.contacts) hreads hspares
  | calendarPass p => exact h.calendarsPass hreads hspares
  | filesPass p =>
    exact h.filesPass (runFiles_ran hreads h.files h.hashes (fun hfull => (hspares hfull).2)) hreads
      (fun hfull => (hspares hfull).1)

end SyncState.InSync

end

/-- Nothing live is behind a cursor of the user and not applied in its current version. -/
structure SyncState.NothingBehind (user : UserMapping) (tok : ℕ → Token) (s : SyncState) :
    Prop where
  contacts : GwsMigrator.NothingBehind contacts user tok s.logs.contacts s.world.db
  events : ∀ calId, GwsMigrator.NothingBehind (events calId) user tok (s.logs.events calId)
    s.world.db
  files : GwsMigrator.NothingBehind files user tok s.logs.files s.world.db

def syncHistory (g : Graph) (remap : GraphBody → Except Exc GraphBody) (user : UserMapping)
    (history : List Happening) : SyncState :=
  history.foldl (SyncState.step g remap user) {}

/-- Over any history of changes and passes that spares what it would lose, nothing falls behind
the cursors: a version that is not applied will be read by the next delta pass. -/
theorem nothing_behind_cursor (g : Graph) (remap : GraphBody → Except Exc GraphBody)
    (user : UserMapping) (tok : ℕ → Token) (htok : Function.Injective tok)
    (history : List Happening)
    (hreads : Runs.Guarded (SyncState.step g remap user) (SyncState.ReadsLogs tok) {} history)
    (hspares : Runs.Guarded (SyncState.step g remap user) (SyncState.Spares g remap user) {}
      history) :
    (syncHistory g remap user history).NothingBehind user tok := by
  have hsync : (syncHistory g remap user history).InSync user tok :=
    Runs.guarded_run_invariant (SyncState.step g remap user) (SyncState.InSync user tok) _
      (fun s next hs hok => hs.step next hok.1 hok.2) {} history SyncState.InSync.start
      (Runs.guarded_and _ _ _ _ _ hreads hspares)
  exact ⟨hsync.contacts.nothingBehind htok, fun calId => (hsync.events calId).nothingBehind htok,
    hsync.files.nothingBehind htok⟩

/-- A cursor one character longer than its position. -/
def positionToken (p : ℕ) : Token :=
  ⟨String.ofList (List.replicate (p + 1) 'c'), by
    intro h
    simpa using congrArg String.toList h⟩

def position (t : Token) : ℕ := t.val.toList.length - 1

@[simp] theorem position_positionToken (p : ℕ) : position (positionToken p) = p := by
  simp [position, positionToken]

theorem positionToken_injective : Function.Injective positionToken :=
  Function.LeftInverse.injective position_positionToken

/-- A source that reads a change log as it should, and never raises. -/
def logged {α : Type} (wl : Workload α) (log : List α) (since : Option Token) : Enumeration α where
  items := changedSince wl.sourceId log (since.map position)
  lastCursor := some (positionToken log.length)

theorem logged_reads {α : Type} (wl : Workload α) (log : List α) :
    Reads wl positionToken log (logged wl log) := by
  intro pos
  have hpos : (pos.map positionToken).map position = pos := by
    cases pos with
    | none => rfl
    | some p => simp
  have hitems : (logged wl log (pos.map positionToken)).items =
      changedSince wl.sourceId log pos := by
    rw [logged, hpos]
  rw [hitems]
  refine ⟨feeds_changedSince log pos, fun _ => ⟨whole_changedSince wl.live log pos, ?_⟩⟩
  intro c hc
  exact (Option.some.inj hc).symm

def contactVersion (hash : String) : SourceContact := { sourceId := "a", sourceHash := hash }

/-- A contact is migrated by a full pass, changes, and is met by another full pass. -/
def changedContact : List Happening :=
  [.contactChanged (contactVersion "v1"),
   .contactsPass ⟨.full, logged contacts [contactVersion "v1"]⟩,
   .contactChanged (contactVersion "v2"),
   .contactsPass ⟨.full, logged contacts [contactVersion "v2", contactVersion "v1"]⟩]

/-- The second pass skips the contact, and its cursor is past the change. -/
theorem skipped_change_lost :
    ¬ ∀ (g : Graph) (remap : GraphBody → Except Exc GraphBody) (user : UserMapping)
      (tok : ℕ → Token), Function.Injective tok → ∀ history : List Happening,
      Runs.Guarded (SyncState.step g remap user) (SyncState.ReadsLogs tok) {} history →
      (syncHistory g remap user history).NothingBehind user tok := by
  intro h
  let user : UserMapping := ⟨"a@source", "a@dest"⟩
  have hreads : Runs.Guarded (SyncState.step calmGraph Except.ok user)
      (SyncState.ReadsLogs positionToken) {} changedContact :=
    ⟨trivial, logged_reads contacts _, trivial, logged_reads contacts _, trivial⟩
  have hnothing := (h calmGraph Except.ok user positionToken positionToken_injective
    changedContact hreads).contacts
  obtain ⟨row, hrow, -, hhash⟩ := hnothing 2 (by decide) (contactVersion "v2") (by decide)
    (by decide) rfl
  have hstale : ((syncHistory calmGraph Except.ok user changedContact).world.db.getItemState
      (contacts.key user (contacts.sourceId (contactVersion "v2")))).map (·.sourceHash) =
      some (some "v1") := by decide
  rw [hrow, Option.map_some, hhash] at hstale
  exact absurd hstale (by decide)

def homeCalendar : CalendarRef := ⟨"home", "Home"⟩

def meeting : SourceEvent := { sourceId := "e", sourceHash := "v1" }

def folder : SourceFile :=
  { sourceId := "f", name := "docs", isFolder := true, action := .createFolder }

/-- A full pass of each job, and a delta pass after a change. -/
def changedThenDelta : List Happening :=
  [.contactChanged (contactVersion "v1"), .eventChanged "home" meeting, .fileChanged folder,
   .contactsPass ⟨.full, logged contacts [contactVersion "v1"]⟩,
   .calendarPass ⟨.full, { items := [homeCalendar] },
    fun cal => logged (events cal.calId) [meeting]⟩,
   .filesPass ⟨.full, logged files [folder]⟩,
   .contactChanged (contactVersion "v2"),
   .contactsPass ⟨.delta, logged contacts [contactVersion "v2", contactVersion "v1"]⟩]

/-- The delta pass brings the contact up to date and moves the cursor. -/
theorem nothing_behind_delta :
    let user : UserMapping := ⟨"a@source", "a@dest"⟩
    let s := syncHistory calmGraph Except.ok user changedThenDelta
    s.NothingBehind user positionToken ∧
      s.world.db.getCursor (contacts.cursorKey user) = some (positionToken 2) := by
  intro user s
  have hreads : Runs.Guarded (SyncState.step calmGraph Except.ok user)
      (SyncState.ReadsLogs positionToken) {} changedThenDelta := by
    refine ⟨trivial, trivial, trivial, logged_reads contacts _, ?_, logged_reads files _, trivial,
      logged_reads contacts _, trivial⟩
    intro cal hcal
    rw [List.mem_singleton.mp hcal]
    exact logged_reads (events "home") [meeting]
  -- nothing is done before the full passes
  have hnew : ∀ {α : Type} (wl : Workload α) (x : α) (db : Db),
      wl.applied user db (wl.sourceId x) = none → Fresh wl user [x] db := by
    intro α wl x db hnone y hy _ _ hash hhash
    obtain rfl : y = x := List.mem_singleton.mp (List.mem_of_find?_eq_some hy)
    rw [hnone] at hhash
    exact absurd hhash (by simp)
  have hspares : Runs.Guarded (SyncState.step calmGraph Except.ok user)
      (SyncState.Spares calmGraph Except.ok user) {} changedThenDelta := by
    refine ⟨trivial, trivial, trivial, fun _ => hnew contacts _ _ rfl,
      ⟨fun _ _ => hnew (events "home") _ _ (by decide), trivial⟩,
      fun _ => ⟨hnew files _ _ (by decide), ?_⟩, trivial, fun hfull => absurd hfull (by decide),
      trivial⟩
    intro feed w' hfeed t ht _ hdone
    obtain ⟨rfl, rfl⟩ := Prod.mk.inj (Option.some.inj hfeed)
    rw [List.mem_singleton.mp ht] at hdone
    exact absurd hdone (by decide)
  exact ⟨nothing_behind_cursor calmGraph Except.ok user positionToken positionToken_injective
    changedThenDelta hreads hspares, by decide⟩

end GwsMigrator
