import GwsMigrator.MailProgram

/-! `run_calendar` as the calls and the sessions it makes, one by one. -/
namespace GwsMigrator.Sessions
open Program

/-- What the loop of one calendar keeps in memory. -/
structure CalendarVars where
  exceptions : List SourceEvent := []
  failures : ℕ := 0

section
variable (remap : GraphBody → Except Exc GraphBody) (user : UserMapping)
variable (mode : Mode) (cal : CalendarRef)

def writeEvent (calendarId : Token) (event : SourceEvent) (destExisting : Option Token) :
    JobProgram (Except Exc Token) :=
  match remap event.graphBody with
  | .error e => pure (.error e)
  | .ok body =>
    match destExisting with
    | some id => do
      match ← call (.patchEvent id body) with
      | .ok _ => pure (.ok id)
      | .error e => pure (.error e)
    | none => do
      match ← call (.createEvent (eventKey user cal event.sourceId) calendarId body) with
      | .ok id => pure (.ok id)
      | .error e => pure (.error e)

def failEvent (vars : CalendarVars) (k : ItemKey) (e : Exc) (destId : Option Token)
    (sourceHash : Option String) : JobProgram CalendarVars := do
  session (.upsertItem k
    { destId := destId, sourceHash := sourceHash, status := .failed, lastError := some e.text })
  pure { vars with failures := vars.failures + 1 }

def migrateEvent (calendarId : Token) (vars : CalendarVars) (event : SourceEvent)
    (state : Option ItemValues) : JobProgram CalendarVars := do
  let k := eventKey user cal event.sourceId
  let destExisting := state.bind (·.destId)
  match ← writeEvent remap user cal calendarId event destExisting with
  | .ok id =>
    session (.upsertItem k
      { destId := some id, status := .done, sourceHash := orNone event.sourceHash })
    pure vars
  | .error e => failEvent vars k e destExisting (state.bind (·.sourceHash))

/-- The loop body of `run_calendar`. -/
def processEvent (calendarId : Token) (vars : CalendarVars) (event : SourceEvent) :
    JobProgram CalendarVars := do
  let k := eventKey user cal event.sourceId
  let state ← session (.getItemState k)
  if state.any (·.status = .done) ∧ mode ≠ .delta ∧ ¬ event.isCancelled then pure vars
  else if event.masterSourceId ≠ "" then
    -- its series has to be there first
    pure { vars with exceptions := vars.exceptions ++ [event] }
  else if event.isCancelled then
    session (.cancelDone k)
    pure vars
  else if eventUnchanged event state then pure vars
  else migrateEvent remap user cal calendarId vars event state

/-- The body of the `try` in `_apply_exception`. -/
def applyOccurrence (event : SourceEvent) (masterDest : Option Token) :
    JobProgram (Except Exc (Option Token)) :=
  match masterDest with
  | none => pure (.error (.other ("series master " ++ event.masterSourceId ++ " is not migrated")))
  | some master =>
    if event.originalStart = "" then
      pure (.error (.other "occurrence carries no originalStartTime to match on"))
    else do
      match ← call (.findInstance master event.originalStart) with
      | .error e => pure (.error e)
      | .ok none =>
        -- the occurrence is gone already
        if event.isCancelled then pure (.ok none)
        else pure (.error (.other "no matching occurrence in the destination series"))
      | .ok (some instanceId) =>
        if event.isCancelled then
          match ← call (.deleteEvent instanceId) with
          | .ok _ => pure (.ok (some instanceId))
          | .error e => pure (.error e)
        else
          match remap event.graphBody with
          | .error e => pure (.error e)
          | .ok body =>
            match ← call (.patchEvent instanceId body) with
            | .ok _ => pure (.ok (some instanceId))
            | .error e => pure (.error e)

/-- `_apply_exception`: the master and the occurrence are read in one session. -/
def applyException (vars : CalendarVars) (event : SourceEvent) : JobProgram CalendarVars := do
  let k := eventKey user cal event.sourceId
  let (masterDest, state) ← session (.readOccurrence (eventKey user cal event.masterSourceId) k)
  if eventUnchanged event state then pure vars
  else
    match ← applyOccurrence remap event masterDest with
    | .ok none =>
      session (.upsertItem k { status := .skipped })
      pure vars
    | .ok (some id) =>
      session (.upsertItem k
        { destId := some id, status := .done, sourceHash := orNone event.sourceHash })
      pure vars
    | .error e => failEvent vars k e none none

/-- An enumeration that raises is logged and counted, and leaves no row. -/
def endEnumeration (raised : Option Exc) (vars : CalendarVars) : JobProgram CalendarVars :=
  match raised with
  | some e => do
    session (.logFailure ⟨user.sourceId, calendarWorkload cal⟩ e)
    pure { vars with failures := vars.failures + 1 }
  | none => pure vars

/-- One calendar once its events are enumerated. -/
def migrateCalendar (calendarId : Token) (feed : Enumeration SourceEvent) :
    JobProgram Outcome := do
  let vars ← feed.items.foldlM (processEvent remap user mode cal calendarId) {}
  -- what the feed has yielded before it raised is still worked off
  let vars ← endEnumeration user cal feed.raised vars
  let vars ← vars.exceptions.foldlM (applyException remap user cal) vars
  advanceCursor { failures := vars.failures } ⟨user.sourceId, calendarWorkload cal⟩ vars.failures
    feed.lastCursor

/-- The pass over one calendar. -/
def calendarPass (source : Option Token → Enumeration SourceEvent) : JobProgram Outcome := do
  match ← call (.ensureCalendar cal.name) with
  | .error e => pure { raised := some e }
  | .ok calendarId =>
    match ← readCursor mode ⟨user.sourceId, calendarWorkload cal⟩ with
    | none => pure {}
    | some since => migrateCalendar remap user mode cal calendarId (source since)

def addCalendar (source : CalendarRef → Option Token → Enumeration SourceEvent) (out : Outcome)
    (cal : CalendarRef) : JobProgram Outcome :=
  -- the remaining calendars are not looked at
  if out.raised.isSome then pure out
  else do
    let out' ← calendarPass remap user mode cal (source cal)
    pure { out' with failures := out.failures + out'.failures, saved := out.saved ++ out'.saved }

/-- `run_calendar`. -/
def runCalendar (calendars : Enumeration CalendarRef)
    (source : CalendarRef → Option Token → Enumeration SourceEvent) : JobProgram Outcome := do
  match ← call (.getUser user.destId) with
  | .error e => pure { raised := some e }
  | .ok _ =>
    let out ← calendars.items.foldlM (addCalendar remap user mode source) {}
    if out.raised.isSome then pure out else pure { out with raised := calendars.raised }

end

end GwsMigrator.Sessions

namespace GwsMigrator
open Program

def CalendarLoop.vars (st : CalendarLoop) : Sessions.CalendarVars :=
  { exceptions := st.exceptions, failures := st.failures }

section running

variable (g : Graph) (remap : GraphBody → Except Exc GraphBody) (user : UserMapping)
variable (mode : Mode) (cal : CalendarRef) (w : World)

theorem run_writeEvent (calendarId : Token) (event : SourceEvent) (destExisting : Option Token) :
    (Sessions.writeEvent remap user cal calendarId event destExisting).run (serve g) w =
      writeEvent g remap user cal w calendarId event destExisting := by
  simp only [Sessions.writeEvent, writeEvent]
  cases remap event.graphBody with
  | error e => rfl
  | ok body =>
    cases destExisting with
    | some id =>
      simp only [perform_bind, run_request, serve]
      cases g.ask w (.patchEvent id body) <;> rfl
    | none =>
      simp only [perform_bind, run_request, serve]
      cases g.ask w (.createEvent (eventKey user cal event.sourceId) calendarId body) <;> rfl

theorem run_migrateEvent (calendarId : Token) (st : CalendarLoop) (event : SourceEvent)
    (state : Option ItemValues) :
    (Sessions.migrateEvent remap user cal calendarId st.vars event state).run (serve g) st.world =
      let st' := migrateEvent g remap user cal calendarId st event state
      (st'.vars, st'.world) := by
  simp only [Sessions.migrateEvent, migrateEvent, run_bind, run_writeEvent]
  generalize writeEvent g remap user cal st.world calendarId event (state.bind (·.destId)) = written
  obtain ⟨answer, w⟩ := written
  cases answer <;> rfl

/-- The loop body makes the calls and sessions that it stands for. -/
theorem run_processEvent (calendarId : Token) (st : CalendarLoop) (event : SourceEvent) :
    (Sessions.processEvent remap user mode cal calendarId st.vars event).run (serve g) st.world =
      let st' := processEvent g remap user mode cal calendarId st event
      (st'.vars, st'.world) := by
  unfold Sessions.processEvent processEvent
  simp only [perform_bind, run_request]
  dsimp +instances only [serve]
  generalize st.world.db.getItemState (eventKey user cal event.sourceId) = state
  -- both sides test in the same order, on the row read at the start
  by_cases hdone : state.any (·.status = .done) ∧ mode ≠ .delta ∧ ¬ event.isCancelled
  · rw [if_pos hdone, if_pos hdone]
    rfl
  rw [if_neg hdone, if_neg hdone]
  by_cases hmaster : event.masterSourceId ≠ ""
  · rw [if_pos hmaster, if_pos hmaster]
    rfl
  rw [if_neg hmaster, if_neg hmaster]
  by_cases hcancelled : event.isCancelled = true
  · rw [if_pos hcancelled, if_pos hcancelled]
    rfl
  rw [if_neg hcancelled, if_neg hcancelled]
  by_cases hunchanged : eventUnchanged event state = true
  · rw [if_pos hunchanged, if_pos hunchanged]
    rfl
  rw [if_neg hunchanged, if_neg hunchanged]
  exact run_migrateEvent g remap user cal calendarId st event state

theorem run_applyOccurrence (event : SourceEvent) (masterDest : Option Token) :
    (Sessions.applyOccurrence remap event masterDest).run (serve g) w =
      applyOccurrence g remap w event masterDest := by
  unfold Sessions.applyOccurrence applyOccurrence
  cases masterDest with
  | none => rfl
  | some master =>
    simp only
    by_cases hstart : event.originalStart = ""
    · rw [if_pos hstart, if_pos hstart]
      rfl
    rw [if_neg hstart, if_neg hstart]
    simp only [perform_bind, run_request, serve]
    cases g.ask w (.findInstance master event.originalStart) with
    | error e => rfl
    | ok found =>
      cases found with
      | none =>
        simp only
        split <;> rfl
      -- a listed instance: one more call, DELETE or PATCH
      | some instanceId =>
        simp only
        split
        · simp only [run_request, serve]
          cases g.ask (g.after w (.findInstance master event.originalStart))
            (.deleteEvent instanceId) <;> rfl
        · cases remap event.graphBody with
          | error e => rfl
          | ok body =>
            simp only [run_request, serve]
            cases g.ask (g.after w (.findInstance master event.originalStart))
              (.patchEvent instanceId body) <;> rfl

theorem run_applyException (st : CalendarLoop) (event : SourceEvent) :
    (Sessions.applyException remap user cal st.vars event).run (serve g) st.world =
      let st' := applyException g remap user cal st event
      (st'.vars, st'.world) := by
  unfold Sessions.applyException applyException
  simp only [perform_bind, run_request]
  dsimp +instances only [serve]
  generalize st.world.db.getItemState (eventKey user cal event.sourceId) = state
  by_cases hunchanged : eventUnchanged event state = true
  · rw [if_pos hunchanged, if_pos hunchanged]
    rfl
  rw [if_neg hunchanged, if_neg hunchanged]
  simp only [run_bind, run_applyOccurrence]
  generalize applyOccurrence g remap st.world event _ = applied
  obtain ⟨answer, w⟩ := applied
  cases answer with
  | error e => rfl
  | ok found => cases found <;> rfl

theorem run_migrateCalendar (calendarId : Token) (feed : Enumeration SourceEvent) :
    (Sessions.migrateCalendar remap user mode cal calendarId feed).run (serve g) w =
      let r := migrateCalendar g remap user mode cal calendarId feed w
      (r.outcome, r.world) := by
  have hloop := run_foldlM CalendarLoop.vars CalendarLoop.world feed.items
    (fun st event _ => run_processEvent g remap user mode cal calendarId st event) { world := w }
  have hvars : CalendarLoop.vars { world := w } = {} := rfl
  rw [hvars] at hloop
  -- the deferred exceptions and the cursor, wherever the loop has ended
  have htail : ∀ st : CalendarLoop,
      (st.vars.exceptions.foldlM (Sessions.applyException remap user cal) st.vars >>= fun vars =>
        Sessions.advanceCursor { failures := vars.failures } ⟨user.sourceId, calendarWorkload cal⟩
          vars.failures feed.lastCursor).run (serve g) st.world =
        let st' := st.exceptions.foldl (applyException g remap user cal) st
        let r := advanceCursor { world := st'.world, failures := st'.failures }
          ⟨user.sourceId, calendarWorkload cal⟩ st'.failures feed.lastCursor
        (r.outcome, r.world) := by
    intro st
    have hexceptions := run_foldlM CalendarLoop.vars CalendarLoop.world st.exceptions
      (fun st event _ => run_applyException g remap user cal st event) st
    rw [run_bind]
    have hlist : st.vars.exceptions = st.exceptions := rfl
    rw [hlist, hexceptions]
    generalize st.exceptions.foldl (applyException g remap user cal) st = st'
    exact run_advanceCursor g { world := st'.world, failures := st'.failures }
      ⟨user.sourceId, calendarWorkload cal⟩ st'.failures feed.lastCursor
  simp only [Sessions.migrateCalendar, migrateCalendar]
  rw [run_bind, hloop]
  generalize feed.items.foldl (processEvent g remap user mode cal calendarId) { world := w } = st
  cases feed.raised with
  | none => exact htail st
  | some e => exact htail { st with failures := st.failures + 1 }

theorem run_calendarPass (source : Option Token → Enumeration SourceEvent) :
    (Sessions.calendarPass remap user mode cal source).run (serve g) w =
      let r := calendarPass g remap user mode cal source w
      (r.outcome, r.world) := by
  simp only [Sessions.calendarPass, calendarPass, openCalendar, perform_bind, run_request, serve]
  cases g.ask w (.ensureCalendar cal.name) with
  | error e => rfl
  | ok calendarId =>
    simp only [run_bind, run_readCursor]
    cases startFrom mode ((g.after w (.ensureCalendar cal.name)).db.getCursor
      ⟨user.sourceId, calendarWorkload cal⟩) with
    | none => rfl
    | some since => exact run_migrateCalendar g remap user mode cal _ calendarId (source since)

theorem run_addCalendar (source : CalendarRef → Option Token → Enumeration SourceEvent)
    (r : JobResult) :
    (Sessions.addCalendar remap user mode source r.outcome cal).run (serve g) r.world =
      let r' := addCalendar g remap user mode source r cal
      (r'.outcome, r'.world) := by
  unfold Sessions.addCalendar addCalendar
  have hsame : r.outcome.raised = r.raised := rfl
  rw [hsame]
  by_cases hraised : r.raised.isSome = true
  · rw [if_pos hraised, if_pos hraised]
    rfl
  · rw [if_neg hraised, if_neg hraised]
    simp only [run_bind, run_calendarPass, run_pure]
    rfl

/-- `run_calendar` as a program leaves what the job leaves. -/
theorem run_runCalendar (calendars : Enumeration CalendarRef)
    (source : CalendarRef → Option Token → Enumeration SourceEvent) :
    (Sessions.runCalendar remap user mode calendars source).run (serve g) w =
      let r := runCalendar g remap user mode calendars source w
      (r.outcome, r.world) := by
  simp only [Sessions.runCalendar, runCalendar, perform_bind, run_request, serve]
  cases g.ask w (.getUser user.destId) with
  | error e => rfl
  | ok _ =>
    have hloop := run_foldlM JobResult.outcome JobResult.world calendars.items
      (fun r cal _ => run_addCalendar g remap user mode cal source r)
      { world := g.after w (.getUser user.destId) }
    have hstart : JobResult.outcome { world := g.after w (.getUser user.destId) } = {} := rfl
    rw [hstart] at hloop
    simp only [run_bind]
    rw [hloop]
    generalize calendars.items.foldl (addCalendar g remap user mode source)
      { world := g.after w (.getUser user.destId) } = r
    -- an exception that left the loop ends the run on both sides
    have hsame : r.outcome.raised = r.raised := rfl
    rw [hsame]
    by_cases hraised : r.raised.isSome = true
    · rw [if_pos hraised, if_pos hraised]
      rfl
    · rw [if_neg hraised, if_neg hraised]
      rfl

end running

section touched

variable {keys : Set CursorKey} {remap : GraphBody → Except Exc GraphBody} {user : UserMapping}
variable {mode : Mode} {cal : CalendarRef}

theorem uses_writeEvent (calendarId : Token) (event : SourceEvent) (destExisting : Option Token) :
    (Sessions.writeEvent remap user cal calendarId event destExisting).Uses
      (Request.Within keys) := by
  unfold Sessions.writeEvent
  cases remap event.graphBody with
  | error e => exact uses_pure _
  | ok body =>
    cases destExisting
    all_goals
      apply uses_bind (uses_call _)
      intro answer
      cases answer <;> exact uses_pure _

theorem uses_applyOccurrence (event : SourceEvent) (masterDest : Option Token) :
    (Sessions.applyOccurrence remap event masterDest).Uses (Request.Within keys) := by
  unfold Sessions.applyOccurrence
  cases masterDest with
  | none => exact uses_pure _
  | some master =>
    simp only
    split
    · exact uses_pure _
    apply uses_bind (uses_call _)
    intro found
    obtain e | none | instanceId := found
    · exact uses_pure _
    · simp only
      split <;> exact uses_pure _
    · simp only
      split
      · apply uses_bind (uses_call _)
        intro answer
        cases answer <;> exact uses_pure _
      · cases remap event.graphBody with
        | error e => exact uses_pure _
        | ok body =>
          apply uses_bind (uses_call _)
          intro answer
          cases answer <;> exact uses_pure _

section calendar

variable (hk : ⟨user.sourceId, calendarWorkload cal⟩ ∈ keys)
include hk

theorem uses_failEvent (vars : Sessions.CalendarVars) (event : SourceEvent) (e : Exc)
    (destId : Option Token) (sourceHash : Option String) :
    (Sessions.failEvent vars (eventKey user cal event.sourceId) e destId sourceHash).Uses
      (Request.Within keys) :=
  uses_bind (uses_perform hk) (fun _ => uses_pure _)

theorem uses_processEvent (calendarId : Token) (vars : Sessions.CalendarVars)
    (event : SourceEvent) :
    (Sessions.processEvent remap user mode cal calendarId vars event).Uses
      (Request.Within keys) := by
  have hrow : (eventKey user cal event.sourceId).owner ∈ keys := hk
  refine uses_bind (uses_perform hrow) (fun state => ?_)
  split
  · exact uses_pure _
  split
  · exact uses_pure _
  split
  · exact uses_bind (uses_perform hrow) (fun _ => uses_pure _)
  split
  · exact uses_pure _
  apply uses_bind (uses_writeEvent calendarId event _)
  intro answer
  cases answer with
  | error e => exact uses_failEvent hk vars event e _ _
  | ok id => exact uses_bind (uses_perform hrow) (fun _ => uses_pure _)

theorem uses_applyException (vars : Sessions.CalendarVars) (event : SourceEvent) :
    (Sessions.applyException remap user cal vars event).Uses (Request.Within keys) := by
  have hrow : (eventKey user cal event.sourceId).owner ∈ keys := hk
  have hboth : (Request.readOccurrence (eventKey user cal event.masterSourceId)
      (eventKey user cal event.sourceId)).Within keys := ⟨hk, hk⟩
  apply uses_bind (uses_perform hboth)
  intro rows
  obtain ⟨masterDest, state⟩ := rows
  simp only
  split
  · exact uses_pure _
  apply uses_bind (uses_applyOccurrence event masterDest)
  intro applied
  obtain e | none | id := applied
  · exact uses_failEvent hk vars event e none none
  · exact uses_bind (uses_perform hrow) (fun _ => uses_pure _)
  · exact uses_bind (uses_perform hrow) (fun _ => uses_pure _)

theorem uses_calendarPass (source : Option Token → Enumeration SourceEvent) :
    (Sessions.calendarPass remap user mode cal source).Uses (Request.Within keys) := by
  apply uses_bind (uses_call _)
  intro found
  cases found with
  | error e => exact uses_pure _
  | ok calendarId =>
    apply uses_bind (uses_readCursor hk mode)
    intro since
    cases since with
    | none => exact uses_pure _
    | some since =>
      refine uses_bind (uses_foldlM _ (fun vars event _ =>
        uses_processEvent hk calendarId vars event) {}) (fun vars => ?_)
      -- the end of the enumeration may log a failure, and touches no row
      have hended : (Sessions.endEnumeration user cal (source since).raised vars).Uses
          (Request.Within keys) := by
        unfold Sessions.endEnumeration
        split
        · exact uses_bind (uses_perform trivial) (fun _ => uses_pure _)
        · exact uses_pure _
      apply uses_bind hended
      intro vars
      exact uses_bind (uses_foldlM _ (fun vars event _ => uses_applyException hk vars event) _)
        (fun vars => uses_advanceCursor hk _ _ _)

end calendar

/-- A calendar run stays with the rows of its user's calendars. -/
theorem uses_runCalendar {calendars : Enumeration CalendarRef}
    (hk : ∀ cal ∈ calendars.items, ⟨user.sourceId, calendarWorkload cal⟩ ∈ keys)
    (source : CalendarRef → Option Token → Enumeration SourceEvent) :
    (Sessions.runCalendar remap user mode calendars source).Uses (Request.Within keys) := by
  apply uses_bind (uses_call _)
  intro found
  cases found with
  | error e => exact uses_pure _
  | ok _ =>
    refine uses_bind (uses_foldlM _ (fun out cal hcal => ?_) _) (fun out => ?_)
    · unfold Sessions.addCalendar
      split
      · exact uses_pure _
      · exact uses_bind (uses_calendarPass (hk cal hcal) (source cal)) (fun _ => uses_pure _)
    · split <;> exact uses_pure _

end touched

end GwsMigrator
