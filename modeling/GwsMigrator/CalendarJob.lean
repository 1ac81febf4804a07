import GwsMigrator.GraphCalls

/-! `workloads/calendar_job.py`: the calendar pass of one user, calendar by calendar. -/
namespace GwsMigrator

/-- The local variables of one calendar's loop. -/
structure CalendarLoop where
  world : World
  exceptions : List SourceEvent := []
  failures : ℕ := 0

def calendarWorkload (cal : CalendarRef) : String := "calendar:" ++ cal.calId

def eventKey (user : UserMapping) (cal : CalendarRef) (sourceId : String) : ItemKey :=
  ⟨user.sourceId, calendarWorkload cal, sourceId⟩

/-- `done and event.source_hash and state.source_hash == event.source_hash`. -/
def eventUnchanged (event : SourceEvent) (state : Option ItemValues) : Bool :=
  state.any (fun s => s.status = .done ∧ event.sourceHash ≠ "" ∧
    s.sourceHash = some event.sourceHash)

section
variable (g : Graph) (remap : GraphBody → Except Exc GraphBody) (user : UserMapping)
variable (mode : Mode) (cal : CalendarRef)

/-- `_handle_cancelled`. Its query filters on status done, as `get_dest_id` does. -/
def handleCancelled (w : World) (k : ItemKey) : World :=
  match w.db.getDestId k with
  | none => w
  | some id =>
    let w' := g.after w (.deleteEvent id)
    match g.ask w (.deleteEvent id) with
    -- only the status changes: the id of the deleted event stays in the row
    | .ok _ => { w' with db := w'.db.setStatus k .skipped }
    -- the failure is logged and not counted
    | .error _ => w'

/-- PATCH the recorded event or create one: the id it lives under, or what was raised. -/
def writeEvent (w : World) (calendarId : Token) (event : SourceEvent)
    (destExisting : Option Token) : Except Exc Token × World :=
  match remap event.graphBody with
  -- `remap_event` runs inside the same `try` as the calls
  | .error e => (.error e, w)
  | .ok body =>
    match destExisting with
    | some id =>
      let w' := g.after w (.patchEvent id body)
      match g.ask w (.patchEvent id body) with
      | .ok _ => (.ok id, w')
      | .error e => (.error e, w')
    | none =>
      let call := Call.createEvent (eventKey user cal event.sourceId) calendarId body
      match g.ask w call with
      | .ok id => (.ok id, g.after w call)
      | .error e => (.error e, g.after w call)

/-- The part of the loop body that creates or updates an event. -/
def migrateEvent (calendarId : Token) (st : CalendarLoop) (event : SourceEvent)
    (state : Option ItemValues) : CalendarLoop :=
  let k := eventKey user cal event.sourceId
  let destExisting := state.bind (·.destId)
  match writeEvent g remap user cal st.world calendarId event destExisting with
  | (.ok id, w) =>
    let row := { destId := some id, status := .done, sourceHash := orNone event.sourceHash }
    { st with world := w.upsertItem k row }
  | (.error e, w) =>
    { st with world := w.failItem k e destExisting (state.bind (·.sourceHash)),
              failures := st.failures + 1 }

/-- The loop body of `run_calendar`. -/
def processEvent (calendarId : Token) (st : CalendarLoop) (event : SourceEvent) : CalendarLoop :=
  let k := eventKey user cal event.sourceId
  let state := st.world.db.getItemState k
  -- a full pass skips what is done, before it looks at the kind of the event
  if state.any (·.status = .done) ∧ mode ≠ .delta ∧ ¬ event.isCancelled then st
  -- an occurrence of a series is put off until its master is there
  else if event.masterSourceId ≠ "" then { st with exceptions := st.exceptions ++ [event] }
  else if event.isCancelled then { st with world := handleCancelled g st.world k }
  else if eventUnchanged event state then st
  else migrateEvent g remap user cal calendarId st event state

/-- The body of the `try` in `_apply_exception`: the occurrence it wrote to, none when
there was nothing left to cancel. -/
def applyOccurrence (w : World) (event : SourceEvent) (masterDest : Option Token) :
    Except Exc (Option Token) × World :=
  match masterDest with
  | none =>
    (.error (.other ("series master " ++ event.masterSourceId ++ " is not migrated")), w)
  | some master =>
    if event.originalStart = "" then
      (.error (.other "occurrence carries no originalStartTime to match on"), w)
    else
      let find := Call.findInstance master event.originalStart
      let w₁ := g.after w find
      match g.ask w find with
      | .error e => (.error e, w₁)
      | .ok none =>
        -- nothing to delete: an earlier run may have done it
        if event.isCancelled then (.ok none, w₁)
        else (.error (.other "no matching occurrence in the destination series"), w₁)
      | .ok (some instanceId) =>
        if event.isCancelled then
          match g.ask w₁ (.deleteEvent instanceId) with
          | .ok _ => (.ok (some instanceId), g.after w₁ (.deleteEvent instanceId))
          | .error e => (.error e, g.after w₁ (.deleteEvent instanceId))
        else
          match remap event.graphBody with
          | .error e => (.error e, w₁)
          | .ok body =>
            match g.ask w₁ (.patchEvent instanceId body) with
            | .ok _ => (.ok (some instanceId), g.after w₁ (.patchEvent instanceId body))
            | .error e => (.error e, g.after w₁ (.patchEvent instanceId body))

/-- `_apply_exception`, with the count of its failures. -/
def applyException (st : CalendarLoop) (event : SourceEvent) : CalendarLoop :=
  let k := eventKey user cal event.sourceId
  let masterDest := st.world.db.getDestId (eventKey user cal event.masterSourceId)
  if eventUnchanged event (st.world.db.getItemState k) then st
  else
    match applyOccurrence g remap st.world event masterDest with
    | (.ok none, w) => { st with world := w.upsertItem k { status := .skipped } }
    | (.ok (some id), w) =>
      let row := { destId := some id, status := .done, sourceHash := orNone event.sourceHash }
      { st with world := w.upsertItem k row }
    | (.error e, w) =>
      { st with world := w.failItem k e none none, failures := st.failures + 1 }

/-- One calendar once its events are enumerated: the loop, the deferred exceptions and
the cursor. An enumeration that raises counts as one failure. -/
def migrateCalendar (calendarId : Token) (feed : Enumeration SourceEvent) (w : World) : JobResult :=
  let st := feed.items.foldl (processEvent g remap user mode cal calendarId) { world := w }
  -- the generator is dead, the calendar's cursor stays where it is
  let st := if feed.raised.isSome then { st with failures := st.failures + 1 } else st
  let st := st.exceptions.foldl (applyException g remap user cal) st
  advanceCursor { world := st.world, failures := st.failures }
    ⟨user.sourceId, calendarWorkload cal⟩ st.failures feed.lastCursor

/-- What comes before the loop: the destination calendar and where to enumerate from,
nothing when a delta pass has no cursor. -/
def openCalendar (w : World) : Except Exc (Option (Token × Option Token)) × World :=
  let w' := g.after w (.ensureCalendar cal.name)
  match g.ask w (.ensureCalendar cal.name) with
  | .error e => (.error e, w')
  | .ok calendarId =>
    let since := startFrom mode (w'.db.getCursor ⟨user.sourceId, calendarWorkload cal⟩)
    (.ok (since.map (fun s => (calendarId, s))), w')

/-- The pass over one calendar. -/
def calendarPass (source : Option Token → Enumeration SourceEvent) (w : World) : JobResult :=
  match openCalendar g user mode cal w with
  | (.error e, w) => { world := w, raised := some e }
  | (.ok none, w) => { world := w }
  | (.ok (some (calendarId, since)), w) =>
    migrateCalendar g remap user mode cal calendarId (source since) w

/-- One round of the loop over the calendars; what a calendar raises ends the run. -/
def addCalendar (source : CalendarRef → Option Token → Enumeration SourceEvent) (r : JobResult)
    (cal : CalendarRef) : JobResult :=
  -- `ensure_calendar` is outside the `try`
  if r.raised.isSome then r
  else
    let r' := calendarPass g remap user mode cal (source cal) r.world
    { r' with failures := r.failures + r'.failures, saved := r.saved ++ r'.saved }

/-- `run_calendar`, outside whatif mode. -/
def runCalendar (calendars : Enumeration CalendarRef)
    (source : CalendarRef → Option Token → Enumeration SourceEvent) (w : World) : JobResult :=
  let w' := g.after w (.getUser user.destId)
  match g.ask w (.getUser user.destId) with
  | .error e => { world := w', raised := some e }
  | .ok _ =>
    let r := calendars.items.foldl (addCalendar g remap user mode source) { world := w' }
    if r.raised.isSome then r else { r with raised := calendars.raised }

end

/-- The calls that an occurrence is applied with. -/
def Call.AppliesOccurrence : Call → Prop
  | .findInstance .. | .patchEvent .. | .deleteEvent _ => True
  | _ => False

section

variable {g : Graph} {remap : GraphBody → Except Exc GraphBody} {w : World} {event : SourceEvent}

/-- What the search of the instance leaves, and the calls of an occurrence keep, holds at the end
of an application that gets to the search. -/
theorem applyOccurrence_from_search (P : World → Prop) {master : Token}
    (hcall : ∀ w c, c.AppliesOccurrence → P w → P (g.after w c)) (hstart : event.originalStart ≠ "")
    (hfind : P (g.after w (.findInstance master event.originalStart))) :
    P (applyOccurrence g remap w event (some master)).2 := by
  simp only [applyOccurrence]
  rw [if_neg hstart]
  rcases g.ask w (.findInstance master event.originalStart) with e | (_ | instanceId)
  · exact hfind
  · simp only
    split <;> exact hfind
  · have hdelete := hcall _ (.deleteEvent instanceId) trivial hfind
    have hpatch := fun body => hcall _ (.patchEvent instanceId body) trivial hfind
    simp only
    -- the instance was found: a cancelled one is deleted, a moved one is patched
    by_cases hc : event.isCancelled = true
    · rw [if_pos hc]
      split <;> exact hdelete
    · rw [if_neg hc]
      cases remap event.graphBody with
      | error e => exact hfind
      | ok body =>
        simp only
        split <;> exact hpatch body

variable (g remap event) in
/-- What the calls of an occurrence keep, its application keeps, however far it gets. -/
theorem applyOccurrence_keeps (P : World → Prop)
    (hcall : ∀ w c, c.AppliesOccurrence → P w → P (g.after w c)) (hw : P w)
    (masterDest : Option Token) : P (applyOccurrence g remap w event masterDest).2 := by
  cases masterDest with
  | none => exact hw
  | some master =>
    by_cases hstart : event.originalStart = ""
    · simp only [applyOccurrence]
      rw [if_pos hstart]
      exact hw
    · exact applyOccurrence_from_search P hcall hstart (hcall w _ trivial hw)

end

end GwsMigrator
