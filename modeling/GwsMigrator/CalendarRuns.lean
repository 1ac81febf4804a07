import GwsMigrator.CalendarJob
import GwsMigrator.CoherentWorlds
import GwsMigrator.GuardedRuns

/-! The states that calendar passes reach, and what a pass does to the events of one
feed, step by step. -/
namespace GwsMigrator
open Dialogue Mirror

/-- One calendar's pass: the calendar, the mode and what the source yields from each cursor. -/
structure CalendarPass where
  cal : CalendarRef
  mode : Mode
  source : Option Token → Enumeration SourceEvent

section
variable (g : Graph) (remap : GraphBody → Except Exc GraphBody) (user : UserMapping)

def CalendarPass.run (p : CalendarPass) (w : World) : JobResult :=
  calendarPass g remap user p.mode p.cal p.source w

/-- The states reached by any sequence of user lookups and calendar passes, each pass
meeting `ok` in the state it starts from. -/
inductive CalendarReach (ok : CalendarPass → World → Prop) : World → Prop
  | start : CalendarReach ok {}
  | lookup {w : World} : CalendarReach ok w → CalendarReach ok (g.after w (.getUser user.destId))
  | pass {w : World} (p : CalendarPass) : CalendarReach ok w → ok p w →
      CalendarReach ok (p.run g remap user w).world

/-- The loop of a pass meets `ok` before each event, if the pass gets to its loop. -/
def CalendarPass.Steps (ok : CalendarLoop → SourceEvent → Prop) (p : CalendarPass) (w : World) :
    Prop :=
  match openCalendar g user p.mode p.cal w with
  | (.ok (some (calendarId, since)), w') =>
    Runs.Guarded (processEvent g remap user p.mode p.cal calendarId) ok { world := w' }
      (p.source since).items
  | _ => True

/-- Writing an event changes nothing, or gives an event without a recorded id a fresh copy. -/
theorem migrateEvent_cases (cal : CalendarRef) (calendarId : Token) (st : CalendarLoop)
    (event : SourceEvent) :
    let k := eventKey user cal event.sourceId
    let st' := migrateEvent g remap user cal calendarId st event (st.world.db.getItemState k)
    st'.exceptions = st.exceptions ∧
    ((st'.world.db.recorded = st.world.db.recorded ∧
        replay eventEffect st'.world.log = replay eventEffect st.world.log) ∨
      ∃ id, id ∉ issued eventEffect st.world.log ∧ st.world.db.recorded k = none ∧
        st'.world.db.recorded = Function.update st.world.db.recorded k (some id) ∧
        replay eventEffect st'.world.log = (id, k) :: replay eventEffect st.world.log) := by
  intro k st'
  have hr := recorded_of_getItemState (w := st.world) (k := k) rfl
  have hfail : ∀ (w : World) (e : Exc) (h : Option String), w.db.recorded = st.world.db.recorded →
      (w.failItem k e (st.world.db.recorded k) h).db.recorded = st.world.db.recorded := by
    intro w e h hw
    rw [World.failItem, World.upsertItem_db, Db.recorded_upsertItem, hw, Function.update_eq_self]
  refine ⟨?_, ?_⟩
  · simp only [st', migrateEvent]
    split <;> rfl
  · simp only [st', migrateEvent, ← hr, writeEvent]
    cases remap event.graphBody with
    | error e => exact Or.inl ⟨hfail _ _ _ rfl, rfl⟩
    | ok body =>
      -- an id in the row means PATCH, none means create: the row decides, not the status
      cases hrec : st.world.db.recorded k with
      | some id =>
        simp only
        cases g.ask st.world (.patchEvent id body) with
        | ok r =>
          refine Or.inl ⟨?_, rfl⟩
          rw [World.upsertItem_db, Db.recorded_upsertItem, Graph.recorded_after, ← hrec,
            Function.update_eq_self]
        | error e => exact Or.inl ⟨hrec ▸ hfail _ _ _ rfl, rfl⟩
      | none =>
        simp only
        cases hans : g.ask st.world (.createEvent k calendarId body) with
        | ok id =>
          refine Or.inr ⟨id, g.createEvent_fresh _ _ _ _ id hans, trivial, ?_, ?_⟩
          · simp only [k, World.upsertItem_db, Db.recorded_upsertItem, Graph.recorded_after]
          · simp only [k, hans, World.upsertItem_log, Graph.after_log, replay]
            rfl
        | error e =>
          refine Or.inl ⟨?_, ?_⟩
          · simp only [k]
            exact hrec ▸ hfail _ _ _ rfl
          · simp only [k, hans, World.failItem, World.upsertItem_log, Graph.after_log, replay]
            rfl

variable {g remap user} {ok : CalendarPass → World → Prop}

/-- What a pass enumerates from the state it starts in, if it enumerates. -/
def CalendarPass.feed (user : UserMapping) (p : CalendarPass) (w : World) :
    Option (Enumeration SourceEvent) :=
  (startFrom p.mode (w.db.getCursor ⟨user.sourceId, calendarWorkload p.cal⟩)).map p.source

/-- A pass opens its calendar, and then stops or goes through the events. -/
theorem CalendarPass.run_cases (p : CalendarPass) (w : World) :
    (∃ raised, p.run g remap user w =
      { world := g.after w (.ensureCalendar p.cal.name), raised := raised }) ∨
    ∃ calendarId since, p.feed user w = some (p.source since) ∧
      p.run g remap user w = migrateCalendar g remap user p.mode p.cal calendarId
        (p.source since) (g.after w (.ensureCalendar p.cal.name)) ∧
      ∀ ok, p.Steps g remap user ok w →
        Runs.Guarded (processEvent g remap user p.mode p.cal calendarId) ok
          { world := g.after w (.ensureCalendar p.cal.name) } (p.source since).items := by
  simp only [CalendarPass.run, calendarPass, CalendarPass.Steps, openCalendar, CalendarPass.feed,
    Graph.getCursor_after]
  cases g.ask w (.ensureCalendar p.cal.name) with
  | error e => exact Or.inl ⟨some e, rfl⟩
  | ok calendarId =>
    simp only
    cases startFrom p.mode (w.db.getCursor ⟨user.sourceId, calendarWorkload p.cal⟩) with
    | none => exact Or.inl ⟨none, rfl⟩
    | some since => exact Or.inr ⟨calendarId, since, rfl, rfl, fun _ h => h⟩

theorem CalendarPass.steps_of_forall {ok : CalendarLoop → SourceEvent → Prop}
    (h : ∀ st event, ok st event) (p : CalendarPass) (w : World) : p.Steps g remap user ok w := by
  unfold CalendarPass.Steps
  split
  · exact Runs.guarded_of_forall _ _ _ (fun st event _ => h st event) _
  · trivial

theorem addCalendar_reach {mode : Mode}
    {source : CalendarRef → Option Token → Enumeration SourceEvent} {r : JobResult}
    {cal : CalendarRef} (h : CalendarReach g remap user ok r.world)
    (hok : ok ⟨cal, mode, source cal⟩ r.world) :
    CalendarReach g remap user ok (addCalendar g remap user mode source r cal).world := by
  unfold addCalendar
  by_cases hr : r.raised.isSome = true
  · rw [if_pos hr]
    exact h
  · rw [if_neg hr]
    exact CalendarReach.pass ⟨cal, mode, source cal⟩ h hok

/-- Every run of `run_calendar` is such a sequence. -/
theorem runCalendar_reach {mode : Mode} {calendars : Enumeration CalendarRef}
    {source : CalendarRef → Option Token → Enumeration SourceEvent} {w : World}
    (h : CalendarReach g remap user ok w)
    (hok : Runs.Guarded (addCalendar g remap user mode source)
      (fun r cal => ok ⟨cal, mode, source cal⟩ r.world)
      { world := g.after w (.getUser user.destId) } calendars.items) :
    CalendarReach g remap user ok (runCalendar g remap user mode calendars source w).world := by
  have hlookup := CalendarReach.lookup h
  simp only [runCalendar]
  cases g.ask w (.getUser user.destId) with
  | error e => exact hlookup
  | ok _ =>
    have hloop := Runs.guarded_run_invariant (addCalendar g remap user mode source)
      (fun r => CalendarReach g remap user ok r.world) _
      (fun r cal hr hc => addCalendar_reach hr hc) _ _ hlookup hok
    simp only
    split
    · exact hloop
    · exact hloop

end

end GwsMigrator
