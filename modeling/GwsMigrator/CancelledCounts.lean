import GwsMigrator.CalendarRuns
import GwsMigrator.CalendarSync
import GwsMigrator.ScriptedGraph

/-! Which cancelled events a calendar pass counts as failures when no call fails. The main
loop counts none. `_apply_exception` looks for the series before it looks at the kind of the
change, so it counts a cancelled occurrence whose series is gone, and holds the cursor back
over something that has nothing left to delete. -/
namespace GwsMigrator
open Dialogue

section
variable (g : Graph) (remap : GraphBody → Except Exc GraphBody) (user : UserMapping)

/-- The occurrences of a pass meet `ok` one by one, if the pass gets to them. -/
def CalendarPass.OccurrenceSteps (ok : CalendarLoop → SourceEvent → Prop) (p : CalendarPass)
    (w : World) : Prop :=
  match openCalendar g user p.mode p.cal w with
  | (.ok (some (calendarId, since)), w') =>
    let st := (p.source since).items.foldl (processEvent g remap user p.mode p.cal calendarId)
      { world := w' }
    Runs.Guarded (applyException g remap user p.cal) ok st st.exceptions
  | _ => True

/-- The events a pass counts as failures, those of the loop before the occurrences. -/
def CalendarPass.counted (p : CalendarPass) (w : World) : List SourceEvent :=
  match openCalendar g user p.mode p.cal w with
  | (.ok (some (calendarId, since)), w') =>
    let step := processEvent g remap user p.mode p.cal calendarId
    let st := (p.source since).items.foldl step { world := w' }
    Runs.growing step CalendarLoop.failures { world := w' } (p.source since).items ++
      Runs.growing (applyException g remap user p.cal) CalendarLoop.failures st st.exceptions
  | _ => []

/-- The occurrence is recorded with the same change marker, or its series is migrated and
its original start is known. -/
def OccurrenceFindable (cal : CalendarRef) (st : CalendarLoop) (event : SourceEvent) : Prop :=
  eventUnchanged event (st.world.db.getItemState (eventKey user cal event.sourceId)) = true ∨
    ((st.world.db.getDestId (eventKey user cal event.masterSourceId)).isSome = true ∧
      event.originalStart ≠ "")

variable {g remap user} (mode : Mode) (cal : CalendarRef) (calendarId : Token)

/-- The main loop counts no cancelled event. -/
theorem processEvent_cancelled (st : CalendarLoop) (event : SourceEvent)
    (hc : event.isCancelled = true) :
    (processEvent g remap user mode cal calendarId st event).failures = st.failures := by
  simp only [processEvent, hc, not_true_eq_false, and_false, if_false, if_true]
  split <;> rfl

/-- With no failing call, a cancelled occurrence is counted exactly when it is not findable. -/
theorem applyException_cancelled (hcalm : NoFailure g) (st : CalendarLoop) (event : SourceEvent)
    (hc : event.isCancelled = true) :
    (applyException g remap user cal st event).failures ≤ st.failures ↔
      OccurrenceFindable user cal st event := by
  simp only [applyException, OccurrenceFindable]
  by_cases hsame : eventUnchanged event
      (st.world.db.getItemState (eventKey user cal event.sourceId)) = true
  · simp only [hsame, if_true, le_refl, true_or]
  · simp only [hsame, Bool.false_eq_true, if_false, false_or]
    cases st.world.db.getDestId (eventKey user cal event.masterSourceId) with
    | none => simp [applyOccurrence]
    | some master =>
      simp only [applyOccurrence, hc, if_true, Option.isSome_some, true_and]
      by_cases hstart : event.originalStart = ""
      · simp [hstart]
      · obtain ⟨found, hfind⟩ :=
          hcalm.ask_eq_ok st.world (.findInstance master event.originalStart)
        simp only [if_neg hstart, hfind]
        -- a missing instance and a deleted one both end as a success
        cases found with
        | none => simp [hstart]
        | some instanceId =>
          obtain ⟨r, hdelete⟩ := hcalm.ask_eq_ok
            (g.after st.world (.findInstance master event.originalStart)) (.deleteEvent instanceId)
          simp [hdelete, hstart]

theorem applyException_mono (st : CalendarLoop) (event : SourceEvent) :
    st.failures ≤ (applyException g remap user cal st event).failures := by
  simp only [applyException]
  split
  · exact le_rfl
  · split <;> simp

variable (g remap user) in
/-- A feed of cancelled events gets through the main loop without a failure, and leaves
cancelled occurrences behind it. -/
theorem processEvents_cancelled (items : List SourceEvent)
    (hc : ∀ event ∈ items, event.isCancelled = true) (st : CalendarLoop) :
    let st' := items.foldl (processEvent g remap user mode cal calendarId) st
    st'.failures = st.failures ∧
      ((∀ event ∈ st.exceptions, event.isCancelled = true) →
        ∀ event ∈ st'.exceptions, event.isCancelled = true) := by
  intro st'
  refine List.foldlRecOn items _ (motive := fun st' : CalendarLoop =>
    st'.failures = st.failures ∧ ((∀ event ∈ st.exceptions, event.isCancelled = true) →
      ∀ event ∈ st'.exceptions, event.isCancelled = true)) ⟨rfl, fun h => h⟩ ?_
  rintro st₁ ⟨hcount, hall⟩ event hev
  refine ⟨(processEvent_cancelled mode cal calendarId st₁ event (hc event hev)).trans hcount, ?_⟩
  intro hst x hx
  rcases processEvent_exceptions g remap user mode cal calendarId st₁ event with
    hsame | ⟨happ, -⟩
  · exact hall hst x (hsame ▸ hx)
  · rw [happ] at hx
    rcases List.mem_append.mp hx with hx | hx
    · exact hall hst x hx
    · exact List.mem_singleton.mp hx ▸ hc event hev

variable (p : CalendarPass) (w : World)

variable (g remap user) in
/-- No event the source reports as cancelled is counted as a failure. -/
def CalendarPass.CountsNoCancellation : Prop :=
  ∀ event ∈ p.counted g remap user w, ¬ event.isCancelled = true

/-- The condition on the occurrences of a pass, read off its cancelled ones. -/
theorem CalendarPass.countsNoCancellation_iff (hcalm : NoFailure g) :
    p.CountsNoCancellation g remap user w ↔ p.OccurrenceSteps g remap user
      (fun st event => event.isCancelled = true → OccurrenceFindable user p.cal st event) w := by
  unfold CountsNoCancellation CalendarPass.counted OccurrenceSteps
  rcases openCalendar g user p.mode p.cal w with ⟨e | (_ | ⟨calendarId, since⟩), w'⟩
  · simp
  · simp
  · simp only [List.mem_append, or_imp, forall_and]
    rw [Runs.forall_growing_iff, Runs.forall_growing_iff]
    -- the main loop counts none, so all depends on the occurrences
    have hloop := Runs.guarded_of_forall (processEvent g remap user p.mode p.cal calendarId)
      (fun st event => event.isCancelled = true →
        (processEvent g remap user p.mode p.cal calendarId st event).failures ≤ st.failures)
      (p.source since).items
      (fun st event _ hc =>
        Nat.le_of_eq (processEvent_cancelled p.mode p.cal calendarId st event hc))
      { world := w' }
    rw [and_iff_right hloop]
    exact Runs.guarded_congr _ _ (fun st event _ =>
      imp_congr_right (fun hc => applyException_cancelled p.cal hcalm st event hc)) _

/-- A pass over cancelled events alone saves its cursor when no occurrence is counted. -/
theorem CalendarPass.cancelled_saved_iff (hcalm : NoFailure g)
    (hfeed : ∀ feed ∈ p.feed user w, feed.raised = none) {feed : Enumeration SourceEvent}
    {c : Token} (hran : p.feed user w = some feed)
    (hc : ∀ event ∈ feed.items, event.isCancelled = true) (hlast : feed.lastCursor = some c) :
    (p.run g remap user w).saved = [(calendarWorkload p.cal, c)] ↔ p.OccurrenceSteps g remap user
      (fun st event => event.isCancelled = true → OccurrenceFindable user p.cal st event) w := by
  obtain ⟨calendarId, hopen⟩ := hcalm.ask_eq_ok w (.ensureCalendar p.cal.name)
  have hraised := hfeed feed hran
  obtain ⟨since, hsince, rfl⟩ := Option.map_eq_some_iff.mp hran
  simp only [CalendarPass.run, calendarPass, OccurrenceSteps, openCalendar, hopen,
    Graph.getCursor_after, hsince, Option.map_some, migrateCalendar, hraised]
  set st := (p.source since).items.foldl (processEvent g remap user p.mode p.cal calendarId)
    { world := g.after w (.ensureCalendar p.cal.name) } with hst
  obtain ⟨hcount, hall⟩ := processEvents_cancelled g remap user p.mode p.cal calendarId
    (p.source since).items hc { world := g.after w (.ensureCalendar p.cal.name) }
  have hall' := hall (fun _ he => absurd he List.not_mem_nil)
  rw [← hst] at hall'
  have hzero : st.failures = 0 := hst ▸ hcount
  -- the counter stays at zero through the exceptions loop iff no step of it counts
  have hguard : (st.exceptions.foldl (applyException g remap user p.cal) st).failures = 0 ↔
      Runs.Guarded (applyException g remap user p.cal) (fun st event =>
        event.isCancelled = true → OccurrenceFindable user p.cal st event) st st.exceptions := by
    rw [← Nat.le_zero, ← hzero,
      Runs.foldl_count_le_iff _ CalendarLoop.failures (applyException_mono p.cal)]
    refine Runs.guarded_congr _ _ (fun st' event hev => ?_) _
    rw [applyException_cancelled p.cal hcalm st' event (hall' event hev)]
    simp only [hall' event hev, true_imp_iff]
  rw [← hguard]
  simp only [advanceCursor, hlast, Option.isSome_none, Bool.false_eq_true, if_false]
  by_cases hnone : (st.exceptions.foldl (applyException g remap user p.cal) st).failures = 0
  · simp [hnone]
  · simp [hnone]

/-- Cancelled events wedge a calendar exactly through occurrences that are not findable: the
series was deleted or never migrated, or the original start is missing. -/
theorem cancelled_counted_iff (hcalm : NoFailure g)
    (hfeed : ∀ feed ∈ p.feed user w, feed.raised = none) :
    (p.CountsNoCancellation g remap user w ∧
      ∀ feed c, p.feed user w = some feed → feed.lastCursor = some c →
        (∀ event ∈ feed.items, event.isCancelled = true) →
        (p.run g remap user w).saved = [(calendarWorkload p.cal, c)]) ↔
    p.OccurrenceSteps g remap user
      (fun st event => event.isCancelled = true → OccurrenceFindable user p.cal st event) w := by
  refine ⟨fun h => (p.countsNoCancellation_iff w hcalm).mp h.1, fun h => ⟨?_, ?_⟩⟩
  · exact (p.countsNoCancellation_iff w hcalm).mpr h
  · exact fun feed c hran hlast hc =>
      (p.cancelled_saved_iff w hcalm hfeed hran hc hlast).mpr h

end

/-- The passes over a series: it is migrated, then it is cancelled together with one of its
occurrences, or that occurrence alone is. -/
def cancelledSeries : CalendarPass × CalendarPass × CalendarPass :=
  let cal : CalendarRef := ⟨"c", "Calendar"⟩
  let master : SourceEvent := { sourceId := "m" }
  let occurrence : SourceEvent :=
    { sourceId := "e", isCancelled := true, masterSourceId := "m",
      originalStart := "2026-03-10T09:00:00-07:00" }
  (⟨cal, .full, fun _ => { items := [master], lastCursor := some firstCursor }⟩,
   ⟨cal, .delta, fun _ =>
    { items := [{ master with isCancelled := true }, occurrence],
      lastCursor := some secondCursor }⟩,
   ⟨cal, .delta, fun _ =>
    { items := [occurrence], lastCursor := some secondCursor }⟩)

/-- The series is deleted first, so its occurrence finds no master: it is counted, and a feed
of cancelled events does not save its cursor. -/
theorem cancelled_series_counted :
    ¬ ∀ (g : Graph) (remap : GraphBody → Except Exc GraphBody) (user : UserMapping) (w : World)
      (p : CalendarPass), CalendarReach g remap user (fun _ _ => True) w → NoFailure g →
        (∀ feed ∈ p.feed user w, feed.raised = none) →
        p.CountsNoCancellation g remap user w ∧
          ∀ feed c, p.feed user w = some feed → feed.lastCursor = some c →
            (∀ event ∈ feed.items, event.isCancelled = true) →
            (p.run g remap user w).saved = [(calendarWorkload p.cal, c)] := by
  intro h
  let user : UserMapping := ⟨"a@source", "a@dest"⟩
  let w₁ := (cancelledSeries.1.run calmGraph .ok user {}).world
  have hreach : CalendarReach calmGraph .ok user (fun _ _ => True) w₁ := .pass _ .start trivial
  have hsaved := (h calmGraph .ok user w₁ cancelledSeries.2.1 hreach calmGraph_noFailure
    (fun feed hfeed => Option.some.inj hfeed ▸ rfl)).2 _ ⟨"t2", by decide⟩ rfl rfl (by decide)
  exact absurd hsaved (by decide)

/-- The occurrence alone: its master is there, nothing is counted and the cursor is saved. -/
theorem cancelled_counted_iff_alone :
    let user : UserMapping := ⟨"a@source", "a@dest"⟩
    let w₁ := (cancelledSeries.1.run calmGraph .ok user {}).world
    let p := cancelledSeries.2.2
    p.CountsNoCancellation calmGraph .ok user w₁ ∧
      (p.run calmGraph .ok user w₁).saved = [("calendar:c", ⟨"t2", by decide⟩)] := by
  intro user w₁ p
  have hfound : (w₁.db.getDestId (eventKey user p.cal "m")).isSome = true := by decide
  have hsteps : p.OccurrenceSteps calmGraph .ok user
      (fun st event => event.isCancelled = true → OccurrenceFindable user p.cal st event) w₁ :=
    ⟨fun _ => Or.inr ⟨hfound, by decide⟩, trivial⟩
  have hfeed : ∀ feed ∈ p.feed user w₁, feed.raised = none :=
    fun feed hfeed => Option.some.inj hfeed ▸ rfl
  obtain ⟨hcount, hsaved⟩ := (cancelled_counted_iff p w₁ calmGraph_noFailure hfeed).mpr hsteps
  exact ⟨hcount, hsaved _ ⟨"t2", by decide⟩ rfl rfl (by decide)⟩

end GwsMigrator
