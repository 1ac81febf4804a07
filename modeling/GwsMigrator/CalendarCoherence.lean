import GwsMigrator.CalendarRuns
import GwsMigrator.ScriptedGraph

/-! Rows and events at the destination, for feeds without recurrence exceptions. They
agree as long as no cancellation deletes an event: `_handle_cancelled` leaves the dest_id
of the event it deleted in the row. -/
namespace GwsMigrator
open Dialogue Mirror

/-- No event of the pass is an occurrence of a series. -/
def CalendarPass.Masterless (p : CalendarPass) : Prop :=
  ∀ since, ∀ event ∈ (p.source since).items, event.masterSourceId = ""

section
variable (g : Graph) (remap : GraphBody → Except Exc GraphBody) (user : UserMapping)
variable (mode : Mode) (cal : CalendarRef) (calendarId : Token)

/-- If the event is cancelled, the delete of the copy its done row names is refused. -/
def CopyStays (st : CalendarLoop) (event : SourceEvent) : Prop :=
  event.isCancelled = true → ∀ id,
    st.world.db.getDestId (eventKey user cal event.sourceId) = some id →
    ∃ e, g.ask st.world (.deleteEvent id) = .error e

/-- A pass without occurrences in which no cancellation deletes the copy of a done row. -/
def CalendarPass.KeepsCopies (p : CalendarPass) (w : World) : Prop :=
  p.Masterless ∧ p.Steps g remap user (CopyStays g user p.cal) w

variable {g user cal}

theorem handleCancelled_mirrors {st : CalendarLoop} {event : SourceEvent}
    (hc : event.isCancelled = true) (hstays : CopyStays g user cal st event)
    (h : st.world.Mirrors eventEffect) :
    (handleCancelled g st.world (eventKey user cal event.sourceId)).Mirrors eventEffect := by
  unfold handleCancelled
  cases hd : st.world.db.getDestId (eventKey user cal event.sourceId) with
  | none => exact h
  | some id =>
    -- refused, the delete changes neither the event nor the row
    obtain ⟨e, he⟩ := hstays hc id hd
    have hkeep : eventEffect ⟨.deleteEvent id, g.ask st.world (.deleteEvent id)⟩ = .keep := by
      rw [he]
      rfl
    simp only [he]
    exact h.after_keep hkeep

/-- A cancellation that does delete the copy leaves a row that names a dead event. -/
theorem handleCancelled_breaks {w : World} {k : ItemKey} {id : Token}
    (hd : w.db.getDestId k = some id) (hok : g.ask w (.deleteEvent id) = .ok ()) :
    ¬ (handleCancelled g w k).Names eventEffect k := by
  have hrec : w.db.recorded k = some id := by
    rw [Db.getDestId_eq] at hd
    rw [Db.recorded_eq]
    cases hs : w.db.getItemState k with
    | none => simp [hs] at hd
    | some s =>
      by_cases hdone : s.status = .done
      · simpa [hs, hdone] using hd
      · simp [hs, hdone] at hd
  intro hnames
  simp only [handleCancelled, hd, hok] at hnames
  -- only the status of the row is set, and the event it names is gone
  have hrow := (hnames.1 id).mp (by
    rw [← Db.recorded_eq, Db.recorded_setStatus]
    exact hrec)
  have hmem : id ∈ copiesOf (replay eventEffect (g.after w (.deleteEvent id)).log) k := by
    rw [hrow]
    exact List.mem_singleton_self id
  rw [Graph.after_log, hok, replay] at hmem
  have hlive := mem_copiesOf.mp hmem
  simp [eventEffect, Effect.apply] at hlive

theorem migrateEvent_mirrors (st : CalendarLoop) (event : SourceEvent)
    (h : st.world.Mirrors eventEffect) :
    (migrateEvent g remap user cal calendarId st event
      (st.world.db.getItemState (eventKey user cal event.sourceId))).world.Mirrors eventEffect := by
  obtain ⟨-, ⟨hrec, hlive⟩ | ⟨id, hid, hnone, hrec, hlive⟩⟩ :=
    migrateEvent_cases g remap user cal calendarId st event
  · rw [World.Mirrors, hrec, hlive]
    exact h
  · rw [World.Mirrors, hrec, hlive]
    apply Coherent.create h hnone
    intro hmem
    obtain ⟨e, he, rfl⟩ := List.mem_map.mp hmem
    exact hid (replay_subset_issued eventEffect st.world.log e he)

theorem processEvent_mirrors (st : CalendarLoop) (event : SourceEvent)
    (hmaster : event.masterSourceId = "") (hstays : CopyStays g user cal st event)
    (h : st.world.Mirrors eventEffect) :
    (processEvent g remap user mode cal calendarId st event).world.Mirrors eventEffect ∧
      (processEvent g remap user mode cal calendarId st event).exceptions = st.exceptions := by
  simp only [processEvent, hmaster, ne_eq, not_true_eq_false, if_false]
  split
  · exact ⟨h, rfl⟩
  · by_cases hc : event.isCancelled = true
    · rw [if_pos hc]
      exact ⟨handleCancelled_mirrors hc hstays h, rfl⟩
    · rw [if_neg hc]
      split
      · exact ⟨h, rfl⟩
      · exact ⟨migrateEvent_mirrors remap calendarId st event h,
          (migrateEvent_cases g remap user cal calendarId st event).1⟩

theorem migrateCalendar_mirrors (feed : Enumeration SourceEvent) (w : World)
    (hmaster : ∀ event ∈ feed.items, event.masterSourceId = "")
    (hstays : Runs.Guarded (processEvent g remap user mode cal calendarId)
      (CopyStays g user cal) { world := w } feed.items)
    (h : w.Mirrors eventEffect) :
    (migrateCalendar g remap user mode cal calendarId feed w).world.Mirrors eventEffect := by
  -- no occurrence is ever deferred, so nothing is left to apply after the loop
  have hfeed := Runs.guarded_of_forall (processEvent g remap user mode cal calendarId)
    (fun _ event => event.masterSourceId = "") feed.items (fun _ e he => hmaster e he)
    { world := w }
  have hloop := Runs.guarded_run_invariant (processEvent g remap user mode cal calendarId)
    (fun st => st.world.Mirrors eventEffect ∧ st.exceptions = []) _
    (fun st event hst hok => by
      have hstep := processEvent_mirrors remap mode calendarId st event hok.1 hok.2 hst.1
      exact ⟨hstep.1, hstep.2.trans hst.2⟩)
    { world := w } feed.items ⟨h, rfl⟩ (Runs.guarded_and _ _ _ _ _ hfeed hstays)
  simp only [migrateCalendar]
  split
  · simp only [hloop.2, List.foldl_nil]
    exact World.Mirrors.advance hloop.1 _ _ _
  · simp only [hloop.2, List.foldl_nil]
    exact World.Mirrors.advance hloop.1 _ _ _

variable {remap} {w : World} {p : CalendarPass}

theorem CalendarPass.run_mirrors (hkeeps : p.KeepsCopies g remap user w)
    (h : w.Mirrors eventEffect) :
    (p.run g remap user w).world.Mirrors eventEffect := by
  have hopen : (g.after w (.ensureCalendar p.cal.name)).Mirrors eventEffect := h.after_keep rfl
  obtain ⟨raised, hrun⟩ | ⟨calendarId, since, -, hrun, hsteps⟩ := p.run_cases w
  · rw [hrun]
    exact hopen
  · rw [hrun]
    exact migrateCalendar_mirrors remap p.mode calendarId (p.source since) _
      (hkeeps.1 since) (hsteps _ hkeeps.2) hopen

end

/-- In every state reached by passes whose cancellations delete nothing, an event's row
holds the id of its one live copy, or no id and no copy is live. -/
theorem events_coherent {g : Graph} {remap : GraphBody → Except Exc GraphBody}
    {user : UserMapping} {w : World}
    (h : CalendarReach g remap user (CalendarPass.KeepsCopies g remap user) w)
    (cal : CalendarRef) (sourceId : String) : w.Names eventEffect (eventKey user cal sourceId) := by
  have hw : w.Mirrors eventEffect := by
    induction h with
    | start => exact mirrors_empty
    | lookup _ ih => exact ih.after_keep rfl
    | pass p _ hok ih => exact CalendarPass.run_mirrors hok ih
  exact hw.names _

/-- An event that is created and then cancelled, the cancellation deleting it. -/
def cancelledEvent : CalendarPass × CalendarPass :=
  (⟨⟨"c", "Calendar"⟩, .full, fun _ => { items := [{ sourceId := "e" }] }⟩,
   ⟨⟨"c", "Calendar"⟩, .full, fun _ => { items := [{ sourceId := "e", isCancelled := true }] }⟩)

theorem cancelledEvent_masterless :
    cancelledEvent.1.Masterless ∧ cancelledEvent.2.Masterless := by
  constructor <;> intro _ event he <;> rw [List.mem_singleton.mp he]

/-- Nothing fails, and still the row names the event that the cancellation deleted. -/
theorem cancelled_event_incoherent :
    ¬ ∀ (g : Graph) (remap : GraphBody → Except Exc GraphBody) (user : UserMapping) (w : World),
      CalendarReach g remap user (fun p _ => p.Masterless) w →
      ∀ cal sourceId, w.Names eventEffect (eventKey user cal sourceId) := by
  intro h
  let user : UserMapping := ⟨"a@source", "a@dest"⟩
  let w₁ := (cancelledEvent.1.run calmGraph .ok user {}).world
  have hreach : CalendarReach calmGraph .ok user (fun p _ => p.Masterless)
      (cancelledEvent.2.run calmGraph .ok user w₁).world :=
    .pass _ (.pass _ .start cancelledEvent_masterless.1) cancelledEvent_masterless.2
  have hnames := h _ _ _ _ hreach ⟨"c", "Calendar"⟩ "e"
  have hcopies : copiesOf (replay eventEffect
      (cancelledEvent.2.run calmGraph .ok user w₁).world.log)
      (eventKey user ⟨"c", "Calendar"⟩ "e") = [] := by decide
  exact absurd (hnames.2.mpr hcopies) (by decide)

/-- The same two passes where the delete is refused: the event stays, and so does its row. -/
theorem events_coherent_delete_refused :
    let g := scriptedGraph (fun _ c => match c with
      | .deleteEvent _ => some (.http 503 "busy")
      | _ => none)
    let user : UserMapping := ⟨"a@source", "a@dest"⟩
    let w₁ := (cancelledEvent.1.run g .ok user {}).world
    (cancelledEvent.2.run g .ok user w₁).world.Names eventEffect
      (eventKey user ⟨"c", "Calendar"⟩ "e") := by
  intro g user w₁
  have hstays : ∀ st event, CopyStays g user ⟨"c", "Calendar"⟩ st event :=
    fun st event _ id _ => ⟨.http 503 "busy", rfl⟩
  have hreach : CalendarReach g .ok user (CalendarPass.KeepsCopies g .ok user)
      (cancelledEvent.2.run g .ok user w₁).world :=
    .pass _ (.pass _ .start
      ⟨cancelledEvent_masterless.1, CalendarPass.steps_of_forall hstays _ _⟩)
      ⟨cancelledEvent_masterless.2, CalendarPass.steps_of_forall hstays _ _⟩
  exact events_coherent hreach _ _

end GwsMigrator
