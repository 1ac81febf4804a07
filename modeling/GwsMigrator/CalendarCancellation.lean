import GwsMigrator.CalendarRuns
import GwsMigrator.ScriptedGraph

/-! What a pass that saves its cursor leaves of the events reported cancelled in it. The
delete in `_handle_cancelled` is tried for done rows only, and its failure is not counted,
so the cursor can pass a cancellation whose event is still live. -/
namespace GwsMigrator
open Dialogue Mirror

/-- The source keeps the kind of an id: the ids in `occurrence` are always reported with a
series master, the others never. -/
def CalendarPass.KindsStable (occurrence : String → Bool) (p : CalendarPass) : Prop :=
  ∀ since, ∀ event ∈ (p.source since).items,
    event.masterSourceId ≠ "" ↔ occurrence event.sourceId = true

/-- No event is live that the row of its item does not name, and none was made for an
occurrence. -/
structure LiveNamed (occurrence : String → Bool) (w : World) : Prop where
  covered : Covered w.db.recorded (replay eventEffect w.log)
  kinds : ∀ id k, (id, k) ∈ replay eventEffect w.log → occurrence k.sourceId = false

/-- No event made for `k` is live. -/
def World.Gone (w : World) (k : ItemKey) : Prop := ∀ id, (id, k) ∉ replay eventEffect w.log

/-- From `w` to `w'` no event was created and no dest_id written. -/
structure OnlyDeletes (w w' : World) : Prop where
  live : ∀ c ∈ replay eventEffect w'.log, c ∈ replay eventEffect w.log
  recorded : w'.db.recorded = w.db.recorded

namespace OnlyDeletes

theorem refl (w : World) : OnlyDeletes w w := ⟨fun _ h => h, rfl⟩

theorem trans {w₁ w₂ w₃ : World} (h : OnlyDeletes w₁ w₂) (h' : OnlyDeletes w₂ w₃) :
    OnlyDeletes w₁ w₃ :=
  ⟨fun c hc => h.live c (h'.live c hc), h'.recorded.trans h.recorded⟩

theorem after (g : Graph) (w : World) (c : Call)
    (h : ∀ src cal body, c ≠ .createEvent src cal body) : OnlyDeletes w (g.after w c) := by
  refine ⟨fun x hx => ?_, rfl⟩
  rw [Graph.after_log, replay] at hx
  cases c with
  | createEvent src cal body => exact absurd rfl (h src cal body)
  -- a delete that succeeds shrinks the live events, a refused one leaves them
  | deleteEvent id =>
    cases hans : g.ask w (.deleteEvent id) with
    | ok r =>
      rw [hans] at hx
      exact (List.mem_filter.mp hx).1
    | error e =>
      rw [hans] at hx
      exact hx
  | _ => exact hx

theorem gone {w w' : World} (h : OnlyDeletes w w') {k : ItemKey} (hk : w.Gone k) : w'.Gone k :=
  fun id hid => hk id (h.live _ hid)

theorem liveNamed {w w' : World} (h : OnlyDeletes w w') {occurrence : String → Bool}
    (hw : LiveNamed occurrence w) : LiveNamed occurrence w' := by
  refine ⟨fun id k hid => ?_, fun id k hid => hw.kinds id k (h.live _ hid)⟩
  rw [h.recorded]
  exact hw.covered id k (h.live _ hid)

end OnlyDeletes

section
variable (g : Graph) (remap : GraphBody → Except Exc GraphBody) (user : UserMapping)
variable (mode : Mode) (cal : CalendarRef) (calendarId : Token)

theorem handleCancelled_onlyDeletes (w : World) (k : ItemKey) :
    OnlyDeletes w (handleCancelled g w k) := by
  unfold handleCancelled
  cases w.db.getDestId k with
  | none => exact OnlyDeletes.refl w
  | some id =>
    have hafter := OnlyDeletes.after g w (.deleteEvent id) (by simp)
    simp only
    cases g.ask w (.deleteEvent id) with
    | ok r => exact ⟨hafter.live, by rw [Db.recorded_setStatus, hafter.recorded]⟩
    | error e => exact hafter

theorem applyOccurrence_onlyDeletes (w : World) (event : SourceEvent) (masterDest : Option Token) :
    OnlyDeletes w (applyOccurrence g remap w event masterDest).2 := by
  apply applyOccurrence_keeps g remap event (OnlyDeletes w)
  · rintro w' c hc h
    refine h.trans (OnlyDeletes.after g w' c ?_)
    rintro src cal body rfl
    exact hc
  · exact OnlyDeletes.refl w

variable {g remap user cal} {occurrence : String → Bool}

/-- An event written for another item leaves `k` without a copy. -/
theorem migrateEvent_gone {st : CalendarLoop} {event : SourceEvent} {k : ItemKey}
    (hk : k ≠ eventKey user cal event.sourceId) (h : st.world.Gone k) :
    (migrateEvent g remap user cal calendarId st event
      (st.world.db.getItemState (eventKey user cal event.sourceId))).world.Gone k := by
  obtain ⟨-, ⟨-, hlive⟩ | ⟨id, -, -, -, hlive⟩⟩ :=
    migrateEvent_cases g remap user cal calendarId st event
  · intro i hi
    exact h i (hlive ▸ hi)
  · intro i hi
    rw [hlive] at hi
    rcases List.mem_cons.mp hi with he | hi
    · exact hk (Prod.mk.inj he).2
    · exact h i hi

theorem migrateEvent_liveNamed {st : CalendarLoop} {event : SourceEvent}
    (hkind : occurrence event.sourceId = false) (h : LiveNamed occurrence st.world) :
    LiveNamed occurrence (migrateEvent g remap user cal calendarId st event
      (st.world.db.getItemState (eventKey user cal event.sourceId))).world := by
  obtain ⟨-, ⟨hrec, hlive⟩ | ⟨id, -, hnone, hrec, hlive⟩⟩ :=
    migrateEvent_cases g remap user cal calendarId st event
  · exact OnlyDeletes.liveNamed ⟨fun c hc => hlive ▸ hc, hrec⟩ h
  · refine ⟨?_, fun i k hi => ?_⟩
    · rw [hrec, hlive]
      exact h.covered.create hnone
    · rw [hlive] at hi
      rcases List.mem_cons.mp hi with he | hi
      · rw [(Prod.mk.inj he).2]
        exact hkind
      · exact h.kinds i k hi

/-- The deferred events of a loop are occurrences. -/
def CalendarLoop.Deferred (occurrence : String → Bool) (st : CalendarLoop) : Prop :=
  ∀ event ∈ st.exceptions, occurrence event.sourceId = true

variable (g remap user cal) in
theorem processEvent_liveNamed {st : CalendarLoop} {event : SourceEvent}
    (hkind : event.masterSourceId ≠ "" ↔ occurrence event.sourceId = true)
    (h : LiveNamed occurrence st.world) (hdef : st.Deferred occurrence) :
    LiveNamed occurrence (processEvent g remap user mode cal calendarId st event).world ∧
      (processEvent g remap user mode cal calendarId st event).Deferred occurrence := by
  simp only [processEvent]
  split
  · exact ⟨h, hdef⟩
  · by_cases hm : event.masterSourceId = ""
    · have hocc : occurrence event.sourceId = false := by
        simpa [hm] using hkind
      rw [if_neg (not_not.mpr hm)]
      by_cases hc : event.isCancelled = true
      · rw [if_pos hc]
        exact ⟨(handleCancelled_onlyDeletes g _ _).liveNamed h, hdef⟩
      · rw [if_neg hc]
        split
        · exact ⟨h, hdef⟩
        · refine ⟨migrateEvent_liveNamed calendarId hocc h, ?_⟩
          rw [CalendarLoop.Deferred, (migrateEvent_cases g remap user cal calendarId st event).1]
          exact hdef
    · -- an occurrence is only put aside for the exceptions loop
      rw [if_pos hm]
      refine ⟨h, fun e he => ?_⟩
      rcases List.mem_append.mp he with he | he
      · exact hdef e he
      · rw [List.mem_singleton.mp he]
        exact hkind.mp hm

variable (g remap user cal) in
/-- A deferred occurrence gets a row, and no live event changes hands. -/
theorem applyException_cases (st : CalendarLoop) (event : SourceEvent) :
    let st' := applyException g remap user cal st event
    (∀ c ∈ replay eventEffect st'.world.log, c ∈ replay eventEffect st.world.log) ∧
      ∃ r, st'.world.db.recorded =
        Function.update st.world.db.recorded (eventKey user cal event.sourceId) r := by
  intro st'
  have hrow : ∀ {w : World}, OnlyDeletes st.world w → ∀ v : ItemValues,
      (w.upsertItem (eventKey user cal event.sourceId) v).db.recorded =
        Function.update st.world.db.recorded (eventKey user cal event.sourceId) v.destId := by
    intro w hw v
    rw [World.upsertItem_db, Db.recorded_upsertItem, hw.recorded]
  have hocc := applyOccurrence_onlyDeletes g remap st.world event
    (st.world.db.getDestId (eventKey user cal event.masterSourceId))
  simp only [st', applyException]
  split
  · exact ⟨fun _ hc => hc, _, (Function.update_eq_self _ _).symm⟩
  · rcases happ : applyOccurrence g remap st.world event
        (st.world.db.getDestId (eventKey user cal event.masterSourceId)) with ⟨e | (_ | id), w⟩ <;>
      rw [happ] at hocc
    · exact ⟨hocc.live, none, hrow hocc _⟩
    · exact ⟨hocc.live, none, hrow hocc _⟩
    · exact ⟨hocc.live, some id, hrow hocc _⟩

theorem applyException_liveNamed {st : CalendarLoop} {event : SourceEvent}
    (hkind : occurrence event.sourceId = true) (h : LiveNamed occurrence st.world) :
    LiveNamed occurrence (applyException g remap user cal st event).world := by
  obtain ⟨hlive, r, hrec⟩ := applyException_cases g remap user cal st event
  -- an occurrence has no event of its own, so writing over its row loses no name
  have hgone : ∀ id, (id, eventKey user cal event.sourceId) ∉ replay eventEffect st.world.log := by
    intro id hid
    have := h.kinds id _ hid
    simp [eventKey, hkind] at this
  refine ⟨fun id k hid => ?_, fun id k hid => h.kinds id k (hlive _ hid)⟩
  rw [hrec]
  exact h.covered.forget hgone r id k (hlive _ hid)

variable (g remap user cal) in
theorem applyExceptions_liveNamed (st : CalendarLoop) (hdef : st.Deferred occurrence)
    (h : LiveNamed occurrence st.world) :
    LiveNamed occurrence (st.exceptions.foldl (applyException g remap user cal) st).world :=
  List.foldlRecOn st.exceptions (applyException g remap user cal)
    (motive := fun st => LiveNamed occurrence st.world) h
    (fun _ hst event hev => applyException_liveNamed (hdef event hev) hst)

theorem applyExceptions_gone (st : CalendarLoop) {k : ItemKey} (h : st.world.Gone k) :
    (st.exceptions.foldl (applyException g remap user cal) st).world.Gone k :=
  List.foldlRecOn st.exceptions (applyException g remap user cal)
    (motive := fun st => st.world.Gone k) h
    (fun st' hst event _ id hid =>
      hst id ((applyException_cases g remap user cal st' event).1 _ hid))

variable (g remap user cal) in
/-- The loop, with what holds of the kinds of the events it has seen. -/
theorem processEvents_liveNamed (items : List SourceEvent) (st : CalendarLoop)
    (hkinds : ∀ event ∈ items, event.masterSourceId ≠ "" ↔ occurrence event.sourceId = true)
    (h : LiveNamed occurrence st.world ∧ st.Deferred occurrence) :
    LiveNamed occurrence (items.foldl (processEvent g remap user mode cal calendarId) st).world ∧
      (items.foldl (processEvent g remap user mode cal calendarId) st).Deferred occurrence :=
  List.foldlRecOn items (processEvent g remap user mode cal calendarId)
    (motive := fun st => LiveNamed occurrence st.world ∧ st.Deferred occurrence) h
    (fun _ hst event hev =>
      processEvent_liveNamed g remap user mode cal calendarId (hkinds event hev) hst.1 hst.2)

variable (g remap user cal) in
/-- The events left once the deferred occurrences are applied and the cursor is dealt with. -/
theorem migrateCalendar_replay (feed : Enumeration SourceEvent) (w : World) :
    ∃ st : CalendarLoop,
      st.world = (feed.items.foldl (processEvent g remap user mode cal calendarId)
        { world := w }).world ∧
      st.exceptions = (feed.items.foldl (processEvent g remap user mode cal calendarId)
        { world := w }).exceptions ∧
      (migrateCalendar g remap user mode cal calendarId feed w).world.log =
        (st.exceptions.foldl (applyException g remap user cal) st).world.log ∧
      (migrateCalendar g remap user mode cal calendarId feed w).world.db.recorded =
        (st.exceptions.foldl (applyException g remap user cal) st).world.db.recorded := by
  simp only [migrateCalendar, advanceCursor_log, advanceCursor_recorded]
  refine ⟨_, ?_, ?_, rfl, rfl⟩
  · split <;> rfl
  · split <;> rfl

theorem migrateCalendar_liveNamed (feed : Enumeration SourceEvent) (w : World)
    (hkinds : ∀ event ∈ feed.items, event.masterSourceId ≠ "" ↔ occurrence event.sourceId = true)
    (h : LiveNamed occurrence w) :
    LiveNamed occurrence (migrateCalendar g remap user mode cal calendarId feed w).world := by
  have hloop := processEvents_liveNamed g remap user mode cal calendarId feed.items
    { world := w } hkinds ⟨h, fun _ he => absurd he List.not_mem_nil⟩
  obtain ⟨st, hworld, hexc, hlog, hrec⟩ := migrateCalendar_replay g remap
    user mode cal calendarId feed w
  have hdef : st.Deferred occurrence := by
    rw [CalendarLoop.Deferred, hexc]
    exact hloop.2
  have hend := applyExceptions_liveNamed g remap user cal st hdef (hworld ▸ hloop.1)
  exact OnlyDeletes.liveNamed ⟨fun c hc => hlog ▸ hc, hrec⟩ hend

variable (g user cal) in
/-- If the event is cancelled and the copy its row names is live, then its row is done and
the delete succeeds. -/
def CancellationLands (st : CalendarLoop) (event : SourceEvent) : Prop :=
  event.isCancelled = true → event.masterSourceId = "" → ∀ id,
    (id, eventKey user cal event.sourceId) ∈ replay eventEffect st.world.log →
    st.world.db.recorded (eventKey user cal event.sourceId) = some id →
    st.world.db.getDestId (eventKey user cal event.sourceId) = some id ∧
      g.ask st.world (.deleteEvent id) = .ok ()

theorem handleCancelled_gone {st : CalendarLoop} {event : SourceEvent}
    (hc : event.isCancelled = true) (hm : event.masterSourceId = "")
    (hlands : CancellationLands g user cal st event) (h : LiveNamed occurrence st.world) :
    (handleCancelled g st.world (eventKey user cal event.sourceId)).Gone
      (eventKey user cal event.sourceId) := by
  -- the row names every live copy, so that deleting the one it names leaves none
  by_cases hlive : ∃ id, (id, eventKey user cal event.sourceId) ∈ replay eventEffect st.world.log
  · obtain ⟨id, hid⟩ := hlive
    have hrec := h.covered id _ hid
    obtain ⟨hdest, hok⟩ := hlands hc hm id hid hrec
    intro j hj
    simp only [handleCancelled, hdest, hok, Graph.after_log, replay] at hj
    obtain ⟨hj, hne⟩ := List.mem_filter.mp hj
    have hjrec := h.covered j _ hj
    rw [hrec] at hjrec
    simp [Option.some.inj hjrec] at hne
  · exact (handleCancelled_onlyDeletes g _ _).gone (fun id hid => hlive ⟨id, hid⟩)

theorem processEvent_lands {st : CalendarLoop} {event : SourceEvent}
    (hc : event.isCancelled = true) (hm : event.masterSourceId = "")
    (hlands : CancellationLands g user cal st event) (h : LiveNamed occurrence st.world) :
    (processEvent g remap user mode cal calendarId st event).world.Gone
      (eventKey user cal event.sourceId) := by
  have hgone := handleCancelled_gone hc hm hlands h
  simpa [processEvent, hc, hm] using hgone

/-- A gone event stays gone unless it is reported as confirmed. -/
theorem processEvent_gone {st : CalendarLoop} {event : SourceEvent} {sourceId : String}
    (hev : event.sourceId = sourceId → event.isCancelled = true)
    (h : st.world.Gone (eventKey user cal sourceId)) :
    (processEvent g remap user mode cal calendarId st event).world.Gone
      (eventKey user cal sourceId) := by
  simp only [processEvent]
  split
  · exact h
  · split
    · exact h
    · by_cases hc : event.isCancelled = true
      · rw [if_pos hc]
        exact (handleCancelled_onlyDeletes g _ _).gone h
      · rw [if_neg hc]
        split
        · exact h
        · apply migrateEvent_gone calendarId _ h
          intro hk
          exact hc (hev (by simpa [eventKey] using hk.symm))

/-- No event reported cancelled is reported as confirmed after it. -/
def NotRestored (items : List SourceEvent) : Prop :=
  items.Pairwise (fun e e' =>
    e.isCancelled = true → e'.sourceId = e.sourceId → e'.isCancelled = true)

theorem processEvents_gone (items : List SourceEvent) (st : CalendarLoop)
    (hkinds : ∀ event ∈ items, event.masterSourceId ≠ "" ↔ occurrence event.sourceId = true)
    (hlands : Runs.Guarded (processEvent g remap user mode cal calendarId)
      (CancellationLands g user cal) st items)
    (hrest : NotRestored items) (h : LiveNamed occurrence st.world ∧ st.Deferred occurrence) :
    ∀ event ∈ items, event.isCancelled = true → event.masterSourceId = "" →
      (items.foldl (processEvent g remap user mode cal calendarId) st).world.Gone
        (eventKey user cal event.sourceId) := by
  induction items generalizing st with
  | nil => exact fun _ he => absurd he List.not_mem_nil
  | cons e items ih =>
    have hpair := List.pairwise_cons.mp hrest
    have hstep := processEvent_liveNamed g remap user mode cal calendarId
      (hkinds e List.mem_cons_self) h.1 h.2
    -- gone after its own step, and no later event of the feed makes it anew
    intro event hev hc hm
    rcases List.mem_cons.mp hev with rfl | hev
    · exact List.foldlRecOn items (processEvent g remap user mode cal calendarId)
        (motive := fun st => st.world.Gone (eventKey user cal event.sourceId))
        (processEvent_lands mode calendarId hc hm hlands.1 h.1)
        (fun _ hst e' he' => processEvent_gone mode calendarId (hpair.1 e' he' hc) hst)
    · exact ih _ (fun e' he' => hkinds e' (List.mem_cons_of_mem e he')) hlands.2 hpair.2 hstep
        event hev hc hm

variable {w : World} {p : CalendarPass}

theorem CalendarPass.run_liveNamed (hkinds : p.KindsStable occurrence)
    (h : LiveNamed occurrence w) : LiveNamed occurrence (p.run g remap user w).world := by
  have hopen := (OnlyDeletes.after g w (.ensureCalendar p.cal.name) (by simp)).liveNamed h
  obtain ⟨raised, hrun⟩ | ⟨calendarId, since, -, hrun, -⟩ := p.run_cases w
  · rw [hrun]
    exact hopen
  · rw [hrun]
    exact migrateCalendar_liveNamed p.mode calendarId _ _ (hkinds since) hopen

theorem CalendarReach.liveNamed
    (h : CalendarReach g remap user (fun p _ => p.KindsStable occurrence) w) :
    LiveNamed occurrence w := by
  induction h with
  | start => exact ⟨fun _ _ h => absurd h List.not_mem_nil, fun _ _ h => absurd h List.not_mem_nil⟩
  | lookup _ ih => exact (OnlyDeletes.after g _ (.getUser user.destId) (by simp)).liveNamed ih
  | pass p _ hok ih => exact p.run_liveNamed hok ih

variable (g remap user w p) in
/-- If the pass saves a cursor, no event it reported cancelled is live afterwards. -/
def CalendarPass.CancellationsDone : Prop :=
  (p.run g remap user w).saved ≠ [] → ∀ feed ∈ p.feed user w, ∀ event ∈ feed.items,
    event.isCancelled = true → event.masterSourceId = "" →
    (p.run g remap user w).world.Gone (eventKey user p.cal event.sourceId)

/-- Cancellations are done in a pass that deletes what it finds cancelled: every live copy
it meets belongs to a done row and its delete succeeds. -/
theorem cancellations_done
    (hreach : CalendarReach g remap user (fun p _ => p.KindsStable occurrence) w)
    (hkinds : p.KindsStable occurrence)
    (hlands : p.Steps g remap user (CancellationLands g user p.cal) w)
    (hrest : ∀ feed ∈ p.feed user w, NotRestored feed.items) :
    p.CancellationsDone g remap user w := by
  intro hsaved feed hfeed event hev hc hm
  have hopen := (OnlyDeletes.after g w (.ensureCalendar p.cal.name) (by simp)).liveNamed
    hreach.liveNamed
  obtain ⟨raised, hrun⟩ | ⟨calendarId, since, hsince, hrun, hsteps⟩ := p.run_cases w
  · rw [hrun] at hsaved
    exact absurd rfl hsaved
  -- the loop leaves it gone; the occurrences and the cursor do not bring it back
  · obtain rfl : p.source since = feed := by
      rw [hsince] at hfeed
      exact Option.some.inj hfeed
    have hgone := processEvents_gone p.mode calendarId (p.source since).items _ (hkinds since)
      (hsteps _ hlands) (hrest _ hfeed) ⟨hopen, fun _ he => absurd he List.not_mem_nil⟩
      event hev hc hm
    obtain ⟨st, hworld, -, hlog, -⟩ := migrateCalendar_replay g remap user p.mode p.cal
      calendarId (p.source since) (g.after w (.ensureCalendar p.cal.name))
    rw [hrun, World.Gone, hlog]
    exact applyExceptions_gone st (hworld ▸ hgone)

end

/-- A pass that creates an event, and a later one in which the source reports it cancelled. -/
def cancellation : CalendarPass × CalendarPass :=
  (⟨⟨"c", "Calendar"⟩, .full, fun _ => { items := [{ sourceId := "e" }] }⟩,
   ⟨⟨"c", "Calendar"⟩, .full, fun _ =>
    { items := [{ sourceId := "e", isCancelled := true }], lastCursor := some firstCursor }⟩)

/-- The delete of the cancelled event is answered 503: the pass saves its cursor all the
same, and the event is still live behind it. -/
theorem cancellation_lost :
    ¬ ∀ (g : Graph) (remap : GraphBody → Except Exc GraphBody) (user : UserMapping) (w : World)
      (p : CalendarPass), CalendarReach g remap user (fun _ _ => True) w →
        p.CancellationsDone g remap user w := by
  intro h
  let g := scriptedGraph (fun _ c => match c with
    | .deleteEvent _ => some (.http 503 "busy")
    | _ => none)
  let user : UserMapping := ⟨"a@source", "a@dest"⟩
  let w₁ := (cancellation.1.run g .ok user {}).world
  have hreach : CalendarReach g .ok user (fun _ _ => True) w₁ := .pass _ .start trivial
  have hsaved : (cancellation.2.run g .ok user w₁).saved ≠ [] := by decide
  have hgone := h g .ok user w₁ cancellation.2 hreach hsaved _ rfl _ (List.mem_singleton_self _)
    rfl rfl
  exact hgone (freshToken []) (by decide)

/-- When the delete succeeds the cursor is saved behind a deleted event. -/
theorem cancellations_done_calm :
    let user : UserMapping := ⟨"a@source", "a@dest"⟩
    let w₁ := (cancellation.1.run calmGraph .ok user {}).world
    (cancellation.2.run calmGraph .ok user w₁).saved ≠ [] ∧
      cancellation.2.CancellationsDone calmGraph .ok user w₁ := by
  intro user w₁
  have hkinds : ∀ p ∈ [cancellation.1, cancellation.2], p.KindsStable (fun _ => false) := by
    intro p hp since event hev
    rcases List.mem_cons.mp hp with rfl | hp
    · rw [List.mem_singleton.mp hev]
      decide
    · rw [List.mem_singleton.mp hp] at hev
      rw [List.mem_singleton.mp hev]
      decide
  have hdone : w₁.db.getDestId (eventKey user ⟨"c", "Calendar"⟩ "e") =
      w₁.db.recorded (eventKey user ⟨"c", "Calendar"⟩ "e") := by decide
  refine ⟨by decide, cancellations_done (.pass _ .start (hkinds _ (by simp)))
    (hkinds _ (by simp)) ⟨?_, trivial⟩ ?_⟩
  · exact fun _ _ id _ hrec => ⟨hdone.trans hrec, rfl⟩
  · intro feed hfeed
    obtain rfl := Option.some.inj hfeed
    exact List.pairwise_singleton _ _

end GwsMigrator
