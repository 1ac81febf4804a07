import GwsMigrator.CalendarJob
import GwsMigrator.SyncedJobs

/-! A calendar's pass against the change log of its events. -/
namespace GwsMigrator
open ChangeFeed

/-- The events of a calendar. An exception to a series is applied to the series and not kept as
an event of its own. -/
def events (calId : String) : Workload SourceEvent where
  name := "calendar:" ++ calId
  sourceId := SourceEvent.sourceId
  marker event := orNone event.sourceHash
  live event := event.masterSourceId = "" ∧ event.isCancelled = false
  skipsDone _ := True

section
variable (g : Graph) (remap : GraphBody → Except Exc GraphBody) (user : UserMapping)
variable (mode : Mode) (cal : CalendarRef) (calendarId : Token)

theorem writeEvent_same (w : World) (event : SourceEvent) (destExisting : Option Token) :
    SameStore w.db (writeEvent g remap user cal w calendarId event destExisting).2.db := by
  unfold writeEvent
  cases remap event.graphBody with
  | error e => exact SameStore.refl _
  | ok body =>
    cases destExisting with
    | some id =>
      have hcall := SameStore.after g w (.patchEvent id body)
      simp only
      cases g.ask w (.patchEvent id body) <;> exact hcall
    | none =>
      have hcall := SameStore.after g w
        (.createEvent (eventKey user cal event.sourceId) calendarId body)
      cases hans : g.ask w (.createEvent (eventKey user cal event.sourceId) calendarId body) <;>
      · simp only [hans]
        exact hcall

/-- A written event has its version in its row, any other counts as a failure. -/
theorem migrateEvent_row (st : CalendarLoop) (event : SourceEvent) (state : Option ItemValues) :
    ∃ v, RowWritten ((events cal.calId).key user event.sourceId) v st.world.db
        (migrateEvent g remap user cal calendarId st event state).world.db ∧
      ((v.status = .done ∧ v.sourceHash = (events cal.calId).marker event ∧
          (migrateEvent g remap user cal calendarId st event state).failures = st.failures) ∨
        (migrateEvent g remap user cal calendarId st event state).failures = st.failures + 1) := by
  have hsame := writeEvent_same g remap user cal calendarId st.world event (state.bind (·.destId))
  simp only [migrateEvent]
  rcases hw : writeEvent g remap user cal st.world calendarId event (state.bind (·.destId))
    with ⟨e | id, w⟩ <;> rw [hw] at hsame
  · exact ⟨_, hsame.upsert _ _, Or.inr rfl⟩
  · let row : ItemValues :=
      { destId := some id, status := .done, sourceHash := orNone event.sourceHash }
    exact ⟨row, hsame.upsert _ row, Or.inl ⟨rfl, rfl, rfl⟩⟩

theorem handleCancelled_rowStep (w : World) (k : ItemKey) (n : ℕ) :
    RowStep k w.db (handleCancelled g w k).db n n := by
  unfold handleCancelled
  cases w.db.getDestId k with
  | none => exact (SameStore.refl _).rowStep k n
  | some id =>
    have hcall := SameStore.after g w (.deleteEvent id)
    simp only
    cases g.ask w (.deleteEvent id) with
    | ok _ =>
      refine ⟨fun k' hk => ?_, ?_, Nat.le_refl n⟩
      · rw [Db.getItemState_setStatus, if_neg hk, hcall.rows]
      · funext k'
        rw [Db.getCursor_setStatus, hcall.cursors]
    | error e => exact hcall.rowStep k n

theorem processEvent_rowStep (st : CalendarLoop) (event : SourceEvent) :
    RowStep ((events cal.calId).key user event.sourceId) st.world.db
      (processEvent g remap user mode cal calendarId st event).world.db st.failures
      (processEvent g remap user mode cal calendarId st event).failures := by
  have hsame := (SameStore.refl st.world.db).rowStep
    ((events cal.calId).key user event.sourceId) st.failures
  simp only [processEvent]
  split
  · exact hsame
  split
  · exact hsame
  split
  · exact handleCancelled_rowStep g st.world _ _
  split
  · exact hsame
  · obtain ⟨v, hrow, ⟨-, -, hn⟩ | hn⟩ := migrateEvent_row g remap user cal calendarId st event
      (st.world.db.getItemState (eventKey user cal event.sourceId))
    · exact hrow.rowStep (by omega)
    · exact hrow.rowStep (by omega)

/-- Only exceptions to a series are put off. -/
theorem processEvent_exceptions (st : CalendarLoop) (event : SourceEvent) :
    (processEvent g remap user mode cal calendarId st event).exceptions = st.exceptions ∨
    ((processEvent g remap user mode cal calendarId st event).exceptions =
      st.exceptions ++ [event] ∧ ¬ (events cal.calId).live event) := by
  simp only [processEvent]
  split
  · exact Or.inl rfl
  split
  · next hmaster => exact Or.inr ⟨rfl, fun hlive => hmaster hlive.1⟩
  split
  · exact Or.inl rfl
  split
  · exact Or.inl rfl
  · refine Or.inl ?_
    simp only [migrateEvent]
    split <;> rfl

theorem processEvent_settles (st : CalendarLoop) (event : SourceEvent)
    (hlive : (events cal.calId).live event) :
    Settles (events cal.calId) user (mode = .full) event st.world.db
      (processEvent g remap user mode cal calendarId st event).world.db st.failures
      (processEvent g remap user mode cal calendarId st event).failures := by
  obtain ⟨hmaster, hcancelled⟩ := hlive
  simp only [processEvent]
  by_cases hskip : (st.world.db.getItemState (eventKey user cal event.sourceId)).any
      (·.status = .done) ∧ mode ≠ .delta ∧ ¬ event.isCancelled
  · rw [if_pos hskip]
    have hfull : mode = .full := by
      cases mode with
      | full => rfl
      | delta => exact absurd rfl hskip.2.1
    refine .of_skipped hfull trivial (Db.applied_isSome.mpr ?_) rfl
    rw [Db.isDone_eq]
    exact hskip.1
  · rw [if_neg hskip, if_neg (not_not.mpr hmaster), if_neg (by simp [hcancelled])]
    refine .of_open (fun hfull => ?_) ?_
    · -- a full pass does not get here with a done row
      rw [← Option.not_isSome_iff_eq_none]
      intro hdone
      refine hskip ⟨?_, by simp [hfull], by simp [hcancelled]⟩
      have hrow := Db.applied_isSome.mp hdone
      rw [Db.isDone_eq] at hrow
      exact hrow
    · -- an unchanged event keeps its row, which already carries the marker
      by_cases hunchanged : eventUnchanged event
          (st.world.db.getItemState (eventKey user cal event.sourceId)) = true
      · rw [if_pos hunchanged]
        obtain ⟨s, hs, hcond⟩ := (Option.any_eq_true _ _).mp hunchanged
        obtain ⟨hdone, hne, hhash⟩ := of_decide_eq_true hcond
        refine Or.inr (Db.applied_eq_some.mpr ⟨s, hs, hdone, ?_⟩)
        rw [hhash]
        simp [events, orNone, hne]
      · rw [if_neg hunchanged]
        obtain ⟨v, hrow, ⟨hdone, hhash, -⟩ | hn⟩ := migrateEvent_row g remap user cal calendarId
          st event (st.world.db.getItemState (eventKey user cal event.sourceId))
        · refine Or.inr ?_
          have happlied := hrow.applied hdone
          rw [hhash] at happlied
          exact happlied
        · exact Or.inl (by omega)

theorem applyOccurrence_same (w : World) (event : SourceEvent) (masterDest : Option Token) :
    SameStore w.db (applyOccurrence g remap w event masterDest).2.db := by
  apply applyOccurrence_keeps g remap event (fun w' => SameStore w.db w'.db)
  · exact fun w' c _ h => h.trans (SameStore.after g w' c)
  · exact SameStore.refl w.db

theorem applyException_rowStep (st : CalendarLoop) (event : SourceEvent) :
    RowStep ((events cal.calId).key user event.sourceId) st.world.db
      (applyException g remap user cal st event).world.db st.failures
      (applyException g remap user cal st event).failures := by
  have hsame := applyOccurrence_same g remap st.world event
    (st.world.db.getDestId (eventKey user cal event.masterSourceId))
  simp only [applyException]
  split
  · exact (SameStore.refl _).rowStep _ _
  · rcases ho : applyOccurrence g remap st.world event
      (st.world.db.getDestId (eventKey user cal event.masterSourceId)) with
      ⟨e | (_ | id), w⟩ <;> rw [ho] at hsame
    · exact (hsame.upsert _ _).rowStep (Nat.le_succ _)
    · exact (hsame.upsert _ _).rowStep (Nat.le_refl _)
    · exact (hsame.upsert _ _).rowStep (Nat.le_refl _)

/-- The exceptions of a feed are among its items that are not live. -/
theorem processEvents_exceptions (items : List SourceEvent) (st : CalendarLoop) :
    ∀ event ∈ (items.foldl (processEvent g remap user mode cal calendarId) st).exceptions,
      event ∈ st.exceptions ∨ (event ∈ items ∧ ¬ (events cal.calId).live event) := by
  refine List.foldlRecOn items _ (motive := fun st' : CalendarLoop => ∀ event ∈ st'.exceptions,
    event ∈ st.exceptions ∨ (event ∈ items ∧ ¬ (events cal.calId).live event))
    (fun event h => Or.inl h) (fun st' hst x hx event hevent => ?_)
  rcases processEvent_exceptions g remap user mode cal calendarId st' x with hsame | ⟨happ, hnot⟩
  · exact hst event (hsame ▸ hevent)
  · rw [happ] at hevent
    rcases List.mem_append.mp hevent with h | h
    · exact hst event h
    · obtain rfl : event = x := List.mem_singleton.mp h
      exact Or.inr ⟨hx, hnot⟩

/-- Applying exceptions writes their rows only. -/
theorem applyExceptions_rows (exceptions : List SourceEvent) (st : CalendarLoop) :
    (∀ k, (∀ x ∈ exceptions, k ≠ (events cal.calId).key user x.sourceId) →
      (exceptions.foldl (applyException g remap user cal) st).world.db.getItemState k =
        st.world.db.getItemState k) ∧
    (exceptions.foldl (applyException g remap user cal) st).world.db.getCursor =
      st.world.db.getCursor ∧
    st.failures ≤ (exceptions.foldl (applyException g remap user cal) st).failures := by
  refine List.foldlRecOn exceptions _ (motive := fun st' : CalendarLoop =>
    (∀ k, (∀ x ∈ exceptions, k ≠ (events cal.calId).key user x.sourceId) →
      st'.world.db.getItemState k = st.world.db.getItemState k) ∧
    st'.world.db.getCursor = st.world.db.getCursor ∧ st.failures ≤ st'.failures)
    ⟨fun _ _ => rfl, rfl, Nat.le_refl _⟩ (fun st' hst x hx => ?_)
  obtain ⟨hrows, hcursors, hn⟩ := hst
  have hstep := applyException_rowStep g remap user cal st' x
  refine ⟨fun k hk => ?_, hstep.cursors.trans hcursors, Nat.le_trans hn hstep.failures⟩
  exact (hstep.rows k (hk x hx)).trans (hrows k hk)

/-- The loop and the exceptions settle the feed, and a source that raises leaves a failure. -/
theorem migrateCalendar_passed (feed : Enumeration SourceEvent) (w : World)
    (hnodup : (feed.items.map (events cal.calId).sourceId).Nodup) :
    ∃ r n, migrateCalendar g remap user mode cal calendarId feed w =
        advanceCursor r ((events cal.calId).cursorKey user) n feed.lastCursor ∧
      Passed (events cal.calId) user (mode = .full) feed.items w.db r.world.db n ∧
      (n = 0 → feed.raised = none) := by
  have hloop := Passed.of_steps (events cal.calId) user (mode = .full)
    (fun st : CalendarLoop => st.world.db) CalendarLoop.failures
    (processEvent g remap user mode cal calendarId) hnodup { world := w }
    (fun st' x _ => processEvent_rowStep g remap user mode cal calendarId st' x)
    (fun st' x _ hlive => processEvent_settles g remap user mode cal calendarId st' x hlive)
  have hexceptions := processEvents_exceptions g remap user mode cal calendarId feed.items
    { world := w }
  let st₁ := feed.items.foldl (processEvent g remap user mode cal calendarId) { world := w }
  let st₂ : CalendarLoop :=
    if feed.raised.isSome then { st₁ with failures := st₁.failures + 1 } else st₁
  let st₃ := st₂.exceptions.foldl (applyException g remap user cal) st₂
  have hst₂ : st₂.world = st₁.world ∧ st₂.exceptions = st₁.exceptions ∧
      st₁.failures ≤ st₂.failures ∧ (st₂.failures = 0 → feed.raised = none) := by
    by_cases hraised : feed.raised.isSome = true
    · simp only [st₂, if_pos hraised]
      exact ⟨trivial, trivial, Nat.le_succ _, fun h => by omega⟩
    · simp only [st₂, if_neg hraised]
      exact ⟨trivial, trivial, Nat.le_refl _, fun _ => by simpa using hraised⟩
  obtain ⟨hworld, hput, hle, hzero⟩ := hst₂
  obtain ⟨hrows, hcursors, hn⟩ := applyExceptions_rows g remap user cal st₂.exceptions st₂
  refine ⟨{ world := st₃.world, failures := st₃.failures }, st₃.failures, rfl, ?_,
    fun h => hzero (Nat.le_zero.mp (h ▸ hn))⟩
  -- the exceptions loop writes rows of occurrences, never a row of a master
  apply hloop.then_others hnodup
  · intro k hk
    rw [hworld] at hrows
    apply hrows
    intro x hx
    obtain h | ⟨hmem, hnot⟩ := hexceptions x (hput ▸ hx)
    · exact absurd h List.not_mem_nil
    · exact hk x hmem hnot
  · rw [hworld] at hcursors
    exact hcursors
  · exact Nat.le_trans hle hn

variable {g remap user mode cal}

/-- A calendar's pass reads its feed and settles it. -/
theorem calendarPass_ran {tok : ℕ → Token} {log : List SourceEvent}
    {source : Option Token → Enumeration SourceEvent} {w : World}
    (hreads : Reads (events cal.calId) tok log source)
    (hsynced : Synced (events cal.calId) user tok log w.db) :
    Ran (events cal.calId) user mode source w.db
      (calendarPass g remap user mode cal source w).world.db := by
  have hopen := SameStore.after g w (.ensureCalendar cal.name)
  simp only [calendarPass, openCalendar]
  cases g.ask w (.ensureCalendar cal.name) with
  | error e => exact .idle _ hopen
  | ok calendarId =>
    simp only
    cases hstart : startFrom mode ((g.after w (.ensureCalendar cal.name)).db.getCursor
        ⟨user.sourceId, calendarWorkload cal⟩) with
    | none => exact .idle _ hopen
    | some since =>
      obtain ⟨r, n, heq, hpass, hraised⟩ := migrateCalendar_passed g remap user mode cal calendarId
        (source since) (g.after w (.ensureCalendar cal.name)) (hsynced.feeds hreads hstart)
      simp only [Option.map_some]
      rw [heq]
      exact Ran.of_advance hopen hstart hpass hraised

end

end GwsMigrator
