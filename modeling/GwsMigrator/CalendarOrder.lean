import GwsMigrator.CalendarRuns
import GwsMigrator.CalendarSync
import GwsMigrator.ScriptedGraph
import Mathlib.Data.List.Induction
import Mathlib.Data.Set.Function

/-! The order of a calendar feed. The loop of a pass creates the events of a feed and puts its
occurrences off to the end, so what a pass leaves depends on the order by the created ids alone. -/
namespace GwsMigrator
open Dialogue Mirror

/-! ### What a pass does with an event, by its row when the pass begins -/

/-- The skip at the head of the loop. -/
def skipsDone (mode : Mode) (event : SourceEvent) (row : Option ItemValues) : Prop :=
  row.any (·.status = .done) = true ∧ mode ≠ .delta ∧ ¬ event.isCancelled

instance (mode : Mode) (event : SourceEvent) (row : Option ItemValues) :
    Decidable (skipsDone mode event row) :=
  inferInstanceAs (Decidable (row.any (·.status = .done) = true ∧ mode ≠ .delta ∧
    ¬ event.isCancelled))

/-- An occurrence that is not skipped. -/
def isDeferred (mode : Mode) (event : SourceEvent) (row : Option ItemValues) : Bool :=
  ¬ skipsDone mode event row ∧ event.masterSourceId ≠ ""

/-- No occurrence, not cancelled, and without a recorded id. -/
def isNew (event : SourceEvent) (row : Option ItemValues) : Bool :=
  event.masterSourceId = "" ∧ ¬ event.isCancelled ∧ row.bind (·.destId) = none

/-- The row that the loop leaves for an event it does not put off. `created` is the id of the
event if it has to be created. -/
def rowAfter (mode : Mode) (event : SourceEvent) (row : Option ItemValues) (created : Token) :
    Option ItemValues :=
  if skipsDone mode event row then row
  else if event.isCancelled then
    if (row.bind (fun s => if s.status = .done then s.destId else none)).isSome then
      row.map (fun s => { s with status := .skipped })
    else row
  else if eventUnchanged event row then row
  else some { destId := some ((row.bind (·.destId)).getD created), status := .done,
              sourceHash := orNone event.sourceHash }

/-- A done row names a destination id. -/
def World.DoneNamed (w : World) : Prop :=
  ∀ k row, w.db.getItemState k = some row → row.status = .done → row.destId ≠ none

/-- The call of an event that creates, for which item, and the new id. -/
def creation : Event Call.Ans → Option (ItemKey × Option Token)
  | ⟨.createEvent src _ _, .ok id⟩ => some (src, some id)
  | ⟨.createEvent src _ _, .error _⟩ => some (src, none)
  | _ => none

/-- The creations of a log, newest first. -/
def creations (log : Log Call.Ans) : List (ItemKey × Option Token) := log.filterMap creation

/-- The row with its id under a new name. -/
def ItemValues.rename (ρ : Token → Token) (row : ItemValues) : ItemValues :=
  { row with destId := row.destId.map ρ }

theorem creations_append (newer older : Log Call.Ans) :
    creations (newer ++ older) = creations newer ++ creations older := List.filterMap_append

theorem creation_id {ev : Event Call.Ans} {k : ItemKey} {id : Token}
    (h : creation ev = some (k, some id)) : (eventEffect ev).id? = some id := by
  unfold creation at h
  split at h
  · exact (Prod.mk.inj (Option.some.inj h)).2
  · exact absurd (Prod.mk.inj (Option.some.inj h)).2 (Option.some_ne_none id).symm
  · exact absurd h (Option.some_ne_none (k, some id)).symm

/-- Only issued ids were created. -/
theorem creation_issued {log : Log Call.Ans} {k : ItemKey} {id : Token}
    (h : (k, some id) ∈ creations log) : id ∈ issued eventEffect log := by
  induction log with
  | nil => exact absurd h List.not_mem_nil
  | cons ev log ih =>
    rw [issued, List.mem_append]
    rw [← List.singleton_append, creations_append] at h
    rcases List.mem_append.mp h with hnew | hold
    · left
      obtain ⟨ev', hev, hid⟩ := List.mem_filterMap.mp hnew
      obtain rfl : ev' = ev := List.mem_singleton.mp hev
      rw [creation_id hid]
      exact List.mem_singleton.mpr rfl
    · exact Or.inr (ih hold)

section rows

variable {mode : Mode} {event : SourceEvent} {row : Option ItemValues}

theorem eventUnchanged_done (h : eventUnchanged event row = true) :
    row.any (·.status = .done) = true := by
  obtain ⟨s, hs, hcond⟩ := (Option.any_eq_true _ _).mp h
  rw [hs]
  exact decide_eq_true (of_decide_eq_true hcond).1

theorem isDeferred_own (hown : event.masterSourceId = "") : isDeferred mode event row = false :=
  decide_eq_false (fun h => h.2 hown)

/-- A done row names an id, so no new event has one. -/
theorem isNew_of_done (hnamed : ∀ s, row = some s → s.status = .done → s.destId ≠ none)
    (hdone : row.any (·.status = .done) = true) : isNew event row = false := by
  obtain ⟨s, hs, hstatus⟩ := (Option.any_eq_true _ _).mp hdone
  apply decide_eq_false
  intro h
  have hdest := h.2.2
  rw [hs] at hdest
  exact hnamed s hs (of_decide_eq_true hstatus) hdest

/-- Of an event that is done the row names an id, so a new event is neither skipped nor
unchanged. -/
theorem rowAfter_new (hnew : isNew event row = true)
    (hnamed : ∀ s, row = some s → s.status = .done → s.destId ≠ none) (created : Token) :
    rowAfter mode event row created =
      some { destId := some created, status := .done, sourceHash := orNone event.sourceHash } := by
  obtain ⟨-, hcancelled, hnone⟩ := of_decide_eq_true hnew
  have hopen : ¬ row.any (·.status = .done) = true := by
    intro hdone
    have hold : isNew event row = false := isNew_of_done hnamed hdone
    exact Bool.noConfusion (hold.symm.trans hnew)
  have hskip : ¬ skipsDone mode event row := fun h => hopen h.1
  have hchanged : ¬ eventUnchanged event row = true := fun h => hopen (eventUnchanged_done h)
  rw [rowAfter, if_neg hskip, if_neg hcancelled, if_neg hchanged, hnone]
  rfl

/-- The row of any other event does not depend on created ids. -/
theorem rowAfter_old (hmaster : event.masterSourceId = "") (hold : isNew event row = false)
    (created created' : Token) :
    rowAfter mode event row created = rowAfter mode event row created' := by
  have hold' := of_decide_eq_false hold
  unfold rowAfter
  by_cases hcancelled : event.isCancelled = true
  · simp only [hcancelled, if_true]
  · cases hdest : row.bind (·.destId) with
    | none => exact absurd ⟨hmaster, hcancelled, hdest⟩ hold'
    | some id => rfl

end rows

section
variable {g : Graph} {remap : GraphBody → Except Exc GraphBody} {user : UserMapping}
variable (mode : Mode) (cal : CalendarRef) (calendarId : Token)

/-! ### Done rows name an id -/

theorem World.DoneNamed.congr {w w' : World} (h : w.DoneNamed)
    (hrows : w'.db.getItemState = w.db.getItemState) : w'.DoneNamed := by
  intro k row hrow
  rw [hrows] at hrow
  exact h k row hrow

theorem World.DoneNamed.update {w w' : World} (h : w.DoneNamed) {k : ItemKey} {v : Option ItemValues}
    (hrows : w'.db.getItemState = Function.update w.db.getItemState k v)
    (hv : ∀ row, v = some row → row.status = .done → row.destId ≠ none) : w'.DoneNamed := by
  intro k' row hrow
  rw [hrows] at hrow
  by_cases hk : k' = k
  · subst hk
    rw [Function.update_self] at hrow
    exact hv row hrow
  · rw [Function.update_of_ne hk] at hrow
    exact h k' row hrow

theorem World.DoneNamed.written {w w' : World} (h : w.DoneNamed) {k : ItemKey} {v : ItemValues}
    (hrow : RowWritten k v w.db w'.db) (hv : v.status = .done → v.destId ≠ none) :
    w'.DoneNamed := by
  apply h.update hrow.rows
  intro row heq
  rw [← Option.some.inj heq]
  exact hv

theorem migrateEvent_doneNamed {st : CalendarLoop} (event : SourceEvent)
    (state : Option ItemValues) (h : st.world.DoneNamed) :
    (migrateEvent g remap user cal calendarId st event state).world.DoneNamed := by
  have hsame := writeEvent_same g remap user cal calendarId st.world event (state.bind (·.destId))
  unfold migrateEvent
  dsimp only
  generalize writeEvent g remap user cal st.world calendarId event (state.bind (·.destId)) =
    written at hsame
  obtain ⟨answer, w⟩ := written
  cases answer with
  | error e =>
    exact h.written (hsame.upsert _ _) (fun hdone => Status.noConfusion hdone)
  | ok id =>
    exact h.written (hsame.upsert _ _) (fun _ => Option.some_ne_none id)

variable (g) in
theorem handleCancelled_rows (w : World) (k : ItemKey) :
    (handleCancelled g w k).db.getItemState = w.db.getItemState ∨
      (handleCancelled g w k).db.getItemState = Function.update w.db.getItemState k
        ((w.db.getItemState k).map (fun s => { s with status := .skipped })) := by
  unfold handleCancelled
  cases w.db.getDestId k with
  | none => exact Or.inl rfl
  | some id =>
    dsimp only
    cases g.ask w (.deleteEvent id) with
    | error e => exact Or.inl rfl
    | ok _ =>
      right
      funext k'
      rw [Db.getItemState_setStatus, Function.update_apply]
      rfl

variable (g remap user) in
theorem processEvent_doneNamed {st : CalendarLoop} (event : SourceEvent)
    (h : st.world.DoneNamed) :
    (processEvent g remap user mode cal calendarId st event).world.DoneNamed := by
  unfold processEvent
  dsimp only
  split
  · exact h
  split
  · exact h
  split
  · rcases handleCancelled_rows g st.world (eventKey user cal event.sourceId) with
      hsame | hskipped
    · exact h.congr hsame
    · refine h.update hskipped (fun row hrow hdone => ?_)
      obtain ⟨s, -, rfl⟩ := Option.map_eq_some_iff.mp hrow
      exact Status.noConfusion hdone
  split
  · exact h
  · exact migrateEvent_doneNamed cal calendarId event _ h

theorem applyException_doneNamed {st : CalendarLoop} (event : SourceEvent)
    (h : st.world.DoneNamed) :
    (applyException g remap user cal st event).world.DoneNamed := by
  have hsame := applyOccurrence_same g remap st.world event
    (st.world.db.getDestId (eventKey user cal event.masterSourceId))
  unfold applyException
  dsimp only
  split
  · exact h
  · generalize applyOccurrence g remap st.world event
      (st.world.db.getDestId (eventKey user cal event.masterSourceId)) = applied at hsame
    obtain ⟨answer, w⟩ := applied
    rcases answer with e | (_ | id)
    · exact h.written (hsame.upsert _ _) (fun hdone => Status.noConfusion hdone)
    · exact h.written (hsame.upsert _ _) (fun hdone => Status.noConfusion hdone)
    · exact h.written (hsame.upsert _ _) (fun _ => Option.some_ne_none id)

theorem applyExceptions_doneNamed (exceptions : List SourceEvent) {st : CalendarLoop}
    (h : st.world.DoneNamed) :
    (exceptions.foldl (applyException g remap user cal) st).world.DoneNamed :=
  List.foldlRecOn exceptions (applyException g remap user cal)
    (motive := fun st : CalendarLoop => st.world.DoneNamed) h
    (fun _ hst event _ => applyException_doneNamed cal event hst)

/-- In every state that calendar passes reach, whatever fails in them. -/
theorem CalendarReach.doneNamed {ok : CalendarPass → World → Prop} {w : World}
    (h : CalendarReach g remap user ok w) : w.DoneNamed := by
  induction h with
  | start =>
    intro k row hrow
    exact absurd hrow (by simp [Db.getItemState])
  | lookup _ ih => exact ih.congr rfl
  | @pass w p _ _ ih =>
    have hopen : (g.after w (.ensureCalendar p.cal.name)).DoneNamed := ih.congr rfl
    obtain ⟨raised, hrun⟩ | ⟨calendarId, since, -, hrun, -⟩ := p.run_cases w
    · rw [hrun]
      exact hopen
    · have hloop := List.foldlRecOn (p.source since).items
        (processEvent g remap user p.mode p.cal calendarId)
        (motive := fun st : CalendarLoop => st.world.DoneNamed)
        (b := { world := g.after w (.ensureCalendar p.cal.name) }) hopen
        (fun st hst event _ => processEvent_doneNamed g remap user p.mode p.cal calendarId event hst)
      rw [hrun]
      unfold migrateCalendar
      dsimp only
      refine World.DoneNamed.congr ?_ (funext (advanceCursor_getItemState _ _ _ _))
      split
      · exact applyExceptions_doneNamed p.cal _ hloop
      · exact applyExceptions_doneNamed p.cal _ hloop

/-! ### One event, when no call fails -/

/-- What the loop did with an event that it does not put off. -/
structure EventDone (user : UserMapping) (mode : Mode) (cal : CalendarRef) (event : SourceEvent)
    (st st' : CalendarLoop) (newer : Log Call.Ans) (id : Token) : Prop where
  exceptions : st'.exceptions = st.exceptions
  log : st'.world.log = newer ++ st.world.log
  rows : st'.world.db.getItemState = Function.update st.world.db.getItemState
    (eventKey user cal event.sourceId)
    (rowAfter mode event (st.world.db.getItemState (eventKey user cal event.sourceId)) id)
  created : creations newer =
    if isNew event (st.world.db.getItemState (eventKey user cal event.sourceId)) then
      [(eventKey user cal event.sourceId, some id)]
    else []
  fresh : isNew event (st.world.db.getItemState (eventKey user cal event.sourceId)) = true →
    id ∉ issued eventEffect st.world.log

theorem writeEvent_calm (hcalm : NoFailure g) {event : SourceEvent}
    (hremap : ∃ body, remap event.graphBody = .ok body) (w : World) (existing : Option Token) :
    ∃ id newer, (writeEvent g remap user cal w calendarId event existing).1 =
        .ok (existing.getD id) ∧
      (writeEvent g remap user cal w calendarId event existing).2.log = newer ++ w.log ∧
      creations newer =
        (if existing = none then [(eventKey user cal event.sourceId, some id)] else []) ∧
      (existing = none → id ∉ issued eventEffect w.log) := by
  obtain ⟨body, hbody⟩ := hremap
  unfold writeEvent
  rw [hbody]
  cases existing with
  | some id =>
    obtain ⟨r, hpatch⟩ := hcalm.ask_eq_ok w (.patchEvent id body)
    dsimp only
    rw [hpatch]
    refine ⟨id, [⟨.patchEvent id body, .ok r⟩], rfl, ?_, rfl, fun h => absurd h (by simp)⟩
    exact congrArg (fun a => (⟨.patchEvent id body, a⟩ : Event Call.Ans) :: w.log) hpatch
  | none =>
    let call := Call.createEvent (eventKey user cal event.sourceId) calendarId body
    obtain ⟨id, hcreate⟩ := hcalm.ask_eq_ok w call
    dsimp only
    rw [hcreate]
    refine ⟨id, [⟨call, .ok id⟩], rfl, ?_, rfl,
      fun _ => g.createEvent_fresh _ _ _ _ id hcreate⟩
    exact congrArg (fun a => (⟨call, a⟩ : Event Call.Ans) :: w.log) hcreate

/-- A cancelled event, when no call fails: its row is marked if it names an event. -/
theorem handleCancelled_calm (hcalm : NoFailure g) (w : World) (k : ItemKey) :
    (∃ newer, (handleCancelled g w k).log = newer ++ w.log ∧ creations newer = []) ∧
      (handleCancelled g w k).db.getItemState = Function.update w.db.getItemState k
        (if (w.db.getDestId k).isSome then
          (w.db.getItemState k).map (fun s => { s with status := .skipped })
        else w.db.getItemState k) := by
  unfold handleCancelled
  cases w.db.getDestId k with
  | none => exact ⟨⟨[], rfl, rfl⟩, (Function.update_eq_self k w.db.getItemState).symm⟩
  | some id =>
    obtain ⟨r, hdelete⟩ := hcalm.ask_eq_ok w (.deleteEvent id)
    dsimp only
    rw [hdelete]
    refine ⟨⟨[⟨.deleteEvent id, g.ask w (.deleteEvent id)⟩], rfl, rfl⟩, ?_⟩
    funext k'
    rw [Db.getItemState_setStatus, Function.update_apply]
    rfl

theorem processEvent_eq (st : CalendarLoop) (event : SourceEvent) :
    processEvent g remap user mode cal calendarId st event =
      if skipsDone mode event (st.world.db.getItemState (eventKey user cal event.sourceId)) then st
      else if event.masterSourceId ≠ "" then { st with exceptions := st.exceptions ++ [event] }
      else if event.isCancelled then
        { st with world := handleCancelled g st.world (eventKey user cal event.sourceId) }
      else if eventUnchanged event
        (st.world.db.getItemState (eventKey user cal event.sourceId)) then st
      else migrateEvent g remap user cal calendarId st event
        (st.world.db.getItemState (eventKey user cal event.sourceId)) := rfl

/-- An event that changes nothing. -/
theorem EventDone.idle {event : SourceEvent} {st : CalendarLoop} {row : Option ItemValues}
    (hrow : st.world.db.getItemState (eventKey user cal event.sourceId) = row)
    (hafter : ∀ id, rowAfter mode event row id = row) (hold : isNew event row = false)
    (id : Token) : EventDone user mode cal event st st [] id where
  exceptions := rfl
  log := rfl
  rows := by
    rw [hrow, hafter, ← hrow]
    exact (Function.update_eq_self _ _).symm
  created := by
    rw [hrow, hold]
    rfl
  fresh := by
    rw [hrow, hold]
    exact fun h => Bool.noConfusion h

/-- An event that is created or updated. -/
theorem migrateEvent_calm (hcalm : NoFailure g) {event : SourceEvent}
    (hremap : ∃ body, remap event.graphBody = .ok body) (st : CalendarLoop)
    {row : Option ItemValues}
    (hrow : st.world.db.getItemState (eventKey user cal event.sourceId) = row)
    (hskip : ¬ skipsDone mode event row) (hmaster : event.masterSourceId = "")
    (hcancelled : ¬ event.isCancelled = true) (hchanged : ¬ eventUnchanged event row = true) :
    ∃ newer id, EventDone user mode cal event st
      (migrateEvent g remap user cal calendarId st event row) newer id := by
  have hsame := writeEvent_same g remap user cal calendarId st.world event (row.bind (·.destId))
  obtain ⟨id, newer, hwritten, hlog, hcreated, hfresh⟩ :=
    writeEvent_calm cal calendarId hcalm hremap st.world (row.bind (·.destId))
  have hnew : isNew event row = true ↔ row.bind (·.destId) = none :=
    ⟨fun h => (of_decide_eq_true h).2.2, fun h => decide_eq_true ⟨hmaster, hcancelled, h⟩⟩
  unfold migrateEvent
  dsimp only
  generalize writeEvent g remap user cal st.world calendarId event (row.bind (·.destId)) =
    written at hsame hwritten hlog
  obtain ⟨answer, w⟩ := written
  obtain rfl : answer = .ok ((row.bind (·.destId)).getD id) := hwritten
  refine ⟨newer, id, rfl, hlog, ?_, ?_, ?_⟩
  · rw [hrow, rowAfter, if_neg hskip, if_neg hcancelled, if_neg hchanged]
    exact (hsame.upsert _ _).rows
  · rw [hcreated, hrow]
    exact if_congr hnew.symm rfl rfl
  · rw [hrow]
    exact fun h => hfresh (hnew.mp h)

variable (user) in
theorem processEvent_calm (hcalm : NoFailure g) {event : SourceEvent}
    (hremap : ∃ body, remap event.graphBody = .ok body) (st : CalendarLoop)
    (hnamed : st.world.DoneNamed) :
    if isDeferred mode event (st.world.db.getItemState (eventKey user cal event.sourceId)) then
      processEvent g remap user mode cal calendarId st event =
        { st with exceptions := st.exceptions ++ [event] }
    else ∃ newer id, EventDone user mode cal event st
      (processEvent g remap user mode cal calendarId st event) newer id := by
  rw [processEvent_eq]
  have hdest := hnamed (eventKey user cal event.sourceId)
  have hcancel := handleCancelled_calm hcalm st.world (eventKey user cal event.sourceId)
  rw [Db.getDestId_eq] at hcancel
  generalize hrow : st.world.db.getItemState (eventKey user cal event.sourceId) = row at hdest hcancel
  -- any token will do where none is created
  have htoken : Token := ⟨"id", by decide⟩
  by_cases hskip : skipsDone mode event row
  · have hdeferred : ¬ isDeferred mode event row = true := fun h => (of_decide_eq_true h).1 hskip
    rw [if_neg hdeferred, if_pos hskip]
    exact ⟨[], htoken, EventDone.idle mode cal hrow (fun id => if_pos hskip)
      (isNew_of_done hdest hskip.1) htoken⟩
  · rw [if_neg hskip]
    by_cases hmaster : event.masterSourceId = ""
    · have hdeferred : ¬ isDeferred mode event row = true :=
        Bool.eq_false_iff.mp (isDeferred_own hmaster)
      rw [if_neg hdeferred, if_neg (not_not.mpr hmaster)]
      by_cases hcancelled : event.isCancelled = true
      · have hold : isNew event row = false := decide_eq_false (fun h => h.2.1 hcancelled)
        obtain ⟨⟨newer, hlog, hcreated⟩, hrows⟩ := hcancel
        rw [if_pos hcancelled]
        refine ⟨newer, htoken, rfl, hlog, ?_, ?_, ?_⟩
        · rw [hrow, rowAfter, if_neg hskip, if_pos hcancelled]
          exact hrows
        · rw [hcreated, hrow, hold]
          rfl
        · rw [hrow, hold]
          exact fun h => Bool.noConfusion h
      · rw [if_neg hcancelled]
        by_cases hchanged : eventUnchanged event row = true
        · rw [if_pos hchanged]
          refine ⟨[], htoken, EventDone.idle mode cal hrow (fun id => ?_)
            (isNew_of_done hdest (eventUnchanged_done hchanged)) htoken⟩
          rw [rowAfter, if_neg hskip, if_neg hcancelled, if_pos hchanged]
        · rw [if_neg hchanged]
          exact migrateEvent_calm mode cal calendarId hcalm hremap st hrow hskip hmaster
            hcancelled hchanged
    · have hdeferred : isDeferred mode event row = true := decide_eq_true ⟨hskip, hmaster⟩
      rw [if_pos hdeferred, if_pos hmaster]

/-! ### The loop, when no call fails -/

/-- An event's row when the pass begins. -/
def World.row (w : World) (user : UserMapping) (cal : CalendarRef) (event : SourceEvent) :
    Option ItemValues :=
  w.db.getItemState (eventKey user cal event.sourceId)

variable (user) in
theorem eventKey_inj {sourceId sourceId' : String} :
    eventKey user cal sourceId = eventKey user cal sourceId' ↔ sourceId = sourceId' :=
  ⟨fun h => congrArg ItemKey.sourceId h, fun h => congrArg _ h⟩

/-- Where the loop is after some events, in terms of the rows at its start `w`. -/
structure LoopedOver (user : UserMapping) (mode : Mode) (cal : CalendarRef) (w : World)
    (events : List SourceEvent) (newer : Log Call.Ans) (st : CalendarLoop) : Prop where
  exceptions : st.exceptions = events.filter (fun e => isDeferred mode e (w.row user cal e))
  log : st.world.log = newer ++ w.log
  named : st.world.DoneNamed
  created : ((creations newer).map Prod.fst).reverse =
    (events.filter (fun e => isNew e (w.row user cal e))).map
      (fun e => eventKey user cal e.sourceId)
  ids : ((creations newer).map Prod.snd).Nodup
  rows : ∀ e ∈ events, isDeferred mode e (w.row user cal e) = false →
    ∃ id, st.world.row user cal e = rowAfter mode e (w.row user cal e) id ∧
      (isNew e (w.row user cal e) = true →
        (eventKey user cal e.sourceId, some id) ∈ creations newer)
  others : ∀ k, (∀ e ∈ events, isDeferred mode e (w.row user cal e) = false →
      eventKey user cal e.sourceId ≠ k) →
    st.world.db.getItemState k = w.db.getItemState k

section one

variable {mode cal} {w : World} {events : List SourceEvent} {newer : Log Call.Ans}
  {st : CalendarLoop} {event : SourceEvent}

/-- The loop has not touched the row of an event to come. -/
theorem LoopedOver.row_eq (h : LoopedOver user mode cal w events newer st)
    (hid : ∀ e ∈ events, e.sourceId ≠ event.sourceId) :
    st.world.row user cal event = w.row user cal event := by
  apply h.others
  intro e he _ heq
  exact hid e he ((eventKey_inj user cal).mp heq)

/-- One more event is put off: nothing but the list grows. -/
theorem LoopedOver.defer (h : LoopedOver user mode cal w events newer st)
    (hdeferred : isDeferred mode event (w.row user cal event) = true) :
    LoopedOver user mode cal w (events ++ [event]) newer
      { st with exceptions := st.exceptions ++ [event] } := by
  have hold : isNew event (w.row user cal event) = false :=
    decide_eq_false (fun hnew => (of_decide_eq_true hdeferred).2 hnew.1)
  refine ⟨?_, h.log, h.named, ?_, h.ids, ?_, ?_⟩
  · rw [List.filter_append, List.filter_singleton, hdeferred, h.exceptions]
    rfl
  · rw [List.filter_append, List.filter_singleton, hold, cond_false, List.append_nil]
    exact h.created
  · intro e he hnot
    rcases List.mem_append.mp he with he | he
    · exact h.rows e he hnot
    · rw [List.mem_singleton.mp he, hdeferred] at hnot
      exact Bool.noConfusion hnot
  · exact fun k hk => h.others k (fun e he => hk e (List.mem_append_left _ he))

/-- One more event is done. -/
theorem LoopedOver.done (h : LoopedOver user mode cal w events newer st) {st' : CalendarLoop}
    {more : Log Call.Ans} {id : Token} (hdone : EventDone user mode cal event st st' more id)
    (hnamed : st'.world.DoneNamed)
    (hdeferred : isDeferred mode event (w.row user cal event) = false)
    (hid : ∀ e ∈ events, e.sourceId ≠ event.sourceId) :
    LoopedOver user mode cal w (events ++ [event]) (more ++ newer) st' := by
  have hrow : st.world.db.getItemState (eventKey user cal event.sourceId) =
      w.row user cal event := h.row_eq hid
  have hcreated := hdone.created
  have hrows := hdone.rows
  rw [hrow] at hcreated hrows
  refine ⟨?_, ?_, hnamed, ?_, ?_, ?_, ?_⟩
  · rw [List.filter_append, List.filter_singleton, hdeferred, hdone.exceptions, h.exceptions]
    exact (List.append_nil _).symm
  · rw [hdone.log, h.log, List.append_assoc]
  · rw [creations_append, List.map_append, List.reverse_append, h.created, List.filter_append,
      List.map_append, List.filter_singleton, hcreated]
    cases isNew event (w.row user cal event) <;> rfl
  · rw [creations_append, List.map_append, hcreated]
    by_cases hnew : isNew event (w.row user cal event) = true
    · rw [if_pos hnew]
      refine List.nodup_cons.mpr ⟨fun hmem => ?_, h.ids⟩
      obtain ⟨⟨k, id'⟩, hpair, heq⟩ := List.mem_map.mp hmem
      obtain rfl : id' = some id := heq
      -- an id that was created before was issued before
      apply hdone.fresh (hrow.symm ▸ hnew)
      rw [h.log]
      apply creation_issued (k := k)
      rw [creations_append]
      exact List.mem_append_left _ hpair
    · rw [if_neg hnew]
      exact h.ids
  · intro e he hnot
    rcases List.mem_append.mp he with he | he
    · obtain ⟨id', hrow', hin⟩ := h.rows e he hnot
      refine ⟨id', ?_, fun hnew => ?_⟩
      · have hne : eventKey user cal e.sourceId ≠ eventKey user cal event.sourceId :=
          fun heq => hid e he ((eventKey_inj user cal).mp heq)
        rw [← hrow', World.row, hrows, Function.update_of_ne hne]
        rfl
      · rw [creations_append]
        exact List.mem_append_right _ (hin hnew)
    · obtain rfl : e = event := List.mem_singleton.mp he
      refine ⟨id, ?_, fun hnew => ?_⟩
      · rw [World.row, hrows, Function.update_self]
      · rw [creations_append, hcreated, if_pos hnew]
        exact List.mem_append_left _ (List.mem_singleton.mpr rfl)
  · intro k hk
    have hne : k ≠ eventKey user cal event.sourceId := fun heq =>
      hk event (List.mem_append_right _ (List.mem_singleton.mpr rfl)) hdeferred heq.symm
    rw [hrows, Function.update_of_ne hne]
    exact h.others k (fun e he => hk e (List.mem_append_left _ he))

end one

/-- One more event, with an id of its own. -/
theorem LoopedOver.step (hcalm : NoFailure g) {w : World} {events : List SourceEvent}
    {newer : Log Call.Ans} {st : CalendarLoop} (h : LoopedOver user mode cal w events newer st)
    {event : SourceEvent} (hremap : ∃ body, remap event.graphBody = .ok body)
    (hid : ∀ e ∈ events, e.sourceId ≠ event.sourceId) :
    ∃ newer', LoopedOver user mode cal w (events ++ [event]) newer'
      (processEvent g remap user mode cal calendarId st event) := by
  have hrow : st.world.db.getItemState (eventKey user cal event.sourceId) =
      w.row user cal event := h.row_eq hid
  have hstep := processEvent_calm user mode cal calendarId hcalm hremap st h.named
  have hnamed := processEvent_doneNamed g remap user mode cal calendarId event h.named
  rw [hrow] at hstep
  by_cases hdeferred : isDeferred mode event (w.row user cal event) = true
  · rw [if_pos hdeferred] at hstep
    rw [hstep]
    exact ⟨newer, h.defer hdeferred⟩
  · rw [if_neg hdeferred] at hstep
    obtain ⟨more, id, hdone⟩ := hstep
    exact ⟨more ++ newer, h.done hdone hnamed (Bool.eq_false_iff.mpr hdeferred) hid⟩

/-- The whole loop over a feed with distinct source ids. -/
theorem loopedOver (hcalm : NoFailure g) {w : World} (hnamed : w.DoneNamed)
    (events : List SourceEvent) (hids : (events.map (·.sourceId)).Nodup)
    (hremap : ∀ event ∈ events, ∃ body, remap event.graphBody = .ok body) :
    ∃ newer, LoopedOver user mode cal w events newer
      (events.foldl (processEvent g remap user mode cal calendarId) { world := w }) := by
  induction events using List.reverseRecOn with
  | nil =>
    exact ⟨[], rfl, rfl, hnamed, rfl, List.nodup_nil, fun e he => absurd he List.not_mem_nil,
      fun _ _ => rfl⟩
  | append_singleton events event ih =>
    rw [List.map_append, List.nodup_append] at hids
    obtain ⟨newer, hloop⟩ := ih hids.1 (fun e he => hremap e (List.mem_append_left _ he))
    rw [List.foldl_append]
    refine hloop.step mode cal calendarId hcalm
      (hremap event (List.mem_append_right _ (List.mem_singleton.mpr rfl))) (fun e he => ?_)
    exact hids.2.2 e.sourceId (List.mem_map_of_mem he) event.sourceId
      (List.mem_singleton.mpr rfl)

/-! ### The occurrences -/

theorem creation_of_applies {c : Call} (h : c.AppliesOccurrence) (a : c.Ans) :
    creation ⟨c, a⟩ = none := by
  cases c with
  | createEvent src calendar body => exact h.elim
  | _ => rfl

/-- Some calls on from a log, none of which creates an event. -/
def CreatesNone (log : Log Call.Ans) (w : World) : Prop :=
  ∃ newer, w.log = newer ++ log ∧ creations newer = []

theorem CreatesNone.after {log : Log Call.Ans} {w : World} (h : CreatesNone log w) {c : Call}
    (hc : c.AppliesOccurrence) : CreatesNone log (g.after w c) := by
  obtain ⟨newer, hlog, hnone⟩ := h
  refine ⟨⟨c, g.ask w c⟩ :: newer, ?_, ?_⟩
  · rw [Graph.after_log, hlog]
    rfl
  · exact (List.filterMap_cons_none (creation_of_applies hc (g.ask w c))).trans hnone

variable (g remap user) in
theorem applyException_log {log : Log Call.Ans} {st : CalendarLoop} (event : SourceEvent)
    (h : CreatesNone log st.world) :
    CreatesNone log (applyException g remap user cal st event).world := by
  have happlied := applyOccurrence_keeps g remap event (CreatesNone log)
    (fun _ _ hc hw => hw.after hc) h
    (st.world.db.getDestId (eventKey user cal event.masterSourceId))
  unfold applyException
  dsimp only
  split
  · exact h
  · generalize applyOccurrence g remap st.world event
      (st.world.db.getDestId (eventKey user cal event.masterSourceId)) = applied at happlied
    obtain ⟨answer, w⟩ := applied
    rcases answer with e | (_ | id)
    · exact happlied
    · exact happlied
    · exact happlied

variable (g remap user) in
theorem applyExceptions_log (exceptions : List SourceEvent) (st : CalendarLoop) :
    CreatesNone st.world.log (exceptions.foldl (applyException g remap user cal) st).world :=
  List.foldlRecOn exceptions (applyException g remap user cal)
    (motive := fun st' : CalendarLoop => CreatesNone st.world.log st'.world) ⟨[], rfl, rfl⟩
    (fun _ hst event _ => applyException_log g remap user cal event hst)

/-- What is raised where `_apply_exception` finds no master. -/
def missingMaster (event : SourceEvent) : String :=
  "series master " ++ event.masterSourceId ++ " is not migrated"

/-- The row of an occurrence by what came of it. -/
def occurrenceRow (event : SourceEvent) : Except Exc (Option Token) → ItemValues
  | .ok none => { status := .skipped }
  | .ok (some id) =>
    { destId := some id, status := .done, sourceHash := orNone event.sourceHash }
  | .error e => { status := .failed, lastError := some e.text }

/-- How an occurrence is applied to the master with this id where no call fails: the calls, newest
first, and what comes of it. An instance that is found is deleted if the occurrence is cancelled,
and is patched with the occurrence's body if it is not. -/
inductive Application (remap : GraphBody → Except Exc GraphBody) (event : SourceEvent)
    (master : Token) : Log Call.Ans → Except Exc (Option Token) → Prop
  | deleted (start : event.originalStart ≠ "") (cancelled : event.isCancelled = true) (id : Token) :
      Application remap event master
        [⟨.deleteEvent id, .ok ()⟩, ⟨.findInstance master event.originalStart, .ok (some id)⟩]
        (.ok (some id))
  | patched (start : event.originalStart ≠ "") (live : ¬ event.isCancelled = true) (id : Token)
      (body : GraphBody) (remapped : remap event.graphBody = .ok body) :
      Application remap event master
        [⟨.patchEvent id body, .ok ()⟩, ⟨.findInstance master event.originalStart, .ok (some id)⟩]
        (.ok (some id))
  | gone (start : event.originalStart ≠ "") (cancelled : event.isCancelled = true) :
      Application remap event master [⟨.findInstance master event.originalStart, .ok none⟩]
        (.ok none)
  | unmatched (start : event.originalStart ≠ "") (live : ¬ event.isCancelled = true) :
      Application remap event master [⟨.findInstance master event.originalStart, .ok none⟩]
        (.error (.other "no matching occurrence in the destination series"))
  | noStart (start : event.originalStart = "") :
      Application remap event master []
        (.error (.other "occurrence carries no originalStartTime to match on"))

/-- The step from `st` to `st'` applies the occurrence to the master with this id, unless it is done
and unchanged. -/
structure AppliedTo (remap : GraphBody → Except Exc GraphBody) (user : UserMapping)
    (cal : CalendarRef) (event : SourceEvent) (master : Token) (st st' : CalendarLoop) : Prop where
  unchanged : eventUnchanged event (st.world.row user cal event) = true → st' = st
  applied : ¬ eventUnchanged event (st.world.row user cal event) = true →
    ∃ calls outcome, Application remap event master calls outcome ∧
      st'.world.log = calls ++ st.world.log ∧
      RowWritten (eventKey user cal event.sourceId) (occurrenceRow event outcome) st.world.db
        st'.world.db
  found : ∀ row, st'.world.row user cal event = some row → row.status = .failed →
    row.lastError ≠ some (missingMaster event)

/-- With a master, what is raised when no call fails is not that it is missing. -/
theorem Application.found {event : SourceEvent} {master : Token} {calls : Log Call.Ans}
    {outcome : Except Exc (Option Token)} (h : Application remap event master calls outcome) :
    (occurrenceRow event outcome).lastError ≠ some (missingMaster event) := by
  have hhead : (missingMaster event).toList.head? = some 's' := by simp [missingMaster]
  intro htext
  cases h with
  | deleted | patched | gone => exact absurd htext (by simp [occurrenceRow])
  | unmatched | noStart =>
    rw [← Option.some.inj htext] at hhead
    exact absurd hhead (by decide)

/-- A call that is answered without a failure, in front of the log. -/
theorem Graph.after_log_of_ask {w : World} {c : Call} {a : c.Ans} (h : g.ask w c = a) :
    (g.after w c).log = ⟨c, a⟩ :: w.log := by
  rw [Graph.after_log, h]

theorem applyOccurrence_calm (hcalm : NoFailure g) {event : SourceEvent}
    (hremap : ∃ body, remap event.graphBody = .ok body) (w : World) (master : Token) :
    ∃ calls, Application remap event master calls
        (applyOccurrence g remap w event (some master)).1 ∧
      (applyOccurrence g remap w event (some master)).2.log = calls ++ w.log := by
  simp only [applyOccurrence]
  by_cases hstart : event.originalStart = ""
  · rw [if_pos hstart]
    exact ⟨[], .noStart hstart, rfl⟩
  rw [if_neg hstart]
  obtain ⟨found, hfind⟩ := hcalm.ask_eq_ok w (.findInstance master event.originalStart)
  have hlog := Graph.after_log_of_ask hfind
  rw [hfind]
  cases found with
  | none =>
    by_cases hc : event.isCancelled = true
    · simp only [if_pos hc]
      exact ⟨_, .gone hstart hc, hlog⟩
    · simp only [if_neg hc]
      exact ⟨_, .unmatched hstart hc, hlog⟩
  | some id =>
    by_cases hc : event.isCancelled = true
    · obtain ⟨⟨⟩, hdelete⟩ := hcalm.ask_eq_ok
        (g.after w (.findInstance master event.originalStart)) (.deleteEvent id)
      simp only [if_pos hc, hdelete]
      exact ⟨_, .deleted hstart hc id, (Graph.after_log_of_ask hdelete).trans (congrArg _ hlog)⟩
    · obtain ⟨body, hbody⟩ := hremap
      obtain ⟨⟨⟩, hpatch⟩ := hcalm.ask_eq_ok
        (g.after w (.findInstance master event.originalStart)) (.patchEvent id body)
      simp only [if_neg hc, hbody, hpatch]
      exact ⟨_, .patched hstart hc id body hbody,
        (Graph.after_log_of_ask hpatch).trans (congrArg _ hlog)⟩

variable (g remap) in
/-- An occurrence that changed gets the row of what came of it. -/
theorem applyException_world {st : CalendarLoop} {event : SourceEvent}
    (h : ¬ eventUnchanged event (st.world.row user cal event) = true) :
    (applyException g remap user cal st event).world =
      let applied := applyOccurrence g remap st.world event
        (st.world.db.getDestId (eventKey user cal event.masterSourceId))
      applied.2.upsertItem (eventKey user cal event.sourceId) (occurrenceRow event applied.1) := by
  rw [World.row] at h
  simp only [applyException]
  rw [if_neg h]
  rcases applyOccurrence g remap st.world event
    (st.world.db.getDestId (eventKey user cal event.masterSourceId)) with ⟨e | (_ | id), w⟩ <;> rfl

theorem applyException_applied (hcalm : NoFailure g) {event : SourceEvent}
    (hremap : ∃ body, remap event.graphBody = .ok body) (st : CalendarLoop) {master : Token}
    (hmaster : st.world.db.getDestId (eventKey user cal event.masterSourceId) = some master) :
    AppliedTo remap user cal event master st (applyException g remap user cal st event) := by
  by_cases hsame : eventUnchanged event (st.world.row user cal event) = true
  · have hstays : applyException g remap user cal st event = st := if_pos hsame
    refine ⟨fun _ => hstays, fun h => absurd hsame h, fun row hrow hfailed => ?_⟩
    -- what is unchanged is done
    have hdone := eventUnchanged_done hsame
    rw [hstays] at hrow
    rw [hrow, Option.any_some, hfailed] at hdone
    exact Bool.noConfusion hdone
  · obtain ⟨calls, happlication, hlog⟩ := applyOccurrence_calm hcalm hremap st.world master
    have hstore := applyOccurrence_same g remap st.world event (some master)
    have hworld := applyException_world g remap cal hsame
    rw [hmaster] at hworld
    set applied := applyOccurrence g remap st.world event (some master)
    have hrow : RowWritten (eventKey user cal event.sourceId) (occurrenceRow event applied.1)
        st.world.db (applyException g remap user cal st event).world.db := by
      rw [hworld]
      exact hstore.upsert _ _
    refine ⟨fun h => absurd h hsame, fun _ => ⟨calls, applied.1, happlication, ?_, hrow⟩,
      fun row hself _ => ?_⟩
    · rw [hworld]
      exact hlog
    · rw [World.row, hrow.rows, Function.update_self] at hself
      rw [← Option.some.inj hself]
      exact happlication.found

/-! ### A whole pass, when no call fails -/

theorem LoopedOver.counted {w : World} {events : List SourceEvent} {newer : Log Call.Ans}
    {st : CalendarLoop} (h : LoopedOver user mode cal w events newer st) (n : ℕ) :
    LoopedOver user mode cal w events newer { st with failures := n } :=
  ⟨h.exceptions, h.log, h.named, h.created, h.ids, h.rows, h.others⟩

variable (g remap user) in
/-- Where the loop of a pass ends. -/
def CalendarPass.loopEnd (p : CalendarPass) (calendarId : Token) (feed : Enumeration SourceEvent)
    (w : World) : CalendarLoop :=
  let st := feed.items.foldl (processEvent g remap user p.mode p.cal calendarId)
    { world := g.after w (.ensureCalendar p.cal.name) }
  if feed.raised.isSome then { st with failures := st.failures + 1 } else st

/-- A pass is its loop with the occurrences behind it. -/
theorem CalendarPass.run_loop (hcalm : NoFailure g) {w : World} (hnamed : w.DoneNamed)
    {p : CalendarPass} {feed : Enumeration SourceEvent} (hfeed : p.feed user w = some feed)
    (hids : (feed.items.map (·.sourceId)).Nodup)
    (hremap : ∀ event ∈ feed.items, ∃ body, remap event.graphBody = .ok body) :
    ∃ calendarId newer, g.ask w (.ensureCalendar p.cal.name) = .ok calendarId ∧
      let st := p.loopEnd g remap user calendarId feed w
      let last := st.exceptions.foldl (applyException g remap user p.cal) st
      LoopedOver user p.mode p.cal (g.after w (.ensureCalendar p.cal.name)) feed.items newer st ∧
        (p.run g remap user w).world.log = last.world.log ∧
        (p.run g remap user w).world.db.getItemState = last.world.db.getItemState := by
  obtain ⟨calendarId, hopen⟩ := hcalm.ask_eq_ok w (.ensureCalendar p.cal.name)
  obtain ⟨since, hsince, rfl⟩ := Option.map_eq_some_iff.mp hfeed
  obtain ⟨newer, hloop⟩ := loopedOver p.mode p.cal calendarId hcalm
    (w := g.after w (.ensureCalendar p.cal.name)) (hnamed.congr rfl) (p.source since).items hids
    hremap
  refine ⟨calendarId, newer, hopen, ?_, ?_, ?_⟩
  · unfold CalendarPass.loopEnd
    dsimp only
    split
    · exact hloop.counted p.mode p.cal _
    · exact hloop
  · simp only [CalendarPass.run, calendarPass, openCalendar, hopen, Graph.getCursor_after, hsince,
      Option.map_some, migrateCalendar, advanceCursor_log]
    rfl
  · funext k
    simp only [CalendarPass.run, calendarPass, openCalendar, hopen, Graph.getCursor_after, hsince,
      Option.map_some, migrateCalendar, advanceCursor_getItemState]
    rfl

/-- Of a feed with distinct ids, applying some of what was put off leaves the other rows. -/
theorem rows_after_exceptions {items exceptions : List SourceEvent}
    (hids : (items.map (·.sourceId)).Nodup) {w : World} (hsub : ∀ x ∈ exceptions,
      x ∈ items ∧ isDeferred mode x (w.row user cal x) = true) (st : CalendarLoop)
    {other : SourceEvent} (hother : other ∈ items)
    (hnot : isDeferred mode other (w.row user cal other) = false) :
    (exceptions.foldl (applyException g remap user cal) st).world.row user cal other =
      st.world.row user cal other := by
  apply (applyExceptions_rows g remap user cal exceptions st).1
  intro x hx heq
  obtain ⟨hmem, hdeferred⟩ := hsub x hx
  have hid : other.sourceId = x.sourceId := (eventKey_inj user cal).mp heq
  obtain rfl := List.inj_on_of_nodup_map hids hother hmem hid
  exact Bool.noConfusion (hnot.symm.trans hdeferred)

/-- An event of its own that is not cancelled has an id once the loop is through. -/
theorem rowAfter_named {event : SourceEvent} {row : Option ItemValues}
    (hcancelled : ¬ event.isCancelled = true)
    (hnamed : ∀ s, row = some s → s.status = .done → s.destId ≠ none) (created : Token) :
    ∃ id, (rowAfter mode event row created).bind
      (fun s => if s.status = .done then s.destId else none) = some id := by
  have hdone : row.any (·.status = .done) = true →
      ∃ id, row.bind (fun s => if s.status = .done then s.destId else none) = some id := by
    intro h
    obtain ⟨s, hs, hstatus⟩ := (Option.any_eq_true _ _).mp h
    have hstatus' := of_decide_eq_true hstatus
    obtain ⟨id, hid⟩ := Option.ne_none_iff_exists'.mp (hnamed s hs hstatus')
    refine ⟨id, ?_⟩
    rw [hs, Option.bind_some, if_pos hstatus', hid]
  unfold rowAfter
  by_cases hskip : skipsDone mode event row
  · rw [if_pos hskip]
    exact hdone hskip.1
  · rw [if_neg hskip, if_neg hcancelled]
    by_cases hsame : eventUnchanged event row = true
    · rw [if_pos hsame]
      exact hdone (eventUnchanged_done hsame)
    · rw [if_neg hsame]
      exact ⟨_, rfl⟩

/-- Events are created for the new ones of the feed, once for each and in its order. -/
def CreatesNew (user : UserMapping) (cal : CalendarRef) (items : List SourceEvent)
    (w final : World) : Prop :=
  ∃ newer, final.log = newer ++ w.log ∧
    ((creations newer).map Prod.fst).reverse =
      (items.filter (fun e => isNew e (w.row user cal e))).map
        (fun e => eventKey user cal e.sourceId) ∧
    ((creations newer).map Prod.fst).Nodup

/-- The occurrences that are not skipped are applied one after the other behind the loop, each to
the id that its master has on record by then. -/
structure OccurrencesLast (g : Graph) (remap : GraphBody → Except Exc GraphBody)
    (user : UserMapping) (p : CalendarPass) (items : List SourceEvent) (w final : World)
    (st : CalendarLoop) : Prop where
  deferred : st.exceptions = items.filter (fun e => isDeferred p.mode e (w.row user p.cal e))
  log : final.log = (st.exceptions.foldl (applyException g remap user p.cal) st).world.log
  rows : final.db.getItemState =
    (st.exceptions.foldl (applyException g remap user p.cal) st).world.db.getItemState
  -- by then all other events are through
  others : ∀ before event after, st.exceptions = before ++ event :: after →
    ∀ other ∈ items, isDeferred p.mode other (w.row user p.cal other) = false →
      (before.foldl (applyException g remap user p.cal) st).world.row user p.cal other =
        final.row user p.cal other
  applied : ∀ before event after, st.exceptions = before ++ event :: after → ∀ master,
    (before.foldl (applyException g remap user p.cal) st).world.db.getDestId
      (eventKey user p.cal event.masterSourceId) = some master →
    AppliedTo remap user p.cal event master (before.foldl (applyException g remap user p.cal) st)
      ((before ++ [event]).foldl (applyException g remap user p.cal) st)
  -- wherever in the feed the master stands
  found : ∀ before event after, st.exceptions = before ++ event :: after → ∀ master ∈ items,
    master.sourceId = event.masterSourceId → master.masterSourceId = "" →
    ¬ master.isCancelled = true →
    ∃ id, (before.foldl (applyException g remap user p.cal) st).world.db.getDestId
      (eventKey user p.cal event.masterSourceId) = some id

/-- The rows of the events that are no occurrences agree, but for the ids of the new ones. -/
def RowsRenamed (user : UserMapping) (cal : CalendarRef) (items : List SourceEvent)
    (w final final' : World) : Prop :=
  ∃ ρ : Token → Token,
    Set.InjOn ρ {id | ∃ e ∈ items, isNew e (w.row user cal e) = true ∧
      final.db.recorded (eventKey user cal e.sourceId) = some id} ∧
    ∀ e ∈ items, e.masterSourceId = "" → final'.row user cal e =
      if isNew e (w.row user cal e) then (final.row user cal e).map (ItemValues.rename ρ)
      else final.row user cal e

section pass

variable {p : CalendarPass} {items : List SourceEvent} {w final : World} {newer : Log Call.Ans}
  {st : CalendarLoop}

theorem LoopedOver.createsNew
    (h : LoopedOver user mode cal (g.after w (.ensureCalendar cal.name)) items newer st)
    (hids : (items.map (·.sourceId)).Nodup)
    (hlog : final.log = (st.exceptions.foldl (applyException g remap user cal) st).world.log) :
    CreatesNew user cal items w final := by
  obtain ⟨more, hmore, hnone⟩ := applyExceptions_log g remap user cal st.exceptions st
  let opened : Event Call.Ans := ⟨.ensureCalendar cal.name, g.ask w (.ensureCalendar cal.name)⟩
  have hopened : creations [opened] = [] := rfl
  have hcreations : creations (more ++ newer ++ [opened]) = creations newer := by
    rw [creations_append, creations_append, hnone, hopened, List.nil_append, List.append_nil]
  have hkeys : ((items.filter (fun e => isNew e (w.row user cal e))).map
      (fun e => eventKey user cal e.sourceId)).Nodup := by
    have hfilter : ((items.filter (fun e => isNew e (w.row user cal e))).map
        (·.sourceId)).Nodup := hids.sublist (List.filter_sublist.map _)
    have hmapped := hfilter.map (fun a b heq => (eventKey_inj user cal).mp heq)
    rw [List.map_map] at hmapped
    exact hmapped
  refine ⟨more ++ newer ++ [opened], ?_, ?_, ?_⟩
  · rw [hlog, hmore, h.log, List.append_assoc, List.append_assoc]
    rfl
  · rw [hcreations]
    exact h.created
  · rw [hcreations, ← List.nodup_reverse, h.created]
    exact hkeys

variable (g remap) in
/-- The row that the loop left is there all through the occurrences. -/
theorem LoopedOver.kept {w₁ : World} (h : LoopedOver user mode cal w₁ items newer st)
    (hids : (items.map (·.sourceId)).Nodup) {before : List SourceEvent}
    (hsub : ∀ x ∈ before, x ∈ st.exceptions) {other : SourceEvent} (hother : other ∈ items)
    (hnot : isDeferred mode other (w₁.row user cal other) = false) :
    (before.foldl (applyException g remap user cal) st).world.row user cal other =
      st.world.row user cal other := by
  refine rows_after_exceptions mode cal hids (fun x hx => ?_) st hother hnot
  have hput := hsub x hx
  rw [h.exceptions] at hput
  exact List.mem_filter.mp hput

theorem LoopedOver.occurrencesLast (hcalm : NoFailure g) (hnamed : w.DoneNamed)
    (h : LoopedOver user p.mode p.cal (g.after w (.ensureCalendar p.cal.name)) items newer st)
    (hids : (items.map (·.sourceId)).Nodup)
    (hremap : ∀ event ∈ items, ∃ body, remap event.graphBody = .ok body)
    (hlog : final.log = (st.exceptions.foldl (applyException g remap user p.cal) st).world.log)
    (hrows : final.db.getItemState =
      (st.exceptions.foldl (applyException g remap user p.cal) st).world.db.getItemState) :
    OccurrencesLast g remap user p items w final st := by
  have hbefore : ∀ before event after, st.exceptions = before ++ event :: after →
      ∀ x ∈ before, x ∈ st.exceptions := by
    intro before event after heq x hx
    rw [heq]
    exact List.mem_append_left _ hx
  refine ⟨h.exceptions, hlog, hrows, ?_, ?_, ?_⟩
  · intro before event after heq other hother hnot
    have hfinal : final.row user p.cal other =
        (st.exceptions.foldl (applyException g remap user p.cal) st).world.row user p.cal other :=
      congrFun hrows _
    rw [hfinal, h.kept g remap p.mode p.cal hids (fun x hx => hx) hother hnot]
    exact h.kept g remap p.mode p.cal hids (hbefore before event after heq) hother hnot
  · intro before event after heq master hmaster
    have hevent : event ∈ st.exceptions := by
      rw [heq]
      exact List.mem_append_right _ List.mem_cons_self
    rw [h.exceptions] at hevent
    rw [List.foldl_append]
    exact applyException_applied p.cal hcalm (hremap event (List.mem_filter.mp hevent).1) _ hmaster
  · intro before event after heq master hmem hid hown hcancelled
    have hnot : isDeferred p.mode master (w.row user p.cal master) = false := isDeferred_own hown
    obtain ⟨created, hrow, -⟩ := h.rows master hmem hnot
    have hnow := h.kept g remap p.mode p.cal hids
      (hbefore before event after heq) hmem hnot
    obtain ⟨id, hdest⟩ := rowAfter_named p.mode hcancelled
      (fun s hs => hnamed (eventKey user p.cal master.sourceId) s hs) created
    refine ⟨id, ?_⟩
    rw [← hid, Db.getDestId_eq]
    exact (congrArg (Option.bind · _) (hnow.trans hrow)).trans hdest

/-- The new events have rows with the ids they were created under, each its own. -/
theorem LoopedOver.newIds
    (h : LoopedOver user mode cal (g.after w (.ensureCalendar cal.name)) items newer st)
    (hids : (items.map (·.sourceId)).Nodup)
    (hrows : final.db.getItemState =
      (st.exceptions.foldl (applyException g remap user cal) st).world.db.getItemState) :
    ∃ f : SourceEvent → Token,
      Set.InjOn f {e | e ∈ items ∧ isNew e (w.row user cal e) = true} ∧
      ∀ e ∈ items, e.masterSourceId = "" →
        final.row user cal e = rowAfter mode e (w.row user cal e) (f e) := by
  have hcreated : ∀ e, ∃ id, e ∈ items → e.masterSourceId = "" →
      final.row user cal e = rowAfter mode e (w.row user cal e) id ∧
        (isNew e (w.row user cal e) = true →
          (eventKey user cal e.sourceId, some id) ∈ creations newer) := by
    intro e
    by_cases hmem : e ∈ items ∧ e.masterSourceId = ""
    · have hnot : isDeferred mode e (w.row user cal e) = false := isDeferred_own hmem.2
      obtain ⟨id, hrow, hin⟩ := h.rows e hmem.1 hnot
      have hfinal : final.row user cal e =
          (st.exceptions.foldl (applyException g remap user cal) st).world.row user cal e :=
        congrFun hrows _
      refine ⟨id, fun _ _ => ⟨?_, hin⟩⟩
      rw [hfinal, h.kept g remap mode cal hids (fun x hx => hx) hmem.1 hnot]
      exact hrow
    · exact ⟨⟨"id", by decide⟩, fun he hown => absurd ⟨he, hown⟩ hmem⟩
  choose f hf using hcreated
  refine ⟨f, fun a ha b hb heq => ?_, fun e he hown => (hf e he hown).1⟩
  have hfirst := (hf a ha.1 (of_decide_eq_true ha.2).1).2 ha.2
  have hsecond := (hf b hb.1 (of_decide_eq_true hb.2).1).2 hb.2
  -- no id was created twice, so it was for the same event
  have hpair := List.inj_on_of_nodup_map h.ids hfirst hsecond (congrArg some heq)
  exact List.inj_on_of_nodup_map hids ha.1 hb.1
    ((eventKey_inj user cal).mp (congrArg Prod.fst hpair))

end pass

/-- What two maps do differently on a set is a renaming. -/
theorem exists_renaming {α ι : Type} {s : Set α} {f h : α → ι} (hf : Set.InjOn f s)
    (hh : Set.InjOn h s) : ∃ ρ : ι → ι, Set.InjOn ρ (f '' s) ∧ ∀ a ∈ s, ρ (f a) = h a := by
  have hρ : ∀ a ∈ s, Function.extend (fun a : s => f a) (fun a : s => h a) id (f a) = h a :=
    fun a ha => (Set.injOn_iff_injective.mp hf).extend_apply (fun a : s => h a) id ⟨a, ha⟩
  refine ⟨Function.extend (fun a : s => f a) (fun a : s => h a) id, ?_, hρ⟩
  rintro _ ⟨a, ha, rfl⟩ _ ⟨b, hb, rfl⟩ heq
  rw [hρ a ha, hρ b hb] at heq
  rw [hh ha hb heq]

/-- Two maps of rows that differ in the ids of the new events alone. -/
theorem rowsRenamed_of {items : List SourceEvent} {w final final' : World} (hnamed : w.DoneNamed)
    {f h : SourceEvent → Token}
    (hf : Set.InjOn f {e | e ∈ items ∧ isNew e (w.row user cal e) = true})
    (hh : Set.InjOn h {e | e ∈ items ∧ isNew e (w.row user cal e) = true})
    (hrow : ∀ e ∈ items, e.masterSourceId = "" →
      final.row user cal e = rowAfter mode e (w.row user cal e) (f e))
    (hrow' : ∀ e ∈ items, e.masterSourceId = "" →
      final'.row user cal e = rowAfter mode e (w.row user cal e) (h e)) :
    RowsRenamed user cal items w final final' := by
  obtain ⟨ρ, hinj, hρ⟩ := exists_renaming hf hh
  have hnew : ∀ e ∈ items, isNew e (w.row user cal e) = true → final.row user cal e =
      some { destId := some (f e), status := .done, sourceHash := orNone e.sourceHash } := by
    intro e he hnew
    rw [hrow e he (of_decide_eq_true hnew).1]
    exact rowAfter_new hnew (fun s hs => hnamed _ s hs) (f e)
  refine ⟨ρ, hinj.mono ?_, ?_⟩
  · rintro id ⟨e, he, hisNew, hid⟩
    refine ⟨e, ⟨he, hisNew⟩, ?_⟩
    rw [Db.recorded_eq] at hid
    have hdest := (congrArg (Option.bind · ItemValues.destId) (hnew e he hisNew)).symm.trans hid
    exact Option.some.inj hdest
  · intro e he hown
    rw [hrow' e he hown]
    by_cases hisNew : isNew e (w.row user cal e) = true
    · rw [if_pos hisNew, hnew e he hisNew,
        rowAfter_new hisNew (fun s hs => hnamed _ s hs) (h e), ← hρ e ⟨he, hisNew⟩]
      rfl
    · rw [if_neg hisNew, hrow e he hown]
      exact rowAfter_old hown (Bool.not_eq_true _ ▸ hisNew) (h e) (f e)

end

/-- In any order of a feed with distinct source ids, a pass without failing calls creates the new
events once each, and applies the occurrences behind all others, to the masters' ids on record by
then. Any two orders leave the same rows of the events that are no occurrences, up to the ids of
the new ones. -/
theorem calendar_any_order {g₀ : Graph} {remap₀ : GraphBody → Except Exc GraphBody}
    {user : UserMapping} {w : World} (hreach : CalendarReach g₀ remap₀ user (fun _ _ => True) w)
    {g : Graph} (hcalm : NoFailure g) {remap : GraphBody → Except Exc GraphBody}
    {p : CalendarPass} {feed : Enumeration SourceEvent} (hfeed : p.feed user w = some feed)
    (hids : (feed.items.map (·.sourceId)).Nodup)
    (hremap : ∀ event ∈ feed.items, ∃ body, remap event.graphBody = .ok body) :
    (∃ calendarId, g.ask w (.ensureCalendar p.cal.name) = .ok calendarId ∧
      CreatesNew user p.cal feed.items w (p.run g remap user w).world ∧
      OccurrencesLast g remap user p feed.items w (p.run g remap user w).world
        (p.loopEnd g remap user calendarId feed w)) ∧
    ∀ g' source' feed', NoFailure g' →
      (CalendarPass.mk p.cal p.mode source').feed user w = some feed' →
      feed.items.Perm feed'.items →
      RowsRenamed user p.cal feed.items w (p.run g remap user w).world
        ((CalendarPass.mk p.cal p.mode source').run g' remap user w).world := by
  have hnamed := hreach.doneNamed
  obtain ⟨calendarId, newer, hopen, hloop, hlog, hrows⟩ := p.run_loop hcalm hnamed hfeed hids hremap
  have hlast := hloop.occurrencesLast hcalm hnamed hids hremap hlog hrows
  refine ⟨⟨calendarId, hopen, hloop.createsNew p.mode p.cal hids hlog, hlast⟩, ?_⟩
  intro g' source' feed' hcalm' hfeed' hperm
  have hids' : (feed'.items.map (·.sourceId)).Nodup := (hperm.map _).nodup_iff.mp hids
  have hremap' : ∀ event ∈ feed'.items, ∃ body, remap event.graphBody = .ok body :=
    fun event hevent => hremap event (hperm.mem_iff.mpr hevent)
  obtain ⟨calendarId', newer', -, hloop', -, hrows'⟩ :=
    (CalendarPass.mk p.cal p.mode source').run_loop hcalm' hnamed hfeed' hids' hremap'
  obtain ⟨f, hf, hrow⟩ := hloop.newIds p.mode p.cal hids hrows
  obtain ⟨h, hh, hrow'⟩ := hloop'.newIds p.mode p.cal hids' hrows'
  have hsame : {e | e ∈ feed'.items ∧ isNew e (w.row user p.cal e) = true} =
      {e | e ∈ feed.items ∧ isNew e (w.row user p.cal e) = true} :=
    Set.ext (fun e => and_congr_left (fun _ => hperm.mem_iff.symm))
  rw [hsame] at hh
  exact rowsRenamed_of p.mode p.cal hnamed hf hh hrow
    (fun e he => hrow' e (hperm.mem_iff.mp he))

/-- A moved occurrence that is listed before its new series, and the feed the other way round. -/
def occurrenceFirst : CalendarPass × CalendarPass :=
  let cal : CalendarRef := ⟨"c", "Calendar"⟩
  let master : SourceEvent := { sourceId := "m" }
  let occurrence : SourceEvent :=
    { sourceId := "e", masterSourceId := "m", originalStart := "2026-03-10T09:00:00-07:00" }
  (⟨cal, .full, fun _ => { items := [occurrence, master] }⟩,
   ⟨cal, .full, fun _ => { items := [master, occurrence] }⟩)

def seriesInstance : Token := ⟨"i-2026-03-10", by decide⟩

/-- A destination on which no call fails and every series has the instance that is asked for. -/
def seriesGraph : Graph :=
  { calmGraph with
    answer := fun log c =>
      match c with
      | .findInstance .. => .ok (some seriesInstance)
      | c => calmGraph.answer log c
    createContact_fresh := calmGraph.createContact_fresh
    createEvent_fresh := calmGraph.createEvent_fresh }

theorem seriesGraph_noFailure : NoFailure seriesGraph := by
  intro log c e h
  cases c <;> cases h

/-- The series is created first, and the instance found in it is patched. -/
theorem calendar_any_order_series :
    let user : UserMapping := ⟨"a@source", "a@dest"⟩
    let cal : CalendarRef := ⟨"c", "Calendar"⟩
    let feed := occurrenceFirst.1.source none
    let w := (occurrenceFirst.1.run seriesGraph .ok user {}).world
    let w' := (occurrenceFirst.2.run calmGraph .ok user {}).world
    CreatesNew user cal feed.items {} w ∧ RowsRenamed user cal feed.items {} w w' ∧
      (∃ calendarId, OccurrencesLast seriesGraph .ok user occurrenceFirst.1 feed.items {} w
        (occurrenceFirst.1.loopEnd seriesGraph .ok user calendarId feed {})) ∧
      ∃ master, w.db.getDestId (eventKey user cal "m") = some master ∧
        w.db.getDestId (eventKey user cal "e") = some seriesInstance ∧
        w.log.take 2 = [⟨.patchEvent seriesInstance "", .ok ()⟩,
          ⟨.findInstance master "2026-03-10T09:00:00-07:00", .ok (some seriesInstance)⟩] := by
  intro user cal feed w w'
  have hreach : CalendarReach seriesGraph .ok user (fun _ _ => True) {} := CalendarReach.start
  have hfeed : occurrenceFirst.1.feed user {} = some feed := rfl
  have hremap : ∀ event ∈ feed.items,
      ∃ body, (Except.ok event.graphBody : Except Exc GraphBody) = .ok body :=
    fun event _ => ⟨event.graphBody, rfl⟩
  obtain ⟨⟨calendarId, -, hnew, hlast⟩, hany⟩ :=
    calendar_any_order hreach seriesGraph_noFailure hfeed (by decide) hremap
  refine ⟨hnew, hany calmGraph occurrenceFirst.2.source _ calmGraph_noFailure rfl
    (List.Perm.swap _ _ _), ⟨calendarId, hlast⟩, ⟨"i", by decide⟩, by decide, by decide, ?_⟩
  rfl

end GwsMigrator
