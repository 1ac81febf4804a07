import GwsMigrator.DeltaFeed
import GwsMigrator.SyncCursor

/-! `google/calendar.py` and the calendars of `connectors/google.py`: the events of a calendar, all
of them or those changed since a sync token. Nothing is done about a token that has expired, so
that its calendar stands still in every delta pass from then on. -/
namespace GwsMigrator.GoogleCalendar
open Program
open DeltaFeed (truthy)

structure CalendarItem where
  id : String
  summary : Option String := none

structure OriginalStart where
  dateTime : Option String := none
  date : Option String := none

/-- An event, with the keys that `iter_events` looks at. `body` is what `_map_event` makes of it, or
what it raises. -/
structure EventItem where
  id : String := ""
  status : String := ""
  recurringEventId : String := ""
  originalStartTime : OriginalStart := {}
  etag : String := ""
  body : Except Exc GraphBody := .ok ""

structure EventsPage where
  items : List EventItem
  nextPageToken : Option String := none
  nextSyncToken : Option String := none

/-- The requests to the Calendar API. -/
inductive CalendarRequest where
  | calendarList
  | events (calendarId : String) (syncToken pageToken : Option Token)

abbrev CalendarRequest.Ans : CalendarRequest → Type
  | .calendarList => Except Exc (List CalendarItem)
  | .events .. => Except Exc EventsPage

abbrev CalendarProgram := Program CalendarRequest.Ans

/-- `list_calendars`. The first page is all that is read of the list. -/
def listCalendars : CalendarProgram (Enumeration CalendarRef) := do
  match ← perform CalendarRequest.calendarList with
  | .error e => pure { items := [], raised := some e }
  | .ok items =>
    let calendars := items.filter (fun item => item.id ≠ "contacts@group.v.calendar.google.com")
    pure { items := calendars.map (fun item => ⟨item.id, item.summary.getD item.id⟩) }

/-- The loop of `calendar.iter_events` from a page on: the events, and the sync token on the last
page. The pages after the first one are asked for without the sync token. -/
def listEvents (calendarId : String) : ℕ → Option Token → Option Token →
    CalendarProgram (Option (Except Exc (List EventItem × String)))
  | 0, _, _ => pure none
  | fuel + 1, syncToken, pageToken => do
    match ← perform (CalendarRequest.events calendarId syncToken pageToken) with
    | .error e => pure (some (.error e))
    | .ok resp =>
      match resp.nextPageToken.bind truthy with
      | none => pure (some (.ok (resp.items, resp.nextSyncToken.getD "")))
      | some next => do
        match ← listEvents calendarId fuel none (some next) with
        | some (.ok (more, newSyncToken)) => pure (some (.ok (resp.items ++ more, newSyncToken)))
        | r => pure r

/-- `original.get("dateTime") or original.get("date", "")`. -/
def OriginalStart.text (original : OriginalStart) : String :=
  (original.dateTime.filter (· ≠ "")).getD (original.date.getD "")

def EventItem.cancelled (item : EventItem) : Bool := item.status = "cancelled"

/-- The event that is handed out for an item. A cancelled one has no body. -/
def toEvent (item : EventItem) (body : GraphBody) : SourceEvent where
  sourceId := item.id
  graphBody := body
  isCancelled := item.cancelled
  masterSourceId := item.recurringEventId
  originalStart := item.originalStartTime.text
  sourceHash := item.etag

/-- The loop over the items: an item without an id is left out, and one that cannot be mapped is the
end of the generator. -/
def yieldEvents : List EventItem → List SourceEvent × Option Exc
  | [] => ([], none)
  | item :: items =>
    if item.id = "" then yieldEvents items
    else
      match if item.cancelled then .ok "" else item.body with
      | .error e => ([], some e)
      | .ok body => (toEvent item body :: (yieldEvents items).1, (yieldEvents items).2)

/-- `GoogleWorkspaceSource.iter_events`, run to its end. The cursor is set before the first event
is handed out. -/
def iterEvents (calendarId : String) (since : Option Token) (fuel : ℕ) :
    CalendarProgram (Option (Enumeration SourceEvent)) := do
  match ← listEvents calendarId fuel since none with
  | none => pure none
  | some (.error e) => pure (some { items := [], raised := some e })
  | some (.ok (items, newToken)) =>
    pure (some { items := (yieldEvents items).1, raised := (yieldEvents items).2,
                 lastCursor := truthy newToken })

/-- The calendars of an account behind the Calendar API, whose sync tokens expire: a list of events
with one that has expired is refused, and it does not become valid again. -/
structure CalendarHost (σ : Type) where
  serve : (r : CalendarRequest) → σ → r.Ans × σ
  expired : σ → String → Token → Prop
  ages : ∀ r s calId t, expired s calId t → expired (serve r s).2 calId t
  refuses : ∀ s calId t, expired s calId t →
    ∃ text, (serve (.events calId (some t) none) s).1 = .error (.http 410 text)

variable {σ : Type} (host : CalendarHost σ)

/-- A run of `iter_events` that comes to its end. -/
def Fetches (calId : String) (since : Option Token) (s : σ) (e : Enumeration SourceEvent)
    (s' : σ) : Prop :=
  ∃ fuel, (iterEvents calId since fuel).run host.serve s = (some e, s')

/-- Time goes by for the host. -/
def Moves (s s' : σ) : Prop := ∀ calId t, host.expired s calId t → host.expired s' calId t

/-- What a delta pass from `w` reads of a host, which moves from `s` to `s'` meanwhile: the list of
the calendars, and for each of them its events since the stored token. -/
structure PassReads (user : UserMapping) (w : World) (s : σ) (calendars : Enumeration CalendarRef)
    (source : CalendarRef → Option Token → Enumeration SourceEvent) (s' : σ) : Prop where
  listed : ∃ s₁ s₂, Moves host s s₁ ∧ listCalendars.run host.serve s₁ = (calendars, s₂)
  fetched : ∀ cal ∈ calendars.items, ∀ t,
    w.db.getCursor ⟨user.sourceId, calendarWorkload cal⟩ = some t →
    ∃ s₁ s₂, Moves host s s₁ ∧ Fetches host cal.calId (some t) s₁ (source cal (some t)) s₂
  moves : Moves host s s'

variable (g : Graph) (remap : GraphBody → Except Exc GraphBody) (user : UserMapping)

/-- What comes after a state: time goes by, and delta passes run. -/
inductive Later (w₀ : World) (s₀ : σ) : World → σ → Prop
  | here : Later w₀ s₀ w₀ s₀
  | moved {w : World} {s s' : σ} (before : Later w₀ s₀ w s) (moves : Moves host s s') :
      Later w₀ s₀ w s'
  | passed {w : World} {s s' : σ} (before : Later w₀ s₀ w s)
      (calendars : Enumeration CalendarRef)
      (source : CalendarRef → Option Token → Enumeration SourceEvent)
      (reads : PassReads host user w s calendars source s') :
      Later w₀ s₀ (runCalendar g remap user .delta calendars source w).world s'

/-- The store has the same rows and the same cursor for a calendar as before. -/
structure Left (calId : String) (db db' : Db) : Prop where
  rows : ∀ id, db'.getItemState ((events calId).key user id) =
    db.getItemState ((events calId).key user id)
  cursor : db'.getCursor ((events calId).cursorKey user) =
    db.getCursor ((events calId).cursorKey user)

variable {host g remap user}

namespace Left

variable {calId : String} {db db₁ db' : Db}

theorem of_same (h : SameStore db db') : Left user calId db db' :=
  ⟨fun _ => congrFun h.rows _, congrFun h.cursors _⟩

theorem trans (h : Left user calId db db₁) (h' : Left user calId db₁ db') :
    Left user calId db db' :=
  ⟨fun id => (h'.rows id).trans (h.rows id), h'.cursor.trans h.cursor⟩

/-- A row of another calendar is written. -/
theorem of_rowStep {calId' id : String} {n n' : ℕ} (hne : calId ≠ calId')
    (h : RowStep ((events calId').key user id) db db' n n') : Left user calId db db' := by
  refine ⟨fun id' => h.rows _ (fun hkey => hne ?_), congrFun h.cursors _⟩
  exact calendar_inj (congrArg ItemKey.workload hkey)

/-- The end of the pass over another calendar. -/
theorem of_advance {calId' : String} (hne : calId ≠ calId') (r : JobResult) (n : ℕ)
    (last : Option Token) :
    Left user calId r.world.db
      (advanceCursor r ((events calId').cursorKey user) n last).world.db := by
  refine ⟨fun id => advanceCursor_getItemState .., ?_⟩
  rcases advanceCursor_getCursor r ((events calId').cursorKey user) n last with
    hsame | ⟨-, c, -, hsaved⟩
  · exact congrFun hsame _
  · rw [hsaved, Function.update_of_ne]
    intro hkey
    exact hne (calendar_inj (congrArg CursorKey.workload hkey))

end Left

/-- The pass over a calendar leaves the others alone. -/
theorem migrateCalendar_left {calId : String} {mode : Mode} {cal : CalendarRef}
    (hne : calId ≠ cal.calId) (calendarId : Token) (feed : Enumeration SourceEvent) (w : World) :
    Left user calId w.db
      (migrateCalendar g remap user mode cal calendarId feed w).world.db := by
  have hevents : Left user calId w.db
      (feed.items.foldl (processEvent g remap user mode cal calendarId) { world := w }).world.db :=
    List.foldlRecOn feed.items _
      (motive := fun st : CalendarLoop => Left user calId w.db st.world.db)
      (Left.of_same (.refl _))
      (fun st hst event _ => hst.trans
        (.of_rowStep hne (processEvent_rowStep g remap user mode cal calendarId st event)))
  have hexceptions : ∀ st : CalendarLoop, Left user calId w.db st.world.db →
      Left user calId w.db
        (st.exceptions.foldl (applyException g remap user cal) st).world.db :=
    fun st hst => List.foldlRecOn st.exceptions _
      (motive := fun st' : CalendarLoop => Left user calId w.db st'.world.db) hst
      (fun st' hst' event _ => hst'.trans
        (.of_rowStep hne (applyException_rowStep g remap user cal st' event)))
  let st₁ := feed.items.foldl (processEvent g remap user mode cal calendarId) { world := w }
  let st₂ : CalendarLoop :=
    if feed.raised.isSome then { st₁ with failures := st₁.failures + 1 } else st₁
  let st₃ := st₂.exceptions.foldl (applyException g remap user cal) st₂
  have hworld : st₂.world = st₁.world := by
    simp only [st₂]
    split <;> rfl
  have hst₃ : Left user calId w.db st₃.world.db := by
    apply hexceptions
    rw [hworld]
    exact hevents
  exact hst₃.trans (.of_advance hne { world := st₃.world, failures := st₃.failures }
    st₃.failures feed.lastCursor)

/-- A calendar whose enumeration raises at once: one failure, and nothing else. -/
theorem migrateCalendar_raised {mode : Mode} {cal : CalendarRef} {calendarId : Token}
    {feed : Enumeration SourceEvent} (w : World) (hitems : feed.items = [])
    (hraised : feed.raised.isSome = true) :
    migrateCalendar g remap user mode cal calendarId feed w = { world := w, failures := 1 } := by
  simp only [migrateCalendar, hitems, hraised, List.foldl_nil, if_true, Nat.zero_add]
  cases feed.lastCursor with
  | none => rfl
  | some c => rfl

/-- The events since an expired token cannot be read. -/
theorem fetches_expired {calId : String} {t : Token} {s s' : σ} {e : Enumeration SourceEvent}
    (h : Fetches host calId (some t) s e s') (hexpired : host.expired s calId t) :
    e.items = [] ∧ e.raised.isSome = true := by
  obtain ⟨fuel, hrun⟩ := h
  cases fuel with
  | zero => cases hrun
  | succ fuel =>
    obtain ⟨text, hanswer⟩ := host.refuses s calId t hexpired
    rw [iterEvents, run_bind, listEvents, perform_bind, run_request, hanswer] at hrun
    obtain rfl := Option.some.inj (congrArg Prod.fst hrun)
    exact ⟨rfl, rfl⟩

variable (g remap) in
/-- A calendar with an expired token is as it was after a pass over it, which raised or counted
a failure. -/
theorem calendarPass_expired {cal : CalendarRef} {t : Token} {s s' : σ} {w : World}
    {source : Option Token → Enumeration SourceEvent}
    (hcursor : w.db.getCursor ⟨user.sourceId, calendarWorkload cal⟩ = some t)
    (hexpired : host.expired s cal.calId t)
    (hfetch : Fetches host cal.calId (some t) s (source (some t)) s') :
    SameStore w.db (calendarPass g remap user .delta cal source w).world.db ∧
      ((calendarPass g remap user .delta cal source w).raised ≠ none ∨
        0 < (calendarPass g remap user .delta cal source w).failures) := by
  have hopen := SameStore.after g w (.ensureCalendar cal.name)
  obtain ⟨hitems, hraised⟩ := fetches_expired hfetch hexpired
  have hstart : startFrom .delta ((g.after w (.ensureCalendar cal.name)).db.getCursor
      ⟨user.sourceId, calendarWorkload cal⟩) = some (some t) := by
    rw [hopen.cursors, hcursor]
    rfl
  simp only [calendarPass, openCalendar]
  cases g.ask w (.ensureCalendar cal.name) with
  | error e => exact ⟨hopen, Or.inl (by simp)⟩
  | ok calendarId =>
    simp only [hstart, Option.map_some]
    rw [migrateCalendar_raised _ hitems hraised]
    exact ⟨hopen, Or.inr Nat.one_pos⟩

theorem calendarPass_left {calId : String} {mode : Mode} {cal : CalendarRef}
    (hne : calId ≠ cal.calId) (source : Option Token → Enumeration SourceEvent) (w : World) :
    Left user calId w.db (calendarPass g remap user mode cal source w).world.db := by
  have hopen : Left user calId w.db (g.after w (.ensureCalendar cal.name)).db :=
    .of_same (.after g w _)
  simp only [calendarPass, openCalendar]
  cases g.ask w (.ensureCalendar cal.name) with
  | error e => exact hopen
  | ok calendarId =>
    simp only
    cases startFrom mode ((g.after w (.ensureCalendar cal.name)).db.getCursor
        ⟨user.sourceId, calendarWorkload cal⟩) with
    | none => exact hopen
    | some since => exact hopen.trans (migrateCalendar_left hne calendarId (source since) _)

/-- A job that ended with an exception or counted a failure. -/
def Fails (r : JobResult) : Prop := r.raised ≠ none ∨ 0 < r.failures

section

variable {w : World} {s s' : σ} {cal : CalendarRef} {t : Token}
variable {calendars : Enumeration CalendarRef}
variable {source : CalendarRef → Option Token → Enumeration SourceEvent}

variable (g remap) in
/-- One round of a delta pass, over the calendar with the expired token or over another one. -/
theorem addCalendar_left (hcursor : w.db.getCursor ((events cal.calId).cursorKey user) = some t)
    (hexpired : host.expired s cal.calId t) (hreads : PassReads host user w s calendars source s')
    {r : JobResult} (hr : Left user cal.calId w.db r.world.db) {next : CalendarRef}
    (hnext : next ∈ calendars.items) :
    Left user cal.calId w.db (addCalendar g remap user .delta source r next).world.db ∧
      (Fails r ∨ cal.calId = next.calId →
        Fails (addCalendar g remap user .delta source r next)) := by
  unfold addCalendar
  by_cases hraised : r.raised.isSome = true
  · rw [if_pos hraised]
    exact ⟨hr, fun _ => Or.inl (Option.isSome_iff_ne_none.mp hraised)⟩
  · rw [if_neg hraised]
    have hkept : Fails r → 0 < r.failures := fun h => h.resolve_left (fun hne =>
      hraised (Option.isSome_iff_ne_none.mpr hne))
    by_cases hsame : cal.calId = next.calId
    · rw [hsame] at hcursor hexpired hr
      obtain ⟨s₁, s₂, hmoves, hfetch⟩ := hreads.fetched next hnext t hcursor
      obtain ⟨hstore, hfails⟩ := calendarPass_expired g remap
        (hr.cursor.trans hcursor) (hmoves _ _ hexpired) hfetch
      rw [hsame]
      refine ⟨hr.trans (.of_same hstore), fun _ => hfails.imp id (fun h => ?_)⟩
      exact Nat.add_pos_right _ h
    · refine ⟨hr.trans (calendarPass_left hsame _ _), fun h => Or.inr ?_⟩
      exact Nat.add_pos_left (hkept (h.resolve_right hsame)) _

/-- A delta pass, if it lists the calendar and if it does not. -/
theorem runCalendar_left (hcursor : w.db.getCursor ((events cal.calId).cursorKey user) = some t)
    (hexpired : host.expired s cal.calId t)
    (hreads : PassReads host user w s calendars source s') :
    Left user cal.calId w.db (runCalendar g remap user .delta calendars source w).world.db ∧
      (cal ∈ calendars.items → Fails (runCalendar g remap user .delta calendars source w)) := by
  have hstart : Left user cal.calId w.db (g.after w (.getUser user.destId)).db :=
    .of_same (.after g w _)
  -- the calendars one after the other, a failure that was counted stays counted
  have hloop : ∀ (l : List CalendarRef) (r : JobResult), (∀ next ∈ l, next ∈ calendars.items) →
      Left user cal.calId w.db r.world.db →
      Left user cal.calId w.db (l.foldl (addCalendar g remap user .delta source) r).world.db ∧
        (Fails r ∨ cal ∈ l → Fails (l.foldl (addCalendar g remap user .delta source) r)) := by
    intro l
    induction l with
    | nil =>
      intro r _ hr
      exact ⟨hr, fun h => h.resolve_right List.not_mem_nil⟩
    | cons next l ih =>
      intro r hl hr
      have hnext := hl next List.mem_cons_self
      obtain ⟨hleft, hfails⟩ :=
        addCalendar_left g remap hcursor hexpired hreads hr hnext
      obtain ⟨hleft', hfails'⟩ := ih (addCalendar g remap user .delta source r next)
        (fun c hc => hl c (List.mem_cons_of_mem _ hc)) hleft
      refine ⟨hleft', fun h => hfails' ?_⟩
      rcases h with h | h
      · exact Or.inl (hfails (Or.inl h))
      · rcases List.mem_cons.mp h with rfl | h
        · exact Or.inl (hfails (Or.inr rfl))
        · exact Or.inr h
  simp only [runCalendar]
  cases g.ask w (.getUser user.destId) with
  | error e => exact ⟨hstart, fun _ => Or.inl (by simp)⟩
  | ok _ =>
    simp only
    obtain ⟨hleft, hfails⟩ := hloop calendars.items { world := g.after w (.getUser user.destId) }
      (fun _ h => h) hstart
    split
    · exact ⟨hleft, fun h => hfails (Or.inr h)⟩
    · next hraised =>
      refine ⟨hleft, fun h => (hfails (Or.inr h)).imp (fun hne => ?_) id⟩
      exact absurd (Option.isSome_iff_ne_none.mpr hne) hraised

end

/-- Once the stored sync token of a calendar has expired, no delta pass brings the calendar up to
date or gets a new token for it: over whatever delta passes, its rows and its cursor stay as they
are, while every pass that lists it raises or counts a failure. -/
theorem calendar_stuck_after_expiry {cal : CalendarRef} {t : Token} {w₀ w : World} {s₀ s : σ}
    (hcursor : w₀.db.getCursor ⟨user.sourceId, calendarWorkload cal⟩ = some t)
    (hexpired : host.expired s₀ cal.calId t) (h : Later host g remap user w₀ s₀ w s) :
    w.db.getCursor ⟨user.sourceId, calendarWorkload cal⟩ = some t ∧
      (∀ id, w.db.getItemState (eventKey user cal id) =
        w₀.db.getItemState (eventKey user cal id)) ∧
      ∀ calendars source s', PassReads host user w s calendars source s' →
        cal ∈ calendars.items →
        (runCalendar g remap user .delta calendars source w).raised ≠ none ∨
          0 < (runCalendar g remap user .delta calendars source w).failures := by
  have hstays : host.expired s cal.calId t ∧ Left user cal.calId w₀.db w.db := by
    induction h with
    | here => exact ⟨hexpired, .of_same (.refl _)⟩
    | moved before moves ih => exact ⟨moves _ _ ih.1, ih.2⟩
    | passed before calendars source reads ih =>
      have hstored := ih.2.cursor.trans hcursor
      exact ⟨reads.moves _ _ ih.1, ih.2.trans (runCalendar_left hstored ih.1 reads).1⟩
  obtain ⟨hexpired', hleft⟩ := hstays
  have hstored := hleft.cursor.trans hcursor
  refine ⟨hstored, hleft.rows, fun calendars source s' hreads hcal => ?_⟩
  exact (runCalendar_left hstored hexpired' hreads).2 hcal

/-- The one event of a calendar, before it is cancelled and after that. -/
def meetingItem (cancelled : Bool) : EventItem :=
  if cancelled then { id := "e", status := "cancelled", etag := "v2" }
  else { id := "e", status := "confirmed", etag := "v1" }

/-- An account in which the event is cancelled, at the time when the sync tokens expire. -/
def agingServe : (r : CalendarRequest) → Bool → r.Ans × Bool
  | .calendarList, cancelled => (.ok [{ id := "home", summary := some "Home" }], cancelled)
  | .events _ (some _) _, true => (.error (.http 410 "Sync token is no longer valid"), true)
  | .events .., cancelled =>
    let page := { items := [meetingItem cancelled], nextSyncToken := some (positionToken 0).val }
    (.ok page, cancelled)

def agingHost : CalendarHost Bool where
  serve := agingServe
  expired cancelled _ _ := cancelled = true
  ages r s calId t h := by
    subst h
    cases r with
    | calendarList => rfl
    | events _ syncToken _ => cases syncToken <;> rfl
  refuses s calId t h := by
    subst h
    exact ⟨_, rfl⟩

/-- What the first full pass reads. -/
def firstEvents : Enumeration SourceEvent where
  items := [meeting]
  lastCursor := some (positionToken 0)

/-- The copy of the event that was cancelled stays, whatever delta passes come. -/
theorem calendar_stuck_after_expiry_home :
    let user : UserMapping := ⟨"a@source", "a@dest"⟩
    let w := (runCalendar calmGraph Except.ok user .full { items := [homeCalendar] }
      (fun _ _ => firstEvents) {}).world
    Fetches agingHost "home" none false firstEvents false ∧
      w.db.isDone (eventKey user homeCalendar "e") = true ∧
      ∀ w' s', Later agingHost calmGraph Except.ok user w true w' s' →
        w'.db.getItemState (eventKey user homeCalendar "e") =
          w.db.getItemState (eventKey user homeCalendar "e") := by
  intro user w
  have hcursor : w.db.getCursor ⟨user.sourceId, calendarWorkload homeCalendar⟩ =
      some (positionToken 0) := by decide
  have hexpired : agingHost.expired true homeCalendar.calId (positionToken 0) := rfl
  refine ⟨⟨1, by rfl⟩, by decide, fun w' s' hlater => ?_⟩
  exact (calendar_stuck_after_expiry hcursor hexpired hlater).2.1 "e"

end GwsMigrator.GoogleCalendar
