import GwsMigrator.FailureReports

/-! The exit status of `contacts`, `calendar`, `files`, `mail`, `run-all` and `delta`: users whose
run raised, and failed rows stamped since the start. -/
namespace GwsMigrator
open Dialogue Interleavings

namespace Db

variable (db : Db) (since : ℕ)

/-- The row of an item says failed and was written at or after `since`. -/
def failedSince (k : ItemKey) : Bool :=
  (db.items.lookup k).any (fun row => row.status = .failed ∧ since ≤ row.updatedAt)

theorem countFailedItemsSince_pos : 0 < db.countFailedItemsSince since ↔
    ∃ k, db.failedSince since k = true := by
  unfold countFailedItemsSince failedSince
  rw [List.countP_pos_iff]
  constructor
  · rintro ⟨⟨k, row⟩, hmem, hrow⟩
    refine ⟨k, ?_⟩
    rw [AList.mem_lookup_iff.mpr hmem]
    exact hrow
  · rintro ⟨k, hk⟩
    obtain ⟨row, hlookup, hrow⟩ := (Option.any_eq_true _ _).mp hk
    exact ⟨⟨k, row⟩, AList.mem_lookup_iff.mp hlookup, hrow⟩

variable {db since} {k k' : ItemKey}

theorem failedSince_upsertItem_self {v : ItemValues} (hv : v.status = .failed)
    (hnow : since ≤ db.now) : (db.upsertItem k v).failedSince since k = true := by
  simp [failedSince, upsertItem, hv, hnow]

/-- A write hides a failed row only by another status for the same item. -/
theorem failedSince_upsertItem {v : ItemValues} (h : db.failedSince since k' = true)
    (hnow : since ≤ db.now) (hv : v.status = .failed ∨ db.failedSince since k = false) :
    (db.upsertItem k v).failedSince since k' = true := by
  by_cases hk : k' = k
  · subst hk
    rcases hv with hv | hv
    · exact failedSince_upsertItem_self hv hnow
    · simp [h] at hv
  · simpa [failedSince, upsertItem, hk] using h

/-- An event that is cancelled is one that was done. -/
theorem failedSince_setStatus {status : Status} (h : db.failedSince since k' = true)
    (hdone : (db.getDestId k).isSome) : (db.setStatus k status).failedSince since k' = true := by
  have hk : k' ≠ k := by
    rintro rfl
    cases hrow : db.items.lookup k' with
    | none => simp [failedSince, hrow] at h
    | some row =>
      simp only [failedSince, hrow, Option.any_some, decide_eq_true_eq] at h
      simp [getDestId, hrow, h.1] at hdone
  unfold setStatus
  cases db.items.lookup k with
  | none => exact h
  | some row => simpa [failedSince, hk] using h

end Db

/-- A step that hides no failure: no failed row of the run is overwritten with another status,
and no enumeration of events has just failed. -/
def Request.HidesNothing (since : ℕ) (db : Db) : Request → Prop
  | .upsertItem k v | .recordFolder k _ _ v => v.status = .failed ∨ db.failedSince since k = false
  | .logFailure .. => False
  | _ => True

instance (since : ℕ) (db : Db) : DecidablePred (Request.HidesNothing since db)
  | .upsertItem k v | .recordFolder k _ _ v =>
    inferInstanceAs (Decidable (v.status = .failed ∨ db.failedSince since k = false))
  | .logFailure .. => inferInstanceAs (Decidable False)
  | .call _ | .isDone _ | .getItemState _ | .getItemHash _ | .recorded _ | .getFolderDest _
  | .getCursor _ | .upsertFolder .. | .saveCursor .. | .readOccurrence .. | .cancelDone _ =>
    inferInstanceAs (Decidable True)

section requests

variable {g : Graph} {since : ℕ} {own : Log Call.Ans} {db : Db} {r : Request}

theorem now_serveOn (h : since ≤ db.now) : since ≤ (serveOn g r (own, db)).2.2.now := by
  cases r with
  | call c =>
    show since ≤ db.now + _
    omega
  | cancelDone k =>
    simp only [serveOn, serve, handleCancelled]
    cases db.getDestId k with
    | none => exact h
    | some id =>
      -- the clock runs on during the call, the row is stamped with it
      have hsetStatus : ∀ db : Db, (db.setStatus k .skipped).now = db.now := by
        intro db
        unfold Db.setStatus
        cases db.items.lookup k <;> rfl
      have hticked : since ≤ db.now + g.elapsed own (.deleteEvent id) := by omega
      simp only [Graph.ask]
      cases g.answer own (.deleteEvent id) with
      | error e => exact hticked
      | ok _ =>
        simp only [hsetStatus]
        exact hticked
  | _ => exact h

/-- A failed row of the run stays one. -/
theorem failedSince_serveOn (hr : r.HidesNothing since db) (hnow : since ≤ db.now) {k' : ItemKey}
    (h : db.failedSince since k' = true) :
    (serveOn g r (own, db)).2.2.failedSince since k' = true := by
  cases r with
  | upsertItem k v => exact Db.failedSince_upsertItem h hnow hr
  | recordFolder k destId destPath v =>
    -- the folder map has no part in the count
    have hfolder : (db.upsertFolder k destId destPath).failedSince since k' = true := h
    exact Db.failedSince_upsertItem hfolder hnow hr
  | cancelDone k =>
    simp only [serveOn, serve, handleCancelled]
    cases hdest : db.getDestId k with
    | none => exact h
    | some id =>
      simp only [Graph.ask]
      cases g.answer own (.deleteEvent id) with
      | error e => exact h
      -- the event that is skipped now was done before
      | ok _ => exact Db.failedSince_setStatus h (Option.isSome_of_eq_some hdest)
  | _ => exact h

theorem failedSince_of_tells (hr : r.HidesNothing since db) (hnow : since ≤ db.now)
    (htells : r.TellsFailure) :
    ∃ k, (serveOn g r (own, db)).2.2.failedSince since k = true := by
  cases r with
  | upsertItem k v => exact ⟨k, Db.failedSince_upsertItem_self htells hnow⟩
  -- a line in the log file is the failure that leaves no row
  | logFailure k e => exact hr.elim
  | _ => exact htells.elim

end requests

/-- A workload by its name on the command line. -/
inductive Service where
  | contacts
  | calendar
  | files
  | mail
deriving DecidableEq

inductive SourceType where
  | googleWorkspace
  | imap
  | microsoft365
deriving DecidableEq

/-- `_CAPABILITIES`. -/
def sourceCapabilities : SourceType → List Service
  | .googleWorkspace | .microsoft365 => [.mail, .files, .contacts, .calendar]
  | .imap => [.mail]

/-- `_WORKLOAD_ORDER`. -/
def workloadOrder : List Service := [.contacts, .calendar, .files, .mail]

structure Config where
  sourceType : SourceType
  users : List UserMapping
  enabled : Service → Bool := fun _ => true
  importMode : ImportMode := .json

inductive Command where
  | single (workload : Service)
  | runAll
  | delta

/-- What `_run_user` meets for one user: whether the clients can be opened and closed, the
destination, and all that the source yields. -/
structure Surroundings where
  opening : Option Exc := none
  closing : Option Exc := none
  graph : Graph
  remap : GraphBody → Except Exc GraphBody
  contacts : Option Token → Enumeration SourceContact
  calendars : Enumeration CalendarRef
  events : CalendarRef → Option Token → Enumeration SourceEvent
  files : Option Token → Enumeration SourceFile
  messages : Option Token → Enumeration SourceMessage

/-- An invocation of the program, with what every user's run of every workload meets and the order
in which the threads of a pool take their steps. -/
structure Invocation where
  config : Config
  command : Command
  user : Option String := none
  surroundings : Service → ℕ → Surroundings
  schedule : Service → List ℕ

/-- What a command goes on with: its mode, the users it is narrowed to, and its workloads. -/
structure Plan where
  mode : Mode
  users : Option (List UserMapping)
  workloads : List Service

/-- What is left of a run: the store, and what the runs of the users returned. -/
structure RunState where
  db : Db
  outcomes : List Sessions.Outcome := []

namespace Invocation

variable (inv : Invocation)

/-- `_filter_users`, or the status to exit with. -/
def filterUsers : Except ℕ (Option (List UserMapping)) :=
  match inv.user with
  | none => .ok none
  | some user =>
    if user = "" then .ok none
    else
      let matched := inv.config.users.filter (·.sourceId = user)
      -- a misspelt name must not run for every user
      if matched = [] then .error 1 else .ok (some matched)

/-- `_require_capability`. -/
def requireCapability (workload : Service) : Except ℕ Unit :=
  if workload ∈ sourceCapabilities inv.config.sourceType then .ok () else .error 1

/-- The workloads that `run-all` and `delta` do not skip. -/
def enabledWorkloads : List Service :=
  workloadOrder.filter
    (fun w => inv.config.enabled w ∧ w ∈ sourceCapabilities inv.config.sourceType)

/-- The plan of a command, or the status it exits with at once. -/
def plan : Except ℕ Plan :=
  match inv.command with
  -- one workload is refused where `run-all` and `delta` pass it over
  | .single workload => do
    inv.requireCapability workload
    let users ← inv.filterUsers
    pure ⟨.full, users, [workload]⟩
  | .runAll => do
    let users ← inv.filterUsers
    pure ⟨.full, users, inv.enabledWorkloads⟩
  | .delta => do
    let users ← inv.filterUsers
    pure ⟨.delta, users, inv.enabledWorkloads⟩

/-- `_job_fn`. -/
def job (mode : Mode) (workload : Service) (user : UserMapping) (s : Surroundings) : Job :=
  match workload with
  | .contacts => .contacts user mode s.contacts
  | .calendar => .calendar user s.remap mode s.calendars s.events
  | .files => .files user mode s.files
  | .mail => .mail user inv.config.importMode mode s.messages

/-- `_run_user`. -/
def runUser (mode : Mode) (workload : Service) (user : UserMapping) (s : Surroundings) :
    JobProgram Sessions.Outcome :=
  match s.opening with
  -- the source or a client could not be built
  | some e => pure { raised := some e }
  | none => do
    let out ← (inv.job mode workload user s).program
    -- what a client raises as it is closed is raised by the run
    pure { out with raised := out.raised.or s.closing }

variable (p : Plan)

def targetUsers : List UserMapping := p.users.getD inv.config.users

/-- The tasks of a pool, one for each user in turn. -/
def tasks (workload : Service) (i : ℕ) : Proc Request.Ans (Log Call.Ans) Sessions.Outcome where
  own := []
  todo :=
    match (inv.targetUsers p)[i]? with
    | some user => inv.runUser p.mode workload user (inv.surroundings workload i)
    | none => pure {}

def servers (workload : Service) (i : ℕ) :
    (r : Request) → Log Call.Ans × Db → r.Ans × Log Call.Ans × Db :=
  serveOn (inv.surroundings workload i).graph

/-- `run_workload`. -/
def runWorkload (st : RunState) (workload : Service) : RunState :=
  let c := play (inv.servers workload) (st.db, inv.tasks p workload) (inv.schedule workload)
  { db := c.1
    outcomes := st.outcomes ++
      (List.range (inv.targetUsers p).length).filterMap (fun i => (c.2 i).result) }

/-- The store and the outcomes once the workloads of the command are through. -/
def run (db : Db) : RunState :=
  match inv.plan with
  | .error _ => { db := db }
  | .ok p => p.workloads.foldl (inv.runWorkload p) { db := db }

/-- `_exit_if_failures`. -/
def exitIfFailures (since : ℕ) (st : RunState) : ℕ :=
  let failedUsers := st.outcomes.countP (·.raised.isSome)
  if failedUsers ≠ 0 ∨ st.db.countFailedItemsSince since ≠ 0 then 1 else 0

/-- The status that the program exits with. -/
def exitStatus (db : Db) : ℕ :=
  match inv.plan with
  | .error status => status
  | .ok _ => exitIfFailures db.now (inv.run db)

/-- Every pool has waited for all its tasks. -/
def Complete (db : Db) : Prop :=
  ∀ p ∈ inv.plan.toOption,
    (inv.run db).outcomes.length = p.workloads.length * (inv.targetUsers p).length

/-- No step of one pass hides a failure. -/
def PassHidesNothing (since : ℕ) (st : RunState) (workload : Service) : Prop :=
  Runs.Guarded (move (inv.servers workload)) (Admits (Request.HidesNothing since))
    (st.db, inv.tasks p workload) (inv.schedule workload)

/-- No step of the run hides a failure. -/
def HidesNothing (db : Db) : Prop :=
  ∀ p ∈ inv.plan.toOption,
    Runs.Guarded (inv.runWorkload p) (inv.PassHidesNothing p db.now) { db := db } p.workloads

instance (since : ℕ) (st : RunState) (workload : Service) :
    Decidable (inv.PassHidesNothing p since st workload) :=
  inferInstanceAs (Decidable (Runs.Guarded ..))

instance (db : Db) : Decidable (inv.Complete db) :=
  inferInstanceAs (Decidable (∀ p ∈ inv.plan.toOption, _ = _))

instance (db : Db) : Decidable (inv.HidesNothing db) :=
  inferInstanceAs (Decidable (∀ p ∈ inv.plan.toOption, Runs.Guarded ..))

variable {inv p}

theorem reports_runUser (mode : Mode) (workload : Service) (user : UserMapping)
    (s : Surroundings) :
    (inv.runUser mode workload user s).Reports Request.TellsFailure
      (fun out => out.failures = 0) := by
  unfold runUser
  cases s.opening with
  | some e => exact Program.reports_pure rfl
  | none =>
    exact Program.reports_bind (Job.reports_program _) (fun out hout => Program.reports_pure hout)

/-- A failed row of the run is in the store. -/
structure FailureLeft (since : ℕ) (db : Db) : Prop where
  clock : since ≤ db.now
  row : ∃ k, db.failedSince since k = true

/-- Either it is, or no job has counted a failure. -/
structure Told (since : ℕ) (st : RunState) : Prop where
  clock : since ≤ st.db.now
  told : FailureLeft since st.db ∨ ∀ out ∈ st.outcomes, out.failures = 0

theorem reports_tasks (workload : Service) (i : ℕ) :
    (inv.tasks p workload i).todo.Reports Request.TellsFailure (fun out => out.failures = 0) := by
  unfold tasks
  cases (inv.targetUsers p)[i]? with
  | none => exact Program.reports_pure rfl
  | some user => exact reports_runUser p.mode workload user _

/-- A pass that hides nothing. -/
theorem Told.runWorkload {since : ℕ} {st : RunState} (h : Told since st) {workload : Service}
    (hguard : inv.PassHidesNothing p since st workload) :
    Told since (inv.runWorkload p st workload) := by
  have hclock : ∀ (i : ℕ) own db r, Request.HidesNothing since db r → since ≤ db.now →
      since ≤ (inv.servers workload i r (own, db)).2.2.now :=
    fun _ _ _ _ _ hnow => now_serveOn hnow
  have hleft : ∀ (i : ℕ) own db r, Request.HidesNothing since db r → FailureLeft since db →
      FailureLeft since (inv.servers workload i r (own, db)).2.2 := by
    rintro i own db r hr ⟨hnow, k, hk⟩
    exact ⟨now_serveOn hnow, k, failedSince_serveOn hr hnow hk⟩
  have htells : ∀ (i : ℕ) own db r, Request.HidesNothing since db r → since ≤ db.now →
      r.TellsFailure → FailureLeft since (inv.servers workload i r (own, db)).2.2 :=
    fun _ _ _ _ hr hnow htells => ⟨now_serveOn hnow, failedSince_of_tells hr hnow htells⟩
  refine ⟨play_invariant _ _ hclock hguard h.clock, ?_⟩
  rcases h.told with hfailed | hzero
  · -- the failure of an earlier pass is still there
    exact Or.inl (play_invariant _ _ hleft hguard hfailed)
  rcases play_reports _ _ _ hclock hleft htells hguard h.clock (reports_tasks workload)
    with hfailed | hreports
  · exact Or.inl hfailed
  -- what has come to its end in this pass has counted nothing
  refine Or.inr (fun out hout => ?_)
  rcases List.mem_append.mp hout with hold | hnew
  · exact hzero out hold
  · obtain ⟨i, _, hresult⟩ := List.mem_filterMap.mp hnew
    have htask := hreports i
    rw [Proc.result_eq_some.mp hresult] at htask
    exact htask

/-- In a run that hides no failure, a counted failure and a user's run that raised make the
program exit with status 1. -/
theorem exit_reports_failures (inv : Invocation) (db : Db) (hguard : inv.HidesNothing db)
    (hfailed : ∃ out ∈ (inv.run db).outcomes, 0 < out.failures ∨ out.raised.isSome) :
    inv.exitStatus db = 1 := by
  obtain ⟨out, hout, hbad⟩ := hfailed
  cases hplan : inv.plan with
  | error status => simp [run, hplan] at hout
  | ok p =>
    have hpasses := hguard p (congrArg Except.toOption hplan)
    -- by induction over the passes
    have htold : Told db.now (inv.run db) := by
      have hstart : Told db.now { db := db } := ⟨Nat.le_refl _, Or.inr (by simp)⟩
      have hend := Runs.guarded_run_invariant (inv.runWorkload p) (Told db.now)
        (inv.PassHidesNothing p db.now) (fun st workload h hpass => h.runWorkload hpass) _ _ hstart
        hpasses
      simpa [run, hplan] using hend
    have hexit : inv.exitStatus db = exitIfFailures db.now (inv.run db) := by
      simp [exitStatus, hplan]
    rw [hexit, exitIfFailures]
    refine if_pos ?_
    rcases hbad with hcounted | hraised
    · -- the failure is in the store
      rcases htold.told with hleft | hzero
      · right
        exact Nat.pos_iff_ne_zero.mp ((Db.countFailedItemsSince_pos _ _).mpr hleft.row)
      · have hnone := hzero out hout
        omega
    · left
      have hpos : 0 < (inv.run db).outcomes.countP (·.raised.isSome) :=
        List.countP_pos_iff.mpr ⟨out, hout, hraised⟩
      omega

/-- A source that has nothing and a destination on which no call fails. -/
def quiet : Surroundings where
  graph := calmGraph
  remap := .ok
  contacts _ := { items := [] }
  calendars := { items := [] }
  events _ _ := { items := [] }
  files _ := { items := [] }
  messages _ := { items := [] }

/-- A contact that cannot be created. -/
def refusedContact : Invocation where
  config := { sourceType := .googleWorkspace, users := [⟨"a@source", "a@dest"⟩] }
  command := .runAll
  surroundings _ _ :=
    { quiet with
      graph := scriptedGraph (fun _ c =>
        match c with
        | .createContact .. => some (.http 500 "")
        | _ => none)
      contacts := fun _ => { items := [{ sourceId := "c" }] } }
  schedule _ := List.replicate 8 0

theorem refused_contact_reported : refusedContact.exitStatus {} = 1 :=
  exit_reports_failures refusedContact {} (by decide +kernel) (by decide +kernel)

/-- A calendar whose events cannot be enumerated. -/
def deadFeed : Invocation where
  config := { sourceType := .googleWorkspace, users := [⟨"a@source", "a@dest"⟩] }
  command := .single .calendar
  surroundings _ _ :=
    { quiet with
      calendars := { items := [{ calId := "work", name := "Work" }] }
      events := fun _ _ => { items := [], raised := some (.other "token expired") } }
  schedule _ := List.replicate 4 0

/-- The failed enumeration is counted, and the program exits with status 0. -/
theorem dead_feed_unreported : ¬ ∀ (inv : Invocation) (db : Db), inv.Complete db →
    (∃ out ∈ (inv.run db).outcomes, 0 < out.failures ∨ out.raised.isSome) →
    inv.exitStatus db = 1 := by
  intro h
  have hzero : deadFeed.exitStatus {} = 0 := by decide +kernel
  have hone := h deadFeed {} (by decide +kernel) (by decide +kernel)
  omega

end Invocation

end GwsMigrator
