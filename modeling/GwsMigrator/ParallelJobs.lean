import GwsMigrator.CalendarProgram
import GwsMigrator.ContactsProgram
import GwsMigrator.FilesProgram
import GwsMigrator.ScriptedGraph

/-! `Orchestrator.run_workload` runs the jobs of several users at a time on one state store. The
rows of a job have its user and its workload in their keys, so jobs side by side do what they
do one after the other. -/
namespace GwsMigrator
open Dialogue Interleavings

/-- One of the four jobs of a user, with all that its source yields. -/
inductive Job where
  | mail (user : UserMapping) (importMode : ImportMode) (mode : Mode)
      (source : Option Token → Enumeration SourceMessage)
  | contacts (user : UserMapping) (mode : Mode) (source : Option Token → Enumeration SourceContact)
  | calendar (user : UserMapping) (remap : GraphBody → Except Exc GraphBody) (mode : Mode)
      (calendars : Enumeration CalendarRef)
      (source : CalendarRef → Option Token → Enumeration SourceEvent)
  | files (user : UserMapping) (mode : Mode) (source : Option Token → Enumeration SourceFile)

namespace Job

def run (g : Graph) : Job → World → JobResult
  | mail user importMode mode source, w => (runMail g user importMode mode source w).toJobResult
  | contacts user mode source, w => runContacts g user mode source w
  | calendar user remap mode calendars source, w =>
    runCalendar g remap user mode calendars source w
  | files user mode source, w => runFiles g user mode source w

def program : Job → JobProgram Sessions.Outcome
  | mail user importMode mode source => Sessions.runMail user importMode mode source
  | contacts user mode source => Sessions.runContacts user mode source
  | calendar user remap mode calendars source =>
    Sessions.runCalendar remap user mode calendars source
  | files user mode source => Sessions.runFiles user mode source

/-- The user and the workloads of a job: a calendar job has one for each of its calendars. -/
def keys : Job → Set CursorKey
  | mail user .. => {⟨user.sourceId, "mail"⟩}
  | contacts user .. => {⟨user.sourceId, "contacts"⟩}
  | calendar user _ _ calendars _ =>
    {k | ∃ cal ∈ calendars.items, k = ⟨user.sourceId, calendarWorkload cal⟩}
  | files user .. => {⟨user.sourceId, "files"⟩}

/-- The program of a job leaves what the job leaves. -/
theorem run_program (g : Graph) (j : Job) (w : World) :
    j.program.run (serve g) w = ((j.run g w).outcome, (j.run g w).world) := by
  cases j with
  | mail user importMode mode source => exact run_runMail g user importMode w mode source
  | contacts user mode source => exact run_runContacts g user mode w source
  | calendar user remap mode calendars source =>
    exact run_runCalendar g remap user mode w calendars source
  | files user mode source => exact run_runFiles g user mode w source

theorem program_within (j : Job) : j.program.Uses (Request.Within j.keys) := by
  cases j with
  | mail user importMode mode source =>
    exact uses_runMail (Set.mem_singleton _) importMode mode source
  | contacts user mode source => exact uses_runContacts (Set.mem_singleton _) source
  | calendar user remap mode calendars source =>
    have hkeys : ∀ cal ∈ calendars.items, ⟨user.sourceId, calendarWorkload cal⟩ ∈
        (calendar user remap mode calendars source).keys := fun cal hcal => ⟨cal, hcal, rfl⟩
    exact uses_runCalendar hkeys source
  | files user mode source => exact uses_runFiles (Set.mem_singleton _) mode source

/-- The requests of a run by itself with their answers, newest first: what it decided to do, and
what it saw. -/
def decisions (g : Graph) (j : Job) (w : World) : Log Request.Ans :=
  (j.program.run (noted (serveOn g)) ((w.log, []), w.db)).2.1.2

end Job

section side_by_side

variable {ι : Type} [DecidableEq ι] (g : ι → Graph) (job : ι → Job) (log : ι → Log Call.Ans)

/-- Jobs side by side: each keeps the log of its calls and the list of its requests. -/
def sideBySide (db : Db) (schedule : List ι) :
    Db × (ι → Proc Request.Ans (Log Call.Ans × Log Request.Ans) Sessions.Outcome) :=
  play (fun i => noted (serveOn (g i))) (db, fun i => ⟨(log i, []), (job i).program⟩) schedule

end side_by_side

section

variable (g : Graph) (w : World) (j : Job)

/-- A run with its notes, on the log and the store apart. -/
theorem run_noted_program :
    j.program.run (noted (serveOn g)) ((w.log, []), w.db) =
      ((j.run g w).outcome, ((j.run g w).world.log, j.decisions g w), (j.run g w).world.db) := by
  have hsplit : j.program.run (serveOn g) (w.log, w.db) =
      ((j.program.run (serve g) w).1, (j.program.run (serve g) w).2.log,
        (j.program.run (serve g) w).2.db) :=
    Program.run_map w (fun w : World => (w.log, w.db)) (fun _ _ => rfl) j.program
  rw [j.run_program, run_noted j.program w.log [] w.db] at hsplit
  obtain ⟨hout, hrest⟩ := Prod.mk.inj hsplit
  obtain ⟨hlog, hdb⟩ := Prod.mk.inj hrest
  exact Prod.ext hout (Prod.ext (Prod.ext hlog rfl) hdb)

theorem program_local :
    j.program.Uses (Local Db.cell (rowsOf j.keys) (noted (serveOn g))) :=
  j.program_within.mono (fun _ h => (request_local g h).noted)

/-- A job leaves the rows of other users and workloads as they are. -/
theorem cell_of_run : ∀ l ∉ rowsOf j.keys, (j.run g w).world.db.cell l = w.db.cell l := by
  intro l hl
  have hframe := run_frame (program_local g j) (w.log, []) w.db l hl
  rw [run_noted_program] at hframe
  exact hframe

end

/-- Two jobs of different users or workloads, their sessions and calls in any order: each makes
the requests, sees the answers and returns what it does when one runs after the other, and the
rows are the same in the end. -/
theorem jobs_do_not_interfere (g : Bool → Graph) (job : Bool → Job)
    (hkeys : Disjoint (job false).keys (job true).keys) (db : Db) (log : Bool → Log Call.Ans)
    (schedule : List Bool)
    (hdone : ∀ i, ((sideBySide g job log db schedule).2 i).result.isSome) (i : Bool) :
    let c := sideBySide g job log db schedule
    let first := (job i).run (g i) ⟨db, log i⟩
    let second := (job !i).run (g !i) ⟨first.world.db, log !i⟩
    (c.2 i).result = some first.outcome ∧ (c.2 !i).result = some second.outcome ∧
    (c.2 i).own = (first.world.log, (job i).decisions (g i) ⟨db, log i⟩) ∧
    (c.2 !i).own =
      (second.world.log, (job !i).decisions (g !i) ⟨first.world.db, log !i⟩) ∧
    c.1.cell = second.world.db.cell := by
  intro c first second
  have hdisjoint : Pairwise (fun i j => Disjoint (rowsOf (job i).keys) (rowsOf (job j).keys)) := by
    have hrows : Disjoint (rowsOf (job false).keys) (rowsOf (job true).keys) :=
      Set.disjoint_left.mpr (fun l hl hl' => Set.disjoint_left.mp hkeys hl hl')
    intro i j hij
    cases i <;> cases j
    · exact absurd rfl hij
    · exact hrows
    · exact hrows.symm
    · exact absurd rfl hij
  have huses : ∀ i, (job i).program.Uses
      (Local Db.cell (rowsOf (job i).keys) (noted (serveOn (g i)))) :=
    fun i => program_local (g i) (job i)
  -- what a job ends with beside the other is what it ends with by itself
  have hend : ∀ j db', AgreeOn Db.cell (rowsOf (job j).keys) db db' →
      (c.2 j).result = some ((job j).run (g j) ⟨db', log j⟩).outcome ∧
      (c.2 j).own = (((job j).run (g j) ⟨db', log j⟩).world.log,
        (job j).decisions (g j) ⟨db', log j⟩) ∧
      AgreeOn Db.cell (rowsOf (job j).keys) c.1 ((job j).run (g j) ⟨db', log j⟩).world.db := by
    intro j db' hagree
    obtain ⟨out, hout⟩ := Option.isSome_iff_exists.mp (hdone j)
    obtain ⟨hresult, hown, hstore⟩ := run_of_play hdisjoint huses
      (Proc.result_eq_some.mp hout) hagree
    rw [run_noted_program (g j) ⟨db', log j⟩] at hresult hown hstore
    exact ⟨hout.trans (congrArg some hresult.symm), hown.symm, hstore⟩
  obtain ⟨hresult₁, hown₁, hstore₁⟩ := hend i db (AgreeOn.refl db)
  have hother : ∀ l ∈ rowsOf (job !i).keys, l ∉ rowsOf (job i).keys := fun l hl hl' =>
    Set.disjoint_left.mp (hdisjoint (by cases i <;> simp)) hl' hl
  obtain ⟨hresult₂, hown₂, hstore₂⟩ := hend (!i) first.world.db
    (fun l hl => (cell_of_run (g i) ⟨db, log i⟩ (job i) l (hother l hl)).symm)
  refine ⟨hresult₁, hresult₂, hown₁, hown₂, funext fun l => ?_⟩
  by_cases hsecond : l ∈ rowsOf (job !i).keys
  · exact hstore₂ l hsecond
  · have hkept : second.world.db.cell l = first.world.db.cell l :=
      cell_of_run (g !i) _ (job !i) l hsecond
    rw [hkept]
    by_cases hfirst : l ∈ rowsOf (job i).keys
    · exact hstore₁ l hfirst
    · -- neither job has anything to do with the row
      have hframe : first.world.db.cell l = db.cell l :=
        cell_of_run (g i) ⟨db, log i⟩ (job i) l hfirst
      rw [hframe]
      apply play_frame schedule db _ huses l
      intro j
      cases i <;> cases j <;> assumption

/-- The contacts of two users, taken in turns. -/
theorem contacts_of_two_users :
    let feed (id : String) : Option Token → Enumeration SourceContact :=
      fun _ => { items := [{ sourceId := id }], lastCursor := some ⟨"t", by decide⟩ }
    let job (i : Bool) : Job :=
      if i then .contacts ⟨"b@source", "b@dest"⟩ .full (feed "c")
      else .contacts ⟨"a@source", "a@dest"⟩ .full (feed "c")
    let c := sideBySide (fun _ => calmGraph) job (fun _ => []) {}
      ((List.replicate 6 [false, true]).flatten)
    let first := (job false).run calmGraph ⟨{}, []⟩
    let second := (job true).run calmGraph ⟨first.world.db, []⟩
    (c.2 false).result = some first.outcome ∧ (c.2 true).result = some second.outcome ∧
    (c.2 false).own = (first.world.log, (job false).decisions calmGraph ⟨{}, []⟩) ∧
    (c.2 true).own =
      (second.world.log, (job true).decisions calmGraph ⟨first.world.db, []⟩) ∧
    c.1.cell = second.world.db.cell := by
  intro feed job
  have hkeys : Disjoint (job false).keys (job true).keys := by
    simp [job, Job.keys]
  exact jobs_do_not_interfere (fun _ => calmGraph) job hkeys {} (fun _ => [])
    ((List.replicate 6 [false, true]).flatten) (by decide +kernel) false

end GwsMigrator
