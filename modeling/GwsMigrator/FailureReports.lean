import GwsMigrator.ParallelJobs

/-! A job that counts a failure says so beforehand: it writes a failed row, or, when the events of a
calendar cannot be enumerated, a line in the log file. -/
namespace GwsMigrator
open Program

/-- A request that leaves word of a failure, in the store or in the log file. -/
def Request.TellsFailure : Request → Prop
  | .upsertItem _ v => v.status = .failed
  | .logFailure .. => True
  | _ => False

theorem reports_failed {α : Type} {post : α → Prop} {k : ItemKey} {v : ItemValues}
    (h : v.status = .failed) (next : Unit → JobProgram α) :
    (Sessions.session (.upsertItem k v) >>= next).Reports Request.TellsFailure post := Or.inl h

section

variable {user : UserMapping}

theorem reports_advanceCursor {out : Sessions.Outcome} (hout : out.failures = 0) (k : CursorKey)
    (failures : ℕ) (lastCursor : Option Token) :
    (Sessions.advanceCursor out k failures lastCursor).Reports Request.TellsFailure
      (fun out => out.failures = 0) := by
  unfold Sessions.advanceCursor
  cases lastCursor with
  | none => exact reports_pure hout
  | some c =>
    simp only
    split
    · exact reports_request (fun _ => reports_pure hout)
    · exact reports_pure hout

section mail

variable {vars : Sessions.MailVars} (hvars : vars.failures = 0) (importMode : ImportMode)
include hvars

theorem reports_walkFolder (walked : List String) (parentId : Option Token)
    (parts : List String) :
    (Sessions.walkFolder user vars walked parentId parts).Reports Request.TellsFailure
      (fun r => r.2.failures = 0) := by
  induction parts generalizing vars walked parentId with
  | nil => exact reports_pure hvars
  | cons part rest ih =>
    simp only [Sessions.walkFolder]
    split
    · exact ih hvars _ _
    · apply reports_bind_any _
      intro opened
      cases opened with
      | error e => exact reports_pure hvars
      | ok fid =>
        refine reports_request (fun _ => ih ?_ _ _)
        exact hvars

theorem reports_getFolder (path : String) :
    (Sessions.getFolder user vars path).Reports Request.TellsFailure
      (fun r => r.2.failures = 0) := by
  unfold Sessions.getFolder
  split
  · exact reports_pure hvars
  · apply reports_bind (reports_walkFolder hvars [] none _)
    intro walked hwalked
    obtain ⟨found, vars'⟩ := walked
    cases found with
    | error e => exact reports_pure hwalked
    | ok _ =>
      simp only
      split <;> exact reports_pure hwalked

theorem reports_importCopy (k : ItemKey) (slot : ℕ) (path : String) (msg : SourceMessage) :
    (Sessions.importCopy user importMode vars k slot path msg).Reports Request.TellsFailure
      (fun r => r.2.failures = 0) := by
  apply reports_bind (reports_getFolder hvars path)
  intro found hfound
  obtain ⟨folder, vars'⟩ := found
  cases folder with
  | error e => exact reports_pure hfound
  | ok folderId => exact reports_bind_any _ (fun dest => reports_pure hfound)

/-- A message is counted once its failed row is written. -/
theorem reports_processMessage (msg : SourceMessage) :
    (Sessions.processMessage user importMode vars msg).Reports Request.TellsFailure
      (fun vars => vars.failures = 0) := by
  apply reports_request
  intro isDone
  split
  · exact reports_pure hvars
  split
  · exact reports_failed rfl _
  apply reports_bind (reports_importCopy hvars importMode _ 0 _ msg)
  intro copied hcopied
  obtain ⟨dest, vars'⟩ := copied
  cases dest with
  | error e => exact reports_failed rfl _
  | ok dest =>
    refine reports_request (fun _ => reports_foldlM _ (fun vars extra hvars => ?_) hcopied)
    exact reports_bind (reports_importCopy hvars importMode _ _ _ msg)
      (fun copied hcopied => reports_pure hcopied)

end mail

theorem reports_runMail (importMode : ImportMode) (mode : Mode)
    (source : Option Token → Enumeration SourceMessage) :
    (Sessions.runMail user importMode mode source).Reports Request.TellsFailure
      (fun out => out.failures = 0) := by
  apply reports_request
  intro found
  cases found with
  | error e => exact reports_pure rfl
  | ok _ =>
    apply reports_bind_any _
    intro since
    cases since with
    | none => exact reports_pure rfl
    | some since =>
      refine reports_bind (reports_foldlM _
        (fun vars msg hvars => reports_processMessage hvars importMode msg) rfl)
        (fun vars hvars => ?_)
      simp only
      split
      · exact reports_pure hvars
      · exact reports_advanceCursor hvars _ _ _

section contacts

variable {vars : Sessions.ContactsVars} (hvars : vars.failures = 0) (mode : Mode)
include hvars

theorem reports_getContactFolder (name : String) :
    (Sessions.getContactFolder vars name).Reports Request.TellsFailure
      (fun r => r.2.failures = 0) := by
  unfold Sessions.getContactFolder
  split
  · exact reports_pure hvars
  · apply reports_request
    intro answer
    cases answer <;> exact reports_pure hvars

theorem reports_removeContact (c : SourceContact) (destExisting : Option Token) :
    (Sessions.removeContact user vars c destExisting).Reports Request.TellsFailure
      (fun vars => vars.failures = 0) := by
  unfold Sessions.removeContact
  cases destExisting with
  | none => exact reports_request (fun _ => reports_pure hvars)
  | some id =>
    apply reports_bind_any _
    intro deleted
    cases deleted with
    | error e => exact reports_failed rfl _
    | ok _ => exact reports_request (fun _ => reports_pure hvars)

theorem reports_writeContact (c : SourceContact) (destExisting : Option Token) :
    (Sessions.writeContact user vars c destExisting).Reports Request.TellsFailure
      (fun r => r.2.failures = 0) := by
  unfold Sessions.writeContact
  cases destExisting with
  | some id =>
    apply reports_request
    intro answer
    cases answer <;> exact reports_pure hvars
  | none =>
    apply reports_bind (reports_getContactFolder hvars c.folderName)
    intro found hfound
    obtain ⟨folder, vars'⟩ := found
    cases folder with
    | error e => exact reports_pure hfound
    | ok folder =>
      apply reports_request
      intro answer
      cases answer <;> exact reports_pure hfound

/-- A contact is counted once its failed row is written. -/
theorem reports_processContact (c : SourceContact) :
    (Sessions.processContact user mode vars c).Reports Request.TellsFailure
      (fun vars => vars.failures = 0) := by
  apply reports_request
  intro state
  split
  · exact reports_removeContact hvars c _
  split
  · exact reports_pure hvars
  apply reports_bind (reports_writeContact hvars c _)
  intro written hwritten
  obtain ⟨answer, vars'⟩ := written
  cases answer with
  | error e => exact reports_failed rfl _
  | ok id =>
    exact reports_request (fun _ => reports_bind_any _ (fun _ => reports_pure hwritten))

end contacts

theorem reports_runContacts (mode : Mode) (source : Option Token → Enumeration SourceContact) :
    (Sessions.runContacts user mode source).Reports Request.TellsFailure
      (fun out => out.failures = 0) := by
  apply reports_bind_any _
  intro since
  cases since with
  | none => exact reports_pure rfl
  | some since =>
    have hstart : (Sessions.startContacts user).Reports Request.TellsFailure
        (fun r => r.2.failures = 0) := by
      apply reports_request
      intro found
      cases found with
      | error e => exact reports_pure rfl
      | ok _ =>
        apply reports_bind (reports_getContactFolder rfl _)
        intro folder hfolder
        obtain ⟨answer, vars⟩ := folder
        cases answer <;> exact reports_pure hfolder
    apply reports_bind hstart
    intro started hstarted
    obtain ⟨answer, vars⟩ := started
    cases answer with
    | error e => exact reports_pure rfl
    | ok _ =>
      refine reports_bind (reports_foldlM _
        (fun vars c hvars => reports_processContact hvars mode c) hstarted) (fun vars hvars => ?_)
      simp only
      split
      · exact reports_pure hvars
      · exact reports_advanceCursor hvars _ _ _

section calendar

variable (remap : GraphBody → Except Exc GraphBody) (mode : Mode) (cal : CalendarRef)

section

variable {vars : Sessions.CalendarVars} (hvars : vars.failures = 0)
include hvars

theorem reports_processEvent (calendarId : Token) (event : SourceEvent) :
    (Sessions.processEvent remap user mode cal calendarId vars event).Reports
      Request.TellsFailure (fun vars => vars.failures = 0) := by
  apply reports_request
  intro state
  split
  · exact reports_pure hvars
  split
  · exact reports_pure hvars
  split
  · exact reports_request (fun _ => reports_pure hvars)
  split
  · exact reports_pure hvars
  apply reports_bind_any _
  intro answer
  cases answer with
  | error e => exact reports_failed rfl _
  | ok id => exact reports_request (fun _ => reports_pure hvars)

theorem reports_applyException (event : SourceEvent) :
    (Sessions.applyException remap user cal vars event).Reports Request.TellsFailure
      (fun vars => vars.failures = 0) := by
  apply reports_request
  intro rows
  obtain ⟨masterDest, state⟩ := rows
  simp only
  split
  · exact reports_pure hvars
  apply reports_bind_any _
  intro applied
  obtain e | none | id := applied
  · exact reports_failed rfl _
  · exact reports_request (fun _ => reports_pure hvars)
  · exact reports_request (fun _ => reports_pure hvars)

end

theorem reports_migrateCalendar (calendarId : Token) (feed : Enumeration SourceEvent) :
    (Sessions.migrateCalendar remap user mode cal calendarId feed).Reports Request.TellsFailure
      (fun out => out.failures = 0) := by
  refine reports_bind (reports_foldlM _
    (fun vars event hvars => reports_processEvent remap mode cal hvars calendarId event) rfl)
    (fun vars hvars => ?_)
  -- the failed enumeration is the one failure that has no row
  have hended : (Sessions.endEnumeration user cal feed.raised vars).Reports Request.TellsFailure
      (fun vars => vars.failures = 0) := by
    unfold Sessions.endEnumeration
    cases feed.raised with
    | none => exact reports_pure hvars
    | some e => exact reports_marked trivial _
  apply reports_bind hended
  intro vars hvars
  refine reports_bind (reports_foldlM _
    (fun vars event hvars => reports_applyException remap cal hvars event) hvars)
    (fun vars hvars => ?_)
  exact reports_advanceCursor hvars _ _ _

theorem reports_addCalendar (source : CalendarRef → Option Token → Enumeration SourceEvent)
    {out : Sessions.Outcome} (hout : out.failures = 0) :
    (Sessions.addCalendar remap user mode source out cal).Reports Request.TellsFailure
      (fun out => out.failures = 0) := by
  unfold Sessions.addCalendar
  split
  · exact reports_pure hout
  have hpass : (Sessions.calendarPass remap user mode cal (source cal)).Reports
      Request.TellsFailure (fun out => out.failures = 0) := by
    apply reports_request
    intro opened
    cases opened with
    | error e => exact reports_pure rfl
    | ok calendarId =>
      apply reports_bind_any _
      intro since
      cases since with
      | none => exact reports_pure rfl
      | some since => exact reports_migrateCalendar remap mode cal calendarId _
  refine reports_bind hpass (fun out' hout' => reports_pure ?_)
  show out.failures + out'.failures = 0
  omega

end calendar

theorem reports_runCalendar (remap : GraphBody → Except Exc GraphBody) (mode : Mode)
    (calendars : Enumeration CalendarRef)
    (source : CalendarRef → Option Token → Enumeration SourceEvent) :
    (Sessions.runCalendar remap user mode calendars source).Reports Request.TellsFailure
      (fun out => out.failures = 0) := by
  apply reports_request
  intro found
  cases found with
  | error e => exact reports_pure rfl
  | ok _ =>
    refine reports_bind (reports_foldlM _
      (fun out cal hout => reports_addCalendar remap mode cal source hout) rfl) (fun out hout => ?_)
    split <;> exact reports_pure hout

section files

variable {workload : String} (mode : Mode)

section

variable {vars : Sessions.FilesVars} (hvars : vars.failures = 0)
include hvars

/-- What stops a file is either a deferral or has a failed row. -/
theorem reports_parentFor (f : SourceFile) (defer : Bool) :
    (Sessions.parentFor user workload vars f defer).Reports Request.TellsFailure
      (fun r => r.1 ≠ .error .failed ∧ r.2.failures = 0) := by
  have hresolve : (Sessions.resolve user workload vars f.parentId).Reports Request.TellsFailure
      (fun r => r.2.failures = 0) := by
    unfold Sessions.resolve
    split
    · exact reports_pure hvars
    split
    · exact reports_pure hvars
    split
    · exact reports_pure hvars
    apply reports_request
    intro dest
    cases dest <;> exact reports_pure hvars
  apply reports_bind hresolve
  intro resolved hresolved
  obtain ⟨found, vars'⟩ := resolved
  cases found with
  | some dest => exact reports_pure ⟨by simp, hresolved⟩
  | none =>
    simp only
    -- only a parent that failed in this pass fails its child, which then writes its row
    split
    · exact reports_failed rfl _
    split <;> exact reports_pure ⟨by simp, hresolved⟩

theorem reports_transferFile (f : SourceFile) (existing parentDest : Option Token) :
    (Sessions.transferFile user workload vars f existing parentDest).Reports
      Request.TellsFailure (fun r => r.1 ≠ .failed ∧ r.2.failures = 0) := by
  have hupload : ∀ content finalName,
      (Sessions.uploadFile user workload vars f parentDest content finalName).Reports
        Request.TellsFailure (fun r => r.2.failures = 0) := by
    intro content finalName
    unfold Sessions.uploadFile
    cases parentDest with
    | some parent => exact reports_bind_any _ (fun id => reports_pure hvars)
    | none =>
      have hroot : (Sessions.getRootId vars).Reports Request.TellsFailure
          (fun r => r.2.failures = 0) := by
        unfold Sessions.getRootId
        split
        · exact reports_pure hvars
        · apply reports_request
          intro answer
          cases answer <;> exact reports_pure hvars
      apply reports_bind hroot
      intro rooted hrooted
      obtain ⟨root, vars'⟩ := rooted
      cases root with
      | error e => exact reports_pure hrooted
      | ok root => exact reports_bind_any _ (fun id => reports_pure hrooted)
  -- fetching and writing count nothing themselves: what they raise is caught below
  have hwrite : (Sessions.writeFile user workload vars f existing parentDest).Reports
      Request.TellsFailure (fun r => r.2.failures = 0) := by
    apply reports_request
    intro fetched
    obtain e | ⟨content, finalName⟩ := fetched
    · exact reports_pure hvars
    cases existing with
    | none => exact hupload content finalName
    | some id =>
      apply reports_request
      intro answer
      cases answer <;> exact reports_pure hvars
  apply reports_bind hwrite
  intro written hwritten
  obtain ⟨answer, vars'⟩ := written
  cases answer with
  | error e => exact reports_failed rfl _
  | ok id => exact reports_request (fun _ => reports_pure ⟨by simp, hwritten⟩)

theorem reports_processFolder (f : SourceFile) (defer : Bool) :
    (Sessions.processFolder user workload vars f defer).Reports Request.TellsFailure
      (fun r => r.1 ≠ .failed ∧ r.2.failures = 0) := by
  apply reports_bind (reports_parentFor hvars f defer)
  intro placed hplaced
  obtain ⟨found, vars'⟩ := placed
  cases found with
  | error stop => exact reports_pure ⟨by simpa using hplaced.1, hplaced.2⟩
  | ok parentDest =>
    apply reports_request
    intro answer
    cases answer with
    | error e => exact reports_failed rfl _
    | ok destId => exact reports_request (fun _ => reports_pure ⟨by simp, hplaced.2⟩)

/-- A file that failed has a failed row. -/
theorem reports_processFile (f : SourceFile) (defer : Bool) :
    (Sessions.processFile user workload mode vars f defer).Reports Request.TellsFailure
      (fun r => r.1 ≠ .failed ∧ r.2.failures = 0) := by
  unfold Sessions.processFile
  split
  · exact reports_processFolder hvars f defer
  apply reports_bind_any _
  intro alone
  split
  · exact reports_pure ⟨by simp, hvars⟩
  split
  · exact reports_request (fun _ => reports_pure ⟨by simp, hvars⟩)
  apply reports_bind_any _
  intro existing
  cases existing with
  | some id => exact reports_transferFile hvars f (some id) none
  | none =>
    apply reports_bind (reports_parentFor hvars f defer)
    intro placed hplaced
    obtain ⟨found, vars'⟩ := placed
    cases found with
    | error stop => exact reports_pure ⟨by simpa using hplaced.1, hplaced.2⟩
    | ok parentDest => exact reports_transferFile hplaced.2 f none parentDest

end

theorem reports_filesPass (feed : Enumeration SourceFile) :
    (Sessions.filesPass user workload mode feed).Reports Request.TellsFailure
      (fun out => out.failures = 0) := by
  have hstep : ∀ d (vars : Sessions.FilesVars) f, vars.failures = 0 →
      (Sessions.fileStep user workload mode d vars f).Reports Request.TellsFailure
        (fun r => r.2.failures = 0) := by
    intro d vars f hvars
    apply reports_bind (reports_processFile mode hvars f d)
    intro processed hprocessed
    obtain ⟨v, vars'⟩ := processed
    cases v with
    | ok | deferred => exact reports_pure hprocessed.2
    -- the one verdict that is counted comes after a failed row
    | failed => exact absurd rfl hprocessed.1
  have hmigrate : (Sessions.migrateFiles user workload mode feed).Reports Request.TellsFailure
      (fun vars => vars.failures = 0) := by
    unfold Sessions.migrateFiles
    split
    · exact reports_bind (Worklist.reports_runBatchM hstep true rfl _)
        (fun r hr => reports_pure hr)
    · exact Worklist.reports_processM hstep rfl _
  apply reports_bind hmigrate
  intro vars hvars
  simp only
  split
  · exact reports_pure hvars
  · exact reports_advanceCursor hvars _ _ _

theorem reports_runFiles (source : Option Token → Enumeration SourceFile) :
    (Sessions.runFiles user mode source).Reports Request.TellsFailure
      (fun out => out.failures = 0) := by
  apply reports_request
  intro found
  cases found with
  | error e => exact reports_pure rfl
  | ok _ =>
    apply reports_request
    intro drive
    cases drive with
    | error e => exact reports_pure rfl
    | ok _ =>
      apply reports_bind_any _
      intro since
      cases since with
      | none => exact reports_pure rfl
      | some since => exact reports_filesPass mode (source since)

end files

end

/-- A job that returns with a failure counted has told of one. -/
theorem Job.reports_program (j : Job) :
    j.program.Reports Request.TellsFailure (fun out => out.failures = 0) := by
  cases j with
  | mail user importMode mode source => exact reports_runMail importMode mode source
  | contacts user mode source => exact reports_runContacts mode source
  | calendar user remap mode calendars source =>
    exact reports_runCalendar remap mode calendars source
  | files user mode source => exact reports_runFiles mode source

end GwsMigrator
