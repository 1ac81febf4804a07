import GwsMigrator.DeltaFeed

/-! The jobs of `workloads/files_job.py` that read delta feeds: `run_files` on a drive of
Microsoft 365 and `run_sharepoint_sites`. -/
namespace GwsMigrator.DeltaFeed
open Program PageChains Dialogue

variable {σ : Type}

/-- `iter_files`, with what `_uid` gives. -/
def iterFiles (uid : Except Exc Token) (since : Option Token) (fuel : ℕ) : FeedProgram FeedEnd :=
  match uid with
  | .error e => pure (.raised e)
  | .ok uid => iterDrive ("users/" ++ uid.val ++ "/drive") uid.val "files" since fuel

def siteCursorKey (driveId : String) : String := "sharepoint:" ++ driveId

/-- `iter_site_files`. -/
def iterSiteFiles (driveId : String) (since : Option Token) (fuel : ℕ) : FeedProgram FeedEnd :=
  iterDrive ("drives/" ++ driveId) driveId (siteCursorKey driveId) since fuel

/-- What a job makes of a run of the generator. A job comes back for every file unless an
exception of its own stops it. -/
def enumeration (interrupted : Exc) (cursorKey : String) (out : FeedEnd × FeedState σ) :
    Enumeration SourceFile where
  items := out.2.handed
  raised := match out.1 with
    | .finished => none
    | .raised e => some e
    | .closed | .cut => some interrupted
  lastCursor := out.2.cursors.lookup cursorKey

/-- An entry of `sharepoint_sites`. -/
structure SiteMapping where
  sourceSite : String
  destSite : Option String := none
  targetSiteAlias : Option String := none
  displayName : Option String := none

/-- How the others fare in the round for one mapping: the ids that Graph has for sites and their
drives on either side, the answers to the provisioning and of the destination drive, and where
the job is interrupted. -/
structure Round where
  sourceId : String → Except Exc Token
  destId : String → Except Exc Token
  site : Oracle SiteCall.Ans
  graph : Graph
  wants : List SourceFile → Bool
  interrupted : Exc
  fuel : ℕ

/-- A site's id and that of its drive. -/
def siteAndDrive (getId : String → Except Exc Token) (siteRef : String) :
    Except Exc (Token × Token) := do
  let site ← getId ("/sites/" ++ siteRef)
  let drive ← getId ("/sites/" ++ site.val ++ "/drive")
  pure (site, drive)

/-- `resolve_site_drive`. -/
def resolveSiteDrive (round : Round) : String → Except Exc (Token × Token) :=
  siteAndDrive round.sourceId

/-- `resolve_existing_site_drive`. -/
def resolveExistingSiteDrive (round : Round) : String → Except Exc (Token × Token) :=
  siteAndDrive round.destId

/-- A read of a source drive's feed: where it began, how it ended, and what it handed out. -/
structure DriveRead (σ : Type) where
  driveId : String
  since : Option Token
  start : σ
  ended : FeedEnd
  files : List SourceFile

structure SitesState (σ : Type) where
  world : World := {}
  siteLog : Log SiteCall.Ans := []
  source : σ
  cursors : AList (fun _ : String => Token) := ∅
  raised : Option Exc := none
  saved : List (String × Token) := []
  reads : List (DriveRead σ) := []

/-- The drive a mapping writes to, if it names one. -/
def destDrive (owner : Option Token) (round : Round) (mapping : SiteMapping)
    (sourceSiteId : Token) (st : SitesState σ) : Except Exc (Option Token) × SitesState σ :=
  match mapping.destSite.bind truthy with
  | some destSite => ((resolveExistingSiteDrive round destSite.val).map (fun site => site.2), st)
  | none =>
    match mapping.targetSiteAlias.bind truthy with
    | some targetSiteAlias =>
      let display := (mapping.displayName.bind truthy).getD targetSiteAlias
      let out := ensureSiteForDrive round.site
        ⟨sourceSiteId.val, targetSiteAlias.val, display.val, owner⟩ ⟨st.world.db, st.siteLog⟩
      (out.1.map (fun site => site.2),
        { st with world := { st.world with db := out.2.db }, siteLog := out.2.log })
    | none => (.ok none, st)

def siteWorkload (siteId : String) : String := "sharepoint_site:" ++ siteId

section
variable (server : String → σ → Except Exc DeltaPage × σ) (user : UserMapping) (mode : Mode)
  (owner : Option Token)

/-- The files of a mapping's source drive, from `_delta_cursor` on. -/
def migrateSite (round : Round) (siteId driveId : Token) (st : SitesState σ) : SitesState σ :=
  let workload := siteWorkload siteId.val
  match startFrom mode (st.world.db.getCursor ⟨user.sourceId, workload⟩) with
  | none => st
  | some since =>
    let out := (iterSiteFiles driveId.val since round.fuel).run (surroundings server round.wants)
      { source := st.source, cursors := st.cursors }
    let r := filesPass round.graph user workload mode
      (enumeration round.interrupted (siteCursorKey driveId.val) out) st.world
    { st with
      world := r.world, source := out.2.source, cursors := out.2.cursors, raised := r.raised,
      saved := st.saved ++ r.saved,
      reads := st.reads ++ [⟨driveId.val, since, st.source, out.1, out.2.handed⟩] }

/-- The body of the loop over the mappings. -/
def siteStep (mapping : SiteMapping) (round : Round) (st : SitesState σ) : SitesState σ :=
  match resolveSiteDrive round mapping.sourceSite with
  | .error e => { st with raised := some e }
  | .ok (siteId, driveId) =>
    match destDrive owner round mapping siteId st with
    | (.error e, st) => { st with raised := some e }
    -- neither `dest_site` nor `target_site_alias`: passed over
    | (.ok none, st) => st
    | (.ok (some _), st) => migrateSite server user mode round siteId driveId st

/-- `run_sharepoint_sites`, with what happens in each round. -/
def runSharepointSites : List (SiteMapping × Round) → SitesState σ → SitesState σ
  | [], st => st
  | (mapping, round) :: rest, st =>
    let st := siteStep server user mode owner mapping round st
    if st.raised.isSome then st else runSharepointSites rest st

end

/-- A cursor is saved after a whole enumeration without failures alone, and it is the source's. -/
theorem filesPass_saved (g : Graph) (user : UserMapping) (workload : String) (mode : Mode)
    (feed : Enumeration SourceFile) (w : World) {k : String} {c : Token}
    (h : (k, c) ∈ (filesPass g user workload mode feed w).saved) :
    k = workload ∧ feed.raised = none ∧ feed.lastCursor = some c ∧
      (filesPass g user workload mode feed w).failures = 0 := by
  unfold filesPass at h ⊢
  by_cases hraised : feed.raised.isSome = true
  · simp only [hraised, if_true] at h
    exact absurd h List.not_mem_nil
  · simp only [hraised, Bool.false_eq_true, if_false] at h ⊢
    unfold advanceCursor at h ⊢
    cases hlast : feed.lastCursor with
    | none =>
      rw [hlast] at h
      exact absurd h List.not_mem_nil
    | some link =>
      simp only [hlast] at h ⊢
      split at h
      · next hfailures =>
        obtain ⟨rfl, rfl⟩ := Prod.mk.inj (List.mem_singleton.mp h)
        rw [if_pos hfailures]
        exact ⟨rfl, Option.not_isSome_iff_eq_none.mp hraised, rfl, hfailures⟩
      · exact absurd h List.not_mem_nil

section

variable {server : String → σ → Except Exc DeltaPage × σ} {wants : List SourceFile → Bool}

theorem lookup_record (key : String) (last : Option Token)
    (cursors : AList (fun _ : String => Token)) :
    (record key last cursors).lookup key = last.or (cursors.lookup key) := by
  cases last with
  | none => rfl
  | some c => exact AList.lookup_insert cursors

/-- An enumeration that did not raise was a read of the whole feed. -/
theorem enumeration_raised {interrupted : Exc} {cursorKey : String} {out : FeedEnd × FeedState σ}
    (h : (enumeration interrupted cursorKey out).raised = none) : out.1 = .finished := by
  unfold enumeration at h
  revert h
  cases out.1 with
  | finished => exact fun _ => rfl
  | raised e => exact fun h => absurd h (Option.some_ne_none e)
  | closed => exact fun h => absurd h (Option.some_ne_none interrupted)
  | cut => exact fun h => absurd h (Option.some_ne_none interrupted)

/-- A pass of `run_files` saves the last delta link of a feed that it read to its end. -/
theorem runFiles_saved (g : Graph) (user : UserMapping) (mode : Mode) (uid : Except Exc Token)
    (interrupted : Exc) (fuel : ℕ) (s : σ) (w : World) {k : String} {c : Token}
    (h : (k, c) ∈ (runFiles g user mode (fun since => enumeration interrupted "files"
      ((iterFiles uid since fuel).run (surroundings server wants) { source := s })) w).saved) :
    k = "files" ∧ ∃ id since pages s', uid = .ok id ∧
      Pages server s (startUrl ("users/" ++ id.val ++ "/drive") since) pages none s' ∧
      ¬ Stops wants [] (keptOf pages) ∧ lastDelta pages = some c := by
  unfold runFiles at h
  simp only at h
  split at h
  · exact absurd h List.not_mem_nil
  · split at h
    · exact absurd h List.not_mem_nil
    · split at h
      · exact absurd h List.not_mem_nil
      · next since _ =>
        obtain ⟨hk, hraised, hlast, -⟩ := filesPass_saved g user "files" mode _ _ h
        have hended := enumeration_raised hraised
        cases uid with
        | error e => exact FeedEnd.noConfusion hended
        | ok id =>
          rcases iterDrive_cases server wants id.val "files"
            ("users/" ++ id.val ++ "/drive") since fuel { source := s } rfl with
            ⟨pages, s', hpages, hwants, hrun⟩ | hpartly
          · refine ⟨hk, id, since, pages, s', rfl, hpages, hwants, ?_⟩
            have hcursor := hlast
            simp only [enumeration, iterFiles, hrun, lookup_record] at hcursor
            rw [← hcursor]
            exact Option.or_none.symm
          · exact absurd hended hpartly.unfinished

/-- The feed of the drive was read to its end, and these are its pages. -/
structure DriveRead.Whole (server : String → σ → Except Exc DeltaPage × σ) (read : DriveRead σ)
    (pages : List DeltaPage) : Prop where
  ended : read.ended = .finished
  files : read.files = keptOf pages
  pages : ∃ s', Pages server read.start (startUrl ("drives/" ++ read.driveId) read.since)
    pages none s'

/-- One of the reads was of the whole feed of the drive, with this as its last delta link. -/
def LinkRead (server : String → σ → Except Exc DeltaPage × σ) (reads : List (DriveRead σ))
    (driveId : String) (link : Token) : Prop :=
  ∃ read ∈ reads, ∃ pages, read.driveId = driveId ∧ read.Whole server pages ∧
    lastDelta pages = some link

/-- Every cursor, in `_cursors` or saved, is the last delta link of a feed that was read to its
end. `resolved` says which site has which drive. -/
structure SitesRead (server : String → σ → Except Exc DeltaPage × σ)
    (resolved : Token → Token → Prop) (st : SitesState σ) : Prop where
  cursors : ∀ driveId link, st.cursors.lookup (siteCursorKey driveId) = some link →
    LinkRead server st.reads driveId link
  saved : ∀ k link, (k, link) ∈ st.saved → ∃ siteId driveId, resolved siteId driveId ∧
    k = siteWorkload siteId.val ∧ LinkRead server st.reads driveId.val link

theorem LinkRead.mono {reads reads' : List (DriveRead σ)} {driveId : String} {link : Token}
    (h : LinkRead server reads driveId link) (hreads : ∀ read ∈ reads, read ∈ reads') :
    LinkRead server reads' driveId link := by
  obtain ⟨read, hread, hwhole⟩ := h
  exact ⟨read, hreads read hread, hwhole⟩

/-- What keeps the cursors and the reads keeps the property. -/
theorem SitesRead.congr {resolved : Token → Token → Prop} {st st' : SitesState σ}
    (h : SitesRead server resolved st) (hcursors : st'.cursors = st.cursors)
    (hsaved : st'.saved = st.saved) (hreads : st'.reads = st.reads) :
    SitesRead server resolved st' where
  cursors := by
    rw [hcursors, hreads]
    exact h.cursors
  saved := by
    rw [hsaved, hreads]
    exact h.saved

theorem siteCursorKey_inj {driveId driveId' : String}
    (h : siteCursorKey driveId = siteCursorKey driveId') : driveId = driveId' := by
  unfold siteCursorKey at h
  have hchars := congrArg String.toList h
  rw [String.toList_append, String.toList_append] at hchars
  exact String.toList_inj.mp (List.append_cancel_left hchars)

theorem destDrive_frame (owner : Option Token) (round : Round) (mapping : SiteMapping)
    (siteId : Token) (st : SitesState σ) :
    let st' := (destDrive owner round mapping siteId st).2
    st'.cursors = st.cursors ∧ st'.saved = st.saved ∧ st'.reads = st.reads := by
  unfold destDrive
  split
  · exact ⟨rfl, rfl, rfl⟩
  · split
    · exact ⟨rfl, rfl, rfl⟩
    · exact ⟨rfl, rfl, rfl⟩

section

variable (server) (user : UserMapping) (mode : Mode) (owner : Option Token)
  {resolved : Token → Token → Prop}

/-- The dictionary after a read, whole or not. -/
theorem cursors_read (driveId : String) (since : Option Token) (round : Round)
    {st : SitesState σ} (h : SitesRead server resolved st) :
    let out := (iterSiteFiles driveId since round.fuel).run (surroundings server round.wants)
      { source := st.source, cursors := st.cursors }
    let read : DriveRead σ := ⟨driveId, since, st.source, out.1, out.2.handed⟩
    ∀ driveId' link, out.2.cursors.lookup (siteCursorKey driveId') = some link →
      LinkRead server (st.reads ++ [read]) driveId' link := by
  intro out read driveId' link hlink
  have hold : st.cursors.lookup (siteCursorKey driveId') = some link →
      LinkRead server (st.reads ++ [read]) driveId' link :=
    fun hlink => (h.cursors driveId' link hlink).mono
      (fun read hread => List.mem_append_left _ hread)
  rcases iterDrive_cases server round.wants driveId (siteCursorKey driveId) ("drives/" ++ driveId)
    since round.fuel { source := st.source, cursors := st.cursors } rfl with
    ⟨pages, s', hpages, -, hrun⟩ | hpartly
  · have hout : out = (.finished, { source := s', handed := keptOf pages,
                                    cursors := record (siteCursorKey driveId) (lastDelta pages)
                                      st.cursors }) := hrun
    have hwhole : read.Whole server pages := by
      refine ⟨?_, ?_, s', hpages⟩
      · show out.1 = _
        rw [hout]
      · show out.2.handed = _
        rw [hout]
    rw [hout] at hlink
    by_cases hdrive : driveId' = driveId
    · subst hdrive
      simp only [lookup_record] at hlink
      cases hlast : lastDelta pages with
      | none =>
        rw [hlast] at hlink
        exact hold hlink
      | some last =>
        rw [hlast] at hlink
        obtain rfl : last = link := Option.some.inj hlink
        exact ⟨read, List.mem_append_right _ (List.mem_singleton.mpr rfl), pages, rfl, hwhole, hlast⟩
    · have hkey : siteCursorKey driveId' ≠ siteCursorKey driveId :=
        fun heq => hdrive (siteCursorKey_inj heq)
      cases hlast : lastDelta pages with
      | none =>
        rw [hlast] at hlink
        exact hold hlink
      | some last =>
        rw [hlast] at hlink
        exact hold ((AList.lookup_insert_ne hkey).symm.trans hlink)
  · have hcursors : out.2.cursors = st.cursors := hpartly.cursors
    rw [hcursors] at hlink
    exact hold hlink

theorem migrateSite_read (round : Round) (siteId driveId : Token) {st : SitesState σ}
    (hresolved : resolved siteId driveId) (h : SitesRead server resolved st) :
    SitesRead server resolved (migrateSite server user mode round siteId driveId st) := by
  unfold migrateSite
  dsimp only
  split
  · exact h
  · next since _ =>
    have hcursors := cursors_read server driveId.val since round h
    refine ⟨hcursors, fun k link hsaved => ?_⟩
    rcases List.mem_append.mp hsaved with hold | hnew
    · obtain ⟨site, drive, hsite, hk, hlink⟩ := h.saved k link hold
      exact ⟨site, drive, hsite, hk, hlink.mono (fun read hread => List.mem_append_left _ hread)⟩
    · obtain ⟨hk, -, hlast, -⟩ := filesPass_saved _ _ _ _ _ _ hnew
      exact ⟨siteId, driveId, hresolved, hk, hcursors driveId.val link hlast⟩

theorem siteStep_read (mapping : SiteMapping) (round : Round) {st : SitesState σ}
    (hresolved : ∀ siteId driveId,
      resolveSiteDrive round mapping.sourceSite = .ok (siteId, driveId) → resolved siteId driveId)
    (h : SitesRead server resolved st) :
    SitesRead server resolved (siteStep server user mode owner mapping round st) := by
  unfold siteStep
  split
  · exact h.congr rfl rfl rfl
  · next siteId driveId hsite =>
    obtain ⟨hcursors, hsaved, hreads⟩ := destDrive_frame owner round mapping siteId st
    have hdest : SitesRead server resolved (destDrive owner round mapping siteId st).2 :=
      h.congr hcursors hsaved hreads
    generalize destDrive owner round mapping siteId st = dest at hdest
    obtain ⟨drive, st'⟩ := dest
    cases drive with
    | error e => exact hdest.congr rfl rfl rfl
    | ok drive =>
      cases drive with
      | none => exact hdest
      | some drive =>
        exact migrateSite_read server user mode round siteId driveId
          (hresolved siteId driveId hsite) hdest

/-- Whatever happens in the rounds of `run_sharepoint_sites`, its cursors are those of feeds that
were read to their end. -/
theorem runSharepointSites_read (entries : List (SiteMapping × Round)) {st : SitesState σ}
    (hresolved : ∀ entry ∈ entries, ∀ siteId driveId,
      resolveSiteDrive entry.2 entry.1.sourceSite = .ok (siteId, driveId) → resolved siteId driveId)
    (h : SitesRead server resolved st) :
    SitesRead server resolved (runSharepointSites server user mode owner entries st) := by
  induction entries generalizing st with
  | nil => exact h
  | cons entry rest ih =>
    have hstep := siteStep_read server user mode owner entry.1 entry.2
      (hresolved entry List.mem_cons_self) h
    unfold runSharepointSites
    dsimp only
    split
    · exact hstep
    · exact ih (fun entry hentry => hresolved entry (List.mem_cons_of_mem _ hentry)) hstep

end

/-- A delta feed is read through before its cursor exists. A consumer that comes back every time
is handed all of it, in order, and the cursor comes after the last file; a page that fails or a
consumer that stops leaves no cursor, in the connector or behind the jobs. -/
theorem iterDrive_read_first {s s' : σ} {driveRoot : String} {since : Option Token}
    {pages : List DeltaPage} {ended : Option Exc}
    (h : Pages server s (startUrl driveRoot since) pages ended s') (userKey cursorKey : String)
    (wants : List SourceFile → Bool) (cursors : AList (fun _ : String => Token)) :
    let feed := iterDrive driveRoot userKey cursorKey since
    let st : FeedState σ := { source := s, cursors := cursors }
    (¬ Stops wants [] (keptOf pages) →
      ∀ fuel ≥ pages.length + ended.toList.length,
        ReadThrough server wants userKey cursorKey pages ended s' (lastDelta pages) st (feed fuel)) ∧
    (ended ≠ none ∨ Stops wants [] (keptOf pages) → ∀ fuel,
      Unrecorded server wants st (feed fuel) ∧
        ((feed fuel).run (surroundings server wants) st).2.handed <+: keptOf pages ∧
        (pages.length < fuel → ((feed fuel).run (surroundings server wants) st).1 ≠ .cut)) ∧
    (∀ (g : Graph) (user : UserMapping) (mode : Mode) (uid : Except Exc Token) (interrupted : Exc)
      (fuel : ℕ) (source : σ) (w : World) (k : String) (link : Token),
      (k, link) ∈ (runFiles g user mode (fun since => enumeration interrupted "files"
        ((iterFiles uid since fuel).run (surroundings server wants) { source := source })) w).saved →
      k = "files" ∧ ∃ id since pages s', uid = .ok id ∧
        Pages server source (startUrl ("users/" ++ id.val ++ "/drive") since) pages none s' ∧
        ¬ Stops wants [] (keptOf pages) ∧ lastDelta pages = some link) ∧
    (∀ (user : UserMapping) (mode : Mode) (owner : Option Token)
      (entries : List (SiteMapping × Round)) (w : World) (siteLog : Log SiteCall.Ans) (source : σ)
      (k : String) (link : Token),
      let out := runSharepointSites server user mode owner entries
        { world := w, siteLog := siteLog, source := source }
      (k, link) ∈ out.saved → ∃ siteId driveId,
        (∃ entry ∈ entries, resolveSiteDrive entry.2 entry.1.sourceSite = .ok (siteId, driveId)) ∧
        k = siteWorkload siteId.val ∧ LinkRead server out.reads driveId.val link) := by
  intro feed st
  refine ⟨fun hwants fuel hfuel => ?_, fun hpartly fuel => ⟨?_, ?_, ?_⟩, ?_, ?_⟩
  · have hthrough := readFeed_through userKey cursorKey h fuel none st rfl hwants hfuel
    rw [Option.or_none] at hthrough
    exact hthrough
  · exact readFeed_unrecorded userKey cursorKey h fuel none st rfl hpartly
  · obtain ⟨⟨files, hfiles, hhanded⟩, -⟩ :=
      readFeed_handed wants userKey cursorKey h fuel none st rfl
    rw [List.nil_append] at hhanded
    exact hhanded.symm ▸ hfiles
  · intro hfuel hcut
    have hle := (readFeed_handed wants userKey cursorKey h fuel none st rfl).2 hcut
    omega
  · intro g user mode uid interrupted fuel source w k link hsaved
    exact runFiles_saved g user mode uid interrupted fuel source w hsaved
  · intro user mode owner entries w siteLog source k link out hsaved
    have hstart : SitesRead server
        (fun siteId driveId => ∃ entry ∈ entries,
          resolveSiteDrive entry.2 entry.1.sourceSite = .ok (siteId, driveId))
        { world := w, siteLog := siteLog, source := source } :=
      ⟨fun _ _ hlink => absurd hlink (by simp), fun _ _ hsaved => absurd hsaved List.not_mem_nil⟩
    have hread := runSharepointSites_read server user mode owner entries
      (fun entry hentry siteId driveId hsite => ⟨entry, hentry, hsite⟩) hstart
    exact hread.saved k link hsaved

end

/-- The root, a folder and a tombstone, and a next link. -/
def firstPage : DeltaPage where
  value := [⟨"r", none, none, true, false, true, none, none⟩,
    ⟨"d", some "Docs", some "r", false, false, true, none, none⟩,
    ⟨"t", none, none, false, true, false, none, none⟩]
  nextLink := some ⟨true, "/next", rfl⟩

/-- A file in the folder, and the delta link. -/
def lastPage : DeltaPage where
  value := [⟨"f", some "a.txt", some "d", false, false, false, some "h", none⟩]
  deltaLink := some "l"

def twoPages (_ : String) : ℕ → Except Exc DeltaPage × ℕ
  | 0 => (.ok firstPage, 1)
  | n + 1 => (.ok lastPage, n + 2)

theorem iterDrive_read_first_twoPages :
    ((iterDrive "users/u/drive" "u" "files" none 2).run
        (surroundings twoPages (fun _ => true)) { source := 0 }).2.handed.map (·.sourceId) =
      ["d", "f"] ∧
    ((iterDrive "users/u/drive" "u" "files" none 2).run
        (surroundings twoPages (fun _ => true)) { source := 0 }).2.cursors.lookup "files" =
      some ⟨"l", by decide⟩ := by
  have hpages : Pages twoPages 0 (startUrl "users/u/drive" none) [firstPage, lastPage] none 2 :=
    Chain.page rfl (Chain.page rfl (Chain.last 2))
  have hwants : ¬ Stops (fun _ => true) [] (keptOf [firstPage, lastPage]) :=
    fun ⟨_, _, hstop⟩ => Bool.noConfusion hstop
  have hrun := ((iterDrive_read_first hpages "u" "files" (fun _ => true) ∅).1 hwants 2
    (Nat.le_refl 2)).run
  rw [hrun]
  exact ⟨rfl, rfl⟩

end GwsMigrator.DeltaFeed
