import GwsMigrator.GraphCalls

/-! `microsoft/sharepoint.py`: the SharePoint site of a shared drive. Two namespaces of
FolderMap say how far its provisioning got: the group that was created, and the site with its
document library once it is there. -/
namespace GwsMigrator
open Dialogue

def graphBase : String := "https://graph.microsoft.com/v1.0"

/-- The body of POST /groups. -/
structure GroupBody where
  displayName : String
  mailNickname : String
  groupTypes : List String := ["Unified"]
  mailEnabled : Bool := true
  securityEnabled : Bool := false
  visibility : String := "Private"
  ownersBind : Option (List String)
deriving DecidableEq, Repr

/-- The calls of the provisioning, with what they return: the id of the group, of its site and
of the library. `driveId` is no part of a request. -/
inductive SiteCall where
  | postGroup (driveId : String) (body : GroupBody)
  | getGroupSite (groupId : Token)
  | getLibrary (siteId : Token)
deriving DecidableEq

abbrev SiteCall.Ans (_ : SiteCall) : Type := Except Exc Token

structure SiteWorld where
  db : Db := {}
  log : Log SiteCall.Ans := []

/-- The arguments of `ensure_site_for_drive`. An owner that is empty is no owner. -/
structure SiteRequest where
  driveId : String
  driveAlias : String
  displayName : String
  owner : Option Token := none

/-- `_NICKNAME_ILLEGAL`. -/
def nicknameIllegal : List Char := "@()\\[]\";:<>, ".toList

/-- `_sanitize_mail_nickname`. -/
def sanitizeMailNickname (driveAlias : String) : String :=
  let cleaned := driveAlias.toList.map
    (fun c => if c.toNat < 128 ∧ c ∉ nicknameIllegal then c else '-')
  let edge := fun c => c = '-' ∨ c = '.'
  let stripped := (cleaned.dropWhile edge).reverse.dropWhile edge |>.reverse
  String.ofList ((if stripped = [] then "site".toList else stripped).take 64)

def siteKey (driveId : String) : ItemKey := ⟨"__shared_drives__", "sharepoint_site", driveId⟩

def groupKey (driveId : String) : ItemKey := ⟨"__shared_drives__", "sharepoint_group", driveId⟩

def provisionPollAttempts : ℕ := 30

/-- `_lookup_site_id`. -/
def lookupSiteId (db : Db) (driveId : String) : Option String :=
  (db.folders.lookup (siteKey driveId)).bind (·.destPath)

def SiteRequest.body (r : SiteRequest) : GroupBody where
  displayName := r.displayName
  mailNickname := sanitizeMailNickname r.driveAlias
  ownersBind := r.owner.map (fun owner => [graphBase ++ "/users/" ++ owner.val])

section
variable (answer : Oracle SiteCall.Ans)

def SiteWorld.ask (w : SiteWorld) (c : SiteCall) : Except Exc Token := answer w.log c

def SiteWorld.after (w : SiteWorld) (c : SiteCall) : SiteWorld :=
  { w with log := ⟨c, w.ask answer c⟩ :: w.log }

/-- `_poll_group_site`, with the attempts that are left. -/
def pollGroupSite (groupId : Token) : ℕ → SiteWorld → Except Exc Token × SiteWorld
  | 0, w =>
    (.error (.other ("SharePoint site for group " ++ groupId.val ++ " was not provisioned in " ++
      "time. If the group was created without an owner, set " ++
      "destination.sharepoint_site_owner and re-run.")), w)
  | attempts + 1, w =>
    let w' := w.after answer (.getGroupSite groupId)
    match w.ask answer (.getGroupSite groupId) with
    | .ok siteId => (.ok siteId, w')
    -- not provisioned yet, all else is permanent
    | .error (.http status text) =>
      if status = 404 ∨ status = 503 then pollGroupSite groupId attempts w'
      else (.error (.http status text), w')
    | .error (.other text) => (.error (.other text), w')

/-- The part of `ensure_site_for_drive` from the poll on. -/
def resumeSite (driveId : String) (groupId : Token) (w : SiteWorld) :
    Except Exc (String × Token) × SiteWorld :=
  match pollGroupSite answer groupId provisionPollAttempts w with
  | (.error e, w₁) => (.error e, w₁)
  | (.ok siteId, w₁) =>
    let w₂ := w₁.after answer (.getLibrary siteId)
    match w₁.ask answer (.getLibrary siteId) with
    | .error e => (.error e, w₂)
    | .ok library =>
      (.ok (siteId.val, library),
        { w₂ with db := w₂.db.upsertFolder (siteKey driveId) library siteId.val })

/-- The site and library that are on record for a drive. -/
def recordedSite (db : Db) (driveId : String) : Option (String × Token) :=
  match db.getFolderDest (siteKey driveId), lookupSiteId db driveId with
  | some library, some siteId => if siteId = "" then none else some (siteId, library)
  | _, _ => none

/-- `ensure_site_for_drive`. -/
def ensureSiteForDrive (r : SiteRequest) (w : SiteWorld) :
    Except Exc (String × Token) × SiteWorld :=
  match recordedSite w.db r.driveId with
  | some site => (.ok site, w)
  | none =>
    match w.db.getFolderDest (groupKey r.driveId) with
    | some pendingGroup => resumeSite answer r.driveId pendingGroup w
    | none =>
      let w₁ := w.after answer (.postGroup r.driveId r.body)
      match w.ask answer (.postGroup r.driveId r.body) with
      | .error e => (.error e, w₁)
      | .ok groupId =>
        -- on record before the poll, which may time out
        resumeSite answer r.driveId groupId
          { w₁ with db := w₁.db.upsertFolder (groupKey r.driveId) groupId r.driveAlias }

/-- The state after a sequence of calls, whatever each of them returned. -/
def provisionAll (requests : List SiteRequest) (w : SiteWorld) : SiteWorld :=
  requests.foldl (fun w r => (ensureSiteForDrive answer r w).2) w

end

/-- The group that an event created for a drive. -/
def groupCreated (driveId : String) : Event SiteCall.Ans → Option Token
  | ⟨.postGroup d _, .ok groupId⟩ => if d = driveId then some groupId else none
  | _ => none

/-- The groups created for a drive, newest first. -/
def groupsCreated (driveId : String) (log : Log SiteCall.Ans) : List Token :=
  log.filterMap (groupCreated driveId)

section
variable (answer : Oracle SiteCall.Ans)

/-- A run of events none of which creates a group. -/
def NoGroup (events : Log SiteCall.Ans) : Prop := ∀ d, groupsCreated d events = []

theorem groupsCreated_append (d : String) (newer older : Log SiteCall.Ans) :
    groupsCreated d (newer ++ older) = groupsCreated d newer ++ groupsCreated d older :=
  List.filterMap_append

theorem NoGroup.append {newer older : Log SiteCall.Ans} (h : NoGroup newer) (h' : NoGroup older) :
    NoGroup (newer ++ older) := by
  intro d
  rw [groupsCreated_append, h d, h' d, List.nil_append]

/-- Polling asks for the site of the one group, and leaves the store alone. -/
theorem pollGroupSite_log (groupId : Token) (attempts : ℕ) (w : SiteWorld) :
    let w' := (pollGroupSite answer groupId attempts w).2
    w'.db = w.db ∧ ∃ newer, w'.log = newer ++ w.log ∧ NoGroup newer := by
  induction attempts generalizing w with
  | zero => exact ⟨rfl, [], rfl, fun _ => rfl⟩
  | succ attempts ih =>
    -- every answer but "not yet" ends the poll with this one call
    have hone : ∀ result : Except Exc Token × SiteWorld,
        result.2 = w.after answer (.getGroupSite groupId) → result.2.db = w.db ∧
          ∃ newer, result.2.log = newer ++ w.log ∧ NoGroup newer := by
      rintro result hresult
      rw [hresult]
      exact ⟨rfl, [_], rfl, fun _ => rfl⟩
    simp only [pollGroupSite]
    split
    · exact hone _ rfl
    · split
      · obtain ⟨hdb, newer, hlog, hnew⟩ := ih (w.after answer (.getGroupSite groupId))
        refine ⟨hdb, newer ++ [⟨.getGroupSite groupId, w.ask answer (.getGroupSite groupId)⟩], ?_,
          hnew.append (fun _ => rfl)⟩
        rw [hlog, List.append_assoc]
        rfl
      · exact hone _ rfl
    · exact hone _ rfl

/-- The first thing a poll does. -/
theorem pollGroupSite_first (groupId : Token) (attempts : ℕ) (w : SiteWorld) :
    ∃ newer answered, (pollGroupSite answer groupId (attempts + 1) w).2.log =
      newer ++ ⟨.getGroupSite groupId, answered⟩ :: w.log := by
  have hlog : ∀ w', w' = w.after answer (.getGroupSite groupId) → ∃ newer answered,
      w'.log = newer ++ (⟨.getGroupSite groupId, answered⟩ : Event SiteCall.Ans) :: w.log := by
    rintro w' rfl
    exact ⟨[], _, rfl⟩
  simp only [pollGroupSite]
  split
  · exact hlog _ rfl
  · split
    · obtain ⟨-, newer, hrest, -⟩ := pollGroupSite_log answer groupId attempts
        (w.after answer (.getGroupSite groupId))
      exact ⟨newer, _, hrest⟩
    · exact hlog _ rfl
  · exact hlog _ rfl

/-- The poll and what follows it create no group; they leave the store alone and fail, or put
the site they return on record. -/
structure SiteResumed (d : String) (groupId : Token) (w : SiteWorld)
    (out : Except Exc (String × Token) × SiteWorld) : Prop where
  polls : ∃ newer answered, out.2.log = newer ++ ⟨.getGroupSite groupId, answered⟩ :: w.log
  noGroup : ∀ d', groupsCreated d' out.2.log = groupsCreated d' w.log
  result : (∃ e, out.1 = .error e ∧ out.2.db = w.db) ∨
    ∃ (siteId library : Token), out.1 = .ok (siteId.val, library) ∧
      out.2.db = w.db.upsertFolder (siteKey d) library siteId.val

theorem resumeSite_resumed (d : String) (groupId : Token) (w : SiteWorld) :
    SiteResumed d groupId w (resumeSite answer d groupId w) := by
  have hlog := pollGroupSite_log answer groupId provisionPollAttempts w
  have hfirst := pollGroupSite_first answer groupId 29 w
  have hattempts : provisionPollAttempts = 29 + 1 := rfl
  rw [← hattempts] at hfirst
  simp only [resumeSite]
  generalize pollGroupSite answer groupId provisionPollAttempts w = polled at hlog hfirst ⊢
  obtain ⟨e | siteId, w₁⟩ := polled
  · obtain ⟨hdb, newer, hnewer, hnone⟩ := hlog
    refine ⟨hfirst, fun d' => ?_, Or.inl ⟨e, rfl, hdb⟩⟩
    have hlog : w₁.log = newer ++ w.log := hnewer
    rw [hlog, groupsCreated_append, hnone d', List.nil_append]
  · obtain ⟨hdb, newer, hnewer, hnone⟩ := hlog
    obtain ⟨newer', answered, hfirst⟩ := hfirst
    simp only at hdb hnewer hfirst
    -- nor does the lookup of the library create a group
    have hnone' : ∀ d', groupsCreated d' (w₁.after answer (.getLibrary siteId)).log =
        groupsCreated d' w.log := by
      intro d'
      have hstep : (w₁.after answer (.getLibrary siteId)).log =
          (⟨.getLibrary siteId, w₁.ask answer (.getLibrary siteId)⟩ :: newer) ++ w.log := by
        rw [SiteWorld.after, hnewer]
        rfl
      rw [hstep, groupsCreated_append, groupsCreated, List.filterMap_cons_none rfl]
      exact congrArg (· ++ groupsCreated d' w.log) (hnone d')
    have hpolls : ∃ newer answered, (w₁.after answer (.getLibrary siteId)).log =
        newer ++ (⟨.getGroupSite groupId, answered⟩ : Event SiteCall.Ans) :: w.log :=
      ⟨⟨.getLibrary siteId, w₁.ask answer (.getLibrary siteId)⟩ :: newer', answered, by
        rw [SiteWorld.after, hfirst]
        rfl⟩
    simp only
    cases w₁.ask answer (.getLibrary siteId) with
    | error e => exact ⟨hpolls, hnone', Or.inl ⟨e, rfl, hdb⟩⟩
    | ok library =>
      refine ⟨hpolls, hnone', Or.inr ⟨siteId, library, rfl, ?_⟩⟩
      simp only [SiteWorld.after, hdb]

/-- What one call does: it finds the site on record, it resumes the group on record, the POST
fails, or it puts the new group on record and goes on with that. -/
theorem ensureSiteForDrive_cases (r : SiteRequest) (w : SiteWorld) :
    (∃ site, recordedSite w.db r.driveId = some site ∧
      ensureSiteForDrive answer r w = (.ok site, w)) ∨
    (recordedSite w.db r.driveId = none ∧
      ((∃ groupId, w.db.getFolderDest (groupKey r.driveId) = some groupId ∧
          SiteResumed r.driveId groupId w (ensureSiteForDrive answer r w)) ∨
        (w.db.getFolderDest (groupKey r.driveId) = none ∧
          ((∃ e, ensureSiteForDrive answer r w =
              (.error e, ⟨w.db, ⟨.postGroup r.driveId r.body, .error e⟩ :: w.log⟩)) ∨
            ∃ groupId, SiteResumed r.driveId groupId
              ⟨w.db.upsertFolder (groupKey r.driveId) groupId r.driveAlias,
                ⟨.postGroup r.driveId r.body, .ok groupId⟩ :: w.log⟩
              (ensureSiteForDrive answer r w))))) := by
  cases hsite : recordedSite w.db r.driveId with
  | some site => exact Or.inl ⟨site, rfl, by simp only [ensureSiteForDrive, hsite]⟩
  | none =>
    refine Or.inr ⟨rfl, ?_⟩
    simp only [ensureSiteForDrive, hsite]
    cases w.db.getFolderDest (groupKey r.driveId) with
    | some groupId => exact Or.inl ⟨groupId, rfl, resumeSite_resumed answer _ _ _⟩
    | none =>
      refine Or.inr ⟨rfl, ?_⟩
      -- a new group is recorded before the first poll, so a later call resumes it
      cases hpost : w.ask answer (.postGroup r.driveId r.body) with
      | error e => exact Or.inl ⟨e, by simp only [SiteWorld.after, hpost]⟩
      | ok groupId =>
        refine Or.inr ⟨groupId, ?_⟩
        simp only [SiteWorld.after, hpost]
        exact resumeSite_resumed answer _ _ _

/-- No group was created for a drive, or just the one that is on record for it. -/
def OneGroup (w : SiteWorld) : Prop :=
  ∀ d, groupsCreated d w.log = [] ∨ ∃ groupId, groupsCreated d w.log = [groupId] ∧
    w.db.getFolderDest (groupKey d) = some groupId

theorem recordedSite_upsert_site (db : Db) (d d' : String) (siteId library : Token) :
    recordedSite (db.upsertFolder (siteKey d) library siteId.val) d' =
      if d' = d then some (siteId.val, library) else recordedSite db d' := by
  by_cases h : d' = d
  · subst h
    simp [recordedSite, lookupSiteId, Db.getFolderDest, Db.upsertFolder, siteId.property]
  · have hkey : siteKey d' ≠ siteKey d := by simp [siteKey, h]
    simp [recordedSite, lookupSiteId, Db.getFolderDest, Db.upsertFolder, hkey, h]

theorem recordedSite_upsert_group (db : Db) (d d' : String) (groupId : Token) (p : String) :
    recordedSite (db.upsertFolder (groupKey d) groupId p) d' = recordedSite db d' := by
  have hkey : siteKey d' ≠ groupKey d := by simp [siteKey, groupKey]
  simp [recordedSite, lookupSiteId, Db.getFolderDest, Db.upsertFolder, hkey]

theorem getFolderDest_upsert_site (db : Db) (d d' : String) (library : Token) (p : String) :
    (db.upsertFolder (siteKey d) library p).getFolderDest (groupKey d') =
      db.getFolderDest (groupKey d') := by
  rw [Db.getFolderDest_upsertFolder, if_neg (by simp [siteKey, groupKey])]

theorem getFolderDest_upsert_group (db : Db) (d d' : String) (groupId : Token) (p : String) :
    (db.upsertFolder (groupKey d) groupId p).getFolderDest (groupKey d') =
      if d' = d then some groupId else db.getFolderDest (groupKey d') := by
  rw [Db.getFolderDest_upsertFolder]
  simp [groupKey]

/-- A call that goes on with the group on record keeps the record right. -/
theorem SiteResumed.oneGroup {d : String} {groupId : Token} {w : SiteWorld}
    {out : Except Exc (String × Token) × SiteWorld} (h : SiteResumed d groupId w out)
    (hw : OneGroup w) : OneGroup out.2 := by
  intro d'
  have hgroup : out.2.db.getFolderDest (groupKey d') = w.db.getFolderDest (groupKey d') := by
    obtain ⟨e, -, hdb⟩ | ⟨siteId, library, -, hdb⟩ := h.result
    · rw [hdb]
    · rw [hdb, getFolderDest_upsert_site]
  rw [h.noGroup d', hgroup]
  exact hw d'

theorem OneGroup.create {d : String} {w : SiteWorld} (hw : OneGroup w)
    (hnone : w.db.getFolderDest (groupKey d) = none) (groupId : Token) (body : GroupBody)
    (p : String) : OneGroup ⟨w.db.upsertFolder (groupKey d) groupId p,
      ⟨.postGroup d body, .ok groupId⟩ :: w.log⟩ := by
  intro d'
  rw [getFolderDest_upsert_group]
  by_cases h : d' = d
  · subst h
    -- a group on record would not have been created again
    have hold : groupsCreated d' w.log = [] := by
      obtain hnil | ⟨groupId', -, hsome⟩ := hw d'
      · exact hnil
      · rw [hnone] at hsome
        cases hsome
    refine Or.inr ⟨groupId, ?_, if_pos rfl⟩
    rw [groupsCreated, List.filterMap_cons_some (b := groupId) (by simp [groupCreated])]
    exact congrArg (groupId :: ·) hold
  · have hsame : groupsCreated d' (⟨.postGroup d body, .ok groupId⟩ :: w.log) =
        groupsCreated d' w.log := List.filterMap_cons_none (by simp [groupCreated, Ne.symm h])
    rw [if_neg h, hsame]
    exact hw d'

theorem ensureSiteForDrive_oneGroup (r : SiteRequest) (w : SiteWorld) (hw : OneGroup w) :
    OneGroup (ensureSiteForDrive answer r w).2 := by
  obtain ⟨site, -, hout⟩ | ⟨-, ⟨groupId, -, hres⟩ | ⟨hnone, ⟨e, hout⟩ | ⟨groupId, hres⟩⟩⟩ :=
    ensureSiteForDrive_cases answer r w
  · rw [hout]
    exact hw
  · exact hres.oneGroup hw
  · rw [hout]
    intro d
    have hsame : groupsCreated d (⟨.postGroup r.driveId r.body, .error e⟩ :: w.log) =
        groupsCreated d w.log := List.filterMap_cons_none rfl
    rw [hsame]
    exact hw d
  · exact hres.oneGroup (hw.create hnone groupId r.body r.driveAlias)

theorem ensureSiteForDrive_recorded {r : SiteRequest} {w : SiteWorld} {site : String × Token}
    (h : recordedSite w.db r.driveId = some site) :
    ensureSiteForDrive answer r w = (.ok site, w) := by
  simp only [ensureSiteForDrive, h]

/-- What a call leaves on record: the site it returned for its own drive, none if it failed,
and for every other drive what was there. -/
structure Recorded (r : SiteRequest) (w : SiteWorld)
    (out : Except Exc (String × Token) × SiteWorld) : Prop where
  own : recordedSite out.2.db r.driveId = out.1.toOption
  others : ∀ d, d ≠ r.driveId → recordedSite out.2.db d = recordedSite w.db d ∧
    out.2.db.getFolderDest (groupKey d) = w.db.getFolderDest (groupKey d)

theorem SiteResumed.recorded {r : SiteRequest} {groupId : Token} {w : SiteWorld}
    {out : Except Exc (String × Token) × SiteWorld} (h : SiteResumed r.driveId groupId w out)
    (hw : recordedSite w.db r.driveId = none) : Recorded r w out := by
  obtain ⟨e, hout, hdb⟩ | ⟨siteId, library, hout, hdb⟩ := h.result
  · refine ⟨?_, fun d _ => ?_⟩
    · rw [hout, hdb, hw]
      rfl
    · rw [hdb]
      exact ⟨rfl, rfl⟩
  · refine ⟨?_, fun d hd => ?_⟩
    · rw [hout, hdb, recordedSite_upsert_site, if_pos rfl]
      rfl
    · rw [hdb, recordedSite_upsert_site, if_neg hd, getFolderDest_upsert_site]
      exact ⟨rfl, rfl⟩

theorem ensureSiteForDrive_records (r : SiteRequest) (w : SiteWorld) :
    Recorded r w (ensureSiteForDrive answer r w) := by
  obtain ⟨site, hsite, hout⟩ | ⟨hsite, ⟨groupId, -, hres⟩ | ⟨-, ⟨e, hout⟩ | ⟨groupId, hres⟩⟩⟩ :=
    ensureSiteForDrive_cases answer r w
  · rw [hout]
    exact ⟨hsite, fun d _ => ⟨rfl, rfl⟩⟩
  · exact hres.recorded hsite
  · rw [hout]
    exact ⟨hsite, fun d _ => ⟨rfl, rfl⟩⟩
  -- the group was put on record before the poll, under the drive's own key
  · have hrec := hres.recorded (by rw [recordedSite_upsert_group]; exact hsite)
    refine ⟨hrec.own, fun d hd => ?_⟩
    obtain ⟨hrest, hgroup⟩ := hrec.others d hd
    rw [recordedSite_upsert_group] at hrest
    rw [getFolderDest_upsert_group, if_neg hd] at hgroup
    exact ⟨hrest, hgroup⟩

/-- A site on record stays there through every later call. -/
theorem provisionAll_keeps (requests : List SiteRequest) (w : SiteWorld) {d : String}
    {site : String × Token} (h : recordedSite w.db d = some site) :
    recordedSite (provisionAll answer requests w).db d = some site := by
  refine List.foldlRecOn requests _
    (motive := fun w : SiteWorld => recordedSite w.db d = some site) h ?_
  intro w' hw' r _
  by_cases hd : d = r.driveId
  · -- a call for the drive itself returns the site and does nothing
    subst hd
    rw [ensureSiteForDrive_recorded answer hw']
    exact hw'
  · rw [((ensureSiteForDrive_records answer r w').others d hd).1]
    exact hw'

/-- Calls for other drives leave the record of a drive as it is. -/
theorem provisionAll_others (requests : List SiteRequest) (w : SiteWorld) {d : String}
    (h : ∀ r ∈ requests, r.driveId ≠ d) :
    recordedSite (provisionAll answer requests w).db d = recordedSite w.db d ∧
      (provisionAll answer requests w).db.getFolderDest (groupKey d) =
        w.db.getFolderDest (groupKey d) := by
  refine List.foldlRecOn requests _ (motive := fun w' : SiteWorld =>
    recordedSite w'.db d = recordedSite w.db d ∧
      w'.db.getFolderDest (groupKey d) = w.db.getFolderDest (groupKey d)) ⟨rfl, rfl⟩ ?_
  intro w' hw' r hr
  obtain ⟨hsite, hgroup⟩ := (ensureSiteForDrive_records answer r w').others d
    (Ne.symm (h r hr))
  exact ⟨hsite.trans hw'.1, hgroup.trans hw'.2⟩

theorem provisionAll_oneGroup (requests : List SiteRequest) (w : SiteWorld) (hw : OneGroup w) :
    OneGroup (provisionAll answer requests w) :=
  List.foldlRecOn requests _ hw
    (fun (w : SiteWorld) hw r _ => ensureSiteForDrive_oneGroup answer r w hw)

theorem provisionAll_append (pre post : List SiteRequest) (w : SiteWorld) :
    provisionAll answer (pre ++ post) w = provisionAll answer post (provisionAll answer pre w) :=
  List.foldl_append

/-- A drive with a group and no site on record has that group polled first. -/
theorem ensureSiteForDrive_polls {r : SiteRequest} {w : SiteWorld} {groupId : Token}
    (hsite : recordedSite w.db r.driveId = none)
    (hgroup : w.db.getFolderDest (groupKey r.driveId) = some groupId) :
    ∃ newer answered, (ensureSiteForDrive answer r w).2.log =
      newer ++ ⟨.getGroupSite groupId, answered⟩ :: w.log := by
  simp only [ensureSiteForDrive, hsite, hgroup]
  exact (resumeSite_resumed answer r.driveId groupId w).polls

end

/-- Provisioning can be taken up again, over every sequence of calls from every store: one group
is created for a drive at most, a site once returned is returned ever after without a call, and
after a call that failed behind its group the next call for the drive polls that group. -/
theorem site_provisioning_resumes (answer : Oracle SiteCall.Ans) (db : Db)
    (requests : List SiteRequest) :
    let after := fun requests => provisionAll answer requests ⟨db, []⟩
    (∀ d, (groupsCreated d (after requests).log).length ≤ 1) ∧
    ∀ pre r post next, requests = pre ++ r :: post → next.driveId = r.driveId →
      (∀ site, (ensureSiteForDrive answer r (after pre)).1 = .ok site →
        ensureSiteForDrive answer next (after requests) = (.ok site, after requests)) ∧
      (∀ e groupId, (ensureSiteForDrive answer r (after pre)).1 = .error e →
        groupId ∈ groupsCreated r.driveId (after (pre ++ [r])).log →
        (∀ q ∈ post, q.driveId ≠ r.driveId) →
        ∃ newer answered, (ensureSiteForDrive answer next (after requests)).2.log =
          newer ++ ⟨.getGroupSite groupId, answered⟩ :: (after requests).log) := by
  intro after
  have hstart : OneGroup ⟨db, []⟩ := fun d => Or.inl rfl
  refine ⟨fun d => ?_, ?_⟩
  · obtain hnil | ⟨groupId, hlist, -⟩ := provisionAll_oneGroup answer requests _ hstart d
    · exact hnil ▸ Nat.zero_le 1
    · exact hlist ▸ Nat.le_refl 1
  rintro pre r post next rfl hnext
  -- the run up to the call `r`, and from there on
  have hrun : after (pre ++ r :: post) = provisionAll answer post (after (pre ++ [r])) := by
    rw [← provisionAll_append answer, List.append_assoc]
    rfl
  have hone : after (pre ++ [r]) = (ensureSiteForDrive answer r (after pre)).2 :=
    provisionAll_append answer pre [r] _
  have hown := (ensureSiteForDrive_records answer r (after pre)).own
  rw [← hone] at hown
  refine ⟨fun site hsite => ?_, fun e groupId herr hgroup hpost => ?_⟩
  · have hkept := provisionAll_keeps answer post _ (hown.trans (by rw [hsite]; rfl))
    rw [← hrun, ← hnext] at hkept
    exact ensureSiteForDrive_recorded answer hkept
  · -- the one group of the drive is the one on record
    have hrecord : (after (pre ++ [r])).db.getFolderDest (groupKey r.driveId) = some groupId := by
      obtain hnil | ⟨groupId', hlist, hsome⟩ :=
        provisionAll_oneGroup answer (pre ++ [r]) _ hstart r.driveId
      · rw [hnil] at hgroup
        cases hgroup
      · rw [hlist, List.mem_singleton] at hgroup
        exact hgroup ▸ hsome
    obtain ⟨hsite', hgroup'⟩ :=
      provisionAll_others answer post (after (pre ++ [r])) hpost
    rw [← hrun, ← hnext] at hsite' hgroup'
    refine ensureSiteForDrive_polls answer (hsite'.trans ?_) (hgroup'.trans ?_)
    · rw [hnext, hown, herr]
      rfl
    · rw [hnext]
      exact hrecord

end GwsMigrator
