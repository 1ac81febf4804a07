import GwsMigrator.ImapCursor

/-! Under which source id a message is yielded, pass after pass. The id has the UIDVALIDITY
that `_status` read, and a STATUS answer that does not say it stands for UIDVALIDITY 0. -/
namespace GwsMigrator
open Dialogue Separators

theorem toString_inj {v v' : ℕ} : toString v = toString v' ↔ v = v' := by
  refine ⟨fun h => ?_, fun h => h ▸ rfl⟩
  have hlist : Nat.toDigits 10 v = Nat.toDigits 10 v' := by
    rw [← Nat.toList_repr, ← Nat.toList_repr]
    exact congrArg String.toList h
  have hvalue := congrArg (fun digits => Nat.ofDigitChars 10 digits 0) hlist
  simpa only [Nat.ofDigitChars_ten_toDigits] using hvalue

theorem colon_notMem_toString (v : ℕ) : ':' ∉ (toString v).toList := by
  intro h
  rw [Nat.toString_eq_repr, Nat.toList_repr] at h
  exact absurd (Nat.isDigit_of_mem_toDigits (by decide) (by decide) h) (by decide)

/-- What stands before the last colon of a text is decided by the text. -/
theorem append_colon_inj {front front' : String} {v v' : ℕ} :
    front ++ ":" ++ toString v = front' ++ ":" ++ toString v' ↔ front = front' ∧ v = v' := by
  have hlist : ∀ (front : String) (v : ℕ),
      (front ++ ":" ++ toString v).toList = front.toList ++ ':' :: (toString v).toList := by
    intro front v
    rw [String.toList_append, String.toList_append, List.append_assoc]
    rfl
  rw [← String.toList_inj, hlist, hlist, append_cons_inj_of_last (colon_notMem_toString v)
    (colon_notMem_toString v'), String.toList_inj, String.toList_inj, toString_inj]

/-- The name of a folder may hold colons and digits: the id is read from the right. -/
theorem imapSourceId_eq_iff {raw raw' : String} {v v' uid uid' : ℕ} :
    imapSourceId raw v uid = imapSourceId raw' v' uid' ↔ raw = raw' ∧ v = v' ∧ uid = uid' := by
  rw [imapSourceId, imapSourceId, append_colon_inj, append_colon_inj, and_assoc]

/-- The answer carries the UIDVALIDITY item. -/
def StatusAnswer.carries : StatusAnswer → Bool
  | .items (some _) _ => true
  | _ => false

/-- What a STATUS answer about the folder says, if the event is one. -/
def statusOf (raw : String) : Event ImapCall.Ans → Option Bool
  | ⟨.status r, .ok answer⟩ => if r = raw then some answer.carries else none
  | _ => none

/-- The UID that is fetched in the folder, if the event is a fetch that does not abort. -/
def fetchOf (raw : String) : Event ImapCall.Ans → Option ℕ
  | ⟨.fetch _ _, .error (.abort _)⟩ => none
  | ⟨.fetch r uid, _⟩ => if r = raw then some uid else none
  | _ => none

/-- The latest STATUS answer about the folder carries its UIDVALIDITY. -/
def carriesUidvalidity (raw : String) (log : ImapLog) : Bool :=
  (log.filterMap (statusOf raw)).head?.getD false

/-- The UIDs fetched in the folder, oldest first, each with whether the STATUS answer before
it carries the UIDVALIDITY. -/
def fetches (raw : String) : ImapLog → List (ℕ × Bool)
  | [] => []
  | e :: log =>
    fetches raw log ++ ((fetchOf raw e).map (fun uid => (uid, carriesUidvalidity raw log))).toList

/-- The UIDVALIDITY that a pass takes for a folder with UIDVALIDITY `v`. -/
def takenUidvalidity (v : ℕ) (carried : Bool) : ℕ := if carried then v else 0

/-- A UIDVALIDITY that is carried is not 0. -/
theorem takenUidvalidity_eq_iff {v v' : ℕ} (hv : 0 < v) (hv' : 0 < v') {carried carried' : Bool} :
    takenUidvalidity v carried = takenUidvalidity v' carried' ↔
      carried = carried' ∧ (carried = true → v = v') := by
  cases carried with
  | true =>
    cases carried' with
    | true => simp [takenUidvalidity]
    | false => simp [takenUidvalidity, hv.ne']
  | false =>
    cases carried' with
    | true => simp [takenUidvalidity, hv'.ne]
    | false => simp [takenUidvalidity]

theorem carriesUidvalidity_cons_of_none {raw : String} {e : Event ImapCall.Ans} {log : ImapLog}
    (h : statusOf raw e = none) :
    carriesUidvalidity raw (e :: log) = carriesUidvalidity raw log := by
  simp only [carriesUidvalidity, List.filterMap_cons_none h]

theorem fetches_cons_of_none {raw : String} {e : Event ImapCall.Ans} {log : ImapLog}
    (h : fetchOf raw e = none) : fetches raw (e :: log) = fetches raw log := by
  simp only [fetches, h, Option.map_none, Option.toList_none, List.append_nil]

section pass
variable (server : ImapServer) (messageIdOf : Bytes → Option String) {raw : String} {v : ℕ}

/-- The messages yielded for the folder are those fetched, each under the UIDVALIDITY that the
STATUS answer before the fetch gave. -/
def ImapScan.Traced (raw : String) (v : ℕ) (st : ImapScan) : Prop :=
  (st.yielded.filter (·.folder = raw)).map (fun y => (y.uid, y.message.sourceId)) =
    (fetches raw st.log).map (fun f => (f.1, imapSourceId raw (takenUidvalidity v f.2) f.1))

/-- A fetch that does not abort gives a message under the id of its UID. -/
theorem fetchMessage_cases (folder : ImapFolder) (uid uidvalidity : ℕ)
    (answer : Except ImapExc FetchAnswer) :
    (∃ text, answer = .error (.abort text) ∧
      fetchMessage messageIdOf folder uid uidvalidity answer = .error (.abort text)) ∨
    ((∀ text, answer ≠ .error (.abort text)) ∧
      ∃ message, fetchMessage messageIdOf folder uid uidvalidity answer = .ok message ∧
        message.sourceId = imapSourceId folder.rawName uidvalidity uid) := by
  rcases answer with (text | text) | (typ | parts)
  · exact Or.inl ⟨text, rfl, rfl⟩
  · exact Or.inr ⟨by simp, _, rfl, rfl⟩
  · exact Or.inr ⟨by simp, _, rfl, rfl⟩
  · refine Or.inr ⟨by simp, ?_⟩
    simp only [fetchMessage]
    split
    · exact ⟨_, rfl, rfl⟩
    · exact ⟨_, rfl, rfl⟩

/-- A command that is no FETCH yields nothing. -/
theorem ImapScan.Traced.after {st : ImapScan} (h : st.Traced raw v) (c : ImapCall)
    (hc : fetchOf raw ⟨c, st.ask server c⟩ = none) : (st.after server c).Traced raw v := by
  rw [Traced, ImapScan.after, fetches_cons_of_none hc]
  exact h

theorem fetchOf_fetch (raw r : String) (uid : ℕ) {answer : Except ImapExc FetchAnswer}
    (h : ∀ text, answer ≠ .error (.abort text)) :
    fetchOf raw ⟨.fetch r uid, answer⟩ = if r = raw then some uid else none := by
  rcases answer with (text | text) | answer
  · exact absurd rfl (h text)
  · rfl
  · rfl

/-- One fetch keeps the trace, and the STATUS answer it goes by. -/
theorem fetchUid_traced (folder : ImapFolder) (uidvalidity start : ℕ) (st : ImapScan) (uid : ℕ)
    (h : st.Traced raw v)
    (hv : folder.rawName = raw → uidvalidity = takenUidvalidity v (carriesUidvalidity raw st.log)) :
    (fetchUid server messageIdOf folder uidvalidity start st uid).Traced raw v ∧
      carriesUidvalidity raw (fetchUid server messageIdOf folder uidvalidity start st uid).log =
        carriesUidvalidity raw st.log := by
  simp only [fetchUid]
  by_cases hraised : st.raised.isSome = true
  · rw [if_pos hraised]
    exact ⟨h, rfl⟩
  · rw [if_neg hraised]
    by_cases hlt : uid < start
    · rw [if_pos hlt]
      exact ⟨h, rfl⟩
    · rw [if_neg hlt]
      obtain ⟨text, hans, hmsg⟩ | ⟨hans, message, hmsg, hid⟩ := fetchMessage_cases
        messageIdOf folder uid uidvalidity (st.ask server (.fetch folder.rawName uid))
      · -- an aborted fetch yields nothing and counts as none
        simp only [hmsg]
        have hnone : fetchOf raw ⟨.fetch folder.rawName uid,
            st.ask server (.fetch folder.rawName uid)⟩ = none := by
          rw [hans]
          rfl
        exact ⟨h.after server _ hnone, carriesUidvalidity_cons_of_none rfl⟩
      · simp only [hmsg]
        refine ⟨?_, carriesUidvalidity_cons_of_none rfl⟩
        have hfetch := fetchOf_fetch raw folder.rawName uid hans
        -- one message more on the one side, one fetch more on the other
        unfold ImapScan.Traced at h ⊢
        simp only [ImapScan.after, fetches, hfetch, List.filter_append, List.map_append, h]
        by_cases hraw : folder.rawName = raw
        · simp [hraw, hid, hv hraw]
        · simp [hraw]

theorem fetchUids_traced (folder : ImapFolder) (uidvalidity start : ℕ) (uids : List ℕ)
    (st : ImapScan) (h : st.Traced raw v)
    (hv : folder.rawName = raw → uidvalidity = takenUidvalidity v (carriesUidvalidity raw st.log)) :
    (uids.foldl (fetchUid server messageIdOf folder uidvalidity start) st).Traced raw v := by
  induction uids generalizing st with
  | nil => exact h
  | cons uid uids ih =>
    obtain ⟨hstep, hcarries⟩ := fetchUid_traced server messageIdOf folder uidvalidity start st
      uid h hv
    exact ih _ hstep (by rw [hcarries]; exact hv)

theorem searchFolder_traced (folder : ImapFolder) (uidvalidity start uidnext : ℕ) (st : ImapScan)
    (h : st.Traced raw v)
    (hv : folder.rawName = raw → uidvalidity = takenUidvalidity v (carriesUidvalidity raw st.log)) :
    (searchFolder server messageIdOf folder uidvalidity start uidnext st).Traced raw v := by
  have hselect := h.after server (.select folder.rawName) rfl
  have hsearch := hselect.after server (.search folder.rawName start uidnext) rfl
  simp only [searchFolder]
  cases st.ask server (.select folder.rawName) with
  | error e => exact hselect
  | ok _ =>
    simp only
    rcases (st.after server (.select folder.rawName)).ask server
      (.search folder.rawName start uidnext) with e | (_ | uids)
    · exact hsearch
    · exact hsearch
    · exact fetchUids_traced server messageIdOf folder uidvalidity start uids _ hsearch hv

/-- What `_status` reads for the folder is what the latest STATUS answer says. -/
theorem readStatus_taken {st : ImapScan} {answer : StatusAnswer} (folder : ImapFolder)
    (hbox : ∀ log, (server.boxes log raw).uidvalidity = v)
    (hans : st.ask server (.status folder.rawName) = .ok answer) (hraw : folder.rawName = raw) :
    (readStatus answer).1 = takenUidvalidity v
      (carriesUidvalidity raw (st.after server (.status folder.rawName)).log) := by
  have hcarries : carriesUidvalidity raw (st.after server (.status folder.rawName)).log =
      answer.carries := by
    simp only [ImapScan.after, carriesUidvalidity, hans]
    rw [List.filterMap_cons_some (b := answer.carries) (by simp [statusOf, hraw])]
    rfl
  rw [hcarries]
  rcases answer with _ | _ | ⟨_ | v', n⟩
  · rfl
  · rfl
  · rfl
  · have htruth := server.status_uidvalidity st.log folder.rawName v' n hans
    rw [hraw, hbox] at htruth
    exact htruth

theorem scanFolder_traced (since : ImapCursor) (st : ImapScan) (folder : ImapFolder)
    (hbox : ∀ log, (server.boxes log raw).uidvalidity = v) (h : st.Traced raw v) :
    (scanFolder server messageIdOf since st folder).Traced raw v := by
  have hstatus := h.after server (.status folder.rawName) rfl
  simp only [scanFolder]
  by_cases hraised : st.raised.isSome = true
  · simp only [hraised, if_true]
    exact h
  · simp only [hraised, Bool.false_eq_true, if_false]
    cases hans : st.ask server (.status folder.rawName) with
    | error e => exact hstatus
    | ok answer =>
      simp only
      -- the fetches go by this STATUS answer, from whichever UID on
      have hsearch := fun start => searchFolder_traced server messageIdOf folder
        (readStatus answer).1 start (readStatus answer).2
        { st.after server (.status folder.rawName) with
          cursor := (st.after server (.status folder.rawName)).cursor.insert folder.rawName
            ⟨(readStatus answer).1, (readStatus answer).2⟩ } hstatus
        (readStatus_taken server folder hbox hans)
      cases since.lookup folder.rawName with
      | none => exact hsearch 1
      | some prev =>
        simp only
        split
        · split
          · exact hstatus
          · exact hsearch _
        · exact hsearch _

theorem iterMessages_traced (excludeFolders : List String) (since : ImapCursor)
    (hbox : ∀ log, (server.boxes log raw).uidvalidity = v) :
    (iterMessages server messageIdOf excludeFolders since).Traced raw v := by
  have hstart : ImapScan.Traced raw v {} := rfl
  have hlist := hstart.after server .list rfl
  simp only [iterMessages]
  split
  · exact hlist
  · exact hlist
  · exact List.foldlRecOn _ _ hlist
      (fun st hst folder _ => scanFolder_traced server messageIdOf since st folder hbox hst)

end pass

/-- No UID of the folder is fetched both behind a STATUS answer that carries the UIDVALIDITY
and behind one that does not. -/
def StatusAgrees (scans : List ImapScan) (raw : String) : Prop :=
  ∀ st ∈ scans, ∀ st' ∈ scans, ∀ f ∈ fetches raw st.log, ∀ f' ∈ fetches raw st'.log,
    f.1 = f'.1 → f.2 = f'.2

/-- One pass of `iter_messages`: the server it meets and the cursor it starts from, which is
empty in a full pass. -/
structure ImapPass where
  server : ImapServer
  since : ImapCursor

section passes
variable (messageIdOf : Bytes → Option String) (excludeFolders : List String)

def ImapPass.scan (p : ImapPass) : ImapScan :=
  iterMessages p.server messageIdOf excludeFolders p.since

/-- The messages of a folder are known by their UID: whenever two messages with one UID are
yielded for it, in whichever passes, they have one source id. -/
def KeepsIdentity (passes : List ImapPass) (raw : String) : Prop :=
  ∀ p ∈ passes, ∀ p' ∈ passes, ∀ y ∈ (p.scan messageIdOf excludeFolders).yielded,
    ∀ y' ∈ (p'.scan messageIdOf excludeFolders).yielded, y.folder = raw → y'.folder = raw →
      y.uid = y'.uid → y.message.sourceId = y'.message.sourceId

variable {messageIdOf excludeFolders}

/-- A trace read as membership. -/
theorem ImapScan.Traced.mem_iff {st : ImapScan} {raw : String} {v : ℕ} (h : st.Traced raw v)
    (uid : ℕ) (sourceId : String) :
    (∃ y ∈ st.yielded, y.folder = raw ∧ y.uid = uid ∧ y.message.sourceId = sourceId) ↔
      ∃ f ∈ fetches raw st.log, f.1 = uid ∧
        imapSourceId raw (takenUidvalidity v f.2) uid = sourceId := by
  have hmem : (uid, sourceId) ∈ (st.yielded.filter (·.folder = raw)).map
      (fun y => (y.uid, y.message.sourceId)) ↔ (uid, sourceId) ∈
      (fetches raw st.log).map (fun f => (f.1, imapSourceId raw (takenUidvalidity v f.2) f.1)) := by
    rw [h]
  simp only [List.mem_map, List.mem_filter, decide_eq_true_eq, Prod.mk.injEq] at hmem
  constructor
  · rintro ⟨y, hy, hfolder, hrest⟩
    obtain ⟨f, hf, huid, hid⟩ := hmem.mp ⟨y, ⟨hy, hfolder⟩, hrest⟩
    exact ⟨f, hf, huid, huid ▸ hid⟩
  · rintro ⟨f, hf, huid, hid⟩
    obtain ⟨y, ⟨hy, hfolder⟩, hrest⟩ := hmem.mpr ⟨f, hf, huid, huid ▸ hid⟩
    exact ⟨y, hy, hfolder, hrest⟩

/-- While a folder keeps its UIDVALIDITY, its messages keep their ids exactly as long as the
STATUS answers agree on carrying it. -/
theorem keepsIdentity_iff (messageIdOf : Bytes → Option String) (excludeFolders : List String)
    (passes : List ImapPass) (raw : String) (v : ℕ)
    (hbox : ∀ p ∈ passes, ∀ log, (p.server.boxes log raw).uidvalidity = v) :
    KeepsIdentity messageIdOf excludeFolders passes raw ↔
      StatusAgrees (passes.map (fun p => p.scan messageIdOf excludeFolders)) raw := by
  have htrace : ∀ p ∈ passes, (p.scan messageIdOf excludeFolders).Traced raw v :=
    fun p hp => iterMessages_traced p.server messageIdOf excludeFolders p.since (hbox p hp)
  simp only [StatusAgrees, List.forall_mem_map]
  refine ⟨fun h p hp p' hp' f hf f' hf' huid => ?_,
    fun h p hp p' hp' y hy y' hy' hraw hraw' huid => ?_⟩
  -- two fetches of one UID yield one id, so the UIDVALIDITY in it is one
  · obtain ⟨y, hy, hraw, hyuid, hid⟩ := ((htrace p hp).mem_iff f.1 _).mpr ⟨f, hf, rfl, rfl⟩
    obtain ⟨y', hy', hraw', hyuid', hid'⟩ :=
      ((htrace p' hp').mem_iff f'.1 _).mpr ⟨f', hf', rfl, rfl⟩
    have hsame := h p hp p' hp' y hy y' hy' hraw hraw' (by rw [hyuid, hyuid', huid])
    rw [hid, hid', huid, imapSourceId_eq_iff] at hsame
    have hpos : 0 < v := hbox p hp [] ▸ (p.server.boxes [] raw).uidvalidity_pos
    exact ((takenUidvalidity_eq_iff hpos hpos).mp hsame.2.1).1
  · obtain ⟨f, hf, hfuid, hid⟩ := ((htrace p hp).mem_iff y.uid _).mp ⟨y, hy, hraw, rfl, rfl⟩
    obtain ⟨f', hf', hfuid', hid'⟩ :=
      ((htrace p' hp').mem_iff y'.uid _).mp ⟨y', hy', hraw', rfl, rfl⟩
    have hsame := h p hp p' hp' f hf f' hf' (by rw [hfuid, hfuid', huid])
    rw [← hid, ← hid', hsame, huid]

end passes

end GwsMigrator
