import GwsMigrator.ImapIdentity
import GwsMigrator.MailOnce
import GwsMigrator.ScriptedGraph

/-! Rounds of `run_mail` over an IMAP account, and the messages that its done check passes over.
The check goes by the source id alone, so it is right if the ids tell the messages apart. -/
namespace GwsMigrator
open Dialogue

/-- A message on the server: the UID is given out once under a UIDVALIDITY of the folder. -/
@[ext]
structure ServerMessage where
  folder : String
  uidvalidity : ℕ
  uid : ℕ
deriving DecidableEq, Repr

/-- One `run_mail` over the account: what it is asked to do, and the server it meets. -/
structure ImapRound where
  mode : Mode
  importMode : ImportMode
  excludeFolders : List String
  server : ImapServer

/-- The message that a pass of the round yields. -/
def ImapRound.identity (r : ImapRound) (y : Yielded) : ServerMessage :=
  ⟨y.folder, (r.server.boxes [] y.folder).uidvalidity, y.uid⟩

/-- What the loop of `run_mail` does with a message: whether the done check passes it over, and
whether it is done by this and was not before. -/
structure Handled where
  message : ServerMessage
  sourceId : String
  skipped : Bool
  imported : Bool
deriving DecidableEq, Repr

/-- The account after some rounds: what the state store holds, the passes that were made, and
what became of every message they yielded. -/
structure ImapHistory where
  state : MailState := {}
  passes : List (ImapRound × ImapScan) := []
  handled : List Handled := []

/-- The exception that comes out of `iter_messages`. -/
def ImapExc.exc : ImapExc → Exc
  | .abort text => .other text
  | .error text => .other text

section
variable (g : Graph) (user : UserMapping) (messageIdOf : Bytes → Option String)
-- `json.loads` and `json.dumps` of a cursor: nothing here depends on what they do
variable (loads : Token → ImapCursor) (dumps : ImapCursor → Token)

namespace ImapRound

variable (r : ImapRound)

/-- The pass of the round. `since` is what `run_mail` hands to `iter_messages`. -/
def scan (since : Option Token) : ImapScan :=
  iterMessages r.server messageIdOf r.excludeFolders ((since.map loads).getD ∅)

/-- The same as `run_mail` sees it. -/
def source (since : Option Token) : Enumeration SourceMessage :=
  let st := r.scan messageIdOf loads since
  { items := st.yielded.map (·.message)
    raised := st.raised.map ImapExc.exc
    lastCursor := if st.raised.isSome then none else some (dumps st.cursor) }

def mailPass : MailPass := ⟨r.mode, r.importMode, r.source messageIdOf loads dumps⟩

/-- From where `run_mail` enumerates, if it comes so far. -/
def starts (w : World) : Option (Option Token) :=
  match g.ask w (.getUser user.destId) with
  | .error _ => none
  | .ok _ =>
    startFrom r.mode ((g.after w (.getUser user.destId)).db.getCursor ⟨user.sourceId, "mail"⟩)

/-- One round of the loop of `run_mail`, with a note of what it did. -/
def handle (t : MailLoop × List Handled) (y : Yielded) : MailLoop × List Handled :=
  let k := messageKey user y.message.sourceId
  let st' := processMessage g user r.importMode t.1 y.message
  let done := t.1.world.db.isDone k
  (st', t.2 ++ [{ message := r.identity y
                  sourceId := y.message.sourceId
                  skipped := done
                  imported := !done && st'.world.db.isDone k }])

end ImapRound

def ImapHistory.round (h : ImapHistory) (r : ImapRound) : ImapHistory :=
  let state := h.state.pass g user (r.mailPass messageIdOf loads dumps)
  match r.starts g user h.state.world with
  | none => { h with state := state }
  | some since =>
    let st := r.scan messageIdOf loads since
    let w := g.after h.state.world (.getUser user.destId)
    { state := state
      passes := h.passes ++ [(r, st)]
      handled := (st.yielded.foldl (r.handle g user) ({ world := w }, h.handled)).2 }

def imapHistory (rounds : List ImapRound) : ImapHistory :=
  rounds.foldl (ImapHistory.round g user messageIdOf loads dumps) {}

end

/-- Messages that share a source id are one message. -/
def NeverShared (handled : List Handled) : Prop :=
  ∀ x ∈ handled, ∀ y ∈ handled, x.sourceId = y.sourceId → x.message = y.message

/-- A message that the done check passes over was imported before, itself and no other. -/
def SkipsImported (handled : List Handled) : Prop :=
  ∀ earlier x, earlier ++ [x] <+: handled → x.skipped = true →
    ∃ y ∈ earlier, y.imported = true ∧ y.message = x.message

/-- Of this folder, a message has one id whenever it is yielded, the done check passes it over once
it is imported, and so it is imported once. -/
structure KnownAgain (handled : List Handled) (raw : String) : Prop where
  identity : ∀ x ∈ handled, ∀ y ∈ handled, x.message.folder = raw → y.message = x.message →
    y.sourceId = x.sourceId
  recognised : handled.Pairwise (fun y x => y.imported = true → y.message = x.message →
    x.message.folder = raw → x.skipped = true)
  once : ((handled.filter (fun x => x.imported ∧ x.message.folder = raw)).map
    (·.message)).Nodup

/-- The items of which the notes say that they were imported, newest first. -/
def importsNoted (user : UserMapping) (handled : List Handled) : List ItemKey :=
  ((handled.filter (·.imported)).map (fun x => messageKey user x.sourceId)).reverse

/-- If a UID of a folder is fetched in two passes behind STATUS answers that do not carry the
UIDVALIDITY, then the folder has one UIDVALIDITY in both. -/
def RenumberingTold (passes : List (ImapRound × ImapScan)) : Prop :=
  ∀ p ∈ passes, ∀ p' ∈ passes, ∀ raw, ∀ f ∈ fetches raw p.2.log, ∀ f' ∈ fetches raw p'.2.log,
    f.1 = f'.1 → f.2 = false → f'.2 = false →
      (p.1.server.boxes [] raw).uidvalidity = (p'.1.server.boxes [] raw).uidvalidity

section
variable {g : Graph} {user : UserMapping} {messageIdOf : Bytes → Option String}
  {loads : Token → ImapCursor} {dumps : ImapCursor → Token} {r : ImapRound}

theorem messageKey_inj {a b : String} : messageKey user a = messageKey user b ↔ a = b := by
  simp [messageKey]

/-- The notes against the state store: every done row was recorded by an import that is noted. -/
structure Noted (user : UserMapping) (db : Db) (handled : List Handled) : Prop where
  done : ∀ sourceId, db.isDone (messageKey user sourceId) = true →
    ∃ y ∈ handled, y.imported = true ∧ y.sourceId = sourceId
  skips : ∀ earlier x, earlier ++ [x] <+: handled → x.skipped = true →
    ∃ y ∈ earlier, y.imported = true ∧ y.sourceId = x.sourceId

theorem Noted.congr {db db' : Db} {handled : List Handled} (h : Noted user db handled)
    (hrows : db'.getItemState = db.getItemState) : Noted user db' handled := by
  refine ⟨fun sourceId hdone => h.done sourceId ?_, h.skips⟩
  rw [Db.isDone_eq, hrows, ← Db.isDone_eq] at hdone
  exact hdone

/-- The notes against the calls and the store: an import is noted where it was made, what was
imported stays done, and so of two notes under one id the later is no import. -/
structure Remembered (user : UserMapping) (w : World) (handled : List Handled) : Prop where
  imports : primaryImports w.log = importsNoted user handled
  stays : ∀ y ∈ handled, y.imported = true → w.db.isDone (messageKey user y.sourceId) = true
  later : handled.Pairwise (fun y x => y.imported = true → y.sourceId = x.sourceId →
    x.skipped = true ∧ x.imported = false)

theorem importsNoted_append (handled later : List Handled) :
    importsNoted user (handled ++ later) = importsNoted user later ++ importsNoted user handled := by
  simp [importsNoted]

theorem Remembered.congr {w w' : World} {handled : List Handled} (h : Remembered user w handled)
    (hlog : primaryImports w'.log = primaryImports w.log)
    (hrows : w'.db.getItemState = w.db.getItemState) : Remembered user w' handled := by
  refine ⟨hlog.trans h.imports, fun y hy himported => ?_, h.later⟩
  rw [Db.isDone_eq, hrows, ← Db.isDone_eq]
  exact h.stays y hy himported

variable (g) in
theorem handle_remembered {t : MailLoop × List Handled} (h : Remembered user t.1.world t.2)
    (y : Yielded) :
    Remembered user (r.handle g user t y).1.world (r.handle g user t y).2 := by
  have hstep := processMessage_step g user r.importMode t.1 y.message
  simp only [ImapRound.handle]
  set st' := processMessage g user r.importMode t.1 y.message
  refine ⟨?_, fun x hx himported => ?_, ?_⟩
  · -- an import is made exactly where the message gets done
    rw [importsNoted_append, ← h.imports]
    cases hstep with
    | skipped done same => simp [importsNoted, same, done]
    | failed notDone v status rows cursors imports =>
      simp [importsNoted, imports, isDone_of_rows rows, status]
    | imported notDone v status rows cursors imports =>
      simp [importsNoted, imports, isDone_of_rows rows, status, notDone]
  · rcases List.mem_append.mp hx with hx | hx
    · exact hstep.isDone_stays (h.stays x hx himported)
    · obtain rfl := List.mem_singleton.mp hx
      exact (Bool.and_eq_true_iff.mp himported).2
  · rw [List.pairwise_append]
    refine ⟨h.later, List.pairwise_singleton _ _, fun x hx z hz himported hid => ?_⟩
    obtain rfl := List.mem_singleton.mp hz
    have hdone := h.stays x hx himported
    rw [hid] at hdone
    simp only at hdone
    simp [hdone]

variable (g) in
/-- A message that is not done before is the one that an import records. -/
theorem handle_noted {t : MailLoop × List Handled} (h : Noted user t.1.world.db t.2)
    (y : Yielded) :
    Noted user (r.handle g user t y).1.world.db (r.handle g user t y).2 := by
  have hstep := processMessage_step g user r.importMode t.1 y.message
  refine ⟨fun sourceId hdone => ?_, fun earlier x hprefix hskipped => ?_⟩
  · by_cases hbefore : t.1.world.db.isDone (messageKey user sourceId) = true
    · obtain ⟨x, hx, himported⟩ := h.done sourceId hbefore
      exact ⟨x, List.mem_append_left _ hx, himported⟩
    · -- not done before and done now, so it is the message of this round
      have hkey : messageKey user sourceId = messageKey user y.message.sourceId := by
        by_contra hne
        exact hbefore ((hstep.isDone_of_ne hne).symm.trans hdone)
      obtain rfl := messageKey_inj.mp hkey
      refine ⟨_, List.mem_append_right _ (List.mem_singleton_self _), ?_, rfl⟩
      simp only [Bool.and_eq_true, Bool.not_eq_true']
      exact ⟨Bool.eq_false_iff.mpr hbefore, hdone⟩
  · rcases List.prefix_concat_iff.mp hprefix with hlast | hprefix
    · obtain ⟨rfl, hx⟩ := List.append_inj' hlast rfl
      obtain rfl := List.singleton_inj.mp hx
      exact h.done _ hskipped
    · exact h.skips earlier x hprefix hskipped

variable (g user r) in
/-- The loop with its notes is the loop of `run_mail`, and every message has its note. -/
theorem foldl_handle (ys : List Yielded) (t : MailLoop × List Handled) :
    (ys.foldl (r.handle g user) t).1 =
        (ys.map (·.message)).foldl (processMessage g user r.importMode) t.1 ∧
      (ys.foldl (r.handle g user) t).2.map (fun x => (x.sourceId, x.message)) =
        t.2.map (fun x => (x.sourceId, x.message)) ++
          ys.map (fun y => (y.message.sourceId, r.identity y)) := by
  induction ys generalizing t with
  | nil => exact ⟨rfl, (List.append_nil _).symm⟩
  | cons y ys ih =>
    obtain ⟨hloop, hnotes⟩ := ih (r.handle g user t y)
    refine ⟨hloop, ?_⟩
    rw [List.foldl_cons, hnotes, List.map_cons]
    simp [ImapRound.handle]

variable (messageIdOf loads dumps) in
/-- A round that does not come to its loop asks for the user and leaves the rows alone. -/
theorem pass_idle {s : MailState} (h : r.starts g user s.world = none) :
    (s.pass g user (r.mailPass messageIdOf loads dumps)).world =
      g.after s.world (.getUser user.destId) := by
  simp only [MailState.pass, ImapRound.mailPass, runMail]
  unfold ImapRound.starts at h
  cases hask : g.ask s.world (.getUser user.destId) with
  | error e => rfl
  | ok id =>
    rw [hask] at h
    simp only at h ⊢
    rw [h]

variable (messageIdOf loads dumps) in
/-- A round that does leaves the rows and the calls that its loop leaves. -/
theorem pass_loop {s : MailState} {since : Option Token}
    (h : r.starts g user s.world = some since) :
    let w := (s.pass g user (r.mailPass messageIdOf loads dumps)).world
    let st := ((r.scan messageIdOf loads since).yielded.map (·.message)).foldl
      (processMessage g user r.importMode) { world := g.after s.world (.getUser user.destId) }
    w.db.getItemState = st.world.db.getItemState ∧ w.log = st.world.log := by
  simp only [MailState.pass, ImapRound.mailPass, runMail]
  unfold ImapRound.starts at h
  cases hask : g.ask s.world (.getUser user.destId) with
  | error e =>
    rw [hask] at h
    cases h
  | ok id =>
    rw [hask] at h
    simp only at h ⊢
    rw [h]
    simp only [migrateMail]
    split
    · exact ⟨rfl, rfl⟩
    · refine ⟨?_, advanceCursor_log ..⟩
      funext k
      exact advanceCursor_getItemState ..

/-- The invariant of the rounds. -/
structure ImapHistory.Sound (user : UserMapping) (messageIdOf : Bytes → Option String)
    (loads : Token → ImapCursor) (h : ImapHistory) : Prop where
  noted : Noted user h.state.world.db h.handled
  remembered : Remembered user h.state.world h.handled
  yields : h.handled.map (fun x => (x.sourceId, x.message)) = h.passes.flatMap (fun p =>
    p.2.yielded.map (fun y => (y.message.sourceId, p.1.identity y)))
  scans : ∀ p ∈ h.passes, ∃ since, p.2 = p.1.scan messageIdOf loads since

variable (g dumps) in
theorem ImapHistory.Sound.round {h : ImapHistory} (hs : h.Sound user messageIdOf loads)
    (r : ImapRound) : (h.round g user messageIdOf loads dumps r).Sound user messageIdOf loads := by
  unfold ImapHistory.round
  cases hstarts : r.starts g user h.state.world with
  | none =>
    have hidle := pass_idle messageIdOf loads dumps hstarts
    have hasked : SameRows h.state.world (g.after h.state.world (.getUser user.destId)) :=
      sameRows_after rfl rfl
    refine ⟨hs.noted.congr ?_, hs.remembered.congr ?_ ?_, hs.yields, hs.scans⟩
    · exact (congrArg (·.db.getItemState) hidle).trans hasked.rows
    · exact (congrArg (fun w => primaryImports w.log) hidle).trans hasked.imports
    · exact (congrArg (·.db.getItemState) hidle).trans hasked.rows
  | some since =>
    obtain ⟨hrows, hlog⟩ := pass_loop messageIdOf loads dumps hstarts
    simp only at hrows hlog ⊢
    set scan := r.scan messageIdOf loads since with hscan
    set start : MailLoop := { world := g.after h.state.world (.getUser user.destId) }
    obtain ⟨hloop, hnotes⟩ := foldl_handle g user r scan.yielded (start, h.handled)
    have hstart : Noted user start.world.db h.handled := hs.noted.congr rfl
    have hnoted : Noted user (scan.yielded.foldl (r.handle g user) (start, h.handled)).1.world.db
        (scan.yielded.foldl (r.handle g user) (start, h.handled)).2 :=
      List.foldlRecOn scan.yielded (r.handle g user)
        (motive := fun t => Noted user t.1.world.db t.2) hstart
        (fun t ht y _ => handle_noted g ht y)
    have hfirst : Remembered user start.world h.handled :=
      hs.remembered.congr (sameRows_after rfl rfl).imports rfl
    have hremembered : Remembered user
        (scan.yielded.foldl (r.handle g user) (start, h.handled)).1.world
        (scan.yielded.foldl (r.handle g user) (start, h.handled)).2 :=
      List.foldlRecOn scan.yielded (r.handle g user)
        (motive := fun t => Remembered user t.1.world t.2) hfirst
        (fun t ht y _ => handle_remembered g ht y)
    refine ⟨hnoted.congr ?_, hremembered.congr ?_ ?_, ?_, ?_⟩
    · rw [hrows, hloop]
    · rw [hlog, hloop]
    · rw [hrows, hloop]
    · rw [hnotes, hs.yields, List.flatMap_append]
      simp
    · intro p hp
      rcases List.mem_append.mp hp with hp | hp
      · exact hs.scans p hp
      · rw [List.mem_singleton.mp hp]
        exact ⟨since, hscan⟩

variable (g user messageIdOf loads dumps) in
theorem imapHistory_sound (rounds : List ImapRound) :
    (imapHistory g user messageIdOf loads dumps rounds).Sound user messageIdOf loads := by
  apply List.foldlRecOn rounds (ImapHistory.round g user messageIdOf loads dumps)
    (motive := fun h => h.Sound user messageIdOf loads)
  · refine ⟨⟨fun sourceId hdone => ?_, fun earlier x hprefix => ?_⟩,
      ⟨rfl, fun y hy => absurd hy List.not_mem_nil, List.Pairwise.nil⟩, rfl, ?_⟩
    · exact absurd hdone (by simp [Db.isDone_eq, Db.getItemState])
    · exact absurd (List.prefix_nil.mp hprefix) (by simp)
    · exact fun p hp => absurd hp List.not_mem_nil
  · exact fun h hs r _ => hs.round g dumps r

/-- Where the ids tell the messages apart, what the check passes over was imported itself. -/
theorem Noted.skipsImported {db : Db} {handled : List Handled} (h : Noted user db handled)
    (hshared : NeverShared handled) : SkipsImported handled := by
  intro earlier x hprefix hskipped
  obtain ⟨y, hy, himported, hid⟩ := h.skips earlier x hprefix hskipped
  refine ⟨y, hy, himported, hshared y ?_ x ?_ hid⟩
  · exact hprefix.subset (List.mem_append_left _ hy)
  · exact hprefix.subset (List.mem_append_right _ (List.mem_singleton_self x))

/-- The notes are the messages of the passes. -/
theorem ImapHistory.Sound.mem_iff {h : ImapHistory} (hs : h.Sound user messageIdOf loads)
    (sourceId : String) (message : ServerMessage) :
    (∃ x ∈ h.handled, x.sourceId = sourceId ∧ x.message = message) ↔
      ∃ p ∈ h.passes, ∃ y ∈ p.2.yielded, y.message.sourceId = sourceId ∧
        p.1.identity y = message := by
  have hmem : (sourceId, message) ∈ h.handled.map (fun x => (x.sourceId, x.message)) ↔
      (sourceId, message) ∈ h.passes.flatMap (fun p =>
        p.2.yielded.map (fun y => (y.message.sourceId, p.1.identity y))) := by
    rw [hs.yields]
  simpa only [List.mem_map, List.mem_flatMap, Prod.mk.injEq] using hmem

/-- A message is yielded for each fetch, under the UIDVALIDITY that STATUS gave. -/
theorem ImapHistory.Sound.yielded_iff {h : ImapHistory} (hs : h.Sound user messageIdOf loads)
    {p : ImapRound × ImapScan} (hp : p ∈ h.passes) (sourceId : String) (m : ServerMessage) :
    (∃ y ∈ p.2.yielded, y.message.sourceId = sourceId ∧ p.1.identity y = m) ↔
      (p.1.server.boxes [] m.folder).uidvalidity = m.uidvalidity ∧
        ∃ f ∈ fetches m.folder p.2.log, f.1 = m.uid ∧
          imapSourceId m.folder (takenUidvalidity m.uidvalidity f.2) m.uid = sourceId := by
  obtain ⟨since, hscan⟩ := hs.scans p hp
  have hbox : ∀ log, (p.1.server.boxes log m.folder).uidvalidity =
      (p.1.server.boxes [] m.folder).uidvalidity :=
    fun log => (p.1.server.grows_of_suffix List.nil_suffix m.folder).uidvalidity
  have htraced : p.2.Traced m.folder (p.1.server.boxes [] m.folder).uidvalidity := by
    rw [hscan]
    exact iterMessages_traced p.1.server messageIdOf p.1.excludeFolders _ hbox
  have hyielded := htraced.mem_iff m.uid sourceId
  constructor
  · rintro ⟨y, hy, hid, rfl⟩
    exact ⟨rfl, hyielded.mp ⟨y, hy, rfl, rfl, hid⟩⟩
  · rintro ⟨hvalidity, hfetched⟩
    rw [← hvalidity] at hfetched
    obtain ⟨y, hy, hfolder, huid, hid⟩ := hyielded.mpr hfetched
    refine ⟨y, hy, hid, ?_⟩
    rw [ImapRound.identity, hfolder, huid, hvalidity]

/-- What is noted under an id: messages of which a UID was fetched in some pass. -/
theorem ImapHistory.Sound.noted_iff {h : ImapHistory} (hs : h.Sound user messageIdOf loads)
    (sourceId : String) (m : ServerMessage) :
    (∃ x ∈ h.handled, x.sourceId = sourceId ∧ x.message = m) ↔
      ∃ p ∈ h.passes, (p.1.server.boxes [] m.folder).uidvalidity = m.uidvalidity ∧
        ∃ f ∈ fetches m.folder p.2.log, f.1 = m.uid ∧
          imapSourceId m.folder (takenUidvalidity m.uidvalidity f.2) m.uid = sourceId := by
  rw [hs.mem_iff]
  exact exists_congr (fun p => and_congr_right (fun hp => hs.yielded_iff hp sourceId m))

/-- In a folder whose messages keep their ids, what was imported is passed over from then on. -/
theorem Remembered.knownAgain {w : World} {handled : List Handled} {raw : String}
    (h : Remembered user w handled)
    (hidentity : ∀ x ∈ handled, ∀ y ∈ handled, x.message.folder = raw → y.message = x.message →
      y.sourceId = x.sourceId) : KnownAgain handled raw := by
  have hpairs : handled.Pairwise (fun y x => y.imported = true → y.message = x.message →
      x.message.folder = raw → x.skipped = true ∧ x.imported = false) :=
    List.Pairwise.imp_of_mem
      (fun hy hx hlater himported hsame hraw => hlater himported (hidentity _ hx _ hy hraw hsame))
      h.later
  refine ⟨hidentity, hpairs.imp (fun hpair himported hsame hraw =>
    (hpair himported hsame hraw).1), ?_⟩
  -- two imports of one message would be an import of what is passed over
  rw [List.Nodup, List.pairwise_map, List.pairwise_filter]
  refine hpairs.imp (fun {y x} hpair hy hx hsame => ?_)
  have hagain := (hpair (of_decide_eq_true hy).1 hsame (of_decide_eq_true hx).2).2
  rw [(of_decide_eq_true hx).1] at hagain
  cases hagain

variable (g user messageIdOf loads dumps) in
theorem imapHistory_passes (rounds : List ImapRound) :
    ∀ p ∈ (imapHistory g user messageIdOf loads dumps rounds).passes, p.1 ∈ rounds := by
  apply List.foldlRecOn rounds (ImapHistory.round g user messageIdOf loads dumps)
    (motive := fun h => ∀ p ∈ h.passes, p.1 ∈ rounds)
  · exact fun p hp => absurd hp List.not_mem_nil
  · intro h hh r hr p hp
    unfold ImapHistory.round at hp
    cases hstarts : r.starts g user h.state.world with
    | none =>
      rw [hstarts] at hp
      exact hh p hp
    | some since =>
      rw [hstarts] at hp
      rcases List.mem_append.mp hp with hp | hp
      · exact hh p hp
      · rw [List.mem_singleton.mp hp]
        exact hr

/-- While a folder keeps its UIDVALIDITY, the done check knows its messages again exactly as long as
the STATUS answers agree on carrying it. -/
theorem ImapHistory.Sound.knownAgain_iff {h : ImapHistory} (hs : h.Sound user messageIdOf loads)
    {raw : String} {v : ℕ}
    (hbox : ∀ p ∈ h.passes, (p.1.server.boxes [] raw).uidvalidity = v) :
    KnownAgain h.handled raw ↔ StatusAgrees (h.passes.map Prod.snd) raw := by
  simp only [StatusAgrees, List.forall_mem_map]
  constructor
  · intro hknown p hp p' hp' f hf f' hf' huid
    -- both fetches are of one message, so they give one id
    obtain ⟨x, hx, hid, hmessage⟩ :=
      (hs.noted_iff _ ⟨raw, v, f.1⟩).mpr ⟨p, hp, hbox p hp, f, hf, rfl, rfl⟩
    obtain ⟨x', hx', hid', hmessage'⟩ :=
      (hs.noted_iff _ ⟨raw, v, f.1⟩).mpr ⟨p', hp', hbox p' hp', f', hf', huid.symm, rfl⟩
    have hsame := hknown.identity x hx x' hx' (by rw [hmessage]) (by rw [hmessage, hmessage'])
    rw [hid, hid', imapSourceId_eq_iff] at hsame
    have hpos : 0 < v := hbox p hp ▸ (p.1.server.boxes [] raw).uidvalidity_pos
    exact ((takenUidvalidity_eq_iff hpos hpos).mp hsame.2.1.symm).1
  · intro hagrees
    refine hs.remembered.knownAgain (fun x hx y hy hraw hsame => ?_)
    subst hraw
    obtain ⟨p, hp, -, f, hf, hfuid, hid⟩ := (hs.noted_iff _ _).mp ⟨x, hx, rfl, rfl⟩
    obtain ⟨p', hp', -, f', hf', hfuid', hid'⟩ := (hs.noted_iff _ _).mp ⟨y, hy, rfl, hsame⟩
    have hcarried := hagrees p hp p' hp' f hf f' hf' (by rw [hfuid, hfuid'])
    rw [← hid, ← hid', hcarried]

/-- The ids tell the messages apart exactly as long as STATUS tells of a renumbering. -/
theorem ImapHistory.Sound.neverShared_iff {h : ImapHistory}
    (hs : h.Sound user messageIdOf loads) :
    NeverShared h.handled ↔ RenumberingTold h.passes := by
  constructor
  · intro hshared p hp p' hp' raw f hf f' hf' huid hcarried hcarried'
    -- both fetches give the id with UIDVALIDITY 0
    obtain ⟨x, hx, hid, hmessage⟩ := (hs.noted_iff _
      ⟨raw, (p.1.server.boxes [] raw).uidvalidity, f.1⟩).mpr ⟨p, hp, rfl, f, hf, rfl, rfl⟩
    obtain ⟨x', hx', hid', hmessage'⟩ := (hs.noted_iff _
      ⟨raw, (p'.1.server.boxes [] raw).uidvalidity, f'.1⟩).mpr ⟨p', hp', rfl, f', hf', rfl, rfl⟩
    have hsame : x.sourceId = x'.sourceId := by
      rw [hid, hid', hcarried, hcarried', huid]
      rfl
    have hmessages := hshared x hx x' hx' hsame
    rw [hmessage, hmessage'] at hmessages
    exact congrArg ServerMessage.uidvalidity hmessages
  · intro htold x hx x' hx' hsame
    obtain ⟨p, hp, hbox, f, hf, hfuid, hid⟩ := (hs.noted_iff _ _).mp ⟨x, hx, rfl, rfl⟩
    obtain ⟨p', hp', hbox', f', hf', hfuid', hid'⟩ := (hs.noted_iff _ _).mp ⟨x', hx', rfl, rfl⟩
    rw [← hid, ← hid', imapSourceId_eq_iff] at hsame
    obtain ⟨hfolder, htaken, huid⟩ := hsame
    have hpos : 0 < x.message.uidvalidity := hbox ▸ (p.1.server.boxes [] _).uidvalidity_pos
    have hpos' : 0 < x'.message.uidvalidity := hbox' ▸ (p'.1.server.boxes [] _).uidvalidity_pos
    obtain ⟨hcarried, hvalue⟩ := (takenUidvalidity_eq_iff hpos hpos').mp htaken
    -- the ids agree on whether STATUS carried the UIDVALIDITY, and on its value if it did
    have hvalidity : x.message.uidvalidity = x'.message.uidvalidity := by
      cases hf2 : f.2 with
      | true => exact hvalue hf2
      | false =>
        rw [← hfolder] at hf' hbox'
        rw [← hbox, ← hbox']
        exact htold p hp p' hp' _ f hf f' hf' (by rw [hfuid, hfuid', huid]) hf2 (hcarried ▸ hf2)
    exact ServerMessage.ext hfolder hvalidity huid

end

/-- A server that answers no STATUS, with one folder on which nothing happens. -/
def statuslessServer (box : Mailbox) : ImapServer :=
  let quiet := quietServer box false
  { quiet with
    answer := fun log c => match c with
      | .status _ => .ok .refused
      | c => quiet.answer log c
    status_uidvalidity := fun _ _ _ _ h => by cases h
    status_uidnext := fun _ _ _ _ h => by cases h
    search_listed := quiet.search_listed }

/-- A full round in which STATUS is refused, and a delta round behind it in which it is not. -/
def refusedRounds : List ImapRound :=
  [⟨.full, .json, [], statuslessServer inbox⟩, ⟨.delta, .json, [], quietServer inbox false⟩]

/-- The history of these rounds; the cursor of the first is read as what that round saved. -/
def refusedHistory : ImapHistory :=
  imapHistory calmGraph ⟨"a@source", "a@dest"⟩ (fun _ => none)
    (fun _ => (iterMessages (statuslessServer inbox) (fun _ => none) [] ∅).cursor)
    (fun _ => firstCursor) refusedRounds

/-- Two full rounds, between which INBOX is made anew under the UIDVALIDITY 8. -/
def renumberedRounds : List ImapRound :=
  [⟨.full, .json, [], statuslessServer inbox⟩,
    ⟨.full, .json, [], statuslessServer { inbox with uidvalidity := 8, uidvalidity_pos := by decide }⟩]

end GwsMigrator
