import GwsMigrator.Base64
import GwsMigrator.DeltaFeed
import GwsMigrator.FolderPaths
import GwsMigrator.MailSources
import GwsMigrator.PagedReads

/-! `google/gmail.py` and the mail of `connectors/google.py`: the messages of a mailbox, all of them
or those added since a history id, and that none of them is lost behind the mail cursor. -/
namespace GwsMigrator.Gmail
open Program PagedReads
open DeltaFeed (truthy truthy_eq)

/-- The ways in which `decode_raw_mime` fails. -/
inductive RawError where
  | notAscii
  | leftOver (characters : ℕ)
  | incorrectPadding
deriving DecidableEq, Repr

def RawError.text : RawError → String
  | .notAscii => "string argument should contain only ASCII characters"
  | .leftOver characters => "Invalid base64-encoded string: number of data characters (" ++
      toString characters ++ ") cannot be 1 more than a multiple of 4"
  | .incorrectPadding => "Incorrect padding"

/-- The translation of the URL-safe alphabet. -/
def fromUrlSafe (c : Char) : Char := if c = '-' then '+' else if c = '_' then '/' else c

/-- The characters of a text that are letters of the URL-safe alphabet. (The two other letters of
the standard one count too.) -/
def dataCharacters (raw : String) : ℕ :=
  raw.toList.countP (fun c => (Base64.value (fromUrlSafe c)).isSome)

/-- `decode_raw_mime`. -/
def decodeRawMime (raw : String) : Except RawError Bytes :=
  if raw.toList.all (fun c => c.toNat < 128) then
    match Base64.decode ((raw.toList ++ ['=', '=']).map fromUrlSafe) with
    | .ok bytes => .ok bytes
    | .error .leftOver => .error (.leftOver (dataCharacters raw))
    | .error .incorrectPadding => .error .incorrectPadding
  else .error .notAscii

/-- The alphabet that the Gmail API writes. -/
def toUrlSafe (c : Char) : Char := if c = '+' then '-' else if c = '/' then '_' else c

theorem fromUrlSafe_letter :
    ∀ n < 64, fromUrlSafe (toUrlSafe (Base64.letter n)) = Base64.letter n := by decide +kernel

theorem letter_ascii : ∀ n < 64, (toUrlSafe (Base64.letter n)).toNat < 128 := by decide +kernel

/-- The standard text of some bytes, or a part of it, comes back from the URL-safe one. -/
theorem fromUrlSafe_text (bytes : Bytes) (text : List Char)
    (htext : ∀ c ∈ text, c ∈ Base64.encode bytes) :
    (text.map toUrlSafe).map fromUrlSafe = text ∧
      (text.map toUrlSafe).all (fun c => c.toNat < 128) = true := by
  rw [List.map_map, List.all_eq_true]
  refine ⟨?_, fun c' hc' => ?_⟩
  · refine (List.map_congr_left (fun c hc => ?_)).trans (List.map_id text)
    rcases Base64.mem_encode (htext c hc) with rfl | ⟨n, hn, rfl⟩
    · decide
    · exact fromUrlSafe_letter n hn
  · obtain ⟨c, hc, rfl⟩ := List.mem_map.mp hc'
    rcases Base64.mem_encode (htext c hc) with rfl | ⟨n, hn, rfl⟩
    · decide
    · exact decide_eq_true (letter_ascii n hn)

theorem decodeRawMime_ok {raw : String} (hraw : raw.toList.all (fun c => c.toNat < 128) = true)
    {bytes : Bytes} (h : Base64.decode (raw.toList.map fromUrlSafe ++ ['=', '=']) = .ok bytes) :
    decodeRawMime raw = .ok bytes := by
  have hpads : ['=', '='].map fromUrlSafe = ['=', '='] := by decide
  rw [decodeRawMime, if_pos hraw, List.map_append, hpads, h]

/-- What the Gmail API writes of some bytes is decoded to these bytes, with its padding and without
it. A text without padding is decoded if and only if it is ASCII and its letters do not leave one
over, to three bytes for four letters. -/
theorem decodeRawMime_exact :
    (∀ bytes : Bytes,
      decodeRawMime (String.ofList ((Base64.encode bytes).map toUrlSafe)) = .ok bytes ∧
      decodeRawMime (String.ofList (((Base64.encode bytes).filter (· ≠ '=')).map toUrlSafe)) =
        .ok bytes) ∧
    ∀ raw : String, '=' ∉ raw.toList →
      ((∃ bytes, decodeRawMime raw = .ok bytes) ↔
        raw.toList.all (fun c => c.toNat < 128) = true ∧ dataCharacters raw % 4 ≠ 1) ∧
      ∀ bytes, decodeRawMime raw = .ok bytes → bytes.length = dataCharacters raw * 3 / 4 := by
  refine ⟨fun bytes => ⟨?_, ?_⟩, fun raw hraw => ?_⟩
  · obtain ⟨htext, hascii⟩ := fromUrlSafe_text bytes _ (fun _ hc => hc)
    refine decodeRawMime_ok (by rwa [String.toList_ofList]) ?_
    rw [String.toList_ofList, htext]
    exact Base64.decode_encode_pads bytes _ (by simp)
  · obtain ⟨htext, hascii⟩ := fromUrlSafe_text bytes
      ((Base64.encode bytes).filter (· ≠ '=')) (fun _ hc => List.mem_of_mem_filter hc)
    refine decodeRawMime_ok (by rwa [String.toList_ofList]) ?_
    rw [String.toList_ofList, htext]
    exact Base64.decode_unpadded bytes
  · have hnopad : '=' ∉ raw.toList.map fromUrlSafe := by
      intro h
      obtain ⟨c, hc, hpad⟩ := List.mem_map.mp h
      unfold fromUrlSafe at hpad
      split_ifs at hpad
      · exact absurd hpad (by decide)
      · exact absurd hpad (by decide)
      · exact hraw (hpad ▸ hc)
    have hcount : dataCharacters raw =
        (raw.toList.map fromUrlSafe).countP (fun c => (Base64.value c).isSome) := by
      rw [List.countP_map]
      rfl
    have hpads : ['=', '='].map fromUrlSafe = ['=', '='] := by decide
    have hisOk := Base64.decodeFrom_pads_isOk hnopad (show 0 < 4 by omega) 0
    have hlength := fun bytes =>
      @Base64.length_decodeFrom_pads _ hnopad 0 (by omega) 0 bytes
    rw [Nat.zero_add, ← hcount] at hisOk
    rw [← hcount] at hlength
    by_cases hascii : raw.toList.all (fun c => c.toNat < 128) = true
    · rw [decodeRawMime, if_pos hascii, List.map_append, hpads, Base64.decode]
      cases hdecode : Base64.decodeFrom 0 0 0 (raw.toList.map fromUrlSafe ++ ['=', '=']) with
      | ok bytes =>
        rw [hdecode] at hisOk
        refine ⟨⟨fun _ => ⟨hascii, hisOk.mp rfl⟩, fun _ => ⟨bytes, rfl⟩⟩, fun bytes' h => ?_⟩
        obtain rfl := Except.ok.inj h
        have := hlength bytes hdecode
        omega
      | error e =>
        rw [hdecode] at hisOk
        have hover : ¬ dataCharacters raw % 4 ≠ 1 := fun h => by cases hisOk.mpr h
        cases e <;> simp [hascii, hover]
    · rw [decodeRawMime, if_neg hascii]
      simp [hascii]

/-- A page of `messages.list` or of `history.list`: the ids on it, and the token of the next. -/
structure IdPage where
  ids : List String
  nextPageToken : Option String
deriving DecidableEq, Repr

/-- What is read of a message in the raw format, or of the stub for one that was not fetched. -/
structure RawMessage where
  id : String
  raw : String := ""
  labelIds : List String := []
  fetchError : String := ""
deriving DecidableEq, Repr

/-- The requests to the Gmail API. -/
inductive GmailRequest where
  | listLabels
  | getProfile
  | listHistory (startHistoryId : Token) (pageToken : Option Token)
  | listMessages (includeSpamTrash : Bool) (pageToken : Option Token)
  | getRaw (msgId : String)
deriving DecidableEq, Repr

abbrev GmailRequest.Result : GmailRequest → Type
  | .listLabels => List (String × String)
  | .getProfile => String
  | .listHistory .. | .listMessages .. => IdPage
  | .getRaw _ => RawMessage

/-- An HttpError has its status. Anything else that is raised is no HttpError. -/
abbrev GmailRequest.Ans (r : GmailRequest) : Type := Except Exc r.Result

abbrev GmailProgram := Program GmailRequest.Ans

/-- What `_get_raw` makes of an answer: none for a message that has vanished, and a stub after any
other HttpError. -/
def rawOf (msgId : String) : Except Exc RawMessage → Except Exc (Option RawMessage)
  | .ok msg => .ok (some msg)
  | .error (.http 404 _) => .ok none
  | .error (.http _ text) => .ok (some { id := msgId, fetchError := text })
  | .error (.other text) => .error (.other text)

/-- `_get_raw`. -/
def getRaw (msgId : String) : GmailProgram (Except Exc (Option RawMessage)) := do
  let answer ← perform (GmailRequest.getRaw msgId)
  pure (rawOf msgId answer)

def IdPage.read (page : IdPage) : List String × Option Token :=
  (page.ids, page.nextPageToken.bind truthy)

/-- One round of the loop of `_iter_history`. -/
def historyPage (startHistoryId : Token) (pageToken : Option Token) :
    GmailProgram (Except Exc (List String × Option Token)) := do
  let answer ← perform (GmailRequest.listHistory startHistoryId pageToken)
  pure (answer.map IdPage.read)

/-- One round of the loop of a full sync. -/
def messagesPage (includeSpamTrash : Bool) (pageToken : Option Token) :
    GmailProgram (Except Exc (List String × Option Token)) := do
  let answer ← perform (GmailRequest.listMessages includeSpamTrash pageToken)
  pure (answer.map IdPage.read)

/-- What a source is configured with, and how it finds the Message-ID of a message. -/
structure GmailSource where
  policy : MultiLabelPolicy
  includeSpamTrash : Bool := true
  messageIdOf : Bytes → Option String

section
variable (source : GmailSource)

/-- `_to_message`. -/
def toMessage (labelMap : AList (fun _ : String => String)) (msg : RawMessage) :
    Except Exc SourceMessage :=
  if msg.fetchError ≠ "" then
    .ok { sourceId := msg.id, folderPaths := ["Inbox"], fetchError := msg.fetchError }
  else
    match decodeRawMime msg.raw with
    | .error e => .error (.other e.text)
    | .ok rawMime =>
      let (folderPaths, categories) := resolveLabelPlacement msg.labelIds labelMap source.policy
      .ok {
        sourceId := msg.id
        rawMime := rawMime
        folderPaths := folderPaths
        categories :=
          if "IMPORTANT" ∈ msg.labelIds then categories ++ ["Important"] else categories
        isRead := "UNREAD" ∉ msg.labelIds
        isFlagged := "STARRED" ∈ msg.labelIds
        dedupHash := (source.messageIdOf rawMime).getD msg.id }

/-- What is yielded for what `_get_raw` returns. -/
def yieldsOf (labelMap : AList (fun _ : String => String)) :
    Except Exc (Option RawMessage) → Yields SourceMessage Exc
  | .error e => ([], some e)
  | .ok none => ([], none)
  | .ok (some msg) =>
    match toMessage source labelMap msg with
    | .error e => ([], some e)
    | .ok message => ([message], none)

/-- The body of the loops, for an id of a listing. -/
def yieldMessage (labelMap : AList (fun _ : String => String)) (msgId : String) :
    GmailProgram (Yields SourceMessage Exc) := do
  let msg ← getRaw msgId
  pure (yieldsOf source labelMap msg)

/-- `gmail.iter_messages`: a history id that has expired makes it a full sync. -/
def iterMessages (labelMap : AList (fun _ : String => String)) (historyId : Option Token)
    (fuel : ℕ) : GmailProgram (Option (Yields SourceMessage Exc)) :=
  let full := readPages (messagesPage source.includeSpamTrash) (yieldMessage source labelMap)
    fuel none
  match historyId with
  | none => full
  | some startHistoryId => do
    match ← readPages (historyPage startHistoryId) (yieldMessage source labelMap) fuel none with
    | some (messages, some (.http 404 _)) => do
      match ← full with
      | none => pure none
      | some (more, e) => pure (some (messages ++ more, e))
    | r => pure r

/-- The cursor of a run is captured before anything is read, in a full pass alone. -/
def captureCursor (since : Option Token) : GmailProgram (Except Exc (Option Token)) :=
  match since with
  | some _ => pure (.ok none)
  | none => do
    let historyId ← perform GmailRequest.getProfile
    pure (historyId.map truthy)

/-- `GoogleWorkspaceSource.iter_messages`, run to its end. -/
def fetchMessages (since : Option Token) (fuel : ℕ) :
    GmailProgram (Option (Enumeration SourceMessage)) := do
  match ← perform GmailRequest.listLabels with
  | .error e => pure (some { items := [], raised := some e })
  | .ok labels => do
    match ← captureCursor since with
    | .error e => pure (some { items := [], raised := some e })
    | .ok cursor => do
      let labelMap := labels.foldl (fun names label => names.insert label.1 label.2) ∅
      match ← iterMessages source labelMap since fuel with
      | none => pure none
      | some (messages, e) =>
        pure (some { items := messages, raised := e, lastCursor := cursor })

end

/-- The listings that are cut into pages. -/
inductive Listing where
  | messages (includeSpamTrash : Bool)
  | history (startHistoryId : Token)

/-- The Gmail API over one mailbox, as far as its answers are relied on. `kept` are the messages
that are not deleted and that a full listing shows, `arrived` all messages in the order in which
they were added, `mark` how many those were when a history id was current, and `owes` what the
pages from a token on still have to show. -/
structure GmailHost (includeSpamTrash : Bool) (σ : Type) where
  serve : (r : GmailRequest) → σ → r.Ans × σ
  kept : String → Prop
  arrived : σ → List String
  mark : String → ℕ
  owes : σ → Listing → Token → String → Prop
  arrives : ∀ r s, arrived s <+: arrived (serve r s).2
  profiled : ∀ s historyId, (serve .getProfile s).1 = .ok historyId →
    mark historyId ≤ (arrived (serve .getProfile s).2).length
  waits : ∀ r s listing token id, owes s listing token id → owes (serve r s).2 listing token id
  listed : ∀ s pageToken page id, kept id → id ∈ arrived s →
    (∀ token, pageToken = some token → owes s (.messages includeSpamTrash) token id) →
    (serve (.listMessages includeSpamTrash pageToken) s).1 = .ok page →
    id ∈ page.ids ∨ ∃ token, page.nextPageToken.bind truthy = some token ∧
      owes (serve (.listMessages includeSpamTrash pageToken) s).2 (.messages includeSpamTrash)
        token id
  recorded : ∀ s (startHistoryId : Token) pageToken page id, kept id →
    id ∈ (arrived s).drop (mark startHistoryId) →
    (∀ token, pageToken = some token → owes s (.history startHistoryId) token id) →
    (serve (.listHistory startHistoryId pageToken) s).1 = .ok page →
    id ∈ page.ids ∨ ∃ token, page.nextPageToken.bind truthy = some token ∧
      owes (serve (.listHistory startHistoryId pageToken) s).2 (.history startHistoryId) token id
  fetched : ∀ s id text, kept id → id ∈ arrived s →
    (serve (.getRaw id) s).1 ≠ .error (.http 404 text)
  named : ∀ s id msg, (serve (.getRaw id) s).1 = .ok msg → msg.id = id

section
variable {source : GmailSource} {labelMap : AList (fun _ : String => String)}

theorem toMessage_sourceId {msg : RawMessage} {message : SourceMessage}
    (h : toMessage source labelMap msg = .ok message) : message.sourceId = msg.id := by
  unfold toMessage at h
  split at h
  · cases h
    rfl
  · split at h
    · cases h
    · cases h
      rfl

theorem yieldsOf_some {msg : RawMessage}
    (h : (yieldsOf source labelMap (.ok (some msg))).2 = none) :
    ∃ message ∈ (yieldsOf source labelMap (.ok (some msg))).1, message.sourceId = msg.id := by
  cases hto : toMessage source labelMap msg with
  | error e => simp [yieldsOf, hto] at h
  | ok message =>
    refine ⟨message, ?_, toMessage_sourceId hto⟩
    simp [yieldsOf, hto]

/-- Every answer but a 404 has something yielded for the id, or raises. -/
theorem rawOf_cases {id : String} {answer : Except Exc RawMessage}
    (h404 : ∀ text, answer ≠ .error (.http 404 text))
    (hnamed : ∀ msg, answer = .ok msg → msg.id = id) :
    (∃ e, rawOf id answer = .error e) ∨ ∃ msg, rawOf id answer = .ok (some msg) ∧ msg.id = id := by
  unfold rawOf
  split
  · next msg => exact Or.inr ⟨msg, rfl, hnamed msg rfl⟩
  · next text => exact absurd rfl (h404 text)
  · exact Or.inr ⟨_, rfl, rfl⟩
  · exact Or.inl ⟨_, rfl⟩

variable {σ : Type} (host : GmailHost source.includeSpamTrash σ)

/-- A message that is kept is yielded when its id is handled, as itself or as a stub. -/
theorem yieldMessage_yields {s : σ} {id : String} (hkept : host.kept id)
    (hid : id ∈ host.arrived s)
    (hend : ((yieldMessage source labelMap id).run host.serve s).1.2 = none) :
    ∃ message ∈ ((yieldMessage source labelMap id).run host.serve s).1.1,
      message.sourceId = id := by
  have hrun : ((yieldMessage source labelMap id).run host.serve s).1 =
      yieldsOf source labelMap (rawOf id (host.serve (.getRaw id) s).1) := rfl
  rw [hrun] at hend ⊢
  rcases rawOf_cases (fun text => host.fetched s id text hkept hid) (host.named s id) with
    ⟨e, he⟩ | ⟨msg, hmsg, rfl⟩
  · rw [he] at hend
    cases hend
  · rw [hmsg] at hend ⊢
    exact yieldsOf_some hend

/-- What is kept and has arrived is owed by a full listing. -/
theorem messages_owing {id : String} (hkept : host.kept id) :
    Owing host.serve (messagesPage source.includeSpamTrash) (yieldMessage source labelMap)
      (fun s => id ∈ host.arrived s)
      (fun s token => ∀ t, token = some t →
        host.owes s (.messages source.includeSpamTrash) t id)
      (fun x => x = id) (fun message => message.sourceId = id) where
  keeps r s h := (host.arrives r s).subset h
  waits r s token h howes t ht := host.waits r s _ t id (howes t ht)
  pages s token xs next h howes hpage := by
    simp only [messagesPage, perform_bind, run_request] at hpage ⊢
    cases hanswer : (host.serve (.listMessages source.includeSpamTrash token) s).1 with
    | error e =>
      rw [hanswer] at hpage
      cases hpage
    | ok page =>
      rw [hanswer] at hpage
      obtain ⟨rfl, rfl⟩ := Prod.mk.inj (Except.ok.inj hpage)
      rcases host.listed s token page id hkept h howes hanswer with hid | ⟨t, ht, howes'⟩
      · exact Or.inl ⟨id, hid, rfl⟩
      · refine Or.inr ⟨t, ht, fun t' ht' => ?_⟩
        rw [ht] at ht'
        obtain rfl := Option.some.inj ht'
        exact howes'
  yields s x h hx hend := by
    subst hx
    exact yieldMessage_yields host hkept h hend

/-- What is kept and was added after a history id is owed by its history. -/
theorem history_owing {id : String} (hkept : host.kept id) (startHistoryId : Token) :
    Owing host.serve (historyPage startHistoryId) (yieldMessage source labelMap)
      (fun s => id ∈ (host.arrived s).drop (host.mark startHistoryId))
      (fun s token => ∀ t, token = some t → host.owes s (.history startHistoryId) t id)
      (fun x => x = id) (fun message => message.sourceId = id) where
  keeps r s h := ((host.arrives r s).drop _).subset h
  waits r s token h howes t ht := host.waits r s _ t id (howes t ht)
  pages s token xs next h howes hpage := by
    simp only [historyPage, perform_bind, run_request] at hpage ⊢
    cases hanswer : (host.serve (.listHistory startHistoryId token) s).1 with
    | error e =>
      rw [hanswer] at hpage
      cases hpage
    | ok page =>
      rw [hanswer] at hpage
      obtain ⟨rfl, rfl⟩ := Prod.mk.inj (Except.ok.inj hpage)
      rcases host.recorded s startHistoryId token page id hkept h howes hanswer with
        hid | ⟨t, ht, howes'⟩
      · exact Or.inl ⟨id, hid, rfl⟩
      · refine Or.inr ⟨t, ht, fun t' ht' => ?_⟩
        rw [ht] at ht'
        obtain rfl := Option.some.inj ht'
        exact howes'
  yields s x h hx hend := by
    subst hx
    exact yieldMessage_yields host hkept (List.mem_of_mem_drop h) hend

theorem run_arrives {α : Type} (p : GmailProgram α) (s : σ) :
    host.arrived s <+: host.arrived (p.run host.serve s).2 :=
  run_keeps (fun s' => host.arrived s <+: host.arrived s')
    (fun r s' h => h.trans (host.arrives r s')) p (List.prefix_refl _)

/-- A full sync that ends by itself yields all that is kept and was there when it began. -/
theorem iterMessages_full {id : String} (hkept : host.kept id) {fuel : ℕ} {s : σ}
    (hid : id ∈ host.arrived s) {messages : List SourceMessage}
    (hend : ((iterMessages source labelMap none fuel).run host.serve s).1 =
      some (messages, none)) :
    ∃ message ∈ messages, message.sourceId = id :=
  (messages_owing host hkept).readPages_yields hid (fun _ h => by cases h) hend

/-- A pass over the history that ends by itself yields all that is kept and was added since, also
where the history id has expired in the middle of it. -/
theorem iterMessages_since {id : String} (hkept : host.kept id) {startHistoryId : Token}
    {fuel : ℕ} {s : σ} (hid : id ∈ (host.arrived s).drop (host.mark startHistoryId))
    {messages : List SourceMessage}
    (hend : ((iterMessages source labelMap (some startHistoryId) fuel).run host.serve s).1 =
      some (messages, none)) :
    ∃ message ∈ messages, message.sourceId = id := by
  rw [iterMessages, run_bind] at hend
  have hhistory : ∀ ys, ((readPages (historyPage startHistoryId) (yieldMessage source labelMap)
      fuel none).run host.serve s).1 = some (ys, none) → ∃ message ∈ ys, message.sourceId = id :=
    fun ys => (history_owing host hkept startHistoryId).readPages_yields hid
      (fun _ h => by cases h)
  have hlater := (run_arrives host (readPages (historyPage startHistoryId)
    (yieldMessage source labelMap) fuel none) s).subset (List.mem_of_mem_drop hid)
  rcases hrun : (readPages (historyPage startHistoryId) (yieldMessage source labelMap) fuel
    none).run host.serve s with ⟨_ | ⟨ys, _ | e⟩, s₁⟩
  · rw [hrun] at hend
    cases hend
  · rw [hrun] at hend hhistory
    obtain ⟨rfl, -⟩ := Prod.mk.inj (Option.some.inj hend)
    exact hhistory ys rfl
  · rw [hrun] at hend hlater
    simp only at hend hlater
    split at hend
    · -- the history id has expired
      rw [run_bind] at hend
      have hfull : ∀ zs, ((readPages (messagesPage source.includeSpamTrash)
          (yieldMessage source labelMap) fuel none).run host.serve s₁).1 = some (zs, none) →
          ∃ message ∈ zs, message.sourceId = id :=
        fun zs => (messages_owing host hkept).readPages_yields hlater (fun _ h => by cases h)
      rcases hrest : (readPages (messagesPage source.includeSpamTrash)
        (yieldMessage source labelMap) fuel none).run host.serve s₁ with ⟨_ | ⟨zs, e'⟩, s₂⟩
      · rw [hrest] at hend
        cases hend
      · rw [hrest] at hend hfull
        obtain ⟨rfl, rfl⟩ := Prod.mk.inj (Option.some.inj hend)
        obtain ⟨message, hmessage, hsource⟩ := hfull zs rfl
        exact ⟨message, List.mem_append_right _ hmessage, hsource⟩
    · cases hend

/-- A run of `iter_messages` that comes to its end, with the mailbox moving on meanwhile. -/
def Fetches (since : Option Token) (s : σ) (e : Enumeration SourceMessage) (s' : σ) : Prop :=
  ∃ fuel, (fetchMessages source since fuel).run host.serve s = (some e, s')

/-- The cursor that is captured: none in a delta pass, and in a full pass a history id that was
current when it was asked for. -/
theorem captureCursor_ok {since : Option Token} {s : σ} {cursor : Option Token}
    (h : ((captureCursor since).run host.serve s).1 = .ok cursor) :
    (∀ c, since = some c → cursor = none) ∧ ∀ c, cursor = some c →
      host.mark c ≤ (host.arrived ((captureCursor since).run host.serve s).2).length := by
  cases since with
  | some c =>
    cases h
    exact ⟨fun _ _ => rfl, fun c hc => by cases hc⟩
  | none =>
    refine ⟨fun c hc => absurd hc (by simp), fun c hc => ?_⟩
    simp only [captureCursor, perform_bind, run_request] at h ⊢
    cases hprofile : (host.serve .getProfile s).1 with
    | error e =>
      rw [hprofile] at h
      cases h
    | ok historyId =>
      rw [hprofile] at h
      have hcursor : truthy historyId = some c := by
        rw [← hc]
        exact Except.ok.inj h
      obtain rfl := truthy_eq hcursor
      exact host.profiled s c hprofile

/-- How a run goes: it ends before it reads anything, or it reads messages with the cursor
captured. -/
theorem fetches_cases {since : Option Token} {s s' : σ} {e : Enumeration SourceMessage}
    (h : Fetches host since s e s') :
    (e.raised.isSome = true ∧ e.lastCursor = none) ∨
    ∃ labelMap fuel s₁, host.arrived s <+: host.arrived s₁ ∧
      (∀ c, since = some c → e.lastCursor = none) ∧
      (∀ c, e.lastCursor = some c → host.mark c ≤ (host.arrived s₁).length) ∧
      (iterMessages source labelMap since fuel).run host.serve s₁ =
        (some (e.items, e.raised), s') := by
  obtain ⟨fuel, hrun⟩ := h
  rw [fetchMessages, perform_bind, run_request] at hrun
  have hlabelled := host.arrives .listLabels s
  cases hlabels : (host.serve .listLabels s).1 with
  | error e' =>
    rw [hlabels] at hrun
    obtain rfl := Option.some.inj (congrArg Prod.fst hrun)
    exact Or.inl ⟨rfl, rfl⟩
  | ok labels =>
    rw [hlabels] at hrun
    simp only [run_bind] at hrun
    generalize (host.serve .listLabels s).2 = s₀ at hrun hlabelled
    have hcaptured := run_arrives host (captureCursor since) s₀
    have hcursor := fun c => @captureCursor_ok source _ host since s₀ c
    rcases hcapture : (captureCursor since).run host.serve s₀ with ⟨e' | cursor, s₁⟩
    · rw [hcapture] at hrun
      obtain rfl := Option.some.inj (congrArg Prod.fst hrun)
      exact Or.inl ⟨rfl, rfl⟩
    · rw [hcapture] at hrun hcaptured hcursor
      simp only [run_bind] at hrun
      obtain ⟨hdelta, hmark⟩ := hcursor cursor rfl
      rcases hread : (iterMessages source _ since fuel).run host.serve s₁ with
        ⟨_ | ⟨messages, raised⟩, s₂⟩
      · rw [hread] at hrun
        cases hrun
      · rw [hread] at hrun
        obtain ⟨he, rfl⟩ := Prod.mk.inj hrun
        obtain rfl := Option.some.inj he
        exact Or.inr ⟨_, fuel, s₁, hlabelled.trans hcaptured, hdelta, hmark, hread⟩

/-- The mailbox as a source of `run_mail`. A history id leaves behind what had arrived when it was
current. -/
def mailFeed : MailFeed σ where
  fetches := Fetches host
  moves s s' := host.arrived s <+: host.arrived s'
  arrived s id := host.kept id ∧ id ∈ host.arrived s
  issued s c := host.mark c ≤ (host.arrived s).length
  covered s c id := host.kept id ∧ id ∈ (host.arrived s).take (host.mark c)
  fetches_moves := by
    rintro since s e s' ⟨fuel, hrun⟩
    have hmoved := run_arrives host (fetchMessages source since fuel) s
    rwa [hrun] at hmoved
  issued_moves hmoves hissued := hissued.trans hmoves.length_le
  covered_moves := by
    rintro s s' c id ⟨later, hlater⟩ hissued ⟨hkept, hid⟩
    rw [← hlater, List.take_append_of_le_length hissued] at hid
    exact ⟨hkept, hid⟩
  issues := by
    intro since s e s' c hfetch hc
    rcases fetches_cases host hfetch with ⟨-, hnone⟩ | ⟨labelMap, fuel, s₁, -, -, hmark, hread⟩
    · rw [hnone] at hc
      cases hc
    · have hmoved := run_arrives host (iterMessages source labelMap since fuel) s₁
      rw [hread] at hmoved
      exact (hmark c hc).trans hmoved.length_le
  complete := by
    intro since s e s' c id hfetch _ hraised hc hcovered
    obtain ⟨hkept, hid⟩ := hcovered
    rcases fetches_cases host hfetch with ⟨-, hnone⟩ | ⟨labelMap, fuel, s₁, -, hdelta, hmark, hread⟩
    · rw [hnone] at hc
      cases hc
    · cases since with
      | some c₀ =>
        rw [hdelta c₀ rfl] at hc
        cases hc
      | none =>
        -- the cursor was captured before the listing began
        obtain ⟨later, hlater⟩ := run_arrives host (iterMessages source labelMap none fuel) s₁
        rw [hread] at hlater
        rw [← hlater, List.take_append_of_le_length (hmark c hc)] at hid
        right
        exact iterMessages_full host hkept (List.mem_of_mem_take hid)
          (by rw [hread, hraised])
  due := by
    intro c s e s' id hfetch _ hraised hid hnot
    obtain ⟨hkept, hid⟩ := hid
    have hdrop : id ∈ (host.arrived s).drop (host.mark c) := by
      rw [← List.take_append_drop (host.mark c) (host.arrived s)] at hid
      rcases List.mem_append.mp hid with hid | hid
      · exact absurd ⟨hkept, hid⟩ hnot
      · exact hid
    rcases fetches_cases host hfetch with ⟨hsome, -⟩ | ⟨labelMap, fuel, s₁, hmoved, -, -, hread⟩
    · rw [hraised] at hsome
      cases hsome
    · exact iterMessages_since host hkept ((hmoved.drop _).subset hdrop)
        (by rw [hread, hraised])

end

/-- No Gmail message is lost behind the mail cursor, whatever arrives, is deleted or expires
between any two requests and whatever calls fail: all that stays in the mailbox and had arrived when
the stored history id was current is done, and a delta pass that ends by itself yields all that is
not. -/
theorem gmail_nothing_lost {source : GmailSource} {σ : Type}
    (host : GmailHost source.includeSpamTrash σ) (g : Graph) (user : UserMapping) {w : World} {s : σ}
    (h : (mailFeed host).Reached g user w s) :
    ∀ c, w.db.getCursor ⟨user.sourceId, "mail"⟩ = some c →
      (∀ id, host.kept id → id ∈ (host.arrived s).take (host.mark c) →
        w.db.isDone (messageKey user id) = true) ∧
      ∀ e s', Fetches host (some c) s e s' → e.raised = none →
        ∀ id, host.kept id → id ∈ host.arrived s →
          w.db.isDone (messageKey user id) = false → ∃ message ∈ e.items, message.sourceId = id := by
  intro c hc
  obtain ⟨hdone, hdue⟩ := h.nothing_lost c hc
  exact ⟨fun id hkept hid => hdone id ⟨hkept, hid⟩,
    fun e s' hfetch hraised id hkept hid => hdue e s' hfetch hraised id ⟨hkept, hid⟩⟩

/-- A Gmail that lists the first message on a page of its own, whose history ids are as long as
there are messages, and one more. -/
def twoPageMailbox : (r : GmailRequest) → List String → r.Ans × List String
  | .listLabels, s => (.ok [], s)
  | .getProfile, s => (.ok (String.ofList (List.replicate (s.length + 1) '1')), s)
  | .listHistory startHistoryId _, s =>
    (.ok ⟨s.drop (startHistoryId.val.toList.length - 1), none⟩, s)
  | .listMessages _ none, s => (.ok ⟨s.take 1, some "rest"⟩, s)
  | .listMessages _ (some _), s => (.ok ⟨s.drop 1, none⟩, s)
  | .getRaw msgId, s => (.ok { id := msgId }, s)

def twoPageGmail : GmailHost true (List String) where
  serve := twoPageMailbox
  kept _ := True
  arrived s := s
  mark historyId := historyId.toList.length - 1
  owes s listing token id := token.val = "rest" ∧ id ∈ s.drop 1 ∧ ∃ spam, listing = .messages spam
  arrives r s := by
    have hsame : (twoPageMailbox r s).2 = s := by
      cases r with
      | listMessages spam token => cases token <;> rfl
      | _ => rfl
    rw [hsame]
  profiled s historyId h := by
    obtain rfl := Except.ok.inj h
    simp [twoPageMailbox]
  waits r s listing token id h := by
    have hsame : (twoPageMailbox r s).2 = s := by
      cases r with
      | listMessages spam token => cases token <;> rfl
      | _ => rfl
    rwa [hsame]
  listed s pageToken page id _ hid howes hpage := by
    cases pageToken with
    | none =>
      obtain rfl := Except.ok.inj hpage
      rw [← List.take_append_drop 1 s] at hid
      rcases List.mem_append.mp hid with hid | hid
      · exact Or.inl hid
      · exact Or.inr ⟨⟨"rest", by decide⟩, rfl, rfl, hid, true, rfl⟩
    | some token =>
      obtain rfl := Except.ok.inj hpage
      exact Or.inl (howes token rfl).2.1
  recorded s startHistoryId pageToken page id _ hid _ hpage := by
    obtain rfl := Except.ok.inj hpage
    exact Or.inl hid
  fetched s id text _ _ h := by cases h
  named s id msg h := by
    obtain rfl := Except.ok.inj h
    rfl

/-- What a full pass over one message yields. -/
def firstSync : Enumeration SourceMessage where
  items := [{ sourceId := "m1", folderPaths := ["Inbox"], dedupHash := "m1" }]
  lastCursor := some ⟨"11", by decide⟩

/-- A message arrives after a full pass: the first one is done, and the second is in every delta
pass that ends by itself. -/
theorem gmail_nothing_lost_after_sync :
    let source : GmailSource := { policy := .categories, messageIdOf := fun _ => none }
    let user : UserMapping := ⟨"a@source", "a@dest"⟩
    let w := (runMail calmGraph user .json .full (fun _ => firstSync) {}).world
    w.db.isDone (messageKey user "m1") = true ∧
      ∀ e s', @Fetches source _ twoPageGmail (some ⟨"11", by decide⟩) ["m1", "m2"] e s' →
        e.raised = none → ∃ message ∈ e.items, message.sourceId = "m2" := by
  intro source user w
  have hsync : @Fetches source _ twoPageGmail none ["m1"] firstSync ["m1"] :=
    ⟨2, by rfl⟩
  have hfull : (@mailFeed source _ twoPageGmail).Reached calmGraph user w ["m1"] :=
    .passed (.start ["m1"]) ⟨.full, .json, fun _ => firstSync⟩
      (fun since hsince => by
        obtain rfl : since = none := (Option.some.inj hsince).symm
        exact hsync)
      (List.prefix_refl _)
  have hreached : (@mailFeed source _ twoPageGmail).Reached calmGraph user w
      ["m1", "m2"] := .moved hfull ⟨["m2"], rfl⟩
  have hcursor : w.db.getCursor ⟨user.sourceId, "mail"⟩ = some ⟨"11", by decide⟩ := by decide
  obtain ⟨hdone, hdue⟩ := @gmail_nothing_lost source _ twoPageGmail calmGraph user
    _ _ hreached _ hcursor
  refine ⟨hdone "m1" trivial (by decide), fun e s' hfetch hraised => ?_⟩
  exact hdue e s' hfetch hraised "m2" trivial (by decide) (by decide)

end GwsMigrator.Gmail
